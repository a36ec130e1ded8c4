/-
Module: Gvds.Proofs.RegistryFailures
Layer: Proofs
Purpose: The registry of the centers when calls of the datastore fail. A deleteCenter leaves all
  other centers registered. An addCenter does, unless it writes the registry after a get that
  failed, or puts the pool of a center under the key of the registry and cannot write this again.
Imports: Gvds.Manager.MconfCalls, Gvds.Proofs.CenterRegistry
Trusted boundary: as Gvds.Manager.MconfCalls
Main exports: KeepsOthers, Overwrites, stored_execFaulty_add, stored_execFaulty_delete,
  others_stay_registered_iff, failed_read_erases_registry
-/
import Gvds.Manager.MconfCalls
import Gvds.Proofs.CenterRegistry

namespace Gvds.Mconf

/-- Every other center than the one named is still registered with its IP, port and name. -/
def KeepsOthers (info info' : CenterInfo) (centerID : String) : Prop :=
  ∀ id ∈ info.centerID, id ≠ centerID →
    id ∈ info'.centerID ∧ info'.centerIP id = info.centerIP id ∧
      info'.centerPort id = info.centerPort id ∧ info'.centerName id = info.centerName id

/-- No other center is registered. -/
def Alone (info : CenterInfo) (centerID : String) : Prop := ∀ id ∈ info.centerID, id = centerID

/-- The failing calls with which a request writes a registry without the other centers: the get
fails and the last set succeeds; or the pool of a center that is new to it goes under the key of the
registry, and the last set fails. -/
def Overwrites (fails : Nat → Bool) (db : Bucket) : Request → Prop
  | .add fe => (fails 0 = true ∧ fails 2 = false) ∨
      (fe.centerName = key ∧ fails 1 = false ∧ fails 2 = true ∧
        (fails 0 = true ∨ fe.centerID ∉ (stored db).centerID))
  | .delete _ => False

section Registry

variable {info : CenterInfo} {id : String}

/-! ### What a registry keeps -/

theorem keepsOthers_rfl : KeepsOthers info info id := fun _ hi _ => ⟨hi, rfl, rfl, rfl⟩

theorem keepsOthers_put (info : CenterInfo) (fe : FECenterInfo) :
    KeepsOthers info (info.put fe) fe.centerID := by
  intro i hi hne
  refine ⟨(mem_put info fe i).mpr (.inl hi), ?_, ?_, ?_⟩
  · exact Function.update_of_ne hne _ _
  · exact Function.update_of_ne hne _ _
  · exact Function.update_of_ne hne _ _

theorem keepsOthers_erase (info : CenterInfo) (id : String) :
    KeepsOthers info (info.erase id) id := by
  intro i hi hne
  refine ⟨(List.mem_erase_of_ne hne).mpr hi, ?_, ?_, ?_⟩
  · exact Function.update_of_ne hne _ _
  · exact Function.update_of_ne hne _ _
  · exact Function.update_of_ne hne _ _

/-- A registry that lists at most the center named keeps the others iff there is none. -/
theorem keepsOthers_iff_alone {info' : CenterInfo} (h : Alone info' id) :
    KeepsOthers info info' id ↔ Alone info id := by
  constructor
  · intro hkeeps i hi
    by_contra hne
    exact hne (h i (hkeeps i hi hne).1)
  · intro halone i hi hne
    exact absurd (halone i hi) hne

theorem alone_empty (id : String) : Alone .empty id := fun _ hi => absurd hi List.not_mem_nil

theorem alone_put_empty (fe : FECenterInfo) : Alone (CenterInfo.empty.put fe) fe.centerID := by
  intro i hi
  exact ((mem_put .empty fe i).mp hi).resolve_left List.not_mem_nil

end Registry

section Requests

variable {fails : Nat → Bool} {db : Bucket}

/-- A document that is no registry reads as an empty one. -/
theorem stored_pool (db : Bucket) (pool : AccountSCPool) :
    stored (Function.update db key (some (.pool pool))) = .empty := by
  unfold stored
  rw [Function.update_self]
  rfl

/-! ### Requests -/

/-- The registry that `addCenter` reads. -/
def readBy (fails : Nat → Bool) (db : Bucket) : CenterInfo :=
  if fails 0 then .empty else stored db

theorem readBy_of_fails (hget : fails 0 = true) : readBy fails db = .empty := if_pos hget

theorem readBy_of_succeeds (hget : fails 0 = false) : readBy fails db = stored db := by
  unfold readBy
  rw [hget]
  exact if_neg Bool.false_ne_true

/-- A center is known only from a registry that could be read. -/
theorem succeeds_of_known {id : String} (hknown : id ∈ (readBy fails db).centerID) :
    fails 0 = false := by
  cases hget : fails 0 with
  | false => rfl
  | true =>
      rw [readBy_of_fails hget] at hknown
      exact absurd hknown List.not_mem_nil

/-- `addCenter` behind its get. -/
theorem execFaulty_addCenterCalls (fails : Nat → Bool) (db : Bucket) (fe : FECenterInfo) :
    server.execFaulty fails (addCenterCalls fe) (db, 0) =
      server.execFaulty fails
        (if fe.centerID ∈ (readBy fails db).centerID then
          .perform (.set key (.registry ((readBy fails db).put fe)))
        else do
          let _ ← .perform (.set fe.centerName (.pool newPool))
          .perform (.set key (.registry ((readBy fails db).put fe)))) (db, 1) := by
  have hread : server.execFaulty fails (.perform (.get key)) (db, 0) =
      (if fails 0 then none else db key, db, 1) := by
    rw [execFaulty_get]
    split <;> rfl
  have hinfo : ((if fails 0 then none else db key).map Document.toCenterInfo).getD .empty =
      readBy fails db := by
    unfold readBy
    split <;> rfl
  unfold addCenterCalls
  rw [Server.execFaulty_bind, hread, hinfo]

/-- A center that the registry read lists: only the registry is written. -/
theorem stored_execFaulty_known {fe : FECenterInfo}
    (hknown : fe.centerID ∈ (readBy fails db).centerID) :
    stored ((Request.add fe).execFaulty fails db) =
      if fails 1 then stored db else (readBy fails db).put fe := by
  unfold Request.execFaulty Request.program
  dsimp only
  rw [execFaulty_addCenterCalls, if_pos hknown, execFaulty_set]
  cases fails 1 with
  | true => rfl
  | false => exact stored_put db _

/-- A center that the registry read does not list: its pool is written, then the registry. -/
theorem stored_execFaulty_new {fe : FECenterInfo}
    (hnew : fe.centerID ∉ (readBy fails db).centerID) :
    stored ((Request.add fe).execFaulty fails db) =
      if fails 2 then (if fe.centerName = key ∧ fails 1 = false then .empty else stored db)
      else (readBy fails db).put fe := by
  unfold Request.execFaulty Request.program
  dsimp only
  rw [execFaulty_addCenterCalls, if_neg hnew, Server.execFaulty_bind, execFaulty_set]
  cases hpool : fails 1 with
  | true =>
      cases hset : fails 2 with
      | true => simp [hpool, hset]
      | false => simp [hpool, hset, stored_put]
  | false =>
      cases hset : fails 2 with
      | false => simp [hpool, hset, stored_put]
      | true =>
          by_cases hname : fe.centerName = key
          · simp [hpool, hset, hname, stored_pool]
          · simp [hpool, hset, hname, stored_update hname]

/-- `deleteCenter` behind a get that succeeds. -/
theorem execFaulty_deleteCenterCalls {doc : Document} (hget : fails 0 = false)
    (hkey : db key = some doc) (centerID : String) :
    server.execFaulty fails (deleteCenterCalls centerID) (db, 0) =
      server.execFaulty fails
        (if centerID ∈ doc.toCenterInfo.centerID then
          .perform (.set key (.registry (doc.toCenterInfo.erase centerID)))
        else pure false) (db, 1) := by
  have hread : server.execFaulty fails (.perform (.get key)) (db, 0) = (some doc, db, 1) := by
    rw [execFaulty_get, hget, hkey]
    rfl
  unfold deleteCenterCalls
  rw [Server.execFaulty_bind, hread]

/-- `deleteCenter` erases the center, or leaves the registry as it is. -/
theorem stored_execFaulty_delete (fails : Nat → Bool) (db : Bucket) (centerID : String) :
    stored ((Request.delete centerID).execFaulty fails db) = stored db ∨
      stored ((Request.delete centerID).execFaulty fails db) = (stored db).erase centerID := by
  unfold Request.execFaulty Request.program
  dsimp only
  cases hget : fails 0 with
  | true =>
      unfold deleteCenterCalls
      rw [Server.execFaulty_bind, execFaulty_get, hget]
      exact .inl rfl
  | false =>
      cases hkey : db key with
      | none =>
          unfold deleteCenterCalls
          rw [Server.execFaulty_bind, execFaulty_get, hget, hkey]
          exact .inl rfl
      | some doc =>
          have hdoc : stored db = doc.toCenterInfo := by
            unfold stored
            rw [hkey]
            rfl
          rw [execFaulty_deleteCenterCalls hget hkey, hdoc]
          by_cases hlisted : centerID ∈ doc.toCenterInfo.centerID
          · rw [if_pos hlisted, execFaulty_set]
            cases fails 1 with
            | true => exact .inl hdoc
            | false => exact .inr (stored_put db _)
          · rw [if_neg hlisted]
            exact .inl hdoc

/-- **An outage erases no center**: every other center stays registered with the same IP, port and
name, iff the request does not write the registry without the others, or there are none. -/
theorem others_stay_registered_iff (fails : Nat → Bool) (db : Bucket) (r : Request) :
    KeepsOthers (stored db) (stored (r.execFaulty fails db)) r.centerID ↔
      ¬ Overwrites fails db r ∨ Alone (stored db) r.centerID := by
  cases r with
  | delete centerID =>
      refine iff_of_true ?_ (.inl (fun h => h))
      obtain hsame | herased := stored_execFaulty_delete fails db centerID
      · rw [hsame]
        exact keepsOthers_rfl
      · rw [herased]
        exact keepsOthers_erase _ _
  | add fe =>
      simp only [Overwrites, Request.centerID]
      by_cases hknown : fe.centerID ∈ (readBy fails db).centerID
      · have hget := succeeds_of_known hknown
        have hread : readBy fails db = stored db := readBy_of_succeeds hget
        refine iff_of_true ?_ (.inl ?_)
        · rw [stored_execFaulty_known hknown, hread]
          split
          · exact keepsOthers_rfl
          · exact keepsOthers_put _ fe
        · rintro (⟨hfails, -⟩ | ⟨-, -, -, hfails | hnew⟩)
          · rw [hget] at hfails
            cases hfails
          · rw [hget] at hfails
            cases hfails
          · exact hnew (hread ▸ hknown)
      · rw [stored_execFaulty_new hknown]
        cases hset : fails 2 with
        | false =>
            cases hget : fails 0 with
            | false =>
                rw [readBy_of_succeeds hget]
                simp [keepsOthers_put]
            | true =>
                rw [readBy_of_fails hget]
                simp [keepsOthers_iff_alone (alone_put_empty fe)]
        | true =>
            have hoverwrites : fails 0 = true ∨ fe.centerID ∉ (stored db).centerID := by
              cases hget : fails 0 with
              | true => exact .inl rfl
              | false =>
                  have hread : readBy fails db = stored db := readBy_of_succeeds hget
                  exact .inr (hread ▸ hknown)
            by_cases hpool : fe.centerName = key ∧ fails 1 = false
            · simp [hpool, hoverwrites, keepsOthers_iff_alone (alone_empty fe.centerID)]
            · rw [if_pos rfl, if_neg hpool]
              refine iff_of_true keepsOthers_rfl (.inl ?_)
              rintro (⟨-, hfails⟩ | ⟨hname, hfails, -⟩)
              · cases hfails
              · exact hpool ⟨hname, hfails⟩

/-- The get fails, all else succeeds: the registry is written anew. -/
theorem failed_read_erases_registry : ¬ ∀ (fails : Nat → Bool) (db : Bucket) (r : Request),
    KeepsOthers (stored db) (stored (r.execFaulty fails db)) r.centerID := by
  intro hall
  let beijing : FECenterInfo := ⟨"1", "10.0.0.1", "9090", "Beijing"⟩
  have hkeeps := hall (fun n => n = 0)
    (fun name => if name = key then some (.registry (CenterInfo.empty.put beijing)) else none)
    (.add ⟨"2", "10.0.0.2", "9090", "Jinan"⟩)
  have hlisted := (hkeeps "1" (by decide) (by decide)).1
  revert hlisted
  decide

end Requests

end Gvds.Mconf
