/-
Module: Gvds.Proofs.CapacityBounds
Layer: Proofs
Purpose: The capacity assigned of a storage cluster against 0 and its total capacity, after every
  SpaceSizeAdd and SpaceSizeDeduct of a sequence of requests, whichever calls fail. Both check one
  bound only, and nothing keeps the sizes of requests from being negative or too large.
Imports: Gvds.Manager.CapacityCalls, Gvds.Proofs.SpaceOperations, Gvds.Proofs.StorageChoices,
  Mathlib.Algebra.Group.Int.Defs
Trusted boundary: as Gvds.Manager.CapacityCalls
Main exports: handleOp, WithinBounds, Sound, Fits, sound_iff_fits, capacity_in_bounds_iff,
  negative_size_is_assigned
-/
import Gvds.Manager.CapacityCalls
import Gvds.Proofs.SpaceOperations
import Gvds.Proofs.StorageChoices
import Mathlib.Algebra.Group.Int.Defs

namespace Gvds.Manager

/-- An `int64_t`. -/
def IsInt64 (n : Int) : Prop := -2 ^ 63 ≤ n ∧ n < 2 ^ 63

/-- The capacity assigned of a storage cluster is between 0 and the total capacity. -/
def WithinBounds (db : Database) (key : String) : Prop :=
  ∀ st, db.storage key = some st →
    0 ≤ st.assign_capacity.toInt ∧ st.assign_capacity.toInt ≤ st.total_capacity.toInt

/-- An operation, where the calls fail that `fails` says. -/
def handleOp (ask : QueryService) (fails : Nat → Bool) {β : Type} (op : CapacityOp β)
    (s : Database × Nat) : β × Database × Nat :=
  (server ask).execFaulty fails (expandOp op) s

/-- The program of a request runs as its operations do. -/
theorem execFaulty_expand (ask : QueryService) (fails : Nat → Bool) {α : Type}
    (p : Program CapacityOp α) (s : Database × Nat) :
    (server ask).execFaulty fails (p.expand expandOp) s = p.run (handleOp ask fails) s :=
  Program.run_expand expandOp _ p s

/-- No addition or subtraction of an operation on a storage cluster overflows. `SpaceSizeAdd` and
`SpaceSizeDeduct` calculate once they have the document. -/
def NoOverflow (fails : Nat → Bool) (key : String) :
    ∀ β : Type, CapacityOp β → Database × Nat → Prop
  | _, .inl _, _ => True
  | _, .inr (.sizeAdd StorageID add_size), (db, n) =>
      StorageID = key → fails n = false → ∀ st, db.storage key = some st →
        IsInt64 (st.assign_capacity.toInt + add_size.toInt)
  | _, .inr (.sizeDeduct StorageID deduct_size), (db, n) =>
      StorageID = key → fails n = false → ∀ st, db.storage key = some st →
        IsInt64 (st.assign_capacity.toInt - deduct_size.toInt)
  | _, .inr (.difference StorageID left right), _ =>
      StorageID = key → IsInt64 (left.toInt - right.toInt)

/-- After an operation the storage cluster is within its bounds, and nothing overflowed. -/
def Sound (ask : QueryService) (fails : Nat → Bool) (key : String) (β : Type) (op : CapacityOp β)
    (s : Database × Nat) : Prop :=
  WithinBounds (handleOp ask fails op s).2.1 key ∧ NoOverflow fails key β op s

/-- A size that is added does not take the capacity assigned below 0, nor beyond the largest
`int64_t`; one that is deducted does not take it above the total capacity, and a difference of sizes
is an `int64_t`. Where the document cannot be written back, only overflows matter. -/
def Fits (fails : Nat → Bool) (key : String) : ∀ β : Type, CapacityOp β → Database × Nat → Prop
  | _, .inl _, _ => True
  | _, .inr (.sizeAdd StorageID add_size), (db, n) =>
      StorageID = key → fails n = false → ∀ st, db.storage key = some st →
        st.assign_capacity.toInt + add_size.toInt < 2 ^ 63 ∧
          (0 ≤ st.assign_capacity.toInt + add_size.toInt ∨ fails (n + 1) = true)
  | _, .inr (.sizeDeduct StorageID deduct_size), (db, n) =>
      StorageID = key → fails n = false → ∀ st, db.storage key = some st →
        st.assign_capacity.toInt - deduct_size.toInt ≤ st.total_capacity.toInt ∨
          st.assign_capacity.toInt - deduct_size.toInt < 2 ^ 63 ∧ fails (n + 1) = true
  | _, .inr (.difference StorageID left right), _ =>
      StorageID = key → IsInt64 (left.toInt - right.toInt)

/-- An operation that writes no storage cluster itself. -/
def SparesStorages : ∀ β : Type, CapacityOp β → Prop
  | _, .inl (.set (.storage _) _) => False
  | _, .inl (.remove (.storage _)) => False
  | _, _ => True

/-! ### One operation -/

section Operation

variable {ask : QueryService} {fails : Nat → Bool} {db : Database} {n : Nat} {key : String}

/-- The bounds are about the document alone. -/
theorem WithinBounds.congr {db' : Database} (h : WithinBounds db key)
    (hsame : db'.storage key = db.storage key) : WithinBounds db' key := by
  intro st hst
  rw [hsame] at hst
  exact h st hst

/-- Another document is written. -/
theorem storage_update {k : Key} (hk : k ≠ .storage key) (doc : Cell k) :
    Database.storage (Function.update db k doc) key = db.storage key :=
  Function.update_of_ne hk.symm _ _

/-- A call that writes no storage cluster leaves all as they are. -/
theorem storage_handleOp_call {β : Type} {c : Call β} (hc : SparesStorages β (.inl c)) :
    (handleOp ask fails (.inl c : CapacityOp β) (db, n)).2.1.storage key = db.storage key := by
  unfold handleOp expandOp
  rw [Server.execFaulty_perform]
  split
  · rfl
  · cases c with
    | set k doc =>
        cases k with
        | storage id => exact hc.elim
        | space id => exact storage_update Key.noConfusion _
        | zone id => exact storage_update Key.noConfusion _
    | remove k =>
        cases k with
        | storage id => exact hc.elim
        | space id => exact storage_update Key.noConfusion _
        | zone id => exact storage_update Key.noConfusion _
    | insertReplica id value => exact storage_update Key.noConfusion _
    | _ => rfl

/-- A sum of two `int64_t`s that is one is what the program gets. -/
theorem toInt_add_of_isInt64 {a b : Int64} (h : IsInt64 (a.toInt + b.toInt)) :
    (a + b).toInt = a.toInt + b.toInt := by
  rw [Int64.toInt_add]
  exact Int.bmod_eq_of_le (by have := h.1; omega) (by have := h.2; omega)

/-- So is a difference. -/
theorem toInt_sub_of_isInt64 {a b : Int64} (h : IsInt64 (a.toInt - b.toInt)) :
    (a - b).toInt = a.toInt - b.toInt := by
  rw [Int64.toInt_sub]
  exact Int.bmod_eq_of_le (by have := h.1; omega) (by have := h.2; omega)

/-- A charge keeps the bounds if the new capacity is within them. -/
theorem withinBounds_charge_iff {st : StorageResource} (hst : db.storage key = some st)
    (d : Int64) :
    WithinBounds (db.charge key d) key ↔
      0 ≤ (st.assign_capacity + d).toInt ∧
        (st.assign_capacity + d).toInt ≤ st.total_capacity.toInt := by
  unfold WithinBounds
  rw [Database.storage_charge_self, hst]
  simp

/-- A charge of another storage cluster does not matter. -/
theorem WithinBounds.charge_of_ne {id : String} (h : WithinBounds db key) (hne : id ≠ key)
    (d : Int64) : WithinBounds (db.charge id d) key :=
  h.congr (by rw [Database.storage_charge, if_neg (Ne.symm hne)])

/-- `SpaceSizeAdd` on a storage cluster within its bounds is sound if and only if the size fits. -/
theorem sound_sizeAdd_iff (hdb : WithinBounds db key) (StorageID : String) (add_size : Int64) :
    Sound ask fails key Int (.inr (.sizeAdd StorageID add_size)) (db, n) ↔
      Fits fails key Int (.inr (.sizeAdd StorageID add_size)) (db, n) := by
  have hmin := add_size.le_toInt
  unfold Sound
  simp only [handleOp, expandOp, NoOverflow, Fits]
  by_cases hid : StorageID = key
  · subst hid
    obtain ⟨⟨hget, hset, st, hst, hroom⟩, hexec⟩ | ⟨hnot, e, n', -, hexec⟩ :=
      spaceSizeAdd_spec ask fails db n StorageID add_size
    · -- charged: the guard has bounded the sum as the program gets it from above
      have hassign := hdb st hst
      rw [hexec, withinBounds_charge_iff hst]
      simp only [hget, hset, hst, Option.some.injEq, forall_eq', forall_const, Bool.false_eq_true,
        or_false]
      rw [gt_iff_lt, Int64.lt_iff_toInt_lt] at hroom
      constructor
      · rintro ⟨⟨hlow, -⟩, hint⟩
        rw [toInt_add_of_isInt64 hint] at hlow
        exact ⟨hint.2, hlow⟩
      · rintro ⟨hlt, hlow⟩
        have hint : IsInt64 (st.assign_capacity.toInt + add_size.toInt) := ⟨by omega, hlt⟩
        rw [toInt_add_of_isInt64 hint] at hroom ⊢
        exact ⟨⟨hlow, by omega⟩, hint⟩
    · -- refused: only an overflow could matter
      rw [hexec]
      simp only [hdb, true_and, forall_const]
      refine forall_congr' fun hget => forall_congr' fun st => forall_congr' fun hst => ?_
      have hassign := hdb st hst
      constructor
      · intro hint
        refine ⟨hint.2, ?_⟩
        cases hset : fails (n + 1) with
        | true => exact .inr rfl
        | false =>
            have hfull : st.assign_capacity + add_size > st.total_capacity := by
              by_contra hroom
              exact hnot ⟨hget, hset, st, hst, hroom⟩
            rw [gt_iff_lt, Int64.lt_iff_toInt_lt, toInt_add_of_isInt64 hint] at hfull
            exact .inl (by omega)
      · rintro ⟨hlt, -⟩
        exact ⟨by omega, hlt⟩
  · obtain ⟨-, hexec⟩ | ⟨-, e, n', -, hexec⟩ :=
      spaceSizeAdd_spec ask fails db n StorageID add_size
    · rw [hexec]
      simp [hid, hdb.charge_of_ne hid]
    · rw [hexec]
      simp [hid, hdb]

/-- `SpaceSizeDeduct` on a storage cluster within its bounds is sound if and only if the size
fits. -/
theorem sound_sizeDeduct_iff (hdb : WithinBounds db key) (StorageID : String)
    (deduct_size : Int64) :
    Sound ask fails key Int (.inr (.sizeDeduct StorageID deduct_size)) (db, n) ↔
      Fits fails key Int (.inr (.sizeDeduct StorageID deduct_size)) (db, n) := by
  have hmax := deduct_size.toInt_lt
  unfold Sound
  simp only [handleOp, expandOp, NoOverflow, Fits]
  by_cases hid : StorageID = key
  · subst hid
    obtain ⟨⟨hget, hset, st, hst, hroom⟩, hexec⟩ | ⟨hnot, e, n', -, hexec⟩ :=
      spaceSizeDeduct_spec ask fails db n StorageID deduct_size
    · -- charged: the guard has bounded the difference as the program gets it from below
      have hassign := hdb st hst
      have htotal := st.total_capacity.toInt_lt
      rw [hexec, withinBounds_charge_iff hst]
      simp only [hget, hset, hst, Option.some.injEq, forall_eq', forall_const, Bool.false_eq_true,
        and_false, or_false, ← Int64.sub_eq_add_neg]
      rw [Int64.lt_iff_toInt_lt, Int64.toInt_zero] at hroom
      constructor
      · rintro ⟨⟨-, hhigh⟩, hint⟩
        rwa [toInt_sub_of_isInt64 hint] at hhigh
      · intro hhigh
        have hint : IsInt64 (st.assign_capacity.toInt - deduct_size.toInt) :=
          ⟨by omega, by omega⟩
        rw [toInt_sub_of_isInt64 hint] at hroom ⊢
        exact ⟨⟨by omega, hhigh⟩, hint⟩
    · -- refused: only an overflow could matter
      rw [hexec]
      simp only [hdb, true_and, forall_const]
      refine forall_congr' fun hget => forall_congr' fun st => forall_congr' fun hst => ?_
      have hassign := hdb st hst
      have htotal := st.total_capacity.toInt_lt
      constructor
      · intro hint
        cases hset : fails (n + 1) with
        | true => exact .inr ⟨hint.2, rfl⟩
        | false =>
            have hempty : st.assign_capacity - deduct_size < 0 := by
              by_contra hroom
              exact hnot ⟨hget, hset, st, hst, hroom⟩
            rw [Int64.lt_iff_toInt_lt, toInt_sub_of_isInt64 hint, Int64.toInt_zero] at hempty
            exact .inl (by omega)
      · rintro (hle | ⟨hlt, -⟩)
        · exact ⟨by omega, by omega⟩
        · exact ⟨by omega, hlt⟩
  · obtain ⟨-, hexec⟩ | ⟨-, e, n', -, hexec⟩ :=
      spaceSizeDeduct_spec ask fails db n StorageID deduct_size
    · rw [hexec]
      simp [hid, hdb.charge_of_ne hid]
    · rw [hexec]
      simp [hid, hdb]

/-- An operation on storage clusters within their bounds is sound if and only if its size fits. -/
theorem sound_iff_fits {β : Type} (op : CapacityOp β) (s : Database × Nat)
    (hop : SparesStorages β op) (hdb : WithinBounds s.1 key) :
    Sound ask fails key β op s ↔ Fits fails key β op s := by
  obtain ⟨db, n⟩ := s
  cases op with
  | inl c =>
      have hsame := @storage_handleOp_call ask fails db n key β c hop
      exact ⟨fun _ => trivial, fun _ => ⟨hdb.congr hsame, trivial⟩⟩
  | inr c =>
      cases c with
      | sizeAdd StorageID add_size => exact sound_sizeAdd_iff hdb StorageID add_size
      | sizeDeduct StorageID deduct_size => exact sound_sizeDeduct_iff hdb StorageID deduct_size
      | difference StorageID left right => exact ⟨fun h => h.2, fun h => ⟨hdb, h⟩⟩

end Operation

/-! ### Requests -/

open Program

theorem all_spaceCreateOps (spaceName : Bytes) (spaceSize : Int64) (info : Space)
    (uuid : String) : (spaceCreateOps spaceName spaceSize info uuid).All SparesStorages := by
  refine All.bind (all_perform.mpr trivial) fun rows => ?_
  cases ((rows.getD []).foldl preferred none).map Prod.snd with
  | none => exact all_pure _
  | some storage =>
      refine All.bind (all_perform.mpr trivial) fun addret => All.ite (all_pure _) ?_
      refine All.bind (all_perform.mpr trivial) fun mkret =>
        All.ite (All.ite (all_pure _) ?_) (all_pure _)
      exact All.bind (all_perform.mpr trivial) fun flag => All.ite (all_pure _) (all_pure _)

theorem all_spaceDeleteOps (spaceID : List String) :
    (spaceDeleteOps spaceID).All SparesStorages := by
  induction spaceID with
  | nil => exact all_pure _
  | cons m spaceID ih =>
      refine All.bind (all_perform.mpr trivial) fun sp => ?_
      cases sp with
      | none => exact all_pure _
      | some tmps =>
          refine All.bind (all_perform.mpr trivial) fun ret => All.ite ih ?_
          exact All.bind (all_perform.mpr trivial) fun flag => All.ite ih (all_pure _)

theorem all_storeSizeOps (spaceID : String) (spacejson : Space) (newSpaceSize : Int64) (ret : Int) :
    (storeSizeOps spaceID spacejson newSpaceSize ret).All SparesStorages :=
  All.ite (All.bind (all_perform.mpr trivial) fun _ => All.ite (all_pure _) (all_pure _))
    (all_pure _)

theorem all_spaceSizeChangeOps (spaceID : String) (newSpaceSize realsize : Int64) :
    (spaceSizeChangeOps spaceID newSpaceSize realsize).All SparesStorages := by
  refine All.ite (all_pure _) (All.bind (all_perform.mpr trivial) fun sp => ?_)
  cases sp with
  | none => exact all_pure _
  | some spacejson =>
      have hchange : ∀ c : Int64 → CapacityCall Int, ∀ d : CapacityCall Int64,
          All SparesStorages (do
            let size ← .perform (.inr d)
            let ret ← .perform (.inr (c size))
            storeSizeOps spaceID spacejson newSpaceSize ret) := fun c d =>
        All.bind (all_perform.mpr trivial) fun size =>
          All.bind (all_perform.mpr trivial) fun ret =>
            all_storeSizeOps spaceID spacejson newSpaceSize ret
      refine All.bind (all_perform.mpr trivial) fun c_error =>
        All.ite (All.ite (all_pure _) ?_) (all_pure _)
      exact All.ite (hchange _ _) (All.ite (hchange _ _) (all_pure _))

theorem all_serve (rs : List SizeRequest) : (serve rs).All SparesStorages := by
  induction rs with
  | nil => exact all_pure _
  | cons r rs ih =>
      refine All.bind ?_ fun _ => ih
      cases r with
      | create spaceName spaceSize info uuid =>
          exact (all_spaceCreateOps spaceName spaceSize info uuid).bind fun _ => all_pure _
      | sizeChange spaceID newSpaceSize realsize =>
          exact (all_spaceSizeChangeOps spaceID newSpaceSize realsize).bind fun _ => all_pure _
      | delete spaceID => exact (all_spaceDeleteOps spaceID).bind fun _ => all_pure _

/-- For every storage cluster within its bounds and every sequence of requests, whichever calls
fail: along the run the cluster is within its bounds after every operation and nothing overflows,
if and only if every size fits where it is added or deducted. -/
theorem capacity_in_bounds_iff (ask : QueryService) (fails : Nat → Bool) (db : Database) (n : Nat)
    (key : String) (rs : List SizeRequest) (hdb : WithinBounds db key) :
    Along (handleOp ask fails) (Sound ask fails key) (serve rs) (db, n) ↔
      Along (handleOp ask fails) (Fits fails key) (serve rs) (db, n) :=
  along_iff (fun _ op s hop hs => sound_iff_fits op s hop hs) (fun _ _ _ _ _ h => h.1)
    (all_serve rs) hdb

/-- One storage cluster, whatever its key. -/
def singleCluster : Database
  | .storage _ => some (clusterWith "1" 10)
  | .space _ => none
  | .zone _ => none

theorem withinBounds_singleCluster (key : String) : WithinBounds singleCluster key := by
  rintro st ⟨⟩
  decide

/-- A space of a size, on that cluster. -/
def createsSpace (spaceSize : Int64) : SizeRequest :=
  .create [115] spaceSize
    { spaceID := ""
      spaceName := []
      spaceSize := 0
      hostCenterID := ""
      storageSrcID := ""
      spacePath := ""
      hostCenterName := "c"
      storageSrcName := ""
      status := false
      replica_spaces := [] } "u"

/-- A space of size 4 fits the cluster of 10. -/
theorem capacity_in_bounds_of_four :
    Along (handleOp (offers [clusterWith "1" 10]) Server.noFails)
      (Sound (offers [clusterWith "1" 10]) Server.noFails "STOR-1") (serve [createsSpace 4])
      (singleCluster, 0) := by
  refine (capacity_in_bounds_iff (offers [clusterWith "1" 10]) Server.noFails singleCluster 0 "STOR-1"
    [createsSpace 4] (withinBounds_singleCluster _)).mpr ⟨trivial, fun _ _ st hst => ?_, trivial,
    trivial, trivial⟩
  cases hst
  decide

/-- `SpaceCreate` adds a negative size: the cluster has less than nothing assigned. -/
theorem negative_size_is_assigned :
    ¬ ∀ (ask : QueryService) (fails : Nat → Bool) (db : Database) (n : Nat) (key : String)
        (rs : List SizeRequest), WithinBounds db key →
      Along (handleOp ask fails) (Sound ask fails key) (serve rs) (db, n) := by
  intro hall
  have halong := hall (offers [clusterWith "1" 10]) Server.noFails singleCluster 0 "STOR-1"
    [createsSpace (-5)] (withinBounds_singleCluster _)
  have hbounds : WithinBounds (singleCluster.charge "STOR-1" (-5)) "STOR-1" := halong.2.1.1
  exact absurd (hbounds _ rfl) (by decide)

end Gvds.Manager
