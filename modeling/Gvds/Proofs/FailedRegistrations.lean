/-
Module: Gvds.Proofs.FailedRegistrations
Layer: Proofs
Purpose: What a registration that reports a failure leaves behind, whichever of its calls fail: the
  entry of the name, if a call behind it fails or the list of administrators does not take the ID;
  or an empty map, if this is created and the entry cannot be written.
Imports: Gvds.Proofs.AccountNames
Trusted boundary: as Gvds.Manager.UserModelServer
Main exports: SameRegistrations, entryWritten, MapCreated, Completes, register_spec,
  failed_registration_leaves_no_trace_iff, failed_registration_leaves_no_trace_fine,
  failed_registration_keeps_entry
-/
import Gvds.Proofs.AccountNames

namespace Gvds.UserModel

open Manager (Bytes bytes)

/-- The name map, the list of administrators and the documents of all accounts are the same. -/
def SameRegistrations (db db' : Bucket) : Prop :=
  db' userMapKey = db userMapKey ∧ db' adminlist = db adminlist ∧ accounts db' = accounts db

/-- The number of calls after which the entry of the name is written, if it is. -/
def entryWritten (svc : Service) (fails : Nat → Bool) (db : Bucket) (accountName : Bytes) :
    Option Nat :=
  match svc.subPath accountName, db userMapKey with
  | .member _, some (.object _) => if fails 1 then none else some 2
  | .member _, none => if fails 1 || fails 2 || fails 3 then none else some 4
  | _, _ => none

/-- The map is created, and then the entry cannot be written. -/
def MapCreated (svc : Service) (fails : Nat → Bool) (db : Bucket) (accountName : Bytes) : Prop :=
  db userMapKey = none ∧ svc.subPath accountName ≠ .invalid ∧ fails 1 = false ∧ fails 2 = false ∧
    (svc.subPath accountName = .nested ∨ fails 3 = true)

/-- From call number `k` on, the list of administrators takes the ID and the account is written. -/
def Completes (fails : Nat → Bool) (db : Bucket) (admin : Bool) (uuid : Bytes) (k : Nat) : Prop :=
  if admin then fails k = false ∧ Enlists db uuid ∧ fails (k + 1) = false else fails k = false

section Register

variable {svc : Service} {fails : Nat → Bool} {db : Bucket} {n : Nat} {accountName uuid : Bytes}

/-! ### The parts of a registration -/

theorem execFaulty_setSub (key path value : Bytes) :
    (server svc).execFaulty fails (.perform (.setSub key path value)) (db, n) =
      if fails n then (.failed, db, n + 1)
      else (setStatus svc path (db key),
        Function.update db key ((db key).map fun doc => doc.setMember svc path value), n + 1) :=
  Server.execFaulty_perform _ _ _ _ _

theorem execFaulty_set (key : Bytes) (doc : Document) :
    (server svc).execFaulty fails (.perform (.set key doc)) (db, n) =
      if fails n then (false, db, n + 1)
      else (true, Function.update db key (some doc), n + 1) :=
  Server.execFaulty_perform _ _ _ _ _

/-- The first attempt at the entry fails: nothing changes. -/
theorem execFaulty_setEntry_of_fails (hfails : fails 1 = true) :
    (server svc).execFaulty fails (setEntry accountName uuid) (db, 1) = (.failed, db, 2) := by
  unfold setEntry
  rw [Server.execFaulty_bind, execFaulty_setSub]
  simp [hfails]

/-- The entry is refused: nothing changes. -/
theorem execFaulty_setEntry_of_failed (hfails : fails 1 = false)
    (hstatus : setStatus svc accountName (db userMapKey) = .failed) :
    (server svc).execFaulty fails (setEntry accountName uuid) (db, 1) = (.failed, db, 2) := by
  unfold setEntry
  rw [Server.execFaulty_bind, execFaulty_setSub]
  simp [hfails, hstatus, setMember_of_failed hstatus]

/-- There is a map: the entry is written. -/
theorem execFaulty_setEntry_of_map {name : Bytes} {members : Bytes → Option Bytes}
    (hfails : fails 1 = false) (hpath : svc.subPath accountName = .member name)
    (hmap : db userMapKey = some (.object members)) :
    (server svc).execFaulty fails (setEntry accountName uuid) (db, 1) =
      (.success, withEntry db name uuid, 2) := by
  unfold setEntry withEntry entries
  rw [Server.execFaulty_bind, execFaulty_setSub]
  simp [hfails, hpath, hmap, setStatus, Document.setMember]

/-- The map cannot be created: nothing changes. -/
theorem execFaulty_setEntry_of_noMap (uuid : Bytes) (hfails : fails 1 = false)
    (hcreate : fails 2 = true) (hmap : db userMapKey = none)
    (hpath : svc.subPath accountName ≠ .invalid) :
    ∃ s, s ≠ Status.success ∧
      (server svc).execFaulty fails (setEntry accountName uuid) (db, 1) = (s, db, 4) := by
  have hstatus : setStatus svc accountName none = .keyEnoent := by
    unfold setStatus
    cases hkind : svc.subPath accountName with
    | member name => rfl
    | nested => rfl
    | invalid => exact absurd hkind hpath
  have hsame : Function.update db userMapKey none = db :=
    Function.update_eq_self_iff.mpr hmap.symm
  unfold setEntry
  rw [Server.execFaulty_bind, execFaulty_setSub]
  simp only [hfails, Bool.false_eq_true, if_false, hmap, hstatus, Option.map_none, hsame]
  rw [Server.execFaulty_bind, execFaulty_set]
  simp only [hcreate, if_true]
  rw [execFaulty_setSub]
  cases hretry : fails 3 with
  | true => exact ⟨.failed, by decide, by simp⟩
  | false => exact ⟨.keyEnoent, by decide, by simp [hmap, hstatus, hsame]⟩

/-- The map is created: the entry is written, unless the call fails or the name is a path. -/
theorem execFaulty_setEntry_of_created (svc : Service) (accountName uuid : Bytes)
    (hfails : fails 1 = false) (hcreate : fails 2 = false)
    (hmap : db userMapKey = none) :
    (∀ name, svc.subPath accountName = .member name → fails 3 = false →
      (server svc).execFaulty fails (setEntry accountName uuid) (db, 1) =
        (.success, withEntry db name uuid, 4)) ∧
    (svc.subPath accountName = .nested ∨
        (∃ name, svc.subPath accountName = .member name) ∧ fails 3 = true →
      (server svc).execFaulty fails (setEntry accountName uuid) (db, 1) =
        (.failed, Function.update db userMapKey (some (.object noMembers)), 4)) := by
  have hentries : entries db = noMembers := by
    unfold entries
    rw [hmap]
  unfold setEntry withEntry
  rw [Server.execFaulty_bind, execFaulty_setSub, hentries]
  constructor
  · intro name hpath hset
    simp [hfails, hcreate, hset, hmap, hpath, setStatus, Document.setMember, execFaulty_set,
      execFaulty_setSub]
  · rintro (hpath | ⟨⟨name, hpath⟩, hset⟩)
    · cases hset : fails 3 <;>
        simp [hfails, hcreate, hset, hmap, hpath, setStatus, Document.setMember, execFaulty_set,
          execFaulty_setSub]
    · simp [hfails, hcreate, hset, hmap, hpath, setStatus, execFaulty_set, execFaulty_setSub]

/-- The entry is written; or the map is created in vain; or nothing changes. -/
theorem setEntry_spec (svc : Service) (fails : Nat → Bool) (db : Bucket)
    (accountName uuid : Bytes) :
    (∃ name k, entryWritten svc fails db accountName = some k ∧
      (server svc).execFaulty fails (setEntry accountName uuid) (db, 1) =
        (.success, withEntry db name uuid, k)) ∨
    (entryWritten svc fails db accountName = none ∧ ∃ s k, s ≠ Status.success ∧
      ((MapCreated svc fails db accountName ∧
        (server svc).execFaulty fails (setEntry accountName uuid) (db, 1) =
          (s, Function.update db userMapKey (some (.object noMembers)), k)) ∨
      (¬ MapCreated svc fails db accountName ∧
        (server svc).execFaulty fails (setEntry accountName uuid) (db, 1) = (s, db, k)))) := by
  unfold entryWritten MapCreated
  cases hfails : fails 1 with
  | true =>
      refine .inr ⟨?_, .failed, 2, by decide, .inr ⟨by simp,
        execFaulty_setEntry_of_fails hfails⟩⟩
      split <;> simp
  | false =>
  have hrefused : setStatus svc accountName (db userMapKey) = .failed →
      (server svc).execFaulty fails (setEntry accountName uuid) (db, 1) = (.failed, db, 2) :=
    execFaulty_setEntry_of_failed hfails
  cases hpath : svc.subPath accountName with
  | invalid =>
      exact .inr ⟨rfl, .failed, 2, by decide, .inr ⟨by simp, hrefused (by simp [setStatus, hpath])⟩⟩
  | nested =>
      have hvalid : svc.subPath accountName ≠ .invalid := by simp [hpath]
      cases hmap : db userMapKey with
      | some doc =>
          rw [hmap] at hrefused
          exact .inr ⟨rfl, .failed, 2, by decide, .inr ⟨by simp,
            hrefused (by simp [setStatus, hpath])⟩⟩
      | none =>
          cases hcreate : fails 2 with
          | true =>
              obtain ⟨s, hs, hexec⟩ := execFaulty_setEntry_of_noMap uuid hfails hcreate hmap hvalid
              exact .inr ⟨rfl, s, 4, hs, .inr ⟨by simp, hexec⟩⟩
          | false =>
              exact .inr ⟨rfl, .failed, 4, by decide, .inl ⟨by simp,
                (execFaulty_setEntry_of_created svc accountName uuid hfails hcreate hmap).2
                  (.inl hpath)⟩⟩
  | member name =>
      have hvalid : svc.subPath accountName ≠ .invalid := by simp [hpath]
      cases hmap : db userMapKey with
      | some doc =>
          rw [hmap] at hrefused
          cases doc with
          | object members =>
              exact .inl ⟨name, 2, by simp, execFaulty_setEntry_of_map hfails hpath hmap⟩
          | _ =>
              exact .inr ⟨rfl, .failed, 2, by decide, .inr ⟨by simp,
                hrefused (by simp [setStatus, hpath])⟩⟩
      | none =>
          cases hcreate : fails 2 with
          | true =>
              obtain ⟨s, hs, hexec⟩ := execFaulty_setEntry_of_noMap uuid hfails hcreate hmap hvalid
              exact .inr ⟨by simp, s, 4, hs, .inr ⟨by simp, hexec⟩⟩
          | false =>
              obtain ⟨hwritten, hvain⟩ := execFaulty_setEntry_of_created svc accountName uuid hfails
                hcreate hmap
              cases hset : fails 3 with
              | true =>
                  exact .inr ⟨by simp, .failed, 4, by decide, .inl ⟨by simp,
                    hvain (.inr ⟨⟨name, hpath⟩, hset⟩)⟩⟩
              | false => exact .inl ⟨name, 4, by simp, hwritten name hpath hset⟩

/-- The last write of a registration. -/
def writeAccount (person : Account) (uuid : Bytes) : Program Call Reply := do
  if ← .perform (.set (userPrefix ++ uuid) (.account { person with accountID := uuid })) then
    pure (.success person.accountName)
  else pure .fail

/-- What a registration does behind the entry. -/
def finish (admin : Bool) (person : Account) (uuid : Bytes) : Program Call Reply := do
  if ← enlist admin uuid then writeAccount person uuid else pure .fail

/-- The list takes an ID that is not in it. -/
theorem insertsUniq_iff : insertsUniq uuid (db adminlist) = true ↔ Enlists db uuid := by
  unfold insertsUniq Enlists
  split
  · rename_i namelist hlist
    rw [hlist]
    simp
  · rename_i hother
    refine iff_of_false (by simp) ?_
    rintro ⟨namelist, hlist, -⟩
    exact hother namelist hlist

/-- The last write does not touch the map. -/
theorem writeAccount_spec (svc : Service) (fails : Nat → Bool) (db : Bucket) (person : Account)
    (uuid : Bytes) (k : Nat) :
    ∃ db' : Bucket, db' userMapKey = db userMapKey ∧
      (server svc).execFaulty fails (writeAccount person uuid) (db, k) =
        (if fails k then .fail else .success person.accountName, db', k + 1) := by
  unfold writeAccount
  rw [Server.execFaulty_bind, execFaulty_set]
  cases fails k with
  | true => exact ⟨db, rfl, rfl⟩
  | false => exact ⟨_, Function.update_of_ne (userKey_ne_map uuid).symm _ _, rfl⟩

/-- Behind the entry a registration completes, or it fails and does not touch the map. -/
theorem finish_spec (svc : Service) (fails : Nat → Bool) (db : Bucket) (admin : Bool)
    (person : Account) (uuid : Bytes) (k : Nat) :
    ∃ reply, ∃ db' : Bucket, ∃ n',
      (server svc).execFaulty fails (finish admin person uuid) (db, k) = (reply, db', n') ∧
      (Completes fails db admin uuid k ∧ reply = .success person.accountName ∨
        ¬ Completes fails db admin uuid k ∧ reply = .fail ∧ db' userMapKey = db userMapKey) := by
  unfold finish Completes
  cases admin with
  | false =>
      obtain ⟨db', hmap, hexec⟩ := writeAccount_spec svc fails db person uuid k
      refine ⟨_, db', k + 1, hexec, ?_⟩
      cases fails k with
      | true => exact .inr ⟨by simp, rfl, hmap⟩
      | false => exact .inl ⟨rfl, rfl⟩
  | true =>
      simp only [enlist, if_true]
      rw [Server.execFaulty_bind, Server.execFaulty_perform]
      cases hadmin : fails k with
      | true => exact ⟨.fail, db, k + 1, rfl, .inr ⟨by simp, rfl, rfl⟩⟩
      | false =>
      simp only [Bool.false_eq_true, if_false, answer_arrInsertUniq, after_arrInsertUniq, true_and]
      rw [← insertsUniq_iff]
      have hlist : ∀ cell, Function.update db adminlist cell userMapKey = db userMapKey :=
        fun cell => Function.update_of_ne adminlist_ne_map.symm _ _
      cases hinserts : insertsUniq uuid (db adminlist) with
      | false => exact ⟨.fail, _, k + 1, rfl, .inr ⟨by simp, rfl, hlist _⟩⟩
      | true =>
          obtain ⟨db', hmap, hexec⟩ := writeAccount_spec svc fails (Function.update db adminlist
            ((db adminlist).map fun doc => doc.insertUniq uuid)) person uuid (k + 1)
          refine ⟨_, db', k + 2, hexec, ?_⟩
          cases fails (k + 1) with
          | true => exact .inr ⟨by simp, rfl, hmap.trans (hlist _)⟩
          | false => exact .inl ⟨⟨rfl, rfl⟩, rfl⟩

/-- Whether a registration completes does not depend on its entry. -/
theorem completes_withEntry_iff {admin : Bool} {name : Bytes} {k : Nat} :
    Completes fails (withEntry db name uuid) admin uuid k ↔ Completes fails db admin uuid k := by
  unfold Completes Enlists withEntry
  rw [Function.update_of_ne adminlist_ne_map]

/-! ### What is left behind -/

/-- The name is found, so that nothing is done. -/
def Found (svc : Service) (fails : Nat → Bool) (db : Bucket) (accountName : Bytes) : Prop :=
  fails 0 = false ∧ (getMember svc accountName (db userMapKey)).isSome

/-- A registration that gets to its entry completes, and one that does not creates no map. -/
def Traceless (svc : Service) (fails : Nat → Bool) (db : Bucket) (admin : Bool)
    (accountName uuid : Bytes) : Prop :=
  Found svc fails db accountName ∨
    ¬ MapCreated svc fails db accountName ∧
      ∀ k, entryWritten svc fails db accountName = some k → Completes fails db admin uuid k

/-- A registration with a name that is not found goes on with its entry. -/
theorem execFaulty_register_of_not_found {admin : Bool} {person : Account}
    (hfound : ¬ Found svc fails db person.accountName) :
    (server svc).execFaulty fails (register admin person uuid) (db, 0) =
      (server svc).execFaulty fails (do
        if (← setEntry person.accountName uuid) ≠ .success then pure .fail
        else finish admin person uuid) (db, 1) := by
  unfold Found at hfound
  unfold register
  rw [Server.execFaulty_bind, Server.execFaulty_perform]
  cases hget : fails 0 with
  | true => rfl
  | false =>
      have hnone : getMember svc person.accountName (db userMapKey) = none := by
        simpa [hget] using hfound
      simp only [Bool.false_eq_true, if_false, answer_getSub, after_getSub, hnone]
      rfl

/-- A name that is found ends the registration. -/
theorem execFaulty_register_of_found {admin : Bool} {person : Account}
    (hfound : Found svc fails db person.accountName) :
    (server svc).execFaulty fails (register admin person uuid) (db, 0) = (.nameExists, db, 1) := by
  obtain ⟨hget, hname⟩ := hfound
  obtain ⟨id, hid⟩ := Option.isSome_iff_exists.mp hname
  unfold register
  rw [Server.execFaulty_bind, Server.execFaulty_perform]
  simp only [hget, Bool.false_eq_true, if_false, answer_getSub, after_getSub, hid]
  rfl

/-- A map that is created in vain has no entry. -/
theorem entryWritten_of_mapCreated (h : MapCreated svc fails db accountName) :
    entryWritten svc fails db accountName = none := by
  obtain ⟨hmap, -, -, -, hpath⟩ := h
  unfold entryWritten
  rw [hmap]
  rcases hpath with hpath | hset
  · rw [hpath]
  · split <;> simp_all

/-- A failed registration leaves nothing behind if and only if it is traceless. -/
theorem register_traceless_iff (svc : Service) (fails : Nat → Bool) (db : Bucket) (admin : Bool)
    (person : Account) {uuid : Bytes} (hfresh : ∀ name, entries db name ≠ some uuid) :
    (∀ reply db' n', (server svc).execFaulty fails (register admin person uuid) (db, 0) =
        (reply, db', n') → (∀ name, reply ≠ .success name) → SameRegistrations db db') ↔
      Traceless svc fails db admin person.accountName uuid := by
  by_cases hfound : Found svc fails db person.accountName
  · rw [execFaulty_register_of_found hfound]
    refine iff_of_true ?_ (.inl hfound)
    intro reply db' n' hexec _
    cases hexec
    exact ⟨rfl, rfl, rfl⟩
  unfold Traceless
  rw [execFaulty_register_of_not_found hfound, Server.execFaulty_bind, or_iff_right hfound]
  rcases setEntry_spec svc fails db person.accountName uuid with
    ⟨name, k, hwritten, hexec⟩ | ⟨hunwritten, s, k, hs, ⟨hcreated, hexec⟩ | ⟨hcreated, hexec⟩⟩
  · rw [hexec]
    obtain ⟨reply, db', n', hfinish, ⟨hcompletes, rfl⟩ | ⟨hcompletes, rfl, hmap⟩⟩ :=
      finish_spec svc fails (withEntry db name uuid) admin person uuid k
    · simp only [ne_eq, not_true_eq_false, if_false, hfinish]
      rw [completes_withEntry_iff] at hcompletes
      refine iff_of_true ?_ ⟨fun h => ?_, fun k' hk' => ?_⟩
      · intro reply db'' m heq hreply
        cases heq
        exact absurd rfl (hreply _)
      · rw [entryWritten_of_mapCreated h] at hwritten
        cases hwritten
      · rw [hwritten] at hk'
        cases hk'
        exact hcompletes
    · simp only [ne_eq, not_true_eq_false, if_false, hfinish]
      rw [completes_withEntry_iff] at hcompletes
      refine iff_of_false (fun hall => ?_) fun h => hcompletes (h.2 k hwritten)
      have hsame := (hall .fail db' n' rfl (by simp)).1
      rw [hmap] at hsame
      unfold withEntry at hsame
      rw [Function.update_self] at hsame
      refine hfresh name ?_
      unfold entries
      rw [← hsame]
      exact Function.update_self _ _ _
  · rw [hexec]
    simp only [ne_eq, hs, not_false_eq_true, if_true, Server.execFaulty_pure]
    refine iff_of_false (fun hall => ?_) fun h => h.1 hcreated
    have hsame := (hall .fail _ k rfl (by simp)).1
    rw [Function.update_self, hcreated.1] at hsame
    cases hsame
  · rw [hexec]
    simp only [ne_eq, hs, not_false_eq_true, if_true, Server.execFaulty_pure]
    refine iff_of_true ?_ ⟨hcreated, fun k' hk' => ?_⟩
    · intro reply db' n' heq _
      cases heq
      exact ⟨rfl, rfl, rfl⟩
    · rw [hunwritten] at hk'
      cases hk'

end Register

/-- **A failed registration leaves no trace** if and only if the name is found; or no map is created
in vain, and all calls behind a written entry succeed, of which the list of administrators takes the
ID. -/
theorem failed_registration_leaves_no_trace_iff (svc : Service) (fails : Nat → Bool) (db : Bucket)
    (person : Account) (uuid : Bytes) (hfresh : ∀ name, entries db name ≠ some uuid) :
    ((∀ reply db' n', (server svc).execFaulty fails (userRegister person uuid) (db, 0) =
        (reply, db', n') → (∀ name, reply ≠ .success name) → SameRegistrations db db') ↔
      Traceless svc fails db false person.accountName uuid) ∧
    ((∀ reply db' n', (server svc).execFaulty fails (adminUserRegister person uuid) (db, 0) =
        (reply, db', n') → (∀ name, reply ≠ .success name) → SameRegistrations db db') ↔
      Traceless svc fails db true person.accountName uuid) :=
  ⟨register_traceless_iff svc fails db false person hfresh,
    register_traceless_iff svc fails db true person hfresh⟩

/-- Its map leads nowhere. -/
theorem entries_emptyMap (name uuid : Bytes) : entries emptyMap name ≠ some uuid := by
  unfold emptyMap
  rw [entries_update_object]
  exact (Option.some_ne_none uuid).symm

/-- The user a registers, and no call fails. -/
theorem failed_registration_leaves_no_trace_fine :
    ((∀ reply db' n', (server noZoneService).execFaulty Server.noFails (userRegister personA [49])
        (emptyMap, 0) = (reply, db', n') → (∀ name, reply ≠ .success name) →
          SameRegistrations emptyMap db') ↔
      Traceless noZoneService Server.noFails emptyMap false personA.accountName [49]) ∧
    ((∀ reply db' n', (server noZoneService).execFaulty Server.noFails
        (adminUserRegister personA [49]) (emptyMap, 0) = (reply, db', n') →
          (∀ name, reply ≠ .success name) → SameRegistrations emptyMap db') ↔
      Traceless noZoneService Server.noFails emptyMap true personA.accountName [49]) :=
  failed_registration_leaves_no_trace_iff noZoneService Server.noFails emptyMap personA [49]
    fun name => entries_emptyMap name [49]

/-- The account of the user a cannot be written: the entry stays. -/
theorem failed_registration_keeps_entry :
    ¬ ∀ (svc : Service) (fails : Nat → Bool) (db : Bucket) (person : Account) (uuid : Bytes),
      (∀ name, entries db name ≠ some uuid) → ∀ reply db' n',
        (server svc).execFaulty fails (userRegister person uuid) (db, 0) = (reply, db', n') →
        (∀ name, reply ≠ .success name) → SameRegistrations db db' := by
  intro hall
  have htraceless := (register_traceless_iff noZoneService (fun n => n = 2) emptyMap false personA
    fun name => entries_emptyMap name [49]).mp (hall _ _ _ _ _ fun name => entries_emptyMap name [49])
  rcases htraceless with ⟨-, hfound⟩ | ⟨-, hcompletes⟩
  · exact absurd hfound (by decide)
  · have hwritten : entryWritten noZoneService (fun n => n = 2) emptyMap personA.accountName =
        some 2 := rfl
    have hlast : decide (2 = 2) = false := hcompletes 2 hwritten
    exact absurd hlast (by decide)

end Gvds.UserModel
