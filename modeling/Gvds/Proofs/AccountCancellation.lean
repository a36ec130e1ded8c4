/-
Module: Gvds.Proofs.AccountCancellation
Layer: Proofs
Purpose: cancellationUserAccount against UserRegister. The first document that it removes is one
  that no registration writes, so it fails for every account as registered; where that document is
  there, it is gone when a later removal fails.
Imports: Gvds.Proofs.AccountNames
Trusted boundary: as Gvds.Manager.UserModelServer
Main exports: CancelWorks, FailureKeeps, cancellation_of_no_centers, cancellation_with_centers,
  cancellation_never_works, cancellation_never_works_registered, registered_account_stays
-/
import Gvds.Proofs.AccountNames

namespace Gvds.UserModel

open Manager (Bytes bytes)

/-- With every call succeeding, the cancellation succeeds; then the user cannot log in, the name can
be registered again, and no document or entry of the account remains. -/
structure CancelWorks (svc : Service) (db db' : Bucket) (uuid accountName : Bytes) : Prop where
  exec : (server svc).exec (cancellationUserAccount svc uuid) db = (0, db')
  login : ∀ pass, ((server svc).exec (userLogin accountName pass) db').1 = none
  register : ∀ person uuid', person.accountName = accountName → FreshID db' uuid' →
    ((server svc).exec (userRegister person uuid') db').1 = .success accountName
  account : db' (userPrefix ++ uuid) = none
  centers : db' (scUserPrefix ++ uuid) = none
  entry : getMember svc accountName (db' userMapKey) = none

/-- A cancellation that reports a failure has removed nothing of the account, whichever of its calls
fail. -/
def FailureKeeps (svc : Service) (db : Bucket) (uuid : Bytes) : Prop :=
  ∀ fails r db' n', (server svc).execFaulty fails (cancellationUserAccount svc uuid) (db, 0) =
    (r, db', n') → r ≠ 0 →
      db' (userPrefix ++ uuid) = db (userPrefix ++ uuid) ∧
      db' (scUserPrefix ++ uuid) = db (scUserPrefix ++ uuid) ∧ db' userMapKey = db userMapKey

section Cancellation

variable {svc : Service} {fails : Nat → Bool} {db : Bucket} {uuid : Bytes} {n : Nat}

theorem execFaulty_remove (key : Bytes) :
    (server svc).execFaulty fails (.perform (.remove key)) (db, n) =
      if fails n then (false, db, n + 1)
      else ((db key).isSome, Function.update db key none, n + 1) :=
  Server.execFaulty_perform _ _ _ _ _

/-- Without a document of its accounts in the centers an account is not cancelled. -/
theorem cancellation_of_no_centers (fails : Nat → Bool)
    (hzones : svc.zones db (cancelQuery svc.bucket uuid) = 0)
    (hcenters : db (scUserPrefix ++ uuid) = none) :
    ((server svc).execFaulty fails (cancellationUserAccount svc uuid) (db, 0)).1 = -1 := by
  unfold cancellationUserAccount
  rw [Server.execFaulty_bind, Server.execFaulty_perform]
  cases fails 0 with
  | true => rfl
  | false =>
  simp only [Bool.false_eq_true, if_false, answer_get, after_get]
  cases db (userPrefix ++ uuid) with
  | none => rfl
  | some doc =>
  dsimp only
  have hquery : ((server svc).execFaulty fails
      (.perform (.queryZones (cancelQuery svc.bucket uuid))) (db, 1)) = (0, db, 2) := by
    rw [Server.execFaulty_perform]
    cases fails 1 with
    | true => rfl
    | false => simp [hzones]
  rw [Server.execFaulty_bind, hquery]
  simp only [ne_eq, not_true_eq_false, if_false]
  rw [Server.execFaulty_bind, execFaulty_remove, hcenters]
  cases fails 2 <;> rfl

/-- With such a document, it is removed before the removal that fails. -/
theorem cancellation_with_centers {doc : Document}
    (hzones : svc.zones db (cancelQuery svc.bucket uuid) = 0)
    (hdoc : db (userPrefix ++ uuid) = some doc) (hcenters : (db (scUserPrefix ++ uuid)).isSome) :
    (server svc).execFaulty (fun n => n = 3) (cancellationUserAccount svc uuid) (db, 0) =
      (-1, withoutCenters db uuid, 4) := by
  unfold cancellationUserAccount withoutCenters
  simp [Server.execFaulty_perform, hdoc, hzones, hcenters]
  rfl

/-- A cancellation that works has found both documents. -/
theorem CancelWorks.documents {db' : Bucket} {accountName : Bytes}
    (h : CancelWorks svc db db' uuid accountName)
    (hzones : svc.zones db (cancelQuery svc.bucket uuid) = 0) :
    ∃ doc, db (userPrefix ++ uuid) = some doc ∧ (db (scUserPrefix ++ uuid)).isSome := by
  have hexec := congrArg Prod.fst h.exec
  cases hdoc : db (userPrefix ++ uuid) with
  | none =>
      simp [cancellationUserAccount, hdoc] at hexec
  | some doc =>
      refine ⟨doc, rfl, ?_⟩
      cases hcenters : db (scUserPrefix ++ uuid) with
      | none =>
          simp [cancellationUserAccount, hdoc, hzones, hcenters] at hexec
      | some centers => rfl

end Cancellation

/-- **Cancelling an account never works as intended**, in no state in which it owns no zone: as long
as there is no document of its accounts in the centers, which registration does not write, it fails
whichever calls succeed; with that document, it may fail after it has removed it. -/
theorem cancellation_never_works (svc : Service) (db : Bucket) (uuid accountName : Bytes)
    (hzones : svc.zones db (cancelQuery svc.bucket uuid) = 0) :
    ¬ ((∃ db', CancelWorks svc db db' uuid accountName) ∧ FailureKeeps svc db uuid) ∧
      (db (scUserPrefix ++ uuid) = none → ∀ fails,
        ((server svc).execFaulty fails (cancellationUserAccount svc uuid) (db, 0)).1 = -1) := by
  refine ⟨?_, fun hcenters fails => cancellation_of_no_centers fails hzones hcenters⟩
  rintro ⟨⟨db', hworks⟩, hkeeps⟩
  obtain ⟨doc, hdoc, hcenters⟩ := hworks.documents hzones
  have hsame := (hkeeps _ _ _ _ (cancellation_with_centers hzones hdoc hcenters) (by decide)).2.1
  unfold withoutCenters at hsame
  rw [Function.update_self] at hsame
  rw [← hsame] at hcenters
  cases hcenters

/-- The bucket after the registration of the user a. -/
def registeredA : Bucket := ((server noZoneService).exec (userRegister personA [49]) emptyBucket).2

theorem cancellation_never_works_registered :
    ¬ ((∃ db', CancelWorks noZoneService registeredA db' [49] personA.accountName) ∧
        FailureKeeps noZoneService registeredA [49]) ∧
      (registeredA (scUserPrefix ++ [49]) = none → ∀ fails,
        ((server noZoneService).execFaulty fails (cancellationUserAccount noZoneService [49])
          (registeredA, 0)).1 = -1) :=
  cancellation_never_works noZoneService registeredA [49] personA.accountName rfl

/-- The user a registers, and cannot cancel the account. -/
theorem registered_account_stays :
    ¬ ∀ (svc : Service) (db : Bucket) (person : Account) (uuid : Bytes), FreshID db uuid →
      ((server svc).exec (userRegister person uuid) db).1 = .success person.accountName →
      svc.zones ((server svc).exec (userRegister person uuid) db).2
        (cancelQuery svc.bucket uuid) = 0 →
      (∃ db', CancelWorks svc ((server svc).exec (userRegister person uuid) db).2 db' uuid
        person.accountName) ∧
      FailureKeeps svc ((server svc).exec (userRegister person uuid) db).2 uuid := by
  intro hall
  obtain ⟨⟨db', hworks⟩, -⟩ := hall noZoneService emptyBucket personA [49] (by decide) rfl rfl
  obtain ⟨doc, -, hcenters⟩ := hworks.documents rfl
  exact absurd hcenters (by decide)

end Gvds.UserModel
