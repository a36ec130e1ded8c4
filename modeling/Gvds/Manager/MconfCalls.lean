/-
Module: Gvds.Manager.MconfCalls
Layer: Manager
Purpose: addCenter and deleteCenter as programs of datastore calls in the order of the source. An
  addCenter whose get fails goes on as with an empty registry. Without failing calls they are those
  of Gvds.Manager.Mconf.
Imports: Gvds.Lib.Program, Gvds.Manager.Mconf
Trusted boundary: Couchbase: a call that succeeds sees and changes the documents as they are, a call
  that fails changes nothing
Main exports: Call, server, addCenterCalls, deleteCenterCalls, Request, exec_addCenterCalls,
  exec_deleteCenterCalls
-/
import Gvds.Lib.Program
import Gvds.Manager.Mconf

namespace Gvds.Mconf

/-- What stands under a key. -/
abbrev Cell (_ : String) : Type := Option Document

/-- The calls on the datastore. `none` and `false` stand for an error code. -/
inductive Call : Type → Type where
  | get (key : String) : Call (Option Document)
  | set (key : String) (doc : Document) : Call Bool

/-- The datastore as a server. -/
def server : Server Call String Cell where
  answer
    | .get key, db => db key
    | .set _ _, _ => true
  write
    | .get _ => none
    | .set key doc => some ⟨key, fun _ => some doc⟩
  failed
    | .get _ => none
    | .set _ _ => false

/-- `Mconf::addCenter`. The error of a get that fails is taken for a first access, and the outcome
of the set of a pool is not looked at. -/
def addCenterCalls (fe : FECenterInfo) : Program Call Bool := do
  let pvalue ← .perform (.get key)
  let mycenter := (pvalue.map Document.toCenterInfo).getD .empty
  if fe.centerID ∈ mycenter.centerID then .perform (.set key (.registry (mycenter.put fe)))
  else
    let _ ← .perform (.set fe.centerName (.pool newPool))
    .perform (.set key (.registry (mycenter.put fe)))

/-- `Mconf::deleteCenter`. -/
def deleteCenterCalls (centerID : String) : Program Call Bool := do
  match ← .perform (.get key) with
  | none => pure false
  | some doc =>
      if centerID ∈ doc.toCenterInfo.centerID then
        .perform (.set key (.registry (doc.toCenterInfo.erase centerID)))
      else pure false

/-- A request that changes the registry. -/
inductive Request where
  | add (fe : FECenterInfo)
  | delete (centerID : String)

/-- The center that a request names. -/
def Request.centerID : Request → String
  | .add fe => fe.centerID
  | .delete centerID => centerID

/-- What a request does. -/
def Request.program : Request → Program Call Bool
  | .add fe => addCenterCalls fe
  | .delete centerID => deleteCenterCalls centerID

/-- The bucket after a request, with the calls failing that `fails` says. -/
def Request.execFaulty (fails : Nat → Bool) (db : Bucket) (r : Request) : Bucket :=
  (server.execFaulty fails r.program (db, 0)).2.1

section Calls

variable (fails : Nat → Bool) (db : Bucket) (name : String) (doc : Document) (n : Nat)

@[simp] theorem execFaulty_get : server.execFaulty fails (.perform (.get name)) (db, n) =
    if fails n then (none, db, n + 1) else (db name, db, n + 1) :=
  Server.execFaulty_perform _ _ _ _ _

@[simp] theorem execFaulty_set : server.execFaulty fails (.perform (.set name doc)) (db, n) =
    if fails n then (false, db, n + 1)
    else (true, Function.update db name (some doc), n + 1) :=
  Server.execFaulty_perform _ _ _ _ _

@[simp] theorem exec_get :
    server.exec (.perform (.get name)) db = (db name, db) := rfl

@[simp] theorem exec_set :
    server.exec (.perform (.set name doc)) db = (true, Function.update db name (some doc)) := rfl

end Calls

/-- Without failing calls, `addCenter` is the step of the registry. -/
theorem exec_addCenterCalls (db : Bucket) (fe : FECenterInfo) :
    server.exec (addCenterCalls fe) db = (true, addCenter db fe) := by
  unfold addCenterCalls addCenter
  dsimp only
  rw [Server.exec_bind, exec_get]
  change server.exec (if fe.centerID ∈ (stored db).centerID then _ else _) db = _
  rw [Server.exec_ite]
  by_cases hknown : fe.centerID ∈ (stored db).centerID
  · rw [if_pos hknown, if_pos hknown, exec_set]
    rfl
  · rw [if_neg hknown, if_neg hknown, Server.exec_bind, exec_set, exec_set]
    rfl

/-- Without failing calls, `deleteCenter` is the step of the registry. -/
theorem exec_deleteCenterCalls (db : Bucket) (centerID : String) :
    server.exec (deleteCenterCalls centerID) db =
      ((deleteCenter db centerID).2, (deleteCenter db centerID).1) := by
  unfold deleteCenterCalls deleteCenter
  rw [Server.exec_bind, exec_get]
  cases db key with
  | none => rfl
  | some doc =>
      dsimp only
      rw [Server.exec_ite]
      split
      · rw [exec_set]
      · rfl

end Gvds.Mconf
