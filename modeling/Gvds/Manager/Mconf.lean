/-
Module: Gvds.Manager.Mconf
Layer: Manager
Purpose: The registry of the centers (manager/mconf/mconf.cc, common/centerinfo.h): one document with
  the list of their IDs and three maps from these, and for each center a pool of local accounts
  under its name. The search of an administrator through all pools (UserModelServer.cc) reads both.
Imports: Mathlib.Logic.Function.Basic
Trusted boundary: Couchbase: all calls succeed, so that a get fails only where no document is. JSON
  is read back as it was written. Registry, pools and all other documents of the manager share one
  bucket
Main exports: CenterInfo, FECenterInfo, AccountSCPool, Document, Bucket, addCenter, searchCenter,
  deleteCenter, adminSearchAccountPool
-/
import Mathlib.Logic.Function.Basic

namespace Gvds.Mconf

/-- `CenterInfo`. -/
structure CenterInfo where
  centerID : List String
  centerIP : String → Option String
  centerPort : String → Option String
  centerName : String → Option String

/-- A default `CenterInfo`: what the decoder leaves of a document that is no registry. -/
def CenterInfo.empty : CenterInfo := ⟨[], fun _ => none, fun _ => none, fun _ => none⟩

/-- `FECenterInfo`: the center in a request. -/
structure FECenterInfo where
  centerID : String
  centerIP : String
  centerPort : String
  centerName : String
deriving DecidableEq

/-- `AccountSCPool`: the local accounts of a center with their passwords. -/
structure AccountSCPool where
  unuse_account : List (String × String)
  use_account : List (String × String)
deriving DecidableEq

/-- The documents of the bucket. -/
inductive Document where
  | registry (info : CenterInfo)
  | pool (pool : AccountSCPool)
  | adminList (namelist : List String)
  | other

/-- The bucket of the manager. -/
abbrev Bucket := String → Option Document

/-- `key`, which is `c_key` of `UserModelServer`. -/
def key : String := "center_information"

/-- `adminlist`. -/
def adminlist : String := "adminwhitelist"

/-- `CenterInfo::deserialize`. -/
def Document.toCenterInfo : Document → CenterInfo
  | .registry info => info
  | _ => .empty

/-- `AccountSCPool::deserialize`. -/
def Document.toPool : Document → AccountSCPool
  | .pool p => p
  | _ => ⟨[], []⟩

/-- The pool of a new center: a hundred accounts that nobody uses. -/
def newPool : AccountSCPool where
  unuse_account := (List.range 100).map fun i => ("test" ++ toString (i + 1), "")
  use_account := []

/-- The registry that `addCenter` and `deleteCenter` begin with, where there is one. -/
def stored (db : Bucket) : CenterInfo := ((db key).map Document.toCenterInfo).getD .empty

/-- The entries that `addCenter` writes for a center. -/
def CenterInfo.put (info : CenterInfo) (fe : FECenterInfo) : CenterInfo where
  centerID := if fe.centerID ∈ info.centerID then info.centerID else info.centerID ++ [fe.centerID]
  centerIP := Function.update info.centerIP fe.centerID (some fe.centerIP)
  centerPort := Function.update info.centerPort fe.centerID (some fe.centerPort)
  centerName := Function.update info.centerName fe.centerID (some fe.centerName)

/-- `Mconf::addCenter`: a center whose ID is not listed yet gets a pool. -/
def addCenter (db : Bucket) (fe : FECenterInfo) : Bucket :=
  let mycenter := stored db
  let db' := if fe.centerID ∈ mycenter.centerID then db
    else Function.update db fe.centerName (some (.pool newPool))
  Function.update db' key (some (.registry (mycenter.put fe)))

/-- `Mconf::searchCenter`: the registry as it stands; `none` is the text `fail`. -/
def searchCenter (db : Bucket) : Option Document := db key

/-- `deleteCenter` erases the entries of a center. -/
def CenterInfo.erase (info : CenterInfo) (centerID : String) : CenterInfo where
  centerID := info.centerID.erase centerID
  centerIP := Function.update info.centerIP centerID none
  centerPort := Function.update info.centerPort centerID none
  centerName := Function.update info.centerName centerID none

/-- `Mconf::deleteCenter`, with whether it replies `success`. -/
def deleteCenter (db : Bucket) (centerID : String) : Bucket × Bool :=
  match db key with
  | none => (db, false)
  | some doc =>
      if centerID ∈ doc.toCenterInfo.centerID then
        (Function.update db key (some (.registry (doc.toCenterInfo.erase centerID))), true)
      else (db, false)

/-! ### The search through the pools -/

/-- What `adminSearchAccountPool` returns: `33` for a user who is no administrator; `1` where there
is no registry, where a center has no pool, and where there is no center; or for each center its
name and how many of its accounts are in use and how many are not. -/
inductive PoolSearch where
  | denied
  | noRegistry
  | noPool (centerName : String)
  | noCenter
  | found (pools : List (String × Nat × Nat))

/-- `UserModelServer::validadminidentity`. -/
def validadminidentity (db : Bucket) (gvdsID : String) : Bool :=
  match db adminlist with
  | some (.adminList namelist) => gvdsID ∈ namelist
  | _ => false

/-- The loop of `adminSearchAccountPool` over the names of the centers. -/
def searchPools (db : Bucket) : List String → List (String × Nat × Nat) → PoolSearch
  | [], pools => if pools = [] then .noCenter else .found pools
  | name :: names, pools =>
      match db name with
      | none => .noPool name
      | some doc =>
          searchPools db names (pools ++
            [(name, doc.toPool.use_account.length, doc.toPool.unuse_account.length)])

/-- `UserModelServer::adminSearchAccountPool`. -/
def adminSearchAccountPool (db : Bucket) (adgvdsID : String) : PoolSearch :=
  if validadminidentity db adgvdsID then
    match db key with
    | none => .noRegistry
    | some doc =>
        searchPools db
          (doc.toCenterInfo.centerID.map fun id => (doc.toCenterInfo.centerName id).getD "") []
  else .denied

end Gvds.Mconf
