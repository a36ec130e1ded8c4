/-
Module: Gvds.Manager.Documents
Layer: Manager
Purpose: The documents that a manager keeps in its datastore (include/gvds_struct.h,
  include/aggregation_struct.h) and the calls by which it reaches them (datastore/datastore.h): get,
  set and remove of one document, two calls on the replicas in one, and N1QL queries. Its other
  calls with an outcome are among them.
Imports: Gvds.Lib.Program
Trusted boundary: Couchbase: a call that succeeds sees and changes the documents as they are, a call
  that fails changes nothing; a set puts a document whole, without a look at its version;
  arr_insert_uniq appends a value that is not there yet. Which documents a query selects is up to
  the query service, since names stand in its text as they are; rows come from documents of the kind
  that the query is for. JSON is read back as it was written
Main exports: StorageResource, Space, Zone, Key, Doc, Cell, Database, Call, QueryService, server
-/
import Gvds.Lib.Program

namespace Gvds.Manager

/-- Names that users choose, as bytes. -/
abbrev Bytes := List UInt8

/-- `StorageResource`: a storage cluster with its capacities. -/
structure StorageResource where
  storage_src_id : String
  storage_src_name : String
  host_center_id : String
  host_center_name : String
  total_capacity : Int64
  assign_capacity : Int64
  mgs_address : String
  state : Int
deriving DecidableEq

/-- `Space`. -/
structure Space where
  spaceID : String
  spaceName : Bytes
  spaceSize : Int64
  hostCenterID : String
  storageSrcID : String
  spacePath : String
  hostCenterName : String
  storageSrcName : String
  status : Bool
  replica_spaces : List String
deriving DecidableEq

/-- `Zone`, as it is stored: without the information on its spaces. -/
structure Zone where
  zoneID : String
  zoneName : Bytes
  ownerID : String
  memberID : List String
  spaceID : List String
deriving DecidableEq

/-- The keys of the documents; those of spaces and zones without their prefix. -/
inductive Key where
  | storage (key : String)
  | space (id : String)
  | zone (id : String)
deriving DecidableEq

/-- The documents under a key. -/
abbrev Doc : Key → Type
  | .storage _ => StorageResource
  | .space _ => Space
  | .zone _ => Zone

/-- What stands under a key. -/
abbrev Cell (k : Key) : Type := Option (Doc k)

/-- The documents of the manager. -/
abbrev Database := ∀ k, Cell k

/-- The storage cluster with a key. -/
def Database.storage (db : Database) (key : String) : Option StorageResource := db (.storage key)

/-- The space with an ID. -/
def Database.space (db : Database) (id : String) : Option Space := db (.space id)

/-- The zone with an ID. -/
def Database.zone (db : Database) (id : String) : Option Zone := db (.zone id)

/-- `StorageResource::prefix`. -/
def storagePrefix : String := "STOR-"

/-- The calls of the manager. `none` and `false` stand for an error code. -/
inductive Call : Type → Type where
  | get (k : Key) : Call (Cell k)
  | set (k : Key) (doc : Doc k) : Call Bool
  | remove (k : Key) : Call Bool
  | queryStorages (hostCenterName storageSrcName : String) : Call (Option (List StorageResource))
  | querySpaces (hostCenterID storageSrcID spacePath : String) : Call (Option (List Space))
  | queryZones (text : Bytes) : Call (Option (List Zone))
  | getReplicas (id : String) : Call (Option (List String))
  | insertReplica (id value : String) : Call Bool
  | mkdir (name : String) : Call Bool
  | centerInformation : Call Bool

/-- The query service: the rows that it returns for each query. A row about a space leaves its
replicas out; rows about spaces and zones come from their documents. The text of a query for zones
may be broken. -/
structure QueryService where
  storages : Database → String → String → List StorageResource
  spaces : Database → String → String → String → List Space
  zones : Database → Bytes → Option (List Zone)
  spaces_sound : ∀ db host stor path, ∀ row ∈ spaces db host stor path,
    ∃ id sp, db (.space id) = some sp ∧ row = { sp with replica_spaces := [] }
  zones_sound : ∀ db text rows, zones db text = some rows → ∀ row ∈ rows,
    ∃ id, db (.zone id) = some row

/-- Where no space is found, all rows that are found are documents. -/
theorem noSpaces_sound (db : Database) (_ _ _ : String) (row : Space)
    (hrow : row ∈ ([] : List Space)) :
    ∃ id sp, db (.space id) = some sp ∧ row = { sp with replica_spaces := [] } :=
  absurd hrow List.not_mem_nil

/-- Where no zone is found, all rows that are found are documents. -/
theorem noZones_sound (db : Database) (_ : Bytes) (rows : List Zone) (hrows : some [] = some rows)
    (row : Zone) (hrow : row ∈ rows) : ∃ id, db (.zone id) = some row := by
  cases hrows
  exact absurd hrow List.not_mem_nil

/-- `arr_insert_uniq` on the replicas of a space. -/
def Space.insertReplica (space : Space) (value : String) : Space :=
  if value ∈ space.replica_spaces then space
  else { space with replica_spaces := space.replica_spaces ++ [value] }

/-- The datastore as a server. Directories and the information on centers are no documents. -/
def server (ask : QueryService) : Server Call Key Cell where
  answer
    | .get k, db => db k
    | .set _ _, _ => true
    | .remove _, _ => true
    | .queryStorages hostCenterName storageSrcName, db =>
        some (ask.storages db hostCenterName storageSrcName)
    | .querySpaces hostCenterID storageSrcID spacePath, db =>
        some (ask.spaces db hostCenterID storageSrcID spacePath)
    | .queryZones text, db => ask.zones db text
    | .getReplicas id, db => (db (.space id)).map Space.replica_spaces
    | .insertReplica id value, db =>
        match db (.space id) with
        | none => false
        | some space => value ∉ space.replica_spaces
    | .mkdir _, _ => true
    | .centerInformation, _ => true
  write
    | .set k doc => some ⟨k, fun _ => some doc⟩
    | .remove k => some ⟨k, fun _ => none⟩
    | .insertReplica id value =>
        some ⟨.space id, Option.map fun space => space.insertReplica value⟩
    | .getReplicas _ => none
    | .get _ => none
    | .queryStorages _ _ => none
    | .querySpaces _ _ _ => none
    | .queryZones _ => none
    | .mkdir _ => none
    | .centerInformation => none
  failed
    | .get _ => none
    | .set _ _ => false
    | .remove _ => false
    | .queryStorages _ _ => none
    | .querySpaces _ _ _ => none
    | .queryZones _ => none
    | .getReplicas _ => none
    | .insertReplica _ _ => false
    | .mkdir _ => false
    | .centerInformation => false

/-! ### Calls in programs -/

/-- `storagePtr->get`. -/
def getStorage (key : String) : Program Call (Option StorageResource) :=
  .perform (.get (.storage key))

/-- `storagePtr->set`. -/
def setStorage (key : String) (doc : StorageResource) : Program Call Bool :=
  .perform (.set (.storage key) doc)

/-- `spacePtr->get`. -/
def getSpace (id : String) : Program Call (Option Space) := .perform (.get (.space id))

/-- `spacePtr->set`. -/
def setSpace (id : String) (doc : Space) : Program Call Bool := .perform (.set (.space id) doc)

/-- `zonePtr->get`. -/
def getZone (id : String) : Program Call (Option Zone) := .perform (.get (.zone id))

/-- `zonePtr->set`. -/
def setZone (id : String) (doc : Zone) : Program Call Bool := .perform (.set (.zone id) doc)

/-- `zonePtr->remove`. -/
def removeZone (id : String) : Program Call Bool := .perform (.remove (.zone id))

end Gvds.Manager
