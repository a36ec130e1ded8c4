/-
Module: Gvds.Manager.SpaceServer
Layer: Manager
Purpose: The operations of SpaceServer (manager/space/SpaceServer.cc) that change spaces and the
  capacity assigned to them, and ResAggregation_MGR::update (manager/resaggregation_mgr.cc), as
  programs of datastore calls in the order of the source.
Imports: Gvds.Manager.Documents, Gvds.Lib.MapFill
Trusted boundary: as Gvds.Manager.Documents; an int64_t that overflows wraps around. A fresh UUID
  and the space that is in use (SpaceUsage, or what another center says) are input; what stands in a
  variable that is not initialised is input too
Main exports: getSpaceCreatePath, spaceSizeAdd, spaceSizeDeduct, spaceCreate, spaceCheck,
  spaceDelete, spaceRename, spaceSizeChange, UsageService, spaceSizeChangeAsking, getSpacePosition,
  spaceReplica, update
-/
import Gvds.Manager.Documents
import Gvds.Lib.MapFill

namespace Gvds.Manager

/-- The error codes of the operations. -/
def ENOENT : Int := 2
def EAGAIN : Int := 11
def EACCES : Int := 13
def EINVAL : Int := 22
def ENOSPC : Int := 28

/-! ### Capacities -/

/-- `SpaceSizeAdd`. -/
def spaceSizeAdd (StorageID : String) (add_size : Int64) : Program Call Int := do
  match ← getStorage StorageID with
  | none => pure EAGAIN
  | some storage =>
      if storage.assign_capacity + add_size > storage.total_capacity then pure ENOSPC
      else
        if ← setStorage StorageID
            { storage with assign_capacity := storage.assign_capacity + add_size } then pure 0
        else pure EAGAIN

/-- `SpaceSizeDeduct`. -/
def spaceSizeDeduct (StorageID : String) (deduct_size : Int64) : Program Call Int := do
  match ← getStorage StorageID with
  | none => pure EAGAIN
  | some storage =>
      if storage.assign_capacity - deduct_size < 0 then pure EINVAL
      else
        if ← setStorage StorageID
            { storage with assign_capacity := storage.assign_capacity - deduct_size } then pure 0
        else pure EAGAIN

/-- One round of the loop of `GetSpaceCreatePath` with the first entry of its map, whose keys are
`int`s in descending order; a later row takes the place of an earlier one with the same key. -/
def preferred (best : Option (Int32 × StorageResource)) (storage : StorageResource) :
    Option (Int32 × StorageResource) :=
  let key := (storage.total_capacity - storage.assign_capacity).toInt32
  match best with
  | none => some (key, storage)
  | some (key', storage') => if key' ≤ key then some (key, storage) else some (key', storage')

/-- `GetSpaceCreatePath`: the storage cluster with the most room among those that the query returns.
Its key has the prefix, so it is never empty. -/
def getSpaceCreatePath (hostCenterName storageSrcName : String) :
    Program Call (Option StorageResource) := do
  let rows ← .perform (.queryStorages hostCenterName storageSrcName)
  pure (((rows.getD []).foldl preferred none).map Prod.snd)

/-- `greaters`, as a three-way comparison. -/
def greaters (_Left _Right : Int32) : Ordering := compare _Right _Left

/-- The key of a storage cluster in the map of `GetSpaceCreatePath`: the difference of its
capacities, as an `int`. -/
def roomKey (storage : StorageResource) : Int32 :=
  (storage.total_capacity - storage.assign_capacity).toInt32

/-- `GetSpaceCreatePath` with its map, whose first entry it takes: the key of the storage cluster
and the ID of its center; both are empty after an error and where the query returns no rows. -/
def createPath (hostCenterName storageSrcName : String) : Program Call (String × String) := do
  match ← .perform (.queryStorages hostCenterName storageSrcName) with
  | none => pure ("", "")
  | some vp =>
      let ma := MapFill.fill greaters (vp.map fun storage => (roomKey storage, storage))
      match MapFill.first ma with
      | none => pure ("", "")
      | some ite => pure (storagePrefix ++ ite.2.storage_src_id, ite.2.host_center_id)

/-! ### Spaces -/

/-- `SpaceCreate`: the ID of the new space, or an error code. -/
def spaceCreate (spaceName : Bytes) (spaceSize : Int64) (spacePathInfo : Space) (uuid : String) :
    Program Call (Except String String) := do
  match ← getSpaceCreatePath spacePathInfo.hostCenterName spacePathInfo.storageSrcName with
  | none => pure (.error "-3")
  | some storage =>
      let storageSrcID := storagePrefix ++ storage.storage_src_id
      if (← spaceSizeAdd storageSrcID spaceSize) ≠ 0 then pure (.error "-1")
      else
        if ← .perform (.mkdir uuid) then
          if spaceName = [] ∨ spaceSize = 0 then pure (.error "-5")
          else
            if ← setSpace uuid
                { spaceID := uuid
                  spaceName := spaceName
                  spaceSize := spaceSize
                  hostCenterID := storage.host_center_id
                  storageSrcID := storageSrcID
                  spacePath := uuid
                  hostCenterName := storage.host_center_name
                  storageSrcName := storage.storage_src_name
                  status := true
                  replica_spaces := [] } then pure (.ok uuid)
            else pure (.error "-2")
        else pure (.error "-2")

/-- `SpaceCheck`: the ID of the space that is taken into use; `none` is the reply "false". -/
def spaceCheck (spacePathInfo : Space) : Program Call (Option String) := do
  match ← getSpaceCreatePath spacePathInfo.hostCenterName spacePathInfo.storageSrcName with
  | none => pure none
  | some storage =>
      match ← .perform (.querySpaces storage.host_center_id (storagePrefix ++ storage.storage_src_id)
          spacePathInfo.spacePath) with
      | some [tmps] =>
          if tmps.status then pure none
          else
            if (← spaceSizeAdd tmps.storageSrcID tmps.spaceSize) ≠ 0 then pure none
            else
              if ← setSpace tmps.spaceID { tmps with status := true } then pure (some tmps.spaceID)
              else pure none
      | _ => pure none

/-- `SpaceDelete`. -/
def spaceDelete : List String → Program Call Int
  | [] => pure 0
  | m :: spaceID => do
      match ← getSpace m with
      | none => pure 0
      | some tmps =>
          if (← spaceSizeDeduct tmps.storageSrcID tmps.spaceSize) ≠ 0 then spaceDelete spaceID
          else
            if ← setSpace m { tmps with status := false } then spaceDelete spaceID
            else pure (-1)

/-- A name of more than 50 bytes loses the first 50. -/
def cutName (name : Bytes) : Bytes := if name.length > 50 then name.drop 50 else name

/-- `SpaceRename`. -/
def spaceRename (spaceID : String) (newSpaceName : Bytes) : Program Call Int := do
  match ← getSpace spaceID with
  | none => pure (-1)
  | some space =>
      if space.status then
        if space.spaceName = cutName newSpaceName then pure 0
        else
          if ← setSpace spaceID { space with spaceName := cutName newSpaceName } then pure 0
          else pure (-1)
      else pure (-1)

/-- The new size with which `SpaceSizeChange` writes the space back, once the capacity is
changed. -/
def storeSize (spaceID : String) (spacejson : Space) (newSpaceSize : Int64) (ret : Int) :
    Program Call Int := do
  if ret = 0 then
    if ← setSpace spaceID { spacejson with spaceSize := newSpaceSize } then pure ret
    else pure EAGAIN
  else pure ret

/-- `SpaceSizeChange`. `realsize` is the space in use, in units of 1000 bytes. -/
def spaceSizeChange (spaceID : String) (newSpaceSize realsize : Int64) : Program Call Int := do
  if newSpaceSize < 0 then pure EINVAL
  else
    match ← getSpace spaceID with
    | none => pure EAGAIN
    | some spacejson =>
        if ← .perform .centerInformation then
          if newSpaceSize ≤ realsize / 1000000 + 1 then pure EINVAL
          else if newSpaceSize > spacejson.spaceSize then
            let ret ← spaceSizeAdd spacejson.storageSrcID (newSpaceSize - spacejson.spaceSize)
            storeSize spaceID spacejson newSpaceSize ret
          else if newSpaceSize < spacejson.spaceSize then
            let ret ← spaceSizeDeduct spacejson.storageSrcID (spacejson.spaceSize - newSpaceSize)
            storeSize spaceID spacejson newSpaceSize ret
          else pure 0
        else pure EAGAIN

/-- What the query for the usage of a space brings: the number that `SpaceUsage` returns, which is
the usage in KB, or -1 where it cannot be determined; a body that is no number, after which
`spaceuseage` is still what stood there; or no answer. -/
inductive UsageReply where
  | usage (spaceUsage : Option Int64)
  | noNumber (spaceuseage : Int64)
  | noAnswer

/-- `realsize` after the query. Without an answer the operation waits for ever. -/
def UsageReply.realsize : UsageReply → Option Int64
  | .usage (some spaceUsage) => some spaceUsage
  | .usage none => some (-1)
  | .noNumber spaceuseage => some spaceuseage
  | .noAnswer => none

/-- The usage that the query has determined. -/
def UsageReply.determined : UsageReply → Option Int64
  | .usage spaceUsage => spaceUsage
  | .noNumber _ => none
  | .noAnswer => none

/-- Where the usage of a space comes from: `SpaceUsage` of this manager for the spaces of its own
center, for those of other centers a request to that center. -/
structure UsageService where
  ManagerID : String
  spaceUsage : String → Option Int64
  request : String → String → UsageReply

/-- The query for the usage of a space. -/
def UsageService.reply (svc : UsageService) (spacejson : Space) : UsageReply :=
  if svc.ManagerID = spacejson.hostCenterID then .usage (svc.spaceUsage spacejson.spacePath)
  else svc.request spacejson.hostCenterID spacejson.spacePath

/-- `SpaceSizeChange` with its query; `none` where it waits for ever. -/
def spaceSizeChangeAsking (svc : UsageService) (spaceID : String) (newSpaceSize : Int64) :
    Program Call (Option Int) := do
  if newSpaceSize < 0 then pure (some EINVAL)
  else
    match ← getSpace spaceID with
    | none => pure (some EAGAIN)
    | some spacejson =>
        if ← .perform .centerInformation then
          match (svc.reply spacejson).realsize with
          | none => pure none
          | some realsize =>
              if newSpaceSize ≤ realsize / 1000000 + 1 then pure (some EINVAL)
              else if newSpaceSize > spacejson.spaceSize then
                let ret ← spaceSizeAdd spacejson.storageSrcID (newSpaceSize - spacejson.spaceSize)
                some <$> storeSize spaceID spacejson newSpaceSize ret
              else if newSpaceSize < spacejson.spaceSize then
                let ret ← spaceSizeDeduct spacejson.storageSrcID
                  (spacejson.spaceSize - newSpaceSize)
                some <$> storeSize spaceID spacejson newSpaceSize ret
              else pure (some 0)
        else pure (some EAGAIN)

/-- `GetSpacePosition`: the spaces with these IDs, up to the first error. -/
def getSpacePosition : List String → Program Call (List Space)
  | [] => pure []
  | m :: spaceID => do
      match ← getSpace m with
      | none => pure []
      | some tmps =>
          match ← getStorage tmps.storageSrcID with
          | none => pure []
          | some _ => do
              let result ← getSpacePosition spaceID
              pure (tmps :: result)

/-! ### Replicas -/

/-- `E2BIG`. -/
def E2BIG : Int := 7

/-- The loop of `SpaceReplica` over the group of the replicated space. -/
def insertReplicas (single : String) : List String → Program Call Unit
  | [] => pure ()
  | it :: replicated_spaces => do
      let _ ← .perform (.insertReplica it single)
      let _ ← .perform (.insertReplica single it)
      insertReplicas single replicated_spaces

/-- `SpaceReplica`; `none` is an error code of the datastore. -/
def spaceReplica (replicated single : String) : Program Call (Option Int) := do
  match ← .perform (.getReplicas replicated) with
  | none => pure none
  | some replicated_spaces =>
      if replicated_spaces.length ≥ 5 then pure (some (-E2BIG))
      else do
        insertReplicas single replicated_spaces
        let _ ← .perform (.insertReplica replicated single)
        let _ ← .perform (.insertReplica single replicated)
        pure (some 0)

/-! ### Storage clusters -/

/-- A request to `update` leaves a text alone by a `#`. -/
def changed (new old : String) : String := if new.toList.head? = some '#' then old else new

/-- The document that `ResAggregation_MGR::update` writes. -/
def merge (storage_res storRe : StorageResource) : StorageResource where
  storage_src_id := changed storage_res.storage_src_id storRe.storage_src_id
  storage_src_name := changed storage_res.storage_src_name storRe.storage_src_name
  host_center_id := changed storage_res.host_center_id storRe.host_center_id
  host_center_name := changed storage_res.host_center_name storRe.host_center_name
  total_capacity :=
    if storage_res.total_capacity = -1 then storRe.total_capacity else storage_res.total_capacity
  assign_capacity :=
    if storage_res.assign_capacity = -1 then storRe.assign_capacity else storage_res.assign_capacity
  mgs_address := changed storage_res.mgs_address storRe.mgs_address
  state := if storage_res.state = -1 then storRe.state else storage_res.state

/-- `ResAggregation_MGR::update`. -/
def update (storage_res : StorageResource) : Program Call Bool := do
  let key := storagePrefix ++ storage_res.storage_src_id
  match ← getStorage key with
  | none => pure false
  | some storRe => setStorage key (merge storage_res storRe)

end Gvds.Manager
