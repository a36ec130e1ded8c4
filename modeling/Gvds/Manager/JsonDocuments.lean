/-
Module: Gvds.Manager.JsonDocuments
Layer: Manager
Purpose: The encoders and decoders of spaces and zones (include/gvds_struct.h), member by member:
  what is not in a document keeps its value, and the information on its spaces is an optional part
  of a zone.
Imports: Gvds.Manager.Documents
Trusted boundary: JSON is read back as it was written. What stands in a Space or a Zone before the
  first document is decoded is input
Main exports: Space.serialize, Space.deserialize, ZoneObject, ZoneObject.serialize,
  ZoneObject.deserialize, ZoneObject.zone_deserialize_serialize
-/
import Gvds.Manager.Documents

namespace Gvds.Manager

/-! ### Documents of spaces -/

/-- The members of a JSON object that `Space::deserialize` looks for. -/
structure SpaceMembers where
  UUID : Option String
  name : Option Bytes
  capcity : Option Int64
  SC_UUID : Option String
  Storage_UUID : Option String
  root_location : Option String
  hostCenterName : Option String
  storageSrcName : Option String
  Status : Option Bool
  replica_spaces : Option (List String)

/-- `Space::serialize_impl` puts every member. -/
def Space.serialize (sp : Space) : SpaceMembers where
  UUID := some sp.spaceID
  name := some sp.spaceName
  capcity := some sp.spaceSize
  SC_UUID := some sp.hostCenterID
  Storage_UUID := some sp.storageSrcID
  root_location := some sp.spacePath
  hostCenterName := some sp.hostCenterName
  storageSrcName := some sp.storageSrcName
  Status := some sp.status
  replica_spaces := some sp.replica_spaces

/-- `Space::deserialize_impl`: what is not there keeps its value. -/
def Space.deserialize (tmps : Space) (doc : SpaceMembers) : Space where
  spaceID := doc.UUID.getD tmps.spaceID
  spaceName := doc.name.getD tmps.spaceName
  spaceSize := doc.capcity.getD tmps.spaceSize
  hostCenterID := doc.SC_UUID.getD tmps.hostCenterID
  storageSrcID := doc.Storage_UUID.getD tmps.storageSrcID
  spacePath := doc.root_location.getD tmps.spacePath
  hostCenterName := doc.hostCenterName.getD tmps.hostCenterName
  storageSrcName := doc.storageSrcName.getD tmps.storageSrcName
  status := doc.Status.getD tmps.status
  replica_spaces := doc.replica_spaces.getD tmps.replica_spaces

/-- A document of a space leaves nothing of what stood there before. -/
@[simp] theorem Space.deserialize_serialize (tmps sp : Space) :
    tmps.deserialize sp.serialize = sp := rfl

/-! ### Documents of zones -/

/-- `Zone`, with its members that are no part of its document, or an optional one. -/
structure ZoneObject where
  zone : Zone
  spaceBicInfo : List Space
  ownerAuth : Int32
  groupAuth : Int32
  otherAuth : Int32
  contains_spaceinfo : Bool

/-- The members of a JSON object that `Zone::deserialize` looks for. -/
structure ZoneMembers where
  UUID : Option String
  name : Option Bytes
  owner : Option String
  members : Option (List String)
  spaces : Option (List String)
  spaceinfo : Option (List Space)
  ownerAuth : Option Int32
  groupAuth : Option Int32
  otherAuth : Option Int32

/-- `Zone::serialize_impl`. -/
def ZoneObject.serialize (tmp : ZoneObject) : ZoneMembers where
  UUID := some tmp.zone.zoneID
  name := some tmp.zone.zoneName
  owner := some tmp.zone.ownerID
  members := some tmp.zone.memberID
  spaces := some tmp.zone.spaceID
  spaceinfo := if tmp.contains_spaceinfo then some tmp.spaceBicInfo else none
  ownerAuth := if tmp.contains_spaceinfo then some tmp.ownerAuth else none
  groupAuth := if tmp.contains_spaceinfo then some tmp.groupAuth else none
  otherAuth := if tmp.contains_spaceinfo then some tmp.otherAuth else none

/-- A member of the optional part: it is read if `contains_spaceinfo` says so, and it is there. -/
def optionalMember {α : Type} (contains_spaceinfo : Bool) (member : Option α) (value : α) : α :=
  if contains_spaceinfo then member.getD value else value

/-- `Zone::deserialize_impl`. -/
def ZoneObject.deserialize (tmp : ZoneObject) (doc : ZoneMembers) : ZoneObject where
  zone :=
    { zoneID := doc.UUID.getD tmp.zone.zoneID
      zoneName := doc.name.getD tmp.zone.zoneName
      ownerID := doc.owner.getD tmp.zone.ownerID
      memberID := doc.members.getD tmp.zone.memberID
      spaceID := doc.spaces.getD tmp.zone.spaceID }
  spaceBicInfo := optionalMember tmp.contains_spaceinfo doc.spaceinfo tmp.spaceBicInfo
  ownerAuth := optionalMember tmp.contains_spaceinfo doc.ownerAuth tmp.ownerAuth
  groupAuth := optionalMember tmp.contains_spaceinfo doc.groupAuth tmp.groupAuth
  otherAuth := optionalMember tmp.contains_spaceinfo doc.otherAuth tmp.otherAuth
  contains_spaceinfo := tmp.contains_spaceinfo

/-- With or without the optional part, a document gives the zone back. -/
@[simp] theorem ZoneObject.zone_deserialize_serialize (tmp old : ZoneObject) :
    (old.deserialize tmp.serialize).zone = tmp.zone := rfl

/-- What `ZoneShare` and `ZoneShareCancel` write for a document that they have read into a `Zone()`:
they clear `contains_spaceinfo` behind the call of `serialize`. -/
def rewrite (tmp : ZoneObject) (vp : ZoneMembers) (change : List String → List String) :
    ZoneMembers :=
  let tmp := tmp.deserialize vp
  let tmp := { tmp with zone := { tmp.zone with memberID := change tmp.zone.memberID } }
  tmp.serialize

/-- What is written reads back as the zone with other members. -/
theorem zone_deserialize_rewrite (tmp stored reader : ZoneObject)
    (change : List String → List String) :
    (reader.deserialize (rewrite tmp stored.serialize change)).zone =
      { stored.zone with memberID := change stored.zone.memberID } := rfl

end Gvds.Manager
