/-
Module: Gvds.Manager.ZoneQueries
Layer: Manager
Purpose: The requests for the zones of a client and for the location of spaces: GetZoneInfo and
  GetZoneLocateInfo (manager/zone/ZoneServer.cc), with GetSpaceInfo and GetSpacePosition
  (manager/space/SpaceServer.cc), which decode all documents into one Space.
Imports: Gvds.Manager.JsonDocuments, Gvds.Manager.UserModelServer
Trusted boundary: as Gvds.Manager.ZoneServer and Gvds.Manager.UserModelServer. What stands in a
  Space before the first document is decoded is input. The bucket has its default name
Main exports: getSpacePositionInto, getZoneLocateInfo, getSpaceInfo, zoneEntry, getZoneInfo,
  getZoneInfoRest
-/
import Gvds.Manager.JsonDocuments
import Gvds.Manager.UserModelServer

namespace Gvds.Manager

/-! ### The location of spaces -/

/-- `GetSpacePosition`, with the space that it decodes all documents into. -/
def getSpacePositionInto (tmps : Space) : List String → Program Call (List Space)
  | [] => pure []
  | m :: spaceID => do
      match ← getSpace m with
      | none => pure []
      | some vs =>
          let tmps := tmps.deserialize vs.serialize
          match ← getStorage tmps.storageSrcID with
          | none => pure []
          | some _ => do
              let result ← getSpacePositionInto tmps spaceID
              pure (tmps :: result)

/-- Nothing is left of one document in the next. -/
theorem getSpacePositionInto_eq (tmps : Space) (spaceID : List String) :
    getSpacePositionInto tmps spaceID = getSpacePosition spaceID := by
  induction spaceID generalizing tmps with
  | nil => rfl
  | cons m spaceID ih =>
      unfold getSpacePositionInto getSpacePosition
      refine congrArg (getSpace m >>= ·) (funext fun vs => ?_)
      cases vs with
      | none => rfl
      | some vs =>
          simp only [Space.deserialize_serialize]
          refine congrArg (getStorage vs.storageSrcID >>= ·) (funext fun storage => ?_)
          cases storage with
          | none => rfl
          | some storage => rw [ih]

/-- `GetZoneLocateInfo`: what it has in `result` when it returns true. It does not look at what
`GetSpacePosition` leaves out. -/
def getZoneLocateInfo (tmps : Space) (clientID zoneID : String) (spaceID : List String)
    (admin : Bool) : Program Call (Option (List Space)) := do
  match ← getZone zoneID with
  | none => pure none
  | some tmp =>
      if clientID = tmp.ownerID ∨ clientID ∈ tmp.memberID ∨ admin then
        if isSubset tmp.spaceID spaceID then some <$> getSpacePositionInto tmps spaceID
        else pure none
      else pure none

/-! ### The zones of a client -/

/-- `GetSpaceInfo`, with the space that it decodes all documents into. -/
def getSpaceInfo (db : Database) (tmps : Space) : List String → List Space
  | [] => []
  | m :: spaceID =>
      match db.space m with
      | none => getSpaceInfo db tmps spaceID
      | some vs =>
          let tmps := tmps.deserialize vs.serialize
          tmps :: getSpaceInfo db tmps spaceID

/-- A zone as it is sent: with the names of its owner and members, and its spaces. -/
structure ZoneListing where
  zoneID : String
  zoneName : Bytes
  ownerID : Bytes
  memberID : List Bytes
  spaceBicInfo : List Space
  spaceID : List String
deriving DecidableEq

/-- The name in the document of an account. -/
def accountName (accounts : UserModel.Bucket) (id : String) : Option Bytes :=
  (accounts (UserModel.userPrefix ++ bytes id)).map fun doc => doc.toAccount.accountName

/-- One round of the loop of `GetZoneInfo`; `none` where it returns for want of an account. -/
def zoneEntry (db : Database) (accounts : UserModel.Bucket) (tmps : Space) (tmp : Zone) :
    Option ZoneListing :=
  match accountName accounts tmp.ownerID with
  | none => none
  | some owner =>
      match tmp.memberID.mapM (accountName accounts) with
      | none => none
      | some members =>
          let result_s := getSpaceInfo db tmps tmp.spaceID
          let spaceBicInfo := result_s.filter Space.status
          some
            { zoneID := tmp.zoneID
              zoneName := tmp.zoneName
              ownerID := owner
              memberID := members
              spaceBicInfo := spaceBicInfo
              spaceID := spaceBicInfo.map Space.spaceID }

/-- The loop of `GetZoneInfo` over the rows of both queries. -/
def zoneEntries (db : Database) (accounts : UserModel.Bucket) (tmps : Space) :
    List Zone → List ZoneListing × Bool
  | [] => ([], true)
  | it :: vp =>
      match zoneEntry db accounts tmps it with
      | none => ([], false)
      | some tmp_zi =>
          let rest := zoneEntries db accounts tmps vp
          (tmp_zi :: rest.1, rest.2)

/-- The query for the zones of an owner. -/
def ownerQueryText (clientID : String) : Bytes :=
  bytes "select UUID, name, owner, members, spaces from `test` where owner = \"" ++
    cstr (bytes clientID) ++ bytes "\" and META().id like 'ZONE-%'"

/-- The query for the zones with a member. -/
def memberQueryText (clientID : String) : Bytes :=
  bytes "select UUID, name, owner, members, spaces from `test` where \"" ++
    cstr (bytes clientID) ++ bytes "\" within members and META().id like 'ZONE-%'"

/-- `query` and `query2`, as `snprintf` leaves them in their buffers of 256 bytes. -/
def ownerQuery (clientID : String) : Bytes := (ownerQueryText clientID).take 255
def memberQuery (clientID : String) : Bytes := (memberQueryText clientID).take 255

/-- `GetZoneInfo`: the zones in `result_z`, and what it returns. -/
def getZoneInfo (ask : QueryService) (db : Database) (accounts : UserModel.Bucket) (tmps : Space)
    (clientID : String) : List ZoneListing × Bool :=
  match ask.zones db (ownerQuery clientID) with
  | none => ([], false)
  | some vp =>
      match ask.zones db (memberQuery clientID) with
      | none => ([], false)
      | some vp2 => zoneEntries db accounts tmps (vp ++ vp2)

/-- `GetZoneInfoRest`: the zones that it sends, whatever `GetZoneInfo` returned; `none` is the reply
`fail`. -/
def getZoneInfoRest (ask : QueryService) (db : Database) (accounts : UserModel.Bucket)
    (tmps : Space) (clientID : String) : Option (List ZoneListing) :=
  let result_z := (getZoneInfo ask db accounts tmps clientID).1
  if result_z = [] then none else some result_z

end Gvds.Manager
