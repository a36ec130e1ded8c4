/-
Module: Gvds.Manager.ZoneServer
Layer: Manager
Purpose: The operations of ZoneServer (manager/zone/ZoneServer.cc) that change zones, as programs of
  datastore calls, and the manager's requests executed one at a time with every call succeeding.
Imports: Gvds.Manager.SpaceServer, Mathlib.Data.List.Sort
Trusted boundary: as Gvds.Manager.SpaceServer. Whether a user is an administrator is input. The
  bucket has its default name
Main exports: isSubset, zoneQuery, zoneRegister, zoneAdd, zoneCancel, mapAdd, mapDeduct, zoneRename,
  zoneShare, zoneShareCancel, Request, step
-/
import Gvds.Manager.SpaceServer
import Mathlib.Data.List.Sort

namespace Gvds.Manager

/-- The loop of `isSubset`, over two sorted vectors. -/
def isSubsetLoop : List String → List String → Bool
  | _, [] => true
  | [], _ :: _ => false
  | a :: v1, b :: v2 =>
      if a < b then isSubsetLoop v1 (b :: v2)
      else if a = b then isSubsetLoop v1 v2
      else false

/-- `isSubset`: all of `v2` is in `v1`, with its multiplicity. -/
def isSubset (v1 v2 : List String) : Bool :=
  if v1.length < v2.length then false
  else
    isSubsetLoop (v1.mergeSort fun a b => decide (a ≤ b)) (v2.mergeSort fun a b => decide (a ≤ b))

/-- The bytes of a text. -/
def bytes (text : String) : Bytes := text.toUTF8.data.toList

/-- What `%s` takes of a string: `c_str` ends at the first null byte. -/
def cstr (s : Bytes) : Bytes := s.takeWhile (· ≠ 0)

/-- The query for the zones of an owner with a name. -/
def zoneQueryText (ownerID : String) (zoneName : Bytes) : Bytes :=
  bytes "select UUID, name, owner, members, spaces from `test` where owner = \"" ++
    cstr (bytes ownerID) ++ bytes "\" and name = \"" ++ cstr zoneName ++
    bytes "\" and META().id like 'ZONE-%'"

/-- The query as `snprintf` leaves it in its buffer of 256 bytes. -/
def zoneQuery (ownerID : String) (zoneName : Bytes) : Bytes :=
  (zoneQueryText ownerID zoneName).take 255

/-- The error code for what `SpaceCreate` returns. -/
def errorOf (res_sc : String) : Int :=
  if res_sc = "-1" then ENOSPC
  else if res_sc = "-2" then EAGAIN
  else if res_sc = "-3" then ENOENT
  else if res_sc = "-4" then EACCES
  else EINVAL

/-- `ZoneRegister`. It does not look at the error code of its query. -/
def zoneRegister (zoneName : Bytes) (ownerID : String) (memberID : List String) (spaceName : Bytes)
    (spaceSize : Int64) (spacePathInfo : Space) (zoneUuid spaceUuid : String) : Program Call Int := do
  let vp ← .perform (.queryZones (zoneQuery ownerID zoneName))
  if (vp.getD []).length ≠ 0 then pure EINVAL
  else
    match ← spaceCreate spaceName spaceSize spacePathInfo spaceUuid with
    | .error res_sc => pure (errorOf res_sc)
    | .ok spaceID =>
        if zoneName = [] then pure EINVAL
        else
          if ← setZone zoneUuid
              { zoneID := zoneUuid
                zoneName := zoneName
                ownerID := ownerID
                memberID := memberID
                spaceID := [spaceID] } then pure 0
          else pure EAGAIN

/-- `ZoneAdd`. -/
def zoneAdd (zoneName : Bytes) (ownerID : String) (memberID : List String) (spacePathInfo : Space)
    (zoneUuid : String) : Program Call Int := do
  match ← .perform (.queryZones (zoneQuery ownerID zoneName)) with
  | none => pure EAGAIN
  | some [] =>
      match ← spaceCheck spacePathInfo with
      | none => pure EINVAL
      | some spaceID =>
          if ← setZone zoneUuid
              { zoneID := zoneUuid
                zoneName := zoneName
                ownerID := ownerID
                memberID := memberID
                spaceID := [spaceID] } then pure 0
          else pure EAGAIN
  | some [tmp] =>
      match ← spaceCheck spacePathInfo with
      | none => pure EINVAL
      | some spaceID =>
          if ← setZone tmp.zoneID { tmp with spaceID := tmp.spaceID ++ [spaceID] } then pure 0
          else pure EAGAIN
  | some (_ :: _ :: _) => pure EINVAL

/-- `ZoneCancel`. -/
def zoneCancel (zoneID ownerID : String) (admin : Bool) : Program Call Int := do
  match ← getZone zoneID with
  | none => pure EAGAIN
  | some tmp =>
      if tmp.ownerID = ownerID ∨ admin then
        if (← spaceDelete tmp.spaceID) = 0 then
          if ← removeZone zoneID then pure 0 else pure EAGAIN
        else pure EAGAIN
      else pure EACCES

/-- `MapAdd`. For a user who does not own the zone it ends without a value. -/
def mapAdd (zoneID ownerID : String) (spaceName : Bytes) (spaceSize : Int64) (spacePathInfo : Space)
    (spaceUuid : String) : Program Call (Option Int) := do
  match ← getZone zoneID with
  | none => pure (some EAGAIN)
  | some tmp =>
      let tmps ← getSpacePosition tmp.spaceID
      if tmps.any fun m => m.spaceName = spaceName then pure (some EINVAL)
      else if tmp.ownerID = ownerID then
        match ← spaceCreate spaceName spaceSize spacePathInfo spaceUuid with
        | .error res_sc => pure (some (errorOf res_sc))
        | .ok spaceID =>
            if ← setZone zoneID { tmp with spaceID := tmp.spaceID ++ [spaceID] } then pure (some 0)
            else pure (some EAGAIN)
      else pure none

/-- `MapDeduct`. It does not look at what `SpaceDelete` returns. -/
def mapDeduct (zoneID ownerID : String) (spaceID : List String) : Program Call Int := do
  match ← getZone zoneID with
  | none => pure EAGAIN
  | some tmp =>
      if tmp.ownerID = ownerID then
        if isSubset tmp.spaceID spaceID then
          let _ ← spaceDelete spaceID
          if ← setZone zoneID
              { tmp with spaceID := tmp.spaceID.filter fun m => m ∉ spaceID } then pure 0
          else pure EAGAIN
        else pure EINVAL
      else pure EACCES

/-- `ZoneRename`. It does not look at the error code of its query. -/
def zoneRename (zoneID ownerID : String) (newZoneName : Bytes) (admin : Bool) :
    Program Call Int := do
  match ← getZone zoneID with
  | none => pure EAGAIN
  | some tmp =>
      if tmp.ownerID = ownerID ∨ admin then
        let vp ← .perform (.queryZones (zoneQuery ownerID (cutName newZoneName)))
        if (vp.getD []).length ≠ 0 then pure EINVAL
        else
          if ← setZone zoneID { tmp with zoneName := cutName newZoneName } then pure 0
          else pure EAGAIN
      else pure EACCES

/-- The loop of `ZoneShare` over the new members. -/
def shareWith (memberID : List String) (members : List String) : List String :=
  memberID.foldl (fun members tmp_mem =>
    if tmp_mem ∈ members then members else members ++ [tmp_mem]) members

/-- `ZoneShare`. -/
def zoneShare (zoneID ownerID : String) (memberID : List String) (admin : Bool) :
    Program Call Int := do
  match ← getZone zoneID with
  | none => pure EAGAIN
  | some tmp =>
      if tmp.ownerID = ownerID ∨ admin then
        if ← setZone zoneID { tmp with memberID := shareWith memberID tmp.memberID } then pure 0
        else pure EAGAIN
      else pure EACCES

/-- `ZoneShareCancel`. It looks at the members before it looks at the owner. -/
def zoneShareCancel (zoneID ownerID : String) (memberID : List String) (admin : Bool) :
    Program Call Int := do
  match ← getZone zoneID with
  | none => pure EAGAIN
  | some tmp =>
      if isSubset tmp.memberID memberID then
        if tmp.ownerID = ownerID ∨ admin then
          if ← setZone zoneID
              { tmp with memberID := tmp.memberID.filter fun m => m ∉ memberID } then pure 0
          else pure EAGAIN
        else pure EACCES
      else pure EINVAL

/-! ### The requests -/

/-- The requests that change zones and spaces, with what is input of their operations. -/
inductive Request where
  | zoneRegister (zoneName : Bytes) (ownerID : String) (memberID : List String) (spaceName : Bytes)
      (spaceSize : Int64) (spacePathInfo : Space) (zoneUuid spaceUuid : String)
  | zoneAdd (zoneName : Bytes) (ownerID : String) (memberID : List String) (spacePathInfo : Space)
      (zoneUuid : String)
  | zoneCancel (zoneID ownerID : String) (admin : Bool)
  | mapAdd (zoneID ownerID : String) (spaceName : Bytes) (spaceSize : Int64) (spacePathInfo : Space)
      (spaceUuid : String)
  | mapDeduct (zoneID ownerID : String) (spaceID : List String)
  | zoneRename (zoneID ownerID : String) (newZoneName : Bytes) (admin : Bool)
  | spaceRename (spaceID : String) (newSpaceName : Bytes)
  | spaceSizeChange (spaceID : String) (newSpaceSize realsize : Int64)

/-- The UUIDs that a request draws are new. -/
def Request.Fresh (db : Database) : Request → Prop
  | .zoneRegister _ _ _ _ _ _ zoneUuid spaceUuid =>
      (db.zone zoneUuid).isNone ∧ (db.space spaceUuid).isNone
  | .zoneAdd _ _ _ _ zoneUuid => (db.zone zoneUuid).isNone
  | .mapAdd _ _ _ _ _ spaceUuid => (db.space spaceUuid).isNone
  | .zoneCancel _ _ _ => True
  | .mapDeduct _ _ _ => True
  | .zoneRename _ _ _ _ => True
  | .spaceRename _ _ => True
  | .spaceSizeChange _ _ _ => True

instance (db : Database) (r : Request) : Decidable (r.Fresh db) := by
  cases r <;> unfold Request.Fresh <;> infer_instance

/-- The operation that serves a request, with the value it returns. -/
def Request.program : Request → Program Call (Option Int)
  | .zoneRegister zoneName ownerID memberID spaceName spaceSize spacePathInfo zoneUuid spaceUuid =>
      some <$> Manager.zoneRegister zoneName ownerID memberID spaceName spaceSize spacePathInfo
        zoneUuid spaceUuid
  | .zoneAdd zoneName ownerID memberID spacePathInfo zoneUuid =>
      some <$> Manager.zoneAdd zoneName ownerID memberID spacePathInfo zoneUuid
  | .zoneCancel zoneID ownerID admin => some <$> Manager.zoneCancel zoneID ownerID admin
  | .mapAdd zoneID ownerID spaceName spaceSize spacePathInfo spaceUuid =>
      Manager.mapAdd zoneID ownerID spaceName spaceSize spacePathInfo spaceUuid
  | .mapDeduct zoneID ownerID spaceID => some <$> Manager.mapDeduct zoneID ownerID spaceID
  | .zoneRename zoneID ownerID newZoneName admin =>
      some <$> Manager.zoneRename zoneID ownerID newZoneName admin
  | .spaceRename spaceID newSpaceName => some <$> Manager.spaceRename spaceID newSpaceName
  | .spaceSizeChange spaceID newSpaceSize realsize =>
      some <$> Manager.spaceSizeChange spaceID newSpaceSize realsize

/-- The documents after a request, with every call succeeding. -/
def Request.exec (ask : QueryService) (db : Database) (r : Request) : Database :=
  ((server ask).exec r.program db).2

/-- The documents after a request, with the calls failing that `fails` says. -/
def Request.execFaulty (ask : QueryService) (fails : Nat → Bool) (db : Database) (r : Request) :
    Database := ((server ask).execFaulty fails r.program (db, 0)).2.1

/-- Without failing calls all calls succeed. -/
theorem Request.exec_eq (ask : QueryService) (db : Database) (r : Request) :
    r.exec ask db = r.execFaulty ask Server.noFails db :=
  (server ask).exec_eq_execFaulty r.program db

/-- The manager executes one request. -/
def step (ask : QueryService) (db : Database) (r : Request) : Option Database :=
  if r.Fresh db then some (r.exec ask db) else none

end Gvds.Manager
