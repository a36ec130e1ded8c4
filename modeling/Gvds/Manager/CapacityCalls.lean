/-
Module: Gvds.Manager.CapacityCalls
Layer: Manager
Purpose: SpaceCreate, SpaceDelete and SpaceSizeChange with their calls of SpaceSizeAdd and
  SpaceSizeDeduct and the differences of sizes as steps of their own. With the functions in the
  place of the steps, they are the programs of Gvds.Manager.SpaceServer.
Imports: Gvds.Manager.SpaceServer
Trusted boundary: as Gvds.Manager.SpaceServer
Main exports: CapacityCall, CapacityOp, perform, spaceCreateOps, spaceDeleteOps, spaceSizeChangeOps,
  SizeRequest, serve, expand_spaceCreateOps, expand_spaceDeleteOps, expand_spaceSizeChangeOps
-/
import Gvds.Manager.SpaceServer

namespace Gvds.Manager

/-! ### Operations -/

/-- The calls of `SpaceSizeAdd` and `SpaceSizeDeduct`, and a difference of two sizes of a space on a
storage cluster. -/
inductive CapacityCall : Type → Type where
  | sizeAdd (StorageID : String) (add_size : Int64) : CapacityCall Int
  | sizeDeduct (StorageID : String) (deduct_size : Int64) : CapacityCall Int
  | difference (StorageID : String) (left right : Int64) : CapacityCall Int64

/-- The operations: calls of the datastore, and these. -/
abbrev CapacityOp (β : Type) : Type := Call β ⊕ CapacityCall β

/-- What an operation is for the datastore. -/
def expandOp : ∀ {β : Type}, CapacityOp β → Program Call β
  | _, .inl c => .perform c
  | _, .inr (.sizeAdd StorageID add_size) => spaceSizeAdd StorageID add_size
  | _, .inr (.sizeDeduct StorageID deduct_size) => spaceSizeDeduct StorageID deduct_size
  | _, .inr (.difference _ left right) => pure (left - right)

/-- A call of the datastore. -/
def call {β : Type} (c : Call β) : Program CapacityOp β := .perform (.inl c)

/-! ### Programs -/

/-- `SpaceCreate`, behind the choice of the storage cluster. -/
def createOn (spaceName : Bytes) (spaceSize : Int64) (uuid : String) (storage : StorageResource) :
    Program CapacityOp (Except String String) := do
  let storageSrcID := storagePrefix ++ storage.storage_src_id
  if (← .perform (.inr (.sizeAdd storageSrcID spaceSize))) ≠ 0 then pure (.error "-1")
  else
    if ← call (.mkdir uuid) then
      if spaceName = [] ∨ spaceSize = 0 then pure (.error "-5")
      else
        if ← call (.set (.space uuid)
            { spaceID := uuid
              spaceName := spaceName
              spaceSize := spaceSize
              hostCenterID := storage.host_center_id
              storageSrcID := storageSrcID
              spacePath := uuid
              hostCenterName := storage.host_center_name
              storageSrcName := storage.storage_src_name
              status := true
              replica_spaces := [] }) then pure (.ok uuid)
        else pure (.error "-2")
    else pure (.error "-2")

/-- `SpaceCreate`. -/
def spaceCreateOps (spaceName : Bytes) (spaceSize : Int64) (spacePathInfo : Space) (uuid : String) :
    Program CapacityOp (Except String String) := do
  let rows ← call (.queryStorages spacePathInfo.hostCenterName spacePathInfo.storageSrcName)
  match ((rows.getD []).foldl preferred none).map Prod.snd with
  | none => pure (.error "-3")
  | some storage => createOn spaceName spaceSize uuid storage

/-- `SpaceDelete`. -/
def spaceDeleteOps : List String → Program CapacityOp Int
  | [] => pure 0
  | m :: spaceID => do
      match ← call (.get (.space m)) with
      | none => pure 0
      | some tmps =>
          if (← .perform (.inr (.sizeDeduct tmps.storageSrcID tmps.spaceSize))) ≠ 0 then
            spaceDeleteOps spaceID
          else
            if ← call (.set (.space m) { tmps with status := false }) then spaceDeleteOps spaceID
            else pure (-1)

/-- The new size with which `SpaceSizeChange` writes the space back, once the capacity is
changed. -/
def storeSizeOps (spaceID : String) (spacejson : Space) (newSpaceSize : Int64) (ret : Int) :
    Program CapacityOp Int := do
  if ret = 0 then
    if ← call (.set (.space spaceID) { spacejson with spaceSize := newSpaceSize }) then pure ret
    else pure EAGAIN
  else pure ret

/-- `SpaceSizeChange`. -/
def spaceSizeChangeOps (spaceID : String) (newSpaceSize realsize : Int64) :
    Program CapacityOp Int := do
  if newSpaceSize < 0 then pure EINVAL
  else
    match ← call (.get (.space spaceID)) with
    | none => pure EAGAIN
    | some spacejson =>
        if ← call .centerInformation then
          if newSpaceSize ≤ realsize / 1000000 + 1 then pure EINVAL
          else if newSpaceSize > spacejson.spaceSize then
            let size ← .perform
              (.inr (.difference spacejson.storageSrcID newSpaceSize spacejson.spaceSize))
            let ret ← .perform (.inr (.sizeAdd spacejson.storageSrcID size))
            storeSizeOps spaceID spacejson newSpaceSize ret
          else if newSpaceSize < spacejson.spaceSize then
            let size ← .perform
              (.inr (.difference spacejson.storageSrcID spacejson.spaceSize newSpaceSize))
            let ret ← .perform (.inr (.sizeDeduct spacejson.storageSrcID size))
            storeSizeOps spaceID spacejson newSpaceSize ret
          else pure 0
        else pure EAGAIN

/-- The requests that change the capacity assigned of a storage cluster. A fresh UUID and the space
in use are input. -/
inductive SizeRequest where
  | create (spaceName : Bytes) (spaceSize : Int64) (spacePathInfo : Space) (uuid : String)
  | sizeChange (spaceID : String) (newSpaceSize realsize : Int64)
  | delete (spaceID : List String)

/-- What a request does. -/
def SizeRequest.ops : SizeRequest → Program CapacityOp Unit
  | .create spaceName spaceSize spacePathInfo uuid => do
      let _ ← spaceCreateOps spaceName spaceSize spacePathInfo uuid
      pure ()
  | .sizeChange spaceID newSpaceSize realsize => do
      let _ ← spaceSizeChangeOps spaceID newSpaceSize realsize
      pure ()
  | .delete spaceID => do
      let _ ← spaceDeleteOps spaceID
      pure ()

/-- A sequence of requests. -/
def serve : List SizeRequest → Program CapacityOp Unit
  | [] => pure ()
  | r :: rs => do
      r.ops
      serve rs

/-! ### The programs are those of the server -/

@[simp] theorem expand_call {β : Type} (c : Call β) :
    (call c).expand expandOp = .perform c := Program.expand_perform expandOp _

theorem expand_spaceCreateOps (spaceName : Bytes) (spaceSize : Int64) (spacePathInfo : Space)
    (uuid : String) :
    (spaceCreateOps spaceName spaceSize spacePathInfo uuid).expand expandOp =
      spaceCreate spaceName spaceSize spacePathInfo uuid := by
  unfold spaceCreateOps spaceCreate getSpaceCreatePath
  rw [Program.expand_bind, expand_call, Program.bind_assoc]
  refine congrArg (Program.perform _ >>= ·) (funext fun rows => ?_)
  dsimp only
  cases ((rows.getD []).foldl preferred none).map Prod.snd with
  | none => rfl
  | some storage =>
      simp only [createOn, Program.expand_bind, Program.expand_ite, Program.expand_pure,
        Program.expand_perform, expand_call]
      rfl

theorem expand_spaceDeleteOps (spaceID : List String) :
    (spaceDeleteOps spaceID).expand expandOp = spaceDelete spaceID := by
  induction spaceID with
  | nil => rfl
  | cons m spaceID ih =>
      unfold spaceDeleteOps spaceDelete
      rw [Program.expand_bind, expand_call]
      refine congrArg (Program.perform _ >>= ·) (funext fun sp => ?_)
      cases sp with
      | none => rfl
      | some tmps =>
          simp only [Program.expand_bind, Program.expand_ite, Program.expand_pure,
            Program.expand_perform, expand_call, ih]
          rfl

theorem expand_storeSizeOps (spaceID : String) (spacejson : Space) (newSpaceSize : Int64)
    (ret : Int) :
    (storeSizeOps spaceID spacejson newSpaceSize ret).expand expandOp =
      storeSize spaceID spacejson newSpaceSize ret := by
  simp only [storeSizeOps, Program.expand_bind, Program.expand_ite, Program.expand_pure,
    expand_call]
  rfl

theorem expand_spaceSizeChangeOps (spaceID : String) (newSpaceSize realsize : Int64) :
    (spaceSizeChangeOps spaceID newSpaceSize realsize).expand expandOp =
      spaceSizeChange spaceID newSpaceSize realsize := by
  unfold spaceSizeChangeOps spaceSizeChange
  rw [Program.expand_ite, Program.expand_bind, expand_call]
  refine congrArg (ite _ _) (congrArg (Program.perform _ >>= ·) (funext fun sp => ?_))
  cases sp with
  | none => rfl
  | some spacejson =>
      simp only [Program.expand_bind, Program.expand_ite, Program.expand_pure,
        Program.expand_perform, expand_call, expand_storeSizeOps]
      rfl

end Gvds.Manager
