/-
Module: Gvds.IoProxy.ReplicaIndex
Layer: IoProxy
Purpose: The index of one replicated file: for each center a bitmap with a bit for each block of 128
  KB (io_proxy/replica_mgr.cc and io_proxy/fd_mgr.cc). The request that makes the replica of a space
  sets the bitmap of its creator from the size of the file; each index update marks the blocks of a
  written range in the bitmap of its sender.
Imports: Gvds.IoProxy.ProxyProcess
Trusted boundary: CRoaring, as its header documents it (`Bitmaps`); a call that serializes a null
  pointer does not return. The descriptor of the file stays open, and the file has no index
  attributes when it is made
Main exports: Bitmaps, get_bitmap, handle_file_index_update, handle_file_index_update_eq, RepInit,
  index_after, boolBitmaps
-/
import Gvds.IoProxy.ProxyProcess

namespace Gvds.ReplicaIndex

open ProxyProcess (Roaring FileHandler syncBlk)

variable {β : Type*}

/-- CRoaring with the bits of a bitmap, and what its header says about them. -/
structure Bitmaps (β : Type*) extends Roaring β where
  bit : β → UInt32 → Bool
  from_range_eq_none : ∀ lo hi step, from_range lo hi step = none ↔ min hi (2 ^ 32) ≤ lo ∨ step = 0
  bit_from_range : ∀ lo hi step bitmap, from_range lo hi step = some bitmap →
    ∀ b, bit bitmap b = true ↔ lo ≤ b.toNat ∧ b.toNat < hi ∧ (b.toNat - lo) % step = 0
  bit_create : ∀ b, bit create b = false
  bit_add_range_closed : ∀ bitmap first last b,
    bit (add_range_closed bitmap first last) b = true ↔ bit bitmap b = true ∨ (first ≤ b ∧ b ≤ last)
  serialize_null_eq : serialize_null = false

/-! ### The handlers on one file -/

/-- `HvsFileHandler::get_bitmap` with `create`, where the attribute of the bitmap has this value. -/
def get_bitmap (lib : Roaring β) (h : FileHandler β) (cid : Int) (value : List UInt8) :
    FileHandler β × Option β :=
  match h.bitmaps cid with
  | some bitmap => (h, bitmap)
  | none =>
      let bitmap := if value ≠ [] then lib.portable_deserialize_safe value else some lib.create
      match bitmap with
      | some bitmap => (h.put cid (some bitmap), some bitmap)
      | none => (h, none)

/-- `_handle_file_index_update` on the handler of its file. -/
def handle_file_index_update (lib : Roaring β) (h : FileHandler β) (value : List UInt8)
    (sender : UInt8) (off len : Nat) : Option (FileHandler β) :=
  let id : Int := sender.toNat
  let (h, bitmap) := get_bitmap lib h id value
  let first := UInt32.ofNat (off / syncBlk)
  let last := UInt32.ofNat (addU64 off len / syncBlk)
  (lib.addRange bitmap first last).bind fun bitmap =>
    let h := if bitmap.isSome then h.put id bitmap else h
    if h.flush_bitmap lib id then some h else none

/-- The handler of the proxy does this to the file that it finds. -/
theorem handle_file_index_update_eq (cfg : ProxyProcess.Config β) (sys : ProxyProcess.System)
    (m : ProxyProcess.Memory β) (r : ProxyProcess.OpRequest) :
    ProxyProcess._handle_file_index_update cfg sys m r =
      match m.get_file_handler sys 0 (cfg.data_path.below r.path) with
      | (none, _) => none
      | (some fd, m) =>
          if r.type ≠ .rep_update_index then none
          else
            (handle_file_index_update cfg.lib fd (sys.bitmap_attr fd.fd r.sender.toNat) r.sender
              r.off r.len).map fun fd => (0, m.setHandler fd) := by
  unfold ProxyProcess._handle_file_index_update
  cases hget : m.get_file_handler sys 0 (cfg.data_path.below r.path) with
  | mk fd m' =>
      cases fd with
      | none => rfl
      | some fd =>
          by_cases htype : r.type ≠ .rep_update_index
          · simp only [if_pos htype]
          · simp only [if_neg htype, handle_file_index_update, Option.map_bind]
            apply Option.bind_congr
            intro bitmap _
            dsimp only [Function.comp]
            rw [apply_ite (Option.map _)]
            rfl

/-! ### The life of a file -/

/-- The request that made the replica: the center that sent it, and the size of the file in it. -/
structure RepInit where
  creator : UInt8
  size : BitVec 64
deriving DecidableEq

/-- The handler of a file that `_handle_create_replicated_space` has made, or of one that has come
about otherwise. The number of the bitmap is a `char`. -/
def fileMade (lib : Roaring β) (fd : Nat) (made : Option RepInit) : Option (FileHandler β) :=
  match made with
  | none => some ⟨fd, fun _ => none⟩
  | some r =>
      FileHandler.set_bitmap lib ⟨fd, fun _ => none⟩ r.creator.toInt8.toInt
        (lib.from_range 0 r.size.toNat 1)

/-- The handler after index updates from one center. A number that the handler does not hold has no
attribute. -/
def index_after (lib : Roaring β) (fd : Nat) (made : Option RepInit) (c : UInt8)
    (updates : List IOParam) : Option (FileHandler β) :=
  (fileMade lib fd made).bind fun h =>
    Machine.run (fun h (u : IOParam) =>
      handle_file_index_update lib h [] c u.offset.toNat u.size.toNat) h updates

/-- Bitmaps as functions. -/
def boolBitmaps : Bitmaps (UInt32 → Bool) where
  from_range := fun lo hi step =>
    if min hi (2 ^ 32) ≤ lo ∨ step = 0 then none
    else some fun b => lo ≤ b.toNat && b.toNat < hi && (b.toNat - lo) % step == 0
  create := fun _ => false
  portable_deserialize_safe := fun _ => none
  add_range_closed := fun bitmap first last b => bitmap b || (first ≤ b && b ≤ last)
  add_null := fun first last => last < first
  serialize_null := false
  free_null := false
  bit := fun bitmap b => bitmap b
  from_range_eq_none := by
    intro lo hi step
    split
    · rename_i h
      exact ⟨fun _ => h, fun _ => rfl⟩
    · rename_i h
      exact ⟨fun hnone => (nomatch hnone), fun hempty => absurd hempty h⟩
  bit_from_range := by
    intro lo hi step bitmap h b
    split at h
    · cases h
    · cases h
      simp [and_assoc]
  bit_create := fun _ => rfl
  bit_add_range_closed := by
    intro bitmap first last b
    simp
  serialize_null_eq := rfl

end Gvds.ReplicaIndex
