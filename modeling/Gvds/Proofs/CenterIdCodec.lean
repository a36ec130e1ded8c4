/-
Module: Gvds.Proofs.CenterIdCodec
Layer: Proofs
Purpose: The center IDs of a replicated space after they have been stored and read. All readers see
  the IDs of the request iff these fit a signed character, the own one is not negative, there are
  at most 255 others, and the own one is not among them.
Imports: Gvds.IoProxy.CenterIds
Trusted boundary: as Gvds.IoProxy.CenterIds
Main exports: IdsSurvive, toId_push_back_iff, create_eq_created, ids_survive_iff
-/
import Gvds.IoProxy.CenterIds

namespace Gvds.CenterIds

open DecimalText (stoi)
open ReplicaQueue (toId)

/-- The centers of a space with the local one: the attribute can be read and has their IDs; the
local center knows its own ID and sends to the others only, each under its key; and the other
centers number the bitmaps of the local one by its ID. -/
structure IdsSurvive (loc : Int) (ids : List Int) (cids : List UInt8) (sent : List UInt32) :
    Prop where
  stored : ∃ attr, getxattr cids = some attr ∧ attr.map toId = (loc :: ids).map key ∧
    peers (push_back loc) attr = ids.map key
  own : toId (push_back loc) = (push_back loc).toUInt32
  notSelf : key loc ∉ sent ∧ key loc ∉ ids.map key
  sent : sent = ids.map key
  received : set_bitmap_id cids = some loc ∧ update_index_id [push_back loc] = some loc

/-! ### One ID -/

/-- The lowest byte of an `int`. -/
theorem toNat_push_back (id : Int) : ((push_back id).toNat : Int) = id % 256 := by
  unfold push_back UInt8.ofInt
  rw [UInt8.toNat_ofNat']
  omega

/-- An `int` as an unsigned number. -/
theorem toNat_key (id : Int) : ((key id).toNat : Int) = id % 2 ^ 32 := by
  unfold key UInt32.ofInt
  rw [UInt32.toNat_ofNat']
  omega

/-- A character as an unsigned number. -/
theorem toNat_toId (c : UInt8) :
    ((toId c).toNat : Int) = if c.toNat < 128 then c.toNat else c.toNat + 2 ^ 32 - 256 := by
  have hlt := c.toNat_lt
  unfold toId
  by_cases h : c.toNat < 128
  · rw [if_pos h, if_pos (UInt8.lt_iff_toNat_lt.mpr h)]
    simp
  · rw [if_neg h, if_neg (fun hc => h (UInt8.lt_iff_toNat_lt.mp hc))]
    rw [UInt32.toNat_add]
    simp only [UInt8.toNat_toUInt32]
    have hconst : (0xFFFFFF00 : UInt32).toNat = 2 ^ 32 - 256 := rfl
    rw [hconst]
    omega

/-- An ID is read as it was iff it fits a signed character. -/
theorem toId_push_back_iff {id : Int} (hmin : -2 ^ 31 ≤ id) (hmax : id < 2 ^ 31) :
    toId (push_back id) = key id ↔ -128 ≤ id ∧ id ≤ 127 := by
  rw [← UInt32.toNat_inj]
  have hpush := toNat_push_back id
  have hkey := toNat_key id
  have htoId := toNat_toId (push_back id)
  split at htoId <;> omega

/-- Different IDs have different keys. -/
theorem key_injective {id id' : Int} (h : -2 ^ 31 ≤ id ∧ id < 2 ^ 31)
    (h' : -2 ^ 31 ≤ id' ∧ id' < 2 ^ 31) (hkey : key id = key id') : id = id' := by
  have hid := toNat_key id
  have hid' := toNat_key id'
  rw [hkey] at hid
  omega

/-- A center knows its ID iff it is no negative character. -/
theorem own_iff (id : Int) :
    toId (push_back id) = (push_back id).toUInt32 ↔ (push_back id).toNat < 128 := by
  rw [← UInt32.toNat_inj, UInt8.toNat_toUInt32]
  have htoId := toNat_toId (push_back id)
  split at htoId <;> omega

/-- A character as a signed number. -/
theorem set_bitmap_id_eq {id : Int} (h : -128 ≤ id) (h' : id ≤ 127) (rest : List UInt8) :
    set_bitmap_id (push_back id :: rest) = some id := by
  simp only [set_bitmap_id, List.head?_cons, Option.map_some, Option.some.injEq]
  change (push_back id).toBitVec.toInt = id
  have hpush := toNat_push_back id
  rw [BitVec.toInt_eq_toNat_cond]
  change (if 2 * (push_back id).toNat < 2 ^ 8 then ((push_back id).toNat : Int)
    else ((push_back id).toNat : Int) - (2 ^ 8 : Nat)) = id
  split <;> omega

/-! ### The list -/

/-- The numbers of a list of parts. -/
theorem mapM_cons_eq_some {cid : List UInt8} {tmp : List (List UInt8)} {ids : List Int} :
    (cid :: tmp).mapM stoi = some ids ↔
      ∃ id rest, stoi cid = some id ∧ tmp.mapM stoi = some rest ∧ id :: rest = ids := by
  simp [List.mapM_cons, Option.bind_eq_some_iff]

/-- A list of parts has its numbers where every part has one. -/
theorem exists_mapM_iff {tmp : List (List UInt8)} :
    (∃ ids, tmp.mapM stoi = some ids) ↔ ∀ cid ∈ tmp, (stoi cid).isSome := by
  induction tmp with
  | nil => simp
  | cons cid tmp ih =>
      rw [List.forall_mem_cons, ← ih]
      constructor
      · rintro ⟨ids, hids⟩
        obtain ⟨id, rest, hid, hrest, -⟩ := mapM_cons_eq_some.mp hids
        exact ⟨by simp [hid], rest, hrest⟩
      · rintro ⟨hid, rest, hrest⟩
        obtain ⟨id, hid⟩ := Option.isSome_iff_exists.mp hid
        exact ⟨id :: rest, mapM_cons_eq_some.mpr ⟨id, rest, hid, hrest, rfl⟩⟩

/-- The loop appends one character for each ID, if all of them are numbers and known. -/
theorem compressIds_ok_iff {ioproxys : UInt32 → Bool} {cids cids' : List UInt8}
    {tmp : List (List UInt8)} :
    compressIds ioproxys cids tmp = .ok cids' ↔
      ∃ ids, tmp.mapM stoi = some ids ∧ (∀ id ∈ ids, ioproxys (key id) = true) ∧
        cids ++ ids.map push_back = cids' := by
  induction tmp generalizing cids with
  | nil => simp [compressIds]
  | cons cid tmp ih =>
      unfold compressIds
      simp only [mapM_cons_eq_some]
      cases stoi cid with
      | none => simp
      | some id =>
          simp only [Option.some.injEq]
          by_cases hknown : ioproxys (key id) = true
          · simp only [hknown, if_true, ih]
            constructor
            · rintro ⟨ids, htmp, hids, rfl⟩
              exact ⟨id :: ids, ⟨id, ids, rfl, htmp, rfl⟩, List.forall_mem_cons.mpr ⟨hknown, hids⟩,
                by simp⟩
            · rintro ⟨_, ⟨_, rest, rfl, htmp, rfl⟩, hids, rfl⟩
              exact ⟨rest, htmp, (List.forall_mem_cons.mp hids).2, by simp⟩
          · simp only [hknown, Bool.false_eq_true, if_false, reduceCtorEq, false_iff]
            rintro ⟨_, ⟨_, _, rfl, _, rfl⟩, hids, _⟩
            exact hknown (hids _ List.mem_cons_self)

theorem compressIds_ok {ioproxys : UInt32 → Bool} {cids cids' : List UInt8}
    {tmp : List (List UInt8)} (h : compressIds ioproxys cids tmp = .ok cids') :
    ∃ ids, tmp.mapM stoi = some ids ∧ cids' = cids ++ ids.map push_back := by
  obtain ⟨ids, htmp, _, hids⟩ := compressIds_ok_iff.mp h
  exact ⟨ids, htmp, hids.symm⟩

/-- The attribute of a space that is accepted, and the centers that are sent to. -/
theorem create_eq_created {mcid : UInt8} {ioproxys : UInt32 → Bool} {cids_str : List UInt8}
    {set : Bool} {ids : List Int} {cids : List UInt8} {sent : List UInt32}
    (hids : (split cids_str).mapM stoi = some ids)
    (h : create_replicated_space mcid ioproxys cids_str set = .created cids sent) :
    cids = mcid :: ids.map push_back ∧ sent = (ids.map push_back).map toId := by
  unfold create_replicated_space at h
  cases hcompress : compressIds ioproxys [mcid] (split cids_str) with
  | error e =>
      rw [hcompress] at h
      cases h
  | ok cids' =>
      obtain ⟨ids', hids', rfl⟩ := compressIds_ok hcompress
      rw [hids] at hids'
      cases hids'
      rw [hcompress] at h
      dsimp only at h
      split at h
      · cases h
        exact ⟨rfl, rfl⟩
      · cases h

/-- All numbers of a text are `int`s. -/
theorem bounds_of_mapM {tmp : List (List UInt8)} {ids : List Int} (h : tmp.mapM stoi = some ids) :
    ∀ id ∈ ids, -2 ^ 31 ≤ id ∧ id < 2 ^ 31 := by
  induction tmp generalizing ids with
  | nil =>
      cases h
      simp
  | cons part tmp ih =>
      obtain ⟨n, rest, hn, hrest, rfl⟩ := mapM_cons_eq_some.mp h
      intro id hid
      rcases List.mem_cons.mp hid with rfl | hid
      · exact DecimalText.stoi_bounds hn
      · exact ih hrest id hid

/-- The IDs of a list are read as they were iff each one is. -/
theorem map_toId_iff {ids : List Int} (h : ∀ id ∈ ids, -2 ^ 31 ≤ id ∧ id < 2 ^ 31) :
    (ids.map push_back).map toId = ids.map key ↔ ∀ id ∈ ids, -128 ≤ id ∧ id ≤ 127 := by
  rw [List.map_map, List.map_inj_left]
  refine forall₂_congr fun id hid => ?_
  exact toId_push_back_iff (h id hid).1 (h id hid).2

/-- **The center IDs survive** iff the local one is in `0..127`, the others are at most 255 in
`-128..127`, and the local one is not among them. -/
theorem ids_survive_iff (center_id cids_str : List UInt8) (ioproxys : UInt32 → Bool) (loc : Int)
    (ids : List Int) (cids : List UInt8) (sent : List UInt32) (hloc : stoi center_id = some loc)
    (hids : (split cids_str).mapM stoi = some ids)
    (hcreate : create_replicated_space (push_back loc) ioproxys cids_str true =
      .created cids sent) :
    IdsSurvive loc ids cids sent ↔
      (0 ≤ loc ∧ loc ≤ 127) ∧ (∀ id ∈ ids, -128 ≤ id ∧ id ≤ 127) ∧ ids.length ≤ 255 ∧
        loc ∉ ids := by
  obtain ⟨rfl, rfl⟩ := create_eq_created hids hcreate
  have hlocal := DecimalText.stoi_bounds hloc
  have hothers := bounds_of_mapM hids
  have hall : ∀ id ∈ loc :: ids, -2 ^ 31 ≤ id ∧ id < 2 ^ 31 := by
    intro id hid
    rcases List.mem_cons.mp hid with rfl | hid
    · exact hlocal
    · exact hothers id hid
  have hpush := toNat_push_back loc
  constructor
  · rintro ⟨⟨attr, hattr, hread, -⟩, hown, ⟨-, hself⟩, -, -⟩
    unfold getxattr at hattr
    split at hattr
    · rename_i hlen
      cases hattr
      have hrange := (map_toId_iff hall).mp hread
      have hloc127 := hrange loc List.mem_cons_self
      rw [own_iff] at hown
      refine ⟨by omega, fun id hid => hrange id (List.mem_cons_of_mem loc hid), ?_, ?_⟩
      · rw [List.length_cons, List.length_map] at hlen
        omega
      · exact fun hmem => hself (List.mem_map_of_mem hmem)
    · cases hattr
  · rintro ⟨hloc127, hrange, hlen, hnot⟩
    have hsame : (ids.map push_back).map toId = ids.map key := (map_toId_iff hothers).mpr hrange
    have hown : toId (push_back loc) = (push_back loc).toUInt32 := by
      rw [own_iff]
      omega
    have hlocKey : toId (push_back loc) = key loc :=
      (toId_push_back_iff hlocal.1 hlocal.2).mpr (by omega)
    have hself : key loc ∉ ids.map key := by
      intro hmem
      obtain ⟨id, hid, hkey⟩ := List.mem_map.mp hmem
      exact hnot (key_injective (hothers id hid) hlocal hkey ▸ hid)
    have hfits : (push_back loc :: ids.map push_back).length ≤ 256 := by
      rw [List.length_cons, List.length_map]
      omega
    refine ⟨⟨_, if_pos hfits, ?_, ?_⟩, hown, ⟨hsame ▸ hself, hself⟩, hsame,
      set_bitmap_id_eq (by omega) hloc127.2 _, ?_⟩
    · simp only [List.map_cons, hsame, hlocKey]
    · unfold peers
      rw [List.map_cons, hsame, List.filter_cons_of_neg (by simp [hown]), List.filter_eq_self]
      intro k hk
      simp only [decide_eq_true_eq]
      rintro rfl
      rw [← hown, hlocKey] at hk
      exact hself hk
    · have hval : ((push_back loc).toNat : Int) = loc := by omega
      exact congrArg some hval

/-- The centers 2 and 3 at center 1. -/
theorem ids_survive_small : IdsSurvive 1 [2, 3] [1, 2, 3] [2, 3] :=
  (ids_survive_iff [49] [50, 44, 51] (fun _ => true) 1 [2, 3] [1, 2, 3] [2, 3] (by decide)
    (by decide) (by decide)).mpr (by decide)

/-- Center 1 makes a space that is replicated at center 200, which is known. -/
theorem large_id_is_lost :
    ¬ ∀ (center_id cids_str : List UInt8) (ioproxys : UInt32 → Bool) (loc : Int) (ids : List Int)
      (cids : List UInt8) (sent : List UInt32), stoi center_id = some loc →
      (split cids_str).mapM stoi = some ids →
      create_replicated_space (push_back loc) ioproxys cids_str true = .created cids sent →
      IdsSurvive loc ids cids sent := by
  intro hall
  have h := hall [49] [50, 48, 48] (fun id => id = 1 ∨ id = 200) 1 [200] [1, 200] [4294967240]
    (by decide) (by decide) (by decide)
  have hsent := h.sent
  revert hsent
  decide

end Gvds.CenterIds
