/-
Module: Gvds.Proofs.BlockIndex
Layer: Proofs
Purpose: The bits of a replicated file's index against the blocks whose bytes have changed. The call
  that marks a range takes the block behind it as well, the first marking counts bytes instead of
  blocks and takes the center for a signed number, and block numbers have 32 bits. The bits are
  exactly the changed blocks if and only if none of this shows.
Imports: Gvds.IoProxy.ReplicaIndex
Trusted boundary: as Gvds.IoProxy.ReplicaIndex
Main exports: Meets, Touched, Marks, ExactIndex, NothingShows, index_exact_iff,
  index_marks_block_behind
-/
import Gvds.IoProxy.ReplicaIndex

namespace Gvds.ReplicaIndex

open ByteFile (InRange)
open ProxyProcess (Roaring FileHandler syncBlk)

variable {β : Type*} {made : Option RepInit} {updates : List IOParam} {c : UInt8} {b : Nat}

/-! ### Blocks that have changed, and bits that are set -/

/-- Block `b` holds a byte of the range. -/
def Meets (off len b : Nat) : Prop := ∃ i, InRange off len i ∧ i / syncBlk = b

/-- Block `b` holds a byte of the initial content that center `c` made, or of an updated range. -/
def Touched (made : Option RepInit) (c : UInt8) (updates : List IOParam) (b : Nat) : Prop :=
  (∃ r, made = some r ∧ r.creator = c ∧ Meets 0 r.size.toNat b) ∨
    ∃ u ∈ updates, Meets u.offset.toNat u.size.toNat b

/-- The block numbers that an update passes on, which have 32 bits, enclose `b`. -/
def Marks (u : IOParam) (b : Nat) : Prop :=
  u.offset.toNat / syncBlk % 2 ^ 32 ≤ b ∧
    b ≤ addU64 u.offset.toNat u.size.toNat / syncBlk % 2 ^ 32

/-- The initial marking of center `c` reaches bit `b`. -/
def MarksInitially (made : Option RepInit) (c : UInt8) (b : Nat) : Prop :=
  ∃ r, made = some r ∧ r.creator = c ∧ c.toNat < 128 ∧ b < r.size.toNat

/-- The bitmap that a handler keeps for center `c`; where there is none no bit is set. -/
def kept (lib : Roaring β) (h : FileHandler β) (c : UInt8) : β :=
  match h.bitmaps c.toNat with
  | some (some bitmap) => bitmap
  | _ => lib.create

/-- Bit `b` of the bitmap for center `c` is set. -/
def BitSet (lib : Bitmaps β) (h : FileHandler β) (c : UInt8) (b : Nat) : Prop :=
  ∃ w : UInt32, w.toNat = b ∧ lib.bit (kept lib.toRoaring h c) w = true

/-- All updates are handled, and then exactly the bits of the changed blocks are set. -/
def ExactIndex (lib : Bitmaps β) (fd : Nat) (made : Option RepInit) (c : UInt8)
    (updates : List IOParam) : Prop :=
  ∃ h, index_after lib.toRoaring fd made c updates = some h ∧
    ∀ b, BitSet lib h c b ↔ Touched made c updates b

/-! ### What the handlers do to the bits -/

/-- The number that the creator's character stands for is that of center `c`. -/
theorem toInt8_eq_iff (d c : UInt8) : d.toInt8.toInt = (c.toNat : Int) ↔ d = c ∧ c.toNat < 128 := by
  have hd := d.toNat_lt
  have hc := c.toNat_lt
  have hval : d.toInt8.toInt = Int.bmod d.toNat (2 ^ 8) := BitVec.toInt_eq_toNat_bmod d.toBitVec
  rw [hval, Int.bmod_def, ← UInt8.toNat_inj]
  omega

/-- Where no null pointer is kept an update adds its closed range of bits to what is kept. -/
theorem handle_file_index_update_kept (lib : Bitmaps β) {h : FileHandler β} (off len : Nat)
    (hnull : h.bitmaps c.toNat ≠ some none) :
    ∃ h', handle_file_index_update lib.toRoaring h [] c off len = some h' ∧
      h'.bitmaps c.toNat = some (some (lib.add_range_closed (kept lib.toRoaring h c)
        (UInt32.ofNat (off / syncBlk)) (UInt32.ofNat (addU64 off len / syncBlk)))) := by
  unfold handle_file_index_update get_bitmap kept
  cases hheld : h.bitmaps c.toNat with
  | some bitmap =>
      cases bitmap with
      | none => exact absurd hheld hnull
      | some bitmap => simp [hheld, Roaring.addRange, FileHandler.flush_bitmap, FileHandler.put]
  | none => simp [hheld, Roaring.addRange, FileHandler.flush_bitmap, FileHandler.put]

/-- An update with a null pointer does not return. -/
theorem handle_file_index_update_null (lib : Bitmaps β) {h : FileHandler β} (off len : Nat)
    (hnull : h.bitmaps c.toNat = some none) :
    handle_file_index_update lib.toRoaring h [] c off len = none := by
  simp only [handle_file_index_update, get_bitmap, hnull, Roaring.addRange]
  split
  · simp [FileHandler.flush_bitmap, hnull, lib.serialize_null_eq]
  · rfl

/-- What is kept in the bits after an update. -/
theorem bitSet_update (lib : Bitmaps β) {h h' : FileHandler β} {u : IOParam}
    (hkept : h'.bitmaps c.toNat = some (some (lib.add_range_closed (kept lib.toRoaring h c)
      (UInt32.ofNat (u.offset.toNat / syncBlk))
      (UInt32.ofNat (addU64 u.offset.toNat u.size.toNat / syncBlk))))) (b : Nat) :
    BitSet lib h' c b ↔ BitSet lib h c b ∨ (b < 2 ^ 32 ∧ Marks u b) := by
  have hnew : kept lib.toRoaring h' c = lib.add_range_closed (kept lib.toRoaring h c)
      (UInt32.ofNat (u.offset.toNat / syncBlk))
      (UInt32.ofNat (addU64 u.offset.toNat u.size.toNat / syncBlk)) := by
    rw [kept, hkept]
  simp only [BitSet, hnew, lib.bit_add_range_closed, UInt32.le_iff_toNat_le, UInt32.toNat_ofNat']
  constructor
  · rintro ⟨w, rfl, hold | hmarked⟩
    · exact Or.inl ⟨w, rfl, hold⟩
    · exact Or.inr ⟨w.toNat_lt, hmarked⟩
  · rintro (⟨w, rfl, hold⟩ | ⟨hlt, hmarked⟩)
    · exact ⟨w, rfl, Or.inl hold⟩
    · have hw : (UInt32.ofNat b).toNat = b := by
        rw [UInt32.toNat_ofNat']
        exact Nat.mod_eq_of_lt hlt
      exact ⟨UInt32.ofNat b, hw, Or.inr (by rw [hw]; exact hmarked)⟩

/-- A run of updates that meets no null pointer is handled, and its bits are added. -/
theorem run_updates (lib : Bitmaps β) (updates : List IOParam) {h : FileHandler β}
    (hnull : h.bitmaps c.toNat ≠ some none) :
    ∃ h', Machine.run (fun h (u : IOParam) =>
        handle_file_index_update lib.toRoaring h [] c u.offset.toNat u.size.toNat) h updates =
          some h' ∧
      ∀ b, BitSet lib h' c b ↔ BitSet lib h c b ∨ (b < 2 ^ 32 ∧ ∃ u ∈ updates, Marks u b) := by
  induction updates generalizing h with
  | nil => exact ⟨h, rfl, fun b => by simp⟩
  | cons u updates ih =>
      obtain ⟨h₁, hstep, hkept⟩ :=
        handle_file_index_update_kept lib u.offset.toNat u.size.toNat hnull
      obtain ⟨h', hrun, hbits⟩ := @ih h₁ (by rw [hkept]; simp)
      refine ⟨h', Machine.run_cons_eq_some.mpr ⟨h₁, hstep, hrun⟩, fun b => ?_⟩
      rw [hbits, bitSet_update lib hkept]
      simp only [List.exists_mem_cons_iff]
      tauto

/-- The file is made with a null pointer in the place that center `c` updates. -/
def NullKept (made : Option RepInit) (c : UInt8) : Prop :=
  ∃ r, made = some r ∧ r.creator = c ∧ c.toNat < 128 ∧ r.size.toNat = 0

/-- What is kept for center `c` after the file has been made. -/
theorem fileMade_spec (lib : Bitmaps β) (fd : Nat) (made : Option RepInit) (c : UInt8) :
    ∃ h, fileMade lib.toRoaring fd made = some h ∧
      (h.bitmaps c.toNat = some none ↔ NullKept made c) ∧
      ∀ b, BitSet lib h c b ↔ b < 2 ^ 32 ∧ MarksInitially made c b := by
  have hempty : ∀ h : FileHandler β, (∀ bitmap, h.bitmaps c.toNat ≠ some (some bitmap)) →
      ∀ b, ¬ BitSet lib h c b := by
    rintro h hnone b ⟨w, -, hset⟩
    have hcreate : kept lib.toRoaring h c = lib.create := by
      unfold kept
      split
      · rename_i bitmap hheld
        exact absurd hheld (hnone bitmap)
      · rfl
    rw [hcreate, lib.bit_create] at hset
    cases hset
  cases made with
  | none =>
      refine ⟨_, rfl, by simp [NullKept], fun b => ?_⟩
      simp only [MarksInitially, reduceCtorEq, false_and, exists_false, and_false, iff_false]
      exact hempty _ (by simp) b
  | some r =>
      -- what is held under the number of `c` after the pointer has been put in its place
      have hheld : ∀ bitmap, (FileHandler.put (⟨fd, fun _ => none⟩ : FileHandler β)
          r.creator.toInt8.toInt bitmap).bitmaps c.toNat =
            if r.creator = c ∧ c.toNat < 128 then some bitmap else none := by
        intro bitmap
        by_cases hown : r.creator.toInt8.toInt = (c.toNat : Int)
        · rw [if_pos ((toInt8_eq_iff r.creator c).mp hown), FileHandler.put, hown]
          exact Function.update_self _ _ _
        · rw [if_neg (mt (toInt8_eq_iff r.creator c).mpr hown)]
          exact Function.update_of_ne (Ne.symm hown) _ _
      refine ⟨_, rfl, ?_⟩
      simp only [NullKept, MarksInitially, Option.some.injEq, exists_eq_left']
      by_cases hown : r.creator = c ∧ c.toNat < 128
      · rw [hheld, if_pos hown]
        cases hrange : lib.from_range 0 r.size.toNat 1 with
        | none =>
            have hzero : r.size.toNat = 0 := by
              have := (lib.from_range_eq_none 0 r.size.toNat 1).mp hrange
              omega
            refine ⟨by simp [hown, hzero], fun b => ?_⟩
            have hnone := hempty (FileHandler.put ⟨fd, fun _ => none⟩ r.creator.toInt8.toInt none)
              (by intro bitmap; rw [hheld, if_pos hown]; simp) b
            simp only [hnone, hzero, Nat.not_lt_zero, and_false]
        | some bitmap =>
            have hpos : r.size.toNat ≠ 0 := by
              intro hzero
              rw [(lib.from_range_eq_none 0 r.size.toNat 1).mpr (by omega)] at hrange
              cases hrange
            refine ⟨by simp [hpos], fun b => ?_⟩
            have hkept : kept lib.toRoaring (FileHandler.put ⟨fd, fun _ => none⟩
                r.creator.toInt8.toInt (some bitmap)) c = bitmap := by
              rw [kept, hheld, if_pos hown]
            simp only [BitSet, hkept, lib.bit_from_range 0 r.size.toNat 1 bitmap hrange,
              Nat.zero_le, Nat.mod_one, true_and, and_true]
            constructor
            · rintro ⟨w, rfl, hlt⟩
              exact ⟨w.toNat_lt, hown.1, hown.2, hlt⟩
            · rintro ⟨hlt, -, -, hin⟩
              have hw : (UInt32.ofNat b).toNat = b := by
                rw [UInt32.toNat_ofNat']
                exact Nat.mod_eq_of_lt hlt
              exact ⟨UInt32.ofNat b, hw, by rwa [hw]⟩
      · rw [hheld, if_neg hown]
        refine ⟨⟨fun h => (nomatch h), fun h => absurd ⟨h.1, h.2.1⟩ hown⟩, fun b => ?_⟩
        constructor
        · exact fun hset => absurd hset (hempty _ (by simp [hheld, hown]) b)
        · exact fun h => absurd ⟨h.2.1, h.2.2.1⟩ hown

/-- The process comes to the end of the updates unless a null pointer is kept and updated, and then
the bits are those that have been marked. -/
theorem index_after_spec (lib : Bitmaps β) (fd : Nat) (made : Option RepInit) (c : UInt8)
    (updates : List IOParam) :
    ((∃ h, index_after lib.toRoaring fd made c updates = some h) ↔
        (NullKept made c → updates = [])) ∧
      ∀ h, index_after lib.toRoaring fd made c updates = some h →
        ∀ b, BitSet lib h c b ↔
          b < 2 ^ 32 ∧ (MarksInitially made c b ∨ ∃ u ∈ updates, Marks u b) := by
  obtain ⟨h₀, hmade, hnull, hbits⟩ := fileMade_spec lib fd made c
  unfold index_after
  rw [hmade, Option.bind_some]
  by_cases hbad : NullKept made c
  · cases updates with
    | nil =>
        refine ⟨by simp [Machine.run], ?_⟩
        rintro h hrun b
        cases hrun
        rw [hbits]
        simp
    | cons u updates =>
        have hcrash := handle_file_index_update_null lib u.offset.toNat u.size.toNat
          (hnull.mpr hbad)
        simp [Machine.run, hcrash, hbad]
  · obtain ⟨h', hrun, hmarked⟩ := run_updates lib updates (mt hnull.mp hbad)
    refine ⟨⟨fun _ h => absurd h hbad, fun _ => ⟨h', hrun⟩⟩, ?_⟩
    intro h hh b
    rw [hrun] at hh
    cases hh
    rw [hmarked, hbits]
    tauto

/-! ### Closed block ranges against half-open byte ranges -/

/-- The blocks of a range that is not empty, by the block of its first and of its last byte. -/
theorem meets_iff {off len : Nat} :
    Meets off len b ↔ len ≠ 0 ∧ off / syncBlk ≤ b ∧ b ≤ (off + len - 1) / syncBlk := by
  unfold Meets InRange syncBlk
  constructor
  · rintro ⟨i, hi, rfl⟩
    omega
  · intro h
    cases Nat.le_total off (b * 0x20000) with
    | inl hle => exact ⟨b * 0x20000, by omega, by omega⟩
    | inr hge => exact ⟨off, by omega, by omega⟩

/-- An empty update marks the block of its offset, as far as 32 bits hold the number. -/
theorem marks_of_empty {u : IOParam} (hempty : u.size.toNat = 0) :
    Marks u b ↔ b = u.offset.toNat / syncBlk % 2 ^ 32 := by
  have hoff := u.offset.isLt
  have hsum : addU64 u.offset.toNat u.size.toNat = u.offset.toNat := by
    rw [hempty]
    exact Nat.mod_eq_of_lt hoff
  rw [Marks, hsum]
  omega

/-- An update that ends below 2^49 marks the blocks that it meets, and the block behind it if it ends
on the boundary of a block. -/
theorem marks_of_lt {u : IOParam} (hpos : u.size.toNat ≠ 0)
    (hend : u.offset.toNat + u.size.toNat < 2 ^ 49) :
    Marks u b ↔ Meets u.offset.toNat u.size.toNat b ∨
      (syncBlk ∣ u.offset.toNat + u.size.toNat ∧
        b = (u.offset.toNat + u.size.toNat) / syncBlk) := by
  rw [meets_iff, Marks]
  unfold addU64 syncBlk
  omega

/-- An update that ends at 2^49 marks block 0 at most, and only if it begins there. -/
theorem meets_of_marks_of_eq {u : IOParam} (hpos : u.size.toNat ≠ 0)
    (hend : u.offset.toNat + u.size.toNat = 2 ^ 49) (h : Marks u b) :
    Meets u.offset.toNat u.size.toNat b := by
  rw [meets_iff]
  unfold Marks addU64 syncBlk at *
  omega

/-- Block numbers have 32 bits exactly up to 2^49. -/
theorem forall_meets_lt_iff {off len : Nat} (hpos : len ≠ 0) :
    (∀ b, Meets off len b → b < 2 ^ 32) ↔ off + len ≤ 2 ^ 49 := by
  constructor
  · intro h
    have hlast := h ((off + len - 1) / syncBlk)
      (meets_iff.mpr ⟨hpos, Nat.div_le_div_right (by omega), Nat.le_refl _⟩)
    unfold syncBlk at hlast
    omega
  · intro h b hb
    have := meets_iff.mp hb
    unfold syncBlk at this
    omega

/-! ### When the index is exact -/

/-- No slip shows in the bits of center `c`: no null pointer is updated; every changed block has a
number of 32 bits; the initial bits, one for each byte, and the blocks behind updates that are empty
or end on a boundary have been changed by something; a creator from 128 on marks its blocks again;
and so do others with the blocks of an update that ends at 2^49. -/
structure NothingShows (made : Option RepInit) (c : UInt8) (updates : List IOParam) : Prop where
  alive : NullKept made c → updates = []
  size_le : ∀ r, made = some r → r.creator = c → r.size.toNat ≤ 2 ^ 49
  end_le : ∀ u ∈ updates, u.size.toNat ≠ 0 → u.offset.toNat + u.size.toNat ≤ 2 ^ 49
  bytes : ∀ b, b < 2 ^ 32 → MarksInitially made c b → Touched made c updates b
  empty : ∀ u ∈ updates, u.size.toNat = 0 →
    Touched made c updates (u.offset.toNat / syncBlk % 2 ^ 32)
  behind : ∀ u ∈ updates, u.size.toNat ≠ 0 → u.offset.toNat + u.size.toNat < 2 ^ 49 →
    syncBlk ∣ u.offset.toNat + u.size.toNat →
      Touched made c updates ((u.offset.toNat + u.size.toNat) / syncBlk)
  signed : ∀ r, made = some r → r.creator = c → 128 ≤ c.toNat →
    ∀ b, Meets 0 r.size.toNat b → ∃ u ∈ updates, Marks u b
  last : ∀ u ∈ updates, u.size.toNat ≠ 0 → u.offset.toNat + u.size.toNat = 2 ^ 49 →
    ∀ b, Meets u.offset.toNat u.size.toNat b →
      MarksInitially made c b ∨ ∃ u' ∈ updates, Marks u' b

/-- Where nothing shows every marked block has changed. -/
theorem NothingShows.touched (h : NothingShows made c updates) (hlt : b < 2 ^ 32)
    (hmarked : MarksInitially made c b ∨ ∃ u ∈ updates, Marks u b) :
    Touched made c updates b := by
  rcases hmarked with hinit | ⟨u, hu, hmarks⟩
  · exact h.bytes b hlt hinit
  · by_cases hempty : u.size.toNat = 0
    · rw [(marks_of_empty hempty).mp hmarks]
      exact h.empty u hu hempty
    · rcases Nat.lt_or_eq_of_le (h.end_le u hu hempty) with hbelow | hat
      · rcases (marks_of_lt hempty hbelow).mp hmarks with hmeets | ⟨hdvd, rfl⟩
        · exact Or.inr ⟨u, hu, hmeets⟩
        · exact h.behind u hu hempty hbelow hdvd
      · exact Or.inr ⟨u, hu, meets_of_marks_of_eq hempty hat hmarks⟩

/-- Where nothing shows every changed block is marked. -/
theorem NothingShows.marked (h : NothingShows made c updates) (htouched : Touched made c updates b) :
    b < 2 ^ 32 ∧ (MarksInitially made c b ∨ ∃ u ∈ updates, Marks u b) := by
  rcases htouched with ⟨r, hr, hc, hmeets⟩ | ⟨u, hu, hmeets⟩
  · have hblock := meets_iff.mp hmeets
    have hsize := h.size_le r hr hc
    refine ⟨by unfold syncBlk at hblock; omega, ?_⟩
    by_cases hsmall : c.toNat < 128
    · exact Or.inl ⟨r, hr, hc, hsmall, by unfold syncBlk at hblock; omega⟩
    · exact Or.inr (h.signed r hr hc (Nat.not_lt.mp hsmall) b hmeets)
  · have hpos := (meets_iff.mp hmeets).1
    have hend := h.end_le u hu hpos
    refine ⟨(forall_meets_lt_iff hpos).mpr hend b hmeets, ?_⟩
    rcases Nat.lt_or_eq_of_le hend with hbelow | hat
    · exact Or.inr ⟨u, hu, (marks_of_lt hpos hbelow).mpr (Or.inl hmeets)⟩
    · exact h.last u hu hpos hat b hmeets

/-- Bits that are exactly the changed blocks show nothing. -/
theorem nothingShows_of_iff (halive : NullKept made c → updates = [])
    (h : ∀ b, b < 2 ^ 32 ∧ (MarksInitially made c b ∨ ∃ u ∈ updates, Marks u b) ↔
      Touched made c updates b) : NothingShows made c updates where
  alive := halive
  size_le := by
    intro r hr hc
    by_cases hzero : r.size.toNat = 0
    · omega
    · have := (forall_meets_lt_iff hzero).mp fun b hb => ((h b).mpr (Or.inl ⟨r, hr, hc, hb⟩)).1
      omega
  end_le := by
    intro u hu hpos
    exact (forall_meets_lt_iff hpos).mp fun b hb => ((h b).mpr (Or.inr ⟨u, hu, hb⟩)).1
  bytes := fun b hlt hinit => (h b).mp ⟨hlt, Or.inl hinit⟩
  empty := by
    intro u hu hempty
    apply (h _).mp
    exact ⟨Nat.mod_lt _ (by decide), Or.inr ⟨u, hu, (marks_of_empty hempty).mpr rfl⟩⟩
  behind := by
    intro u hu hpos hend hdvd
    apply (h _).mp
    refine ⟨?_, Or.inr ⟨u, hu, (marks_of_lt hpos hend).mpr (Or.inr ⟨hdvd, rfl⟩)⟩⟩
    unfold syncBlk
    omega
  signed := by
    intro r hr hc hlarge b hmeets
    rcases ((h b).mpr (Or.inl ⟨r, hr, hc, hmeets⟩)).2 with ⟨-, -, -, hsmall, -⟩ | hmarks
    · omega
    · exact hmarks
  last := by
    intro u hu _ _ b hmeets
    exact ((h b).mpr (Or.inr ⟨u, hu, hmeets⟩)).2

/-- For every way in which a file is made and every sequence of index updates from a center: exactly
the bits of the changed blocks are set if and only if nothing shows. -/
theorem index_exact_iff (lib : Bitmaps β) (fd : Nat) (made : Option RepInit) (c : UInt8)
    (updates : List IOParam) :
    ExactIndex lib fd made c updates ↔ NothingShows made c updates := by
  obtain ⟨hreturns, hbits⟩ := index_after_spec lib fd made c updates
  constructor
  · rintro ⟨h, hrun, hexact⟩
    apply nothingShows_of_iff (hreturns.mp ⟨h, hrun⟩)
    intro b
    rw [← hbits h hrun b, hexact b]
  · intro hshows
    obtain ⟨h, hrun⟩ := hreturns.mpr hshows.alive
    refine ⟨h, hrun, fun b => ?_⟩
    rw [hbits h hrun b]
    exact ⟨fun hb => hshows.touched hb.1 hb.2, fun hb => hshows.marked hb⟩

/-- Bitmaps can be functions, and then the theorem speaks of a file of no bytes that is updated in
its first byte. -/
theorem index_exact_iff_bool :
    ExactIndex boolBitmaps 3 none 1 [⟨0#64, 1#64⟩] ↔ NothingShows none 1 [⟨0#64, 1#64⟩] :=
  index_exact_iff boolBitmaps 3 none 1 [⟨0#64, 1#64⟩]

/-- A center writes the first block of a file in full; the second block is marked as well. -/
theorem index_marks_block_behind :
    ¬ ∀ (β : Type) (lib : Bitmaps β) (fd : Nat) (made : Option RepInit) (c : UInt8)
        (updates : List IOParam), ExactIndex lib fd made c updates := by
  intro h
  obtain ⟨handler, hrun, hexact⟩ := h _ boolBitmaps 3 none 1 [⟨0#64, 131072#64⟩]
  have hbits := (index_after_spec boolBitmaps 3 none 1 [⟨0#64, 131072#64⟩]).2 handler hrun 1
  have hmarked : BitSet boolBitmaps handler 1 1 :=
    hbits.mpr ⟨by decide, Or.inr ⟨_, List.mem_singleton_self _, by unfold Marks; decide⟩⟩
  rcases (hexact 1).mp hmarked with ⟨r, hr, -⟩ | ⟨u, hu, hmeets⟩
  · cases hr
  · rw [List.mem_singleton.mp hu, meets_iff] at hmeets
    exact absurd hmeets (by decide)

end Gvds.ReplicaIndex
