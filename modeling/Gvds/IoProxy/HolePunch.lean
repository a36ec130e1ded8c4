/-
Module: Gvds.IoProxy.HolePunch
Layer: IoProxy
Purpose: HvsFileHandler::punch_hole_local (io_proxy/fd_mgr.cc) in the 64 bit arithmetic of the
  source, with the calls that it makes: where the masks wrap or a value is no off_t, fallocate
  refuses. Where it returns true, it is the `punchHoleLocal` on which the replica protocol is built.
Imports: Gvds.IoProxy.FileHandler
Trusted boundary: as Gvds.IoProxy.FileHandler. ftruncate extends a file by a hole, and fallocate
  frees exactly the range it is given, unless they are given what is no off_t
Main exports: pageMask, ftruncate, fallocate, punch_hole_local, Meets, punch_hole_local_extent,
  punch_hole_local_extent_empty
-/
import Gvds.IoProxy.FileHandler

namespace Gvds

open ByteFile (InRange)

/-- `_GVDS_BASE_FS_PAGE_MASK`. -/
def pageMask : UInt64 := 0xFFF

/-- `ftruncate(2)`. A length that is no `off_t` is refused, and the file stays as it is. -/
def ftruncate (f : DataFile) (length : UInt64) : DataFile :=
  if length.toNat < 2 ^ 63 then f.ftruncate length.toNat else f

/-- `fallocate(2)` with `PUNCH_HOLE | KEEP_SIZE`. It refuses an empty range, and one that begins or
ends where there is no `off_t`; `err` is any other error. -/
def fallocate (f : DataFile) (offset len : UInt64) (err : Bool) : Option DataFile :=
  if err = false ∧ 0 < len.toNat ∧ offset.toNat + len.toNat < 2 ^ 63 then
    some (f.punch offset.toNat len.toNat)
  else none

/-- `HvsFileHandler::punch_hole_local` on the file of its descriptor, if there is one. What
`ftruncate` returns is not looked at. -/
def punch_hole_local (fd : Option DataFile) (offset len : UInt64) (err : Bool) :
    Option DataFile × Bool :=
  match fd with
  | none => (none, false)
  | some f =>
      let eof := f.size
      let stop := offset + len
      let offset_align := offset &&& ~~~pageMask
      let end_align :=
        if stop &&& pageMask ≠ 0 then (stop &&& ~~~pageMask) + UInt64.ofNat pageSize else stop
      let f := if eof < stop.toNat then ftruncate f stop else f
      match fallocate f offset_align (end_align - offset_align) err with
      | none => (some f, false)
      | some f => (some f, true)

/-! ### The masks -/

/-- The bits of the mask and the others make up a number. -/
theorem toNat_mask_add (v : UInt64) :
    (v &&& ~~~pageMask).toNat + (v &&& pageMask).toNat = v.toNat := by
  have hdisjoint : (v.toBitVec &&& ~~~pageMask.toBitVec) &&& (v.toBitVec &&& pageMask.toBitVec) =
      0#64 := by
    ext i
    simp only [BitVec.getElem_and, BitVec.getElem_not, BitVec.getElem_zero]
    cases v.toBitVec[i] <;> cases pageMask.toBitVec[i] <;> rfl
  have hjoin : (v.toBitVec &&& ~~~pageMask.toBitVec) ||| (v.toBitVec &&& pageMask.toBitVec) =
      v.toBitVec := by
    ext i
    simp only [BitVec.getElem_or, BitVec.getElem_and, BitVec.getElem_not]
    cases v.toBitVec[i] <;> cases pageMask.toBitVec[i] <;> rfl
  have hsum := BitVec.toNat_add_of_and_eq_zero hdisjoint
  rw [BitVec.add_eq_or_of_and_eq_zero _ _ hdisjoint, hjoin] at hsum
  exact hsum.symm

/-- The bits of the mask are the offset in the page. -/
theorem toNat_and_pageMask (v : UInt64) : (v &&& pageMask).toNat = v.toNat % pageSize :=
  Nat.and_two_pow_sub_one_eq_mod v.toNat 12

/-- Without them the number is that of the page's first byte. -/
theorem toNat_and_not_pageMask (v : UInt64) :
    (v &&& ~~~pageMask).toNat = v.toNat / pageSize * pageSize := by
  have hsum := toNat_mask_add v
  rw [toNat_and_pageMask] at hsum
  have hdiv := Nat.div_add_mod' v.toNat pageSize
  omega

theorem and_pageMask_ne_zero_iff (v : UInt64) : v &&& pageMask ≠ 0 ↔ v.toNat % pageSize ≠ 0 := by
  rw [← toNat_and_pageMask, ne_eq, ne_eq, ← UInt64.toNat_inj]
  rfl

/-- The end of the page in which `n` lies, or `n` itself if it is the end of one. -/
def pageEnd (n : Nat) : Nat := if n % pageSize ≠ 0 then n / pageSize * pageSize + pageSize else n

theorem le_pageEnd (n : Nat) : n ≤ pageEnd n := by
  unfold pageEnd pageSize
  split <;> omega

theorem pageEnd_le {n : Nat} (h : n < 2 ^ 64) : pageEnd n ≤ 2 ^ 64 := by
  unfold pageEnd pageSize
  split <;> omega

/-- The rounding up of the source wraps at the end of the last page. -/
theorem toNat_end_align (v : UInt64) :
    (if v &&& pageMask ≠ 0 then (v &&& ~~~pageMask) + UInt64.ofNat pageSize else v).toNat =
      pageEnd v.toNat % 2 ^ 64 := by
  unfold pageEnd
  by_cases hpage : v.toNat % pageSize = 0
  · have hmask : ¬ v &&& pageMask ≠ 0 := fun hne => (and_pageMask_ne_zero_iff v).mp hne hpage
    rw [if_neg hmask, if_neg (not_not_intro hpage), Nat.mod_eq_of_lt v.toNat_lt]
  · rw [if_pos ((and_pageMask_ne_zero_iff v).mpr hpage), if_pos hpage, UInt64.toNat_add,
      toNat_and_not_pageMask]
    rfl

/-! ### The extent -/

/-- What `fallocate` does where it succeeds. -/
theorem fallocate_eq_some {f g : DataFile} {offset len : UInt64} {err : Bool}
    (h : fallocate f offset len err = some g) :
    0 < len.toNat ∧ offset.toNat + len.toNat < 2 ^ 63 ∧ g = f.punch offset.toNat len.toNat := by
  unfold fallocate at h
  split at h
  · rename_i hok
    cases h
    exact ⟨hok.2.1, hok.2.2, rfl⟩
  · cases h

/-- Where `punch_hole_local` returns true, nothing has wrapped, and it has done what
`punchHoleLocal` does. -/
theorem punch_hole_local_eq {f g : DataFile} {offset len : UInt64} {err : Bool}
    (hlen : 1 ≤ len.toNat) (hfit : offset.toNat + len.toNat < 2 ^ 64)
    (h : punch_hole_local (some f) offset len err = (some g, true)) :
    g = (punchHoleLocal f offset.toNat len.toNat).1 := by
  have hstop : (offset + len).toNat = offset.toNat + len.toNat := by
    rw [UInt64.toNat_add, Nat.mod_eq_of_lt hfit]
  have hadd : addU64 offset.toNat len.toNat = offset.toNat + len.toNat := Nat.mod_eq_of_lt hfit
  have hbelow := Nat.div_mul_le_self offset.toNat pageSize
  have hle := le_pageEnd (offset.toNat + len.toNat)
  have hend := pageEnd_le hfit
  unfold punch_hole_local at h
  dsimp only at h
  split at h
  · cases h
  · rename_i g' hcall
    cases h
    obtain ⟨hpos, hoffT, rfl⟩ := fallocate_eq_some hcall
    rw [UInt64.toNat_sub, toNat_end_align, toNat_and_not_pageMask, hstop] at hpos hoffT ⊢
    -- a page end that wrapped to 0 would leave no length, or one that is no off_t
    have hsub : (2 ^ 64 - offset.toNat / pageSize * pageSize +
        pageEnd (offset.toNat + len.toNat) % 2 ^ 64) % 2 ^ 64 =
          pageEnd (offset.toNat + len.toNat) - offset.toNat / pageSize * pageSize := by
      omega
    have hne : ¬ pageEnd (offset.toNat + len.toNat) - offset.toNat / pageSize * pageSize = 0 := by
      omega
    have hlength : offset.toNat + len.toNat < 2 ^ 63 := by omega
    unfold punchHoleLocal ftruncate
    rw [hsub, hstop, hadd, if_pos hlength]
    unfold pageEnd at hne ⊢
    dsimp only
    rw [if_neg hne]

/-- A page meets the range of `n` bytes from `off`. -/
def Meets (off n p : Nat) : Prop := ∃ i, InRange off n i ∧ i / pageSize = p

/-- A page is punched iff it meets the range, if the range is not empty. -/
theorem punchedPage_iff_meets {off n p : Nat} (hn : 1 ≤ n) : PunchedPage off n p ↔ Meets off n p := by
  unfold PunchedPage Meets InRange pageSize
  constructor
  · rintro ⟨hlow, hhigh⟩
    by_cases hfirst : off ≤ p * 4096
    · exact ⟨p * 4096, ⟨hfirst, hhigh⟩, by omega⟩
    · exact ⟨off, ⟨Nat.le_refl _, by omega⟩, by omega⟩
  · rintro ⟨i, ⟨hlow, hhigh⟩, rfl⟩
    exact ⟨Nat.div_le_div_right hlow, by omega⟩

/-- **Hole punching has exactly its extent.** Where `punch_hole_local` returns true for a range of
at least one byte, the file has grown to the end of the range, each page that meets the range is a
hole and reads as zeros, and every other page has its bytes and its place in the layout. -/
theorem punch_hole_local_extent (f g : DataFile) (offset len : UInt64) (err : Bool)
    (hlen : 1 ≤ len.toNat) (hfit : offset.toNat + len.toNat < 2 ^ 64)
    (h : punch_hole_local (some f) offset len err = (some g, true)) :
    g.size = max f.size (offset.toNat + len.toNat) ∧
      (∀ p, Meets offset.toNat len.toNat p → g.data p = false) ∧
      (∀ i, Meets offset.toNat len.toNat (i / pageSize) → g.byte i = 0) ∧
      (∀ p, ¬ Meets offset.toNat len.toNat p → g.data p = f.data p) ∧
      ∀ i, ¬ Meets offset.toNat len.toNat (i / pageSize) → g.byte i = f.byte i := by
  obtain ⟨hsize, hdata, hbyte⟩ := punchHoleLocal_spec (f := f) hfit
  rw [← punch_hole_local_eq hlen hfit h] at hsize hdata hbyte
  have hhole : ∀ p, Meets offset.toNat len.toNat p → g.data p = false := by
    intro p hp
    apply Bool.eq_false_iff.mpr
    intro htrue
    exact ((hdata p).mp htrue).2 ((punchedPage_iff_meets hlen).mpr hp)
  refine ⟨hsize, hhole, fun i hi => g.hole_zero i (hhole _ hi), fun p hp => ?_, fun i hi => ?_⟩
  · have hout : ¬ PunchedPage offset.toNat len.toNat p :=
      fun hpunched => hp ((punchedPage_iff_meets hlen).mp hpunched)
    rw [Bool.eq_iff_iff, hdata]
    exact ⟨fun h => h.1, fun h => ⟨h, hout⟩⟩
  · exact hbyte i fun hpunched => hi ((punchedPage_iff_meets hlen).mp hpunched)

/-- A range inside the second page of an empty file. -/
theorem punch_hole_local_extent_empty :
    (((SparseFile.empty pageSize).ftruncate 5010).punch 4096 4096).size =
        max (SparseFile.empty pageSize).size ((5000 : UInt64).toNat + (10 : UInt64).toNat) ∧
      (∀ p, Meets (5000 : UInt64).toNat (10 : UInt64).toNat p →
        (((SparseFile.empty pageSize).ftruncate 5010).punch 4096 4096).data p = false) ∧
      (∀ i, Meets (5000 : UInt64).toNat (10 : UInt64).toNat (i / pageSize) →
        (((SparseFile.empty pageSize).ftruncate 5010).punch 4096 4096).byte i = 0) ∧
      (∀ p, ¬ Meets (5000 : UInt64).toNat (10 : UInt64).toNat p →
        (((SparseFile.empty pageSize).ftruncate 5010).punch 4096 4096).data p =
          (SparseFile.empty pageSize).data p) ∧
      ∀ i, ¬ Meets (5000 : UInt64).toNat (10 : UInt64).toNat (i / pageSize) →
        (((SparseFile.empty pageSize).ftruncate 5010).punch 4096 4096).byte i =
          (SparseFile.empty pageSize).byte i :=
  punch_hole_local_extent (SparseFile.empty pageSize)
    (((SparseFile.empty pageSize).ftruncate 5010).punch 4096 4096) 5000 10 false (by decide)
    (by decide) rfl

end Gvds
