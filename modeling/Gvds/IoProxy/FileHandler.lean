/-
Module: Gvds.IoProxy.FileHandler
Layer: IoProxy
Purpose: The layout functions of HvsFileHandler (io_proxy/fd_mgr.cc) on one sparse file: the scans
  for holes and for data, and the local hole punch. Each scan is the source's loop over lseek. In
  `findDataInRange` the result of `lseek(SEEK_DATA)` passes through an `int`, so on a file whose
  next data begins beyond 2^31 the scan stops early or runs forever (`none`).
Imports: Gvds.Lib.SparseFile, Mathlib.Algebra.Order.Ring.Nat
Trusted boundary: ext4-like sparse files with 4096-byte blocks (Gvds.Lib.SparseFile)
Main exports: findHolesInRange, findDataInRange, punchHoleLocal, findHolesInRange_spec,
  findDataInRange_spec, punchHoleLocal_spec
-/
import Gvds.Lib.SparseFile
import Mathlib.Algebra.Order.Ring.Nat

namespace Gvds

/-- `_GVDS_BASE_FS_PAGE_SIZE`, also the block size of the file system. -/
abbrev pageSize : Nat := 4096

instance : NeZero pageSize := ⟨by decide⟩

/-- The contents and the layout of a file on an IO proxy's file system. -/
abbrev DataFile := SparseFile pageSize

/-- Addition of two `uint64_t`. -/
def addU64 (a b : Nat) : Nat := (a + b) % 2 ^ 64

/-- An `off_t` stored in an `int` and read back as `uint64_t`, as the `hole_begin` of
`find_data_in_range`. -/
def throughInt (v : Nat) : Nat :=
  if v % 2 ^ 32 < 2 ^ 31 then v % 2 ^ 32 else 2 ^ 64 - 2 ^ 32 + v % 2 ^ 32

/-- The loop of `find_holes_in_range`, with `lim` already clipped to the end of the file. The first
argument bounds the number of rounds; `none` means that the loop is still running. -/
def holesLoop (f : DataFile) (lim : Nat) : Nat → Nat → Option (List (Nat × Nat))
  | 0, _ => none
  | fuel + 1, off =>
      if off < lim then
        match f.seekData off with
        -- lseek's -1 reads as the largest uint64_t: the rest is one hole
        | none => some [(off, lim)]
        | some dataBegin =>
            let rest := (f.seekHole dataBegin).bind fun holeBegin => holesLoop f lim fuel holeBegin
            if off < dataBegin then
              if lim ≤ dataBegin then some [(off, lim)]
              else rest.map fun holes => (off, dataBegin) :: holes
            else rest
      else some []

/-- `HvsFileHandler::find_holes_in_range`. -/
def findHolesInRange (f : DataFile) (start lim : Nat) : Option (List (Nat × Nat)) :=
  holesLoop f (min lim f.size) (min lim f.size - start + 1) start

/-- The loop of `find_data_in_range`, with `lim` already clipped to the end of the file. -/
def dataLoop (f : DataFile) (lim : Nat) : Nat → Nat → Option (List (Nat × Nat))
  | 0, _ => none
  | fuel + 1, off =>
      if off < lim then
        match f.seekHole off with
        | none => some [(off, lim)]
        | some dataBegin =>
            let rest :=
              match f.seekData dataBegin with
              -- lseek's -1 stays -1 in the int and ends the loop
              | none => some []
              | some holeBegin => dataLoop f lim fuel (throughInt holeBegin)
            if off < dataBegin then
              if lim ≤ dataBegin then some [(off, lim)]
              else rest.map fun ranges => (off, dataBegin) :: ranges
            else rest
      else some []

/-- `HvsFileHandler::find_data_in_range`. -/
def findDataInRange (f : DataFile) (start lim : Nat) : Option (List (Nat × Nat)) :=
  dataLoop f (min lim f.size) (min lim f.size - start + 1) start

/-- `HvsFileHandler::punch_hole_local`: the file afterwards and the returned flag. -/
def punchHoleLocal (f : DataFile) (off len : Nat) : DataFile × Bool :=
  let eof := f.size
  let stop := addU64 off len
  let stopAlign := if stop % pageSize ≠ 0 then stop / pageSize * pageSize + pageSize else stop
  let offAlign := off / pageSize * pageSize
  let f := if eof < stop then f.ftruncate stop else f
  -- fallocate refuses an empty range
  if stopAlign - offAlign = 0 then (f, false) else (f.punch offAlign (stopAlign - offAlign), true)

/-! ### The scan for holes -/

/-- The scan for holes ends, and it finds none exactly when the range is all data. -/
theorem holesLoop_spec {f : DataFile} {lim : Nat} (hto : lim ≤ f.size) :
    ∀ (fuel off : Nat), lim - off < fuel →
      ∃ holes, holesLoop f lim fuel off = some holes ∧
        (holes = [] ↔ ∀ i, off ≤ i → i < lim → f.data (i / pageSize) = true)
  | 0, off, h => absurd h (by omega)
  | fuel + 1, off, h => by
      unfold holesLoop
      by_cases hlt : off < lim
      · rw [if_pos hlt]
        cases hdata : f.seekData off with
        | none =>
            refine ⟨_, rfl, by simp, fun hall => ?_⟩
            have hhole := SparseFile.seekData_eq_none.mp hdata off (Nat.le_refl _) (by omega)
            rw [hall off (Nat.le_refl _) hlt] at hhole
            cases hhole
        | some dataBegin =>
            obtain ⟨hstored, ⟨hlow, hhigh⟩, hmin⟩ := SparseFile.seekData_eq_some.mp hdata
            have hholeOff : off < dataBegin → ¬ ∀ i, off ≤ i → i < lim →
                f.data (i / pageSize) = true := by
              intro hbefore hall
              have hhole := hmin off (Nat.le_refl _) hbefore
              rw [hall off (Nat.le_refl _) hlt] at hhole
              cases hhole
            obtain ⟨holeBegin, hseek, hge, hle, hrun, hend⟩ := SparseFile.seekHole_spec hhigh
            have hprogress : dataBegin < holeBegin := by
              rcases Nat.lt_or_eq_of_le hge with hlt' | heq
              · exact hlt'
              · subst heq
                rw [hend hhigh] at hstored
                cases hstored
            obtain ⟨rest, hrest, hrestSpec⟩ :=
              holesLoop_spec hto fuel holeBegin (by omega)
            simp only [hseek, Option.bind_some, hrest, Option.map_some]
            by_cases hbefore : off < dataBegin
            · rw [if_pos hbefore]
              by_cases hpast : lim ≤ dataBegin
              · rw [if_pos hpast]
                exact ⟨_, rfl, by simp, fun hall => absurd hall (hholeOff hbefore)⟩
              · rw [if_neg hpast]
                exact ⟨_, rfl, by simp, fun hall => absurd hall (hholeOff hbefore)⟩
            · rw [if_neg hbefore]
              have heq : off = dataBegin := by omega
              subst heq
              refine ⟨rest, rfl, hrestSpec.trans ⟨fun hall i hi hilim => ?_, fun hall i hi hilim => ?_⟩⟩
              · rcases Nat.lt_or_ge i holeBegin with hilt | hige
                · exact hrun i hi hilt
                · exact hall i hige hilim
              · exact hall i (by omega) hilim
      · rw [if_neg hlt]
        exact ⟨[], rfl, fun _ i hi hilim => absurd hilim (by omega), fun _ => rfl⟩

/-- `find_holes_in_range` always returns, and it finds no hole exactly when every byte of the range
below the end is stored. -/
theorem findHolesInRange_spec (f : DataFile) (start lim : Nat) :
    ∃ holes, findHolesInRange f start lim = some holes ∧
      (holes = [] ↔ ∀ i, start ≤ i → i < lim → i < f.size → f.data (i / pageSize) = true) := by
  obtain ⟨holes, hrun, hspec⟩ :=
    holesLoop_spec (Nat.min_le_right lim f.size)
      (min lim f.size - start + 1) start (by omega)
  refine ⟨holes, hrun, hspec.trans ⟨fun hall i hi hilim hsize => ?_, fun hall i hi hilim => ?_⟩⟩
  · exact hall i hi (by omega)
  · exact hall i hi (by omega) (by omega)

/-! ### The scan for data -/

/-- The `int` of `find_data_in_range` does no harm on this range: where the scan stands in a hole
before `lim` and data follows, the offset of that data keeps its value, or both it and its image
under the conversion end the scan. -/
def ScanFits (f : DataFile) (start lim : Nat) : Prop :=
  ∀ h, start ≤ h → h < min lim f.size → f.data (h / pageSize) = false →
    ∀ v, f.seekData h = some v →
      throughInt v = v ∨ (min lim f.size ≤ v ∧ min lim f.size ≤ throughInt v)

/-- Offsets below 2^31 pass through the `int` unchanged. -/
theorem throughInt_of_lt {v : Nat} (h : v < 2 ^ 31) : throughInt v = v := by
  unfold throughInt
  rw [Nat.mod_eq_of_lt (by omega), if_pos h]

/-- A file that ends below 2^31 is always scanned correctly. -/
theorem scanFits_of_size_le {f : DataFile} (h : f.size ≤ 2 ^ 31) (start lim : Nat) :
    ScanFits f start lim := by
  intro i _ _ _ v hv
  obtain ⟨_, ⟨_, hsize⟩, _⟩ := SparseFile.seekData_eq_some.mp hv
  exact Or.inl (throughInt_of_lt (by omega))

/-- Offset `i` lies in one of the ranges. -/
def Covered (ranges : List (Nat × Nat)) (i : Nat) : Prop := ∃ r ∈ ranges, r.1 ≤ i ∧ i < r.2

@[simp] theorem covered_nil (i : Nat) : Covered [] i ↔ False := by simp [Covered]

@[simp] theorem covered_cons (a b : Nat) (ranges : List (Nat × Nat)) (i : Nat) :
    Covered ((a, b) :: ranges) i ↔ (a ≤ i ∧ i < b) ∨ Covered ranges i := by
  simp [Covered]

/-- What a scan of the range from `off` on reports: ranges of the stored bytes, and all of them. -/
def Reported (f : DataFile) (lim off : Nat) (ranges : List (Nat × Nat)) : Prop :=
  (∀ r ∈ ranges, r.1 < r.2 ∧ r.2 ≤ lim) ∧
    ∀ i, Covered ranges i ↔ off ≤ i ∧ i < lim ∧ f.data (i / pageSize) = true

/-- Nothing is reported where nothing is stored. -/
theorem reported_nil {f : DataFile} {lim off : Nat}
    (h : ∀ i, off ≤ i → i < lim → f.data (i / pageSize) = false) : Reported f lim off [] := by
  refine ⟨by simp, fun i => ?_⟩
  simp only [covered_nil, false_iff]
  rintro ⟨hi, hilim, hstored⟩
  rw [h i hi hilim] at hstored
  cases hstored

/-- The rest of a scan begins behind a stretch that is stored. -/
theorem Reported.cons {f : DataFile} {lim off b : Nat} {ranges : List (Nat × Nat)}
    (h : Reported f lim b ranges) (hoff : off < b) (hb : b ≤ lim)
    (hrun : ∀ i, off ≤ i → i < b → f.data (i / pageSize) = true) :
    Reported f lim off ((off, b) :: ranges) := by
  obtain ⟨hwithin, hspec⟩ := h
  constructor
  · intro r hr
    rcases List.mem_cons.mp hr with rfl | hr
    · exact ⟨hoff, hb⟩
    · exact hwithin r hr
  · intro i
    rw [covered_cons, hspec]
    constructor
    · rintro (⟨hi, hi'⟩ | ⟨hi, hilim, hstored⟩)
      · exact ⟨hi, by omega, hrun i hi hi'⟩
      · exact ⟨by omega, hilim, hstored⟩
    · rintro ⟨hi, hilim, hstored⟩
      rcases Nat.lt_or_ge i b with hilt | hige
      · exact Or.inl ⟨hi, hilt⟩
      · exact Or.inr ⟨hige, hilim, hstored⟩

/-- The rest of a scan begins behind a stretch that is not stored. -/
theorem Reported.skip {f : DataFile} {lim off next : Nat} {ranges : List (Nat × Nat)}
    (h : Reported f lim next ranges) (hnext : off ≤ next)
    (hskip : ∀ i, off ≤ i → i < lim → f.data (i / pageSize) = true → next ≤ i) :
    Reported f lim off ranges := by
  refine ⟨h.1, fun i => (h.2 i).trans ?_⟩
  constructor
  · rintro ⟨hi, hilim, hstored⟩
    exact ⟨by omega, hilim, hstored⟩
  · rintro ⟨hi, hilim, hstored⟩
    exact ⟨hskip i hi hilim hstored, hilim, hstored⟩

/-- The data behind a hole begins behind it, and what is stored begins with it. -/
theorem seekData_behind_hole {f : DataFile} {b next : Nat}
    (hhole : f.data (b / pageSize) = false) (hdata : f.seekData b = some next) :
    b < next ∧ ∀ i, b ≤ i → f.data (i / pageSize) = true → next ≤ i := by
  obtain ⟨hstored, ⟨hlow, -⟩, hmin⟩ := SparseFile.seekData_eq_some.mp hdata
  constructor
  · refine Nat.lt_of_le_of_ne hlow fun heq => ?_
    rw [← heq, hhole] at hstored
    cases hstored
  · intro i hi hstored'
    rcases Nat.lt_or_ge i next with hilt | hige
    · have hnone := hmin i hi hilt
      rw [hstored'] at hnone
      cases hnone
    · exact hige

/-- The scan for data ends and reports exactly the stored bytes of the range, each range lying
inside it. -/
theorem dataLoop_spec {f : DataFile} {start lim : Nat} (hto : lim ≤ f.size)
    (hfits : ∀ h, start ≤ h → h < lim → f.data (h / pageSize) = false →
      ∀ v, f.seekData h = some v → throughInt v = v ∨ (lim ≤ v ∧ lim ≤ throughInt v)) :
    ∀ (fuel off : Nat), start ≤ off → lim - off < fuel →
      ∃ ranges, dataLoop f lim fuel off = some ranges ∧ (∀ r ∈ ranges, r.1 < r.2 ∧ r.2 ≤ lim) ∧
        ∀ i, Covered ranges i ↔ off ≤ i ∧ i < lim ∧ f.data (i / pageSize) = true
  | 0, off, _, h => absurd h (by omega)
  | fuel + 1, off, hfrom, h => by
      change ∃ ranges, dataLoop f lim (fuel + 1) off = some ranges ∧ Reported f lim off ranges
      unfold dataLoop
      by_cases hlt : off < lim
      · rw [if_pos hlt]
        obtain ⟨dataBegin, hseek, hge, hle, hrun, hend⟩ :=
          SparseFile.seekHole_spec (show off < f.size by omega)
        simp only [hseek]
        by_cases hpast : lim ≤ dataBegin
        · -- all the rest is data
          rw [if_pos (show off < dataBegin by omega), if_pos hpast]
          refine ⟨_, rfl, Reported.cons (reported_nil fun i hi hilim => ?_) hlt (Nat.le_refl _) ?_⟩
          · omega
          · exact fun i hi hilim => hrun i hi (by omega)
        · have hhole : f.data (dataBegin / pageSize) = false := hend (by omega)
          have hrest : ∃ ranges,
              (match f.seekData dataBegin with
                | none => some []
                | some holeBegin => dataLoop f lim fuel (throughInt holeBegin)) = some ranges ∧
              Reported f lim dataBegin ranges := by
            cases hdata : f.seekData dataBegin with
            | none =>
                have hnone := SparseFile.seekData_eq_none.mp hdata
                exact ⟨[], rfl, reported_nil fun i hi hilim => hnone i hi (by omega)⟩
            | some holeBegin =>
                obtain ⟨hbehind, hskip⟩ := seekData_behind_hole hhole hdata
                have hnext : throughInt holeBegin = holeBegin ∨
                    (lim ≤ holeBegin ∧ lim ≤ throughInt holeBegin) :=
                  hfits dataBegin (by omega) (by omega) hhole holeBegin hdata
                obtain ⟨ranges, hloop, hreported⟩ :=
                  dataLoop_spec hto hfits fuel (throughInt holeBegin) (by omega) (by omega)
                refine ⟨ranges, hloop, Reported.skip hreported (by omega) fun i hi hilim hst => ?_⟩
                have hge := hskip i hi hst
                omega
          obtain ⟨ranges, hrestEq, hreported⟩ := hrest
          rw [hrestEq]
          by_cases hbefore : off < dataBegin
          · rw [if_pos hbefore, if_neg hpast]
            exact ⟨_, rfl, hreported.cons hbefore (by omega) hrun⟩
          · rw [if_neg hbefore]
            have heq : off = dataBegin := by omega
            subst heq
            exact ⟨ranges, rfl, hreported⟩
      · rw [if_neg hlt]
        exact ⟨[], rfl, reported_nil fun i hi hilim => absurd hilim (by omega)⟩

/-- Where the `int` does no harm, `find_data_in_range` returns and reports exactly the stored bytes
of the range below the end. -/
theorem findDataInRange_spec {f : DataFile} {start lim : Nat} (hfits : ScanFits f start lim) :
    ∃ ranges, findDataInRange f start lim = some ranges ∧
      (∀ r ∈ ranges, r.1 < r.2 ∧ r.2 ≤ f.size) ∧
      ∀ i, Covered ranges i ↔
        start ≤ i ∧ i < lim ∧ i < f.size ∧ f.data (i / pageSize) = true := by
  obtain ⟨ranges, hrun, hwithin, hspec⟩ :=
    dataLoop_spec (Nat.min_le_right lim f.size) hfits
      (min lim f.size - start + 1) start (Nat.le_refl _) (by omega)
  refine ⟨ranges, hrun, fun r hr => ⟨(hwithin r hr).1, by have := (hwithin r hr).2; omega⟩,
    fun i => (hspec i).trans ?_⟩
  constructor
  · rintro ⟨hi, hilim, hstored⟩
    exact ⟨hi, by omega, by omega, hstored⟩
  · rintro ⟨hi, hilim, hsize, hstored⟩
    exact ⟨hi, by omega, hstored⟩

/-! ### The hole punch -/

/-- The pages that `punch_hole_local` frees: those from the page of `off` up to the page of the last
byte, also when the range is empty but its offset is not aligned. -/
def PunchedPage (off len p : Nat) : Prop :=
  off / pageSize ≤ p ∧ p * pageSize < off + len

instance (off len p : Nat) : Decidable (PunchedPage off len p) :=
  inferInstanceAs (Decidable (_ ∧ _))

/-- The effect of the hole punch: the file grows to the end of the range, exactly the pages of the
range are freed, and no byte outside them changes. -/
theorem punchHoleLocal_spec {f : DataFile} {off len : Nat} (hfit : off + len < 2 ^ 64) :
    (punchHoleLocal f off len).1.size = max f.size (off + len) ∧
      (∀ p, (punchHoleLocal f off len).1.data p = true ↔
        f.data p = true ∧ ¬ PunchedPage off len p) ∧
      ∀ i, ¬ PunchedPage off len (i / pageSize) →
        (punchHoleLocal f off len).1.byte i = f.byte i := by
  have hstop : addU64 off len = off + len := Nat.mod_eq_of_lt hfit
  -- the first page and the page behind the last one
  obtain ⟨q, hq, hle, hpages⟩ : ∃ q,
      (if (off + len) % pageSize ≠ 0 then (off + len) / pageSize * pageSize + pageSize
        else off + len) = q * pageSize ∧ off / pageSize ≤ q ∧
      ∀ p, PunchedPage off len p ↔ off / pageSize ≤ p ∧ p < q := by
    unfold PunchedPage pageSize
    by_cases halign : (off + len) % 4096 = 0
    · refine ⟨(off + len) / 4096, ?_, by omega, fun p => ?_⟩
      · rw [if_neg (by simpa using halign)]
        omega
      · omega
    · refine ⟨(off + len) / 4096 + 1, ?_, by omega, fun p => ?_⟩
      · rw [if_pos halign]
        omega
      · omega
  have hgrow : ∀ g : DataFile, g = (if f.size < off + len then f.ftruncate (off + len) else f) →
      g.size = max f.size (off + len) ∧ (∀ p, g.data p = f.data p) ∧
        ∀ i, g.byte i = f.byte i := by
    rintro g rfl
    by_cases hlt : f.size < off + len
    · rw [if_pos hlt]
      refine ⟨by simp only [SparseFile.ftruncate_size]; omega, fun p => ?_, fun i => ?_⟩
      · exact SparseFile.ftruncate_data_of_le (Nat.le_of_lt hlt)
      · exact SparseFile.ftruncate_byte_of_le (Nat.le_of_lt hlt)
    · rw [if_neg hlt]
      exact ⟨by omega, fun _ => rfl, fun _ => rfl⟩
  obtain ⟨hsize, hdata, hbyte⟩ := hgrow _ rfl
  unfold punchHoleLocal
  simp only [hstop, hq]
  by_cases hempty : q * pageSize - off / pageSize * pageSize = 0
  · rw [if_pos hempty]
    have hnone : ∀ p, ¬ PunchedPage off len p := by
      intro p hp
      have := (hpages p).mp hp
      unfold pageSize at hempty this
      omega
    exact ⟨hsize, fun p => by simp [hdata, hnone], fun i _ => hbyte i⟩
  · rw [if_neg hempty]
    refine ⟨hsize, fun p => ?_, fun i hi => ?_⟩
    · rw [SparseFile.punch_blocks_data hle, hdata, hpages]
    · rw [SparseFile.punch_blocks_byte hle (fun h => hi ((hpages _).mpr h)), hbyte]

end Gvds
