/-
Module: Gvds.IoProxy.RangeScan
Layer: IoProxy
Purpose: The two scans of HvsFileHandler (io_proxy/fd_mgr.cc) over any layout of any file: the loops
  of find_holes_in_range and find_data_in_range with the variables they keep lseek's results in. The
  first keeps them in uint64_t and finds the maximal holes. The second keeps one in an int, and finds
  the maximal data ranges where that conversion does no harm.
Imports: Gvds.IoProxy.FileHandler, Gvds.Lib.MaximalRuns
Trusted boundary: lseek(2) (Gvds.Lib.SparseFile); the size of a file is an off_t
Main exports: DiskFile, findHolesLoop, findDataLoop, FindsHoles, FindsData, finds_holes_runs, Ends,
  findsHoles_of_findHolesInRange, Fits, finds_data_runs, findsData_of_findDataInRange
-/
import Gvds.IoProxy.FileHandler
import Gvds.Lib.MaximalRuns

namespace Gvds.HvsFileHandler

open MaximalRuns (Runs runs_nil runs_cons_iff runs_skip_iff)

/-- A file in blocks of `B` bytes as the file system can hold it: its size is an `off_t`. -/
structure DiskFile (B : Nat) extends SparseFile B where
  size_lt : size < 2 ^ 63

variable {B : Nat}

/-- Offset `i` is stored. -/
def DiskFile.Stored (f : DiskFile B) (i : Nat) : Prop := f.data (i / B) = true

/-- Offset `i` lies in a hole. -/
def DiskFile.InHole (f : DiskFile B) (i : Nat) : Prop := f.data (i / B) = false

instance (f : DiskFile B) (i : Nat) : Decidable (f.Stored i) := inferInstanceAs (Decidable (_ = _))

@[simp] theorem DiskFile.not_stored_iff {f : DiskFile B} {i : Nat} : ¬ f.Stored i ↔ f.InHole i := by
  simp [DiskFile.Stored, DiskFile.InHole]

/-- The result of `lseek` in a `uint64_t`: -1 is the largest one. -/
def lseekResult (r : Option Nat) : Nat := r.getD (2 ^ 64 - 1)

@[simp] theorem lseekResult_some (v : Nat) : lseekResult (some v) = v := rfl

@[simp] theorem lseekResult_none : lseekResult none = 2 ^ 64 - 1 := rfl

/-- The loop of `find_holes_in_range` up to `lim`, which has been clipped to the end of the file. The
first number bounds the rounds; there is no value while the loop is running. -/
def findHolesLoop (f : DiskFile B) (lim : Nat) : Nat → Nat → Option (List (Nat × Nat))
  | 0, _ => none
  | rounds + 1, off =>
      if off < lim then
        let data_begin := lseekResult (f.seekData off)
        if off < data_begin ∧ lim ≤ data_begin then some [(off, lim)]
        else
          let hole_begin := lseekResult (f.seekHole data_begin)
          (findHolesLoop f lim rounds hole_begin).map fun holes =>
            if off < data_begin then (off, data_begin) :: holes else holes
      else some []

/-- The loop of `find_data_in_range` up to `lim`. Its `hole_begin` is an `int`. -/
def findDataLoop (f : DiskFile B) (lim : Nat) : Nat → Nat → Option (List (Nat × Nat))
  | 0, _ => none
  | rounds + 1, off =>
      if off < lim then
        let data_begin := lseekResult (f.seekHole off)
        if off < data_begin ∧ lim ≤ data_begin then some [(off, lim)]
        else
          let hole_begin := throughInt (lseekResult (f.seekData data_begin))
          (findDataLoop f lim rounds hole_begin).map fun holes =>
            if off < data_begin then (off, data_begin) :: holes else holes
      else some []

/-- `find_holes_in_range` returns `holes`. -/
def FindsHoles (f : DiskFile B) (start lim : Nat) (holes : List (Nat × Nat)) : Prop :=
  ∃ rounds, findHolesLoop f (min lim f.size) rounds start = some holes

/-- `find_data_in_range` returns `holes`, which is also the source's name for the data ranges. -/
def FindsData (f : DiskFile B) (start lim : Nat) (holes : List (Nat × Nat)) : Prop :=
  ∃ rounds, findDataLoop f (min lim f.size) rounds start = some holes

/-! ### What lseek reports -/

section Lseek

variable {f : DiskFile B} {lim off : Nat}

/-- The first data at or behind an offset, or -1 where none follows. -/
theorem seekData_spec (off : Nat) :
    (f.seekData off = none ∧ ∀ i, off ≤ i → i < f.size → f.InHole i) ∨
      ∃ v, f.seekData off = some v ∧ f.Stored v ∧ off ≤ v ∧ v < f.size ∧
        ∀ i, off ≤ i → i < v → f.InHole i := by
  cases hseek : f.seekData off with
  | none => exact Or.inl ⟨rfl, SparseFile.seekData_eq_none.mp hseek⟩
  | some v =>
      obtain ⟨hstored, ⟨hle, hlt⟩, hmin⟩ := SparseFile.seekData_eq_some.mp hseek
      exact Or.inr ⟨v, rfl, hstored, hle, hlt, hmin⟩

/-- An offset between another one and its next data has the same next data. -/
theorem seekData_eq_of_le {i v : Nat} (h : f.seekData off = some v) (hle : off ≤ i) (hi : i ≤ v) :
    f.seekData i = some v := by
  obtain ⟨hstored, ⟨_, hlt⟩, hmin⟩ := SparseFile.seekData_eq_some.mp h
  apply SparseFile.seekData_eq_some.mpr
  exact ⟨hstored, ⟨hi, hlt⟩, fun j hj hjv => hmin j (Nat.le_trans hle hj) hjv⟩

end Lseek

/-! ### The scan for holes -/

section Holes

variable {f : DiskFile B} {lim off : Nat} {holes : List (Nat × Nat)}

/-- The scan for holes ends, with the maximal holes of the range. -/
theorem findHolesLoop_runs (hlim : lim ≤ f.size) (off : Nat) :
    ∃ rounds holes, findHolesLoop f lim rounds off = some holes ∧ Runs f.InHole off lim holes := by
  induction hgap : lim - off using Nat.strong_induction_on generalizing off with
  | _ gap ih =>
      have hsize := f.size_lt
      by_cases hlt : off < lim
      · rcases seekData_spec (f := f) off with ⟨hnone, hall⟩ | ⟨v, hv, hstored, hle, hvsize, hgapHole⟩
        · -- no data follows: the rest is one hole
          refine ⟨1, [(off, lim)], ?_, ?_⟩
          · simp only [findHolesLoop, if_pos hlt, hnone, lseekResult_none]
            rw [if_pos (by omega)]
          · apply (runs_cons_iff hlt (Nat.le_refl lim) ?_ ?_).mpr (runs_nil (by omega))
            · exact fun i hi hilim => hall i hi (Nat.lt_of_lt_of_le hilim hlim)
            · exact fun h => absurd h (Nat.lt_irrefl lim)
        · by_cases hpast : off < v ∧ lim ≤ v
          · refine ⟨1, [(off, lim)], ?_, ?_⟩
            · simp only [findHolesLoop, if_pos hlt, hv, lseekResult_some, if_pos hpast]
            · apply (runs_cons_iff hlt (Nat.le_refl lim) ?_ ?_).mpr (runs_nil (by omega))
              · exact fun i hi hilim => hgapHole i hi (Nat.lt_of_lt_of_le hilim hpast.2)
              · exact fun h => absurd h (Nat.lt_irrefl lim)
          · -- data from `v` up to the next hole, and the rest behind it
            obtain ⟨w, hw, hvw, hwsize, hdata, hhole⟩ := SparseFile.seekHole_spec hvsize
            have hvw' : v < w := by
              apply Nat.lt_of_le_of_ne hvw
              intro heq
              have hinhole := hhole (heq ▸ hvsize)
              rw [← heq, hstored] at hinhole
              cases hinhole
            obtain ⟨rounds, rest, hrest, hruns⟩ := ih (lim - w) (by omega) w rfl
            have hskip : Runs f.InHole v lim rest := by
              apply (runs_skip_iff hvw ?_).mpr hruns
              intro i hi hiw hinhole
              rw [DiskFile.InHole, hdata i hi hiw] at hinhole
              cases hinhole
            refine ⟨rounds + 1, if off < v then (off, v) :: rest else rest, ?_, ?_⟩
            · simp only [findHolesLoop, if_pos hlt, hv, lseekResult_some, if_neg hpast, hw, hrest,
                Option.map_some]
            · by_cases hbefore : off < v
              · rw [if_pos hbefore]
                apply (runs_cons_iff hbefore (by omega) hgapHole ?_).mpr hskip
                intro _ hinhole
                rw [DiskFile.InHole, hstored] at hinhole
                cases hinhole
              · rw [if_neg hbefore]
                have heq : off = v := by omega
                exact heq ▸ hskip
      · refine ⟨1, [], ?_, runs_nil (by omega)⟩
        simp only [findHolesLoop, if_neg hlt]

/-- More rounds do not change what the scan for holes has returned. -/
theorem findHolesLoop_mono {n m : Nat} (hnm : n ≤ m)
    (h : findHolesLoop f lim n off = some holes) : findHolesLoop f lim m off = some holes := by
  induction n generalizing m off holes with
  | zero => cases h
  | succ n ih =>
      cases m with
      | zero => exact absurd hnm (Nat.not_succ_le_zero n)
      | succ m =>
          unfold findHolesLoop at h ⊢
          by_cases hlt : off < lim
          · rw [if_pos hlt] at h ⊢
            by_cases hpast : off < lseekResult (f.seekData off) ∧ lim ≤ lseekResult (f.seekData off)
            · rwa [if_pos hpast] at h ⊢
            · rw [if_neg hpast] at h ⊢
              obtain ⟨rest, hrest, heq⟩ := Option.map_eq_some_iff.mp h
              exact Option.map_eq_some_iff.mpr ⟨rest, ih (Nat.le_of_succ_le_succ hnm) hrest, heq⟩
          · rwa [if_neg hlt] at h ⊢

/-- `find_holes_in_range` returns, and it returns the maximal holes. -/
theorem finds_holes_runs (f : DiskFile B) (start lim : Nat) :
    ∃ holes, FindsHoles f start lim holes ∧ Runs f.InHole start (min lim f.size) holes := by
  obtain ⟨rounds, holes, hloop, hruns⟩ :=
    findHolesLoop_runs (Nat.min_le_right lim f.size) start
  exact ⟨holes, ⟨rounds, hloop⟩, hruns⟩

/-- `findHolesInRange` is this scan over 4096-byte blocks. -/
theorem findsHoles_of_findHolesInRange {f : DiskFile pageSize} {start : Nat}
    (h : findHolesInRange f.toSparseFile start lim = some holes) : FindsHoles f start lim holes := by
  have hloop : ∀ rounds off holes,
      holesLoop f.toSparseFile (min lim f.size) rounds off = some holes →
        findHolesLoop f (min lim f.size) rounds off = some holes := by
    intro rounds
    induction rounds with
    | zero => exact fun off holes h => nomatch h
    | succ rounds ih =>
        intro off holes h
        unfold holesLoop at h
        unfold findHolesLoop
        by_cases hlt : off < min lim f.size
        · rw [if_pos hlt] at h ⊢
          have hsize := f.size_lt
          cases hv : f.seekData off with
          | none =>
              rw [hv] at h
              rw [lseekResult_none, if_pos (by omega)]
              exact h
          | some v =>
              rw [hv] at h
              dsimp only at h
              rw [lseekResult_some]
              by_cases hbefore : off < v
              · rw [if_pos hbefore] at h
                by_cases hpast : min lim f.size ≤ v
                · rw [if_pos hpast] at h
                  rw [if_pos ⟨hbefore, hpast⟩]
                  exact h
                · rw [if_neg hpast] at h
                  rw [if_neg (fun h => hpast h.2)]
                  obtain ⟨rest, hrest, rfl⟩ := Option.map_eq_some_iff.mp h
                  obtain ⟨w, hw, hrun⟩ := Option.bind_eq_some_iff.mp hrest
                  rw [hw, lseekResult_some]
                  dsimp only
                  rw [ih _ _ hrun, Option.map_some, if_pos hbefore]
              · rw [if_neg hbefore] at h
                rw [if_neg (fun h => hbefore h.1)]
                obtain ⟨w, hw, hrun⟩ := Option.bind_eq_some_iff.mp h
                rw [hw, lseekResult_some]
                dsimp only
                rw [ih _ _ hrun, Option.map_some, if_neg hbefore]
        · rwa [if_neg hlt] at h ⊢
  exact ⟨_, hloop _ _ _ h⟩

/-- There is one result only. -/
theorem FindsHoles.unique {start : Nat} {holes' : List (Nat × Nat)}
    (h : FindsHoles f start lim holes) (h' : FindsHoles f start lim holes') : holes = holes' := by
  obtain ⟨n, hn⟩ := h
  obtain ⟨m, hm⟩ := h'
  have hn' := findHolesLoop_mono (Nat.le_max_left n m) hn
  have hm' := findHolesLoop_mono (Nat.le_max_right n m) hm
  exact Option.some.inj (hn'.symm.trans hm')

end Holes

/-! ### The scan for data -/

section Data

variable {f : DiskFile B} {lim off : Nat} {holes : List (Nat × Nat)}

/-- An `off_t` that passes through the `int` unchanged is below 2^31, or it is -1. -/
theorem throughInt_cases (v : Nat) :
    throughInt v < 2 ^ 31 ∨ 2 ^ 64 - 2 ^ 31 ≤ throughInt v := by
  unfold throughInt
  split <;> omega

theorem throughInt_eq_iff {v : Nat} (h : v < 2 ^ 63) : throughInt v = v ↔ v < 2 ^ 31 := by
  unfold throughInt
  split <;> omega

theorem throughInt_le {v : Nat} (h : throughInt v < 2 ^ 31) : throughInt v ≤ v := by
  unfold throughInt at h ⊢
  by_cases hlow : v % 2 ^ 32 < 2 ^ 31
  · rw [if_pos hlow]
    exact Nat.mod_le v _
  · rw [if_neg hlow] at h
    omega

@[simp] theorem throughInt_allOnes : throughInt (2 ^ 64 - 1) = 2 ^ 64 - 1 := by decide

/-- The scan has nothing left to report from `off` on: it is past the end, or it stands in a hole and
the next data lies past the end as an `int`. -/
def Ends (f : DiskFile B) (lim off : Nat) : Prop :=
  lim ≤ off ∨ (f.InHole off ∧ lim ≤ throughInt (lseekResult (f.seekData off)))

/-- The `int` does no harm in the range: where the scan stands in a hole, the next data keeps its
offset, or it lies behind the range and the scan ends at the offset that comes out. -/
def Fits (f : DiskFile B) (start lim : Nat) : Prop :=
  ∀ i, start ≤ i → i < lim → f.InHole i → ∀ v, f.seekData i = some v →
    throughInt v = v ∨ (lim ≤ v ∧ Ends f lim (throughInt v))

/-- One round of the scan for data, by the next hole at or behind `off`. -/
theorem findDataLoop_succ {n w : Nat} (hlt : off < lim) (hw : f.seekHole off = some w) :
    findDataLoop f lim (n + 1) off =
      if off < w ∧ lim ≤ w then some [(off, lim)]
      else
        (findDataLoop f lim n (throughInt (lseekResult (f.seekData w)))).map fun holes =>
          if off < w then (off, w) :: holes else holes := by
  simp only [findDataLoop, if_pos hlt, hw, lseekResult_some]

theorem findDataLoop_of_le {n : Nat} (h : lim ≤ off) : findDataLoop f lim (n + 1) off = some [] := by
  simp only [findDataLoop, if_neg (Nat.not_lt.mpr h)]

/-- Where nothing is left to report the scan returns no range. -/
theorem findDataLoop_of_ends (hlim : lim ≤ f.size) (h : Ends f lim off) :
    findDataLoop f lim 2 off = some [] := by
  cases Nat.lt_or_ge off lim with
  | inr hge => exact findDataLoop_of_le hge
  | inl hlt =>
      cases h with
      | inl hle => exact absurd hlt (Nat.not_lt.mpr hle)
      | inr h =>
          obtain ⟨hinhole, hpast⟩ := h
          obtain ⟨w, hw, hle, _, hdata, _⟩ :=
            SparseFile.seekHole_spec (Nat.lt_of_lt_of_le hlt hlim)
          have heq : w = off := by
            by_contra hne
            have hstored := hdata off (Nat.le_refl off) (by omega)
            rw [DiskFile.InHole, hstored] at hinhole
            cases hinhole
          subst heq
          rw [findDataLoop_succ hlt hw, if_neg (fun h => Nat.lt_irrefl w h.1),
            findDataLoop_of_le hpast]
          simp

/-- Where the `int` does no harm the scan for data ends, with the maximal data ranges. -/
theorem findDataLoop_runs (hlim : lim ≤ f.size) (off : Nat) (hfits : Fits f off lim) :
    ∃ rounds holes, findDataLoop f lim rounds off = some holes ∧ Runs f.Stored off lim holes := by
  induction hgap : lim - off using Nat.strong_induction_on generalizing off with
  | _ gap ih =>
      have hsize := f.size_lt
      cases Nat.lt_or_ge off lim with
      | inr hge => exact ⟨1, [], findDataLoop_of_le hge, runs_nil (by omega)⟩
      | inl hlt =>
          obtain ⟨w, hw, hle, _, hdata, hhole⟩ :=
            SparseFile.seekHole_spec (Nat.lt_of_lt_of_le hlt hlim)
          by_cases hpast : off < w ∧ lim ≤ w
          · -- all the rest is data
            refine ⟨1, [(off, lim)], ?_, ?_⟩
            · rw [findDataLoop_succ hlt hw, if_pos hpast]
            · apply (runs_cons_iff hlt (Nat.le_refl lim) ?_ ?_).mpr (runs_nil (by omega))
              · exact fun i hi hilim => hdata i hi (Nat.lt_of_lt_of_le hilim hpast.2)
              · exact fun h => absurd h (Nat.lt_irrefl lim)
          · have hwlim : w < lim := by omega
            have hinhole : f.InHole w := hhole (Nat.lt_of_lt_of_le hwlim hlim)
            -- what is found behind the hole at `w`
            obtain ⟨rounds, rest, hrest, hruns⟩ : ∃ rounds rest,
                findDataLoop f lim rounds (throughInt (lseekResult (f.seekData w))) = some rest ∧
                  Runs f.Stored w lim rest := by
              rcases seekData_spec (f := f) w with ⟨hnone, hall⟩ | ⟨v, hv, hstored, hwv, hvsize, hgapHole⟩
              · refine ⟨1, [], ?_, runs_nil ?_⟩
                · rw [hnone, lseekResult_none, throughInt_allOnes]
                  exact findDataLoop_of_le (by omega)
                · intro i hi hilim
                  exact DiskFile.not_stored_iff.mpr (hall i hi (Nat.lt_of_lt_of_le hilim hlim))
              · have hwv' : w < v := by
                  apply Nat.lt_of_le_of_ne hwv
                  intro heq
                  rw [heq, DiskFile.InHole, hstored] at hinhole
                  cases hinhole
                rw [hv, lseekResult_some]
                cases hfits w hle hwlim hinhole v hv with
                | inl hkept =>
                    have hfits' : Fits f v lim := fun i hi => hfits i (by omega)
                    obtain ⟨rounds, rest, hrest, hruns⟩ := ih (lim - v) (by omega) v hfits' rfl
                    refine ⟨rounds, rest, by rw [hkept]; exact hrest, ?_⟩
                    apply (runs_skip_iff hwv ?_).mpr hruns
                    exact fun i hi hiv => DiskFile.not_stored_iff.mpr (hgapHole i hi hiv)
                | inr hend =>
                    refine ⟨2, [], findDataLoop_of_ends hlim hend.2, runs_nil ?_⟩
                    intro i hi hilim
                    exact DiskFile.not_stored_iff.mpr (hgapHole i hi (Nat.lt_of_lt_of_le hilim hend.1))
            refine ⟨rounds + 1, if off < w then (off, w) :: rest else rest, ?_, ?_⟩
            · rw [findDataLoop_succ hlt hw, if_neg hpast, hrest, Option.map_some]
            · by_cases hbefore : off < w
              · rw [if_pos hbefore]
                apply (runs_cons_iff hbefore (Nat.le_of_lt hwlim) hdata ?_).mpr hruns
                exact fun _ => DiskFile.not_stored_iff.mpr hinhole
              · rw [if_neg hbefore]
                have heq : off = w := by omega
                exact heq ▸ hruns

/-- More rounds do not change what the scan for data has returned. -/
theorem findDataLoop_mono {n m : Nat} (hnm : n ≤ m)
    (h : findDataLoop f lim n off = some holes) : findDataLoop f lim m off = some holes := by
  induction n generalizing m off holes with
  | zero => cases h
  | succ n ih =>
      cases m with
      | zero => exact absurd hnm (Nat.not_succ_le_zero n)
      | succ m =>
          unfold findDataLoop at h ⊢
          by_cases hlt : off < lim
          · rw [if_pos hlt] at h ⊢
            by_cases hpast : off < lseekResult (f.seekHole off) ∧ lim ≤ lseekResult (f.seekHole off)
            · rwa [if_pos hpast] at h ⊢
            · rw [if_neg hpast] at h ⊢
              obtain ⟨rest, hrest, heq⟩ := Option.map_eq_some_iff.mp h
              exact Option.map_eq_some_iff.mpr ⟨rest, ih (Nat.le_of_succ_le_succ hnm) hrest, heq⟩
          · rwa [if_neg hlt] at h ⊢

/-- `findDataInRange` is this scan over 4096-byte blocks. -/
theorem findsData_of_findDataInRange {f : DiskFile pageSize} {start : Nat}
    (h : findDataInRange f.toSparseFile start lim = some holes) : FindsData f start lim holes := by
  have hloop : ∀ rounds off holes,
      dataLoop f.toSparseFile (min lim f.size) rounds off = some holes →
        findDataLoop f (min lim f.size) (rounds + 1) off = some holes := by
    intro rounds
    induction rounds with
    | zero => exact fun off holes h => nomatch h
    | succ rounds ih =>
        intro off holes h
        unfold dataLoop at h
        by_cases hlt : off < min lim f.size
        · rw [if_pos hlt] at h
          have hsize := f.size_lt
          obtain ⟨w, hw, hle, -⟩ :=
            SparseFile.seekHole_spec (show off < f.toSparseFile.size by omega)
          simp only [hw] at h
          rw [findDataLoop_succ hlt hw]
          -- where no data follows, the new loop makes one more round
          obtain ⟨next, hrest, h⟩ : ∃ next : Option (List (Nat × Nat)),
              (∀ rest, next = some rest → findDataLoop f (min lim f.size) (rounds + 1)
                (throughInt (lseekResult (f.seekData w))) = some rest) ∧
              (if off < w then
                if min lim f.size ≤ w then some [(off, min lim f.size)]
                else next.map fun ranges => (off, w) :: ranges
              else next) = some holes := by
            cases hv : f.seekData w with
            | none =>
                rw [hv] at h
                refine ⟨some [], fun rest hrest => ?_, h⟩
                rw [lseekResult_none, throughInt_allOnes, findDataLoop_of_le (by omega)]
                exact hrest
            | some v =>
                rw [hv] at h
                exact ⟨_, fun rest hrest => ih _ _ hrest, h⟩
          by_cases hbefore : off < w
          · rw [if_pos hbefore] at h
            by_cases hpast : min lim f.size ≤ w
            · rw [if_pos hpast] at h
              rwa [if_pos ⟨hbefore, hpast⟩]
            · rw [if_neg hpast] at h
              obtain ⟨rest, hrun, rfl⟩ := Option.map_eq_some_iff.mp h
              rw [if_neg (fun h => hpast h.2), hrest rest hrun, Option.map_some, if_pos hbefore]
          · rw [if_neg hbefore] at h
            rw [if_neg (fun h => hbefore h.1), hrest holes h, Option.map_some, if_neg hbefore]
        · rw [if_neg hlt] at h
          rw [findDataLoop_of_le (Nat.not_lt.mp hlt)]
          exact h
  exact ⟨_, hloop _ _ _ h⟩

/-- There is one result only. -/
theorem FindsData.unique {start : Nat} {holes' : List (Nat × Nat)}
    (h : FindsData f start lim holes) (h' : FindsData f start lim holes') : holes = holes' := by
  obtain ⟨n, hn⟩ := h
  obtain ⟨m, hm⟩ := h'
  have hn' := findDataLoop_mono (Nat.le_max_left n m) hn
  have hm' := findDataLoop_mono (Nat.le_max_right n m) hm
  exact Option.some.inj (hn'.symm.trans hm')

/-- Where the `int` does no harm `find_data_in_range` returns the maximal data ranges. -/
theorem finds_data_runs {start : Nat} (hfits : Fits f start (min lim f.size)) :
    ∃ holes, FindsData f start lim holes ∧ Runs f.Stored start (min lim f.size) holes := by
  obtain ⟨rounds, holes, hloop, hruns⟩ :=
    findDataLoop_runs (Nat.min_le_right lim f.size) start hfits
  exact ⟨holes, ⟨rounds, hloop⟩, hruns⟩

/-- In a file of at most 2^31 bytes the `int` does no harm. -/
theorem fits_of_size_le (h : f.size ≤ 2 ^ 31) (start lim : Nat) : Fits f start lim := by
  intro i _ _ _ v hv
  obtain ⟨_, ⟨_, hlt⟩, _⟩ := SparseFile.seekData_eq_some.mp hv
  exact Or.inl (throughInt_of_lt (Nat.lt_of_lt_of_le hlt h))

end Data

end Gvds.HvsFileHandler
