/-
Module: Gvds.Proofs.RangeScans
Layer: Proofs
Purpose: The scans of HvsFileHandler split a range of a file into its maximal holes and its maximal
  data ranges exactly if the int of find_data_in_range does no harm. Where it does harm, the scan
  for data goes back below 2^31: it leaves out data, reports data below the range, or runs forever.
Imports: Gvds.IoProxy.RangeScan
Trusted boundary: as Gvds.IoProxy.RangeScan
Main exports: fits_of_reports, fits_of_runs, ExactScans, scans_exact_iff, scan_misses_data
-/
import Gvds.IoProxy.RangeScan

namespace Gvds.HvsFileHandler

open MaximalRuns (Runs)

variable {B : Nat} {f : DiskFile B} {start lim off : Nat} {holes : List (Nat × Nat)}

/-! ### What the scan for data can report -/

/-- What one round of the scan for data does: everything up to the end of the range is data, or the
data ends at a hole and the scan goes on from the next data. -/
theorem findDataLoop_cases {n : Nat} (hlim : lim ≤ f.size) (hlt : off < lim)
    (h : findDataLoop f lim (n + 1) off = some holes) :
    (holes = [(off, lim)] ∧ ∀ i, off ≤ i → i < lim → f.Stored i) ∨
      ∃ w rest, off ≤ w ∧ w < lim ∧ f.InHole w ∧ (∀ i, off ≤ i → i < w → f.Stored i) ∧
        findDataLoop f lim n (throughInt (lseekResult (f.seekData w))) = some rest ∧
        holes = if off < w then (off, w) :: rest else rest := by
  obtain ⟨w, hw, hle, _, hdata, hhole⟩ := SparseFile.seekHole_spec (Nat.lt_of_lt_of_le hlt hlim)
  rw [findDataLoop_succ hlt hw] at h
  by_cases hpast : off < w ∧ lim ≤ w
  · left
    rw [if_pos hpast] at h
    cases h
    exact ⟨rfl, fun i hi hilim => hdata i hi (Nat.lt_of_lt_of_le hilim hpast.2)⟩
  · right
    rw [if_neg hpast] at h
    obtain ⟨rest, hrest, heq⟩ := Option.map_eq_some_iff.mp h
    have hwlim : w < lim := by omega
    exact ⟨w, rest, hle, hwlim, hhole (Nat.lt_of_lt_of_le hwlim hlim), hdata, hrest, heq.symm⟩

/-- No reported range is empty, and none reaches past the end. -/
theorem within_of_mem_findDataLoop {n : Nat} (hlim : lim ≤ f.size)
    (h : findDataLoop f lim n off = some holes) : ∀ r ∈ holes, r.1 < r.2 ∧ r.2 ≤ lim := by
  induction n generalizing off holes with
  | zero => cases h
  | succ n ih =>
      cases Nat.lt_or_ge off lim with
      | inr hge =>
          rw [findDataLoop_of_le hge] at h
          cases h
          exact fun r hr => nomatch hr
      | inl hlt =>
          rcases findDataLoop_cases hlim hlt h with ⟨rfl, -⟩ | ⟨w, rest, -, hw, -, -, hrest, rfl⟩
          · simpa using hlt
          · split
            · rename_i hbefore
              exact List.forall_mem_cons.mpr ⟨⟨hbefore, Nat.le_of_lt hw⟩, ih hrest⟩
            · exact ih hrest

/-- From an offset past the end the scan reports nothing. -/
theorem eq_nil_of_findDataLoop {n : Nat} (hle : lim ≤ off)
    (h : findDataLoop f lim n off = some holes) : holes = [] := by
  cases n with
  | zero => cases h
  | succ n =>
      rw [findDataLoop_of_le hle] at h
      exact (Option.some.inj h).symm

/-- From an offset below 2^31 the scan reports nothing, or a range that begins below 2^31. -/
theorem findDataLoop_low {n : Nat} (hlim : lim ≤ f.size) (hoff : off < 2 ^ 31)
    (h : findDataLoop f lim n off = some holes) :
    holes = [] ∨ ∃ r ∈ holes, r.1 < 2 ^ 31 := by
  induction n generalizing off holes with
  | zero => cases h
  | succ n ih =>
      have hsize := f.size_lt
      cases Nat.lt_or_ge off lim with
      | inr hge => exact Or.inl (eq_nil_of_findDataLoop hge h)
      | inl hlt =>
          rcases findDataLoop_cases hlim hlt h with ⟨rfl, -⟩ | ⟨w, rest, hle, -, -, -, hrest, rfl⟩
          · exact Or.inr ⟨_, List.mem_singleton_self _, hoff⟩
          · by_cases hbefore : off < w
            · rw [if_pos hbefore]
              exact Or.inr ⟨_, List.mem_cons_self, hoff⟩
            · rw [if_neg hbefore]
              cases throughInt_cases (lseekResult (f.seekData w)) with
              | inl hlow => exact ih hlow hrest
              | inr hhigh => exact Or.inl (eq_nil_of_findDataLoop (by omega) hrest)

/-- A scan from an offset below 2^31 that reports nothing has nothing left to report. -/
theorem ends_of_findDataLoop_nil {n : Nat} (hlim : lim ≤ f.size) (hoff : off < 2 ^ 31)
    (h : findDataLoop f lim n off = some []) : Ends f lim off := by
  induction n generalizing off with
  | zero => cases h
  | succ n ih =>
      have hsize := f.size_lt
      cases Nat.lt_or_ge off lim with
      | inr hge => exact Or.inl hge
      | inl hlt =>
          rcases findDataLoop_cases hlim hlt h with ⟨hnil, -⟩ | ⟨w, rest, hle, -, hinhole, -, hrest, hnil⟩
          · cases hnil
          · have heq : off = w := by
              by_contra hne
              rw [if_pos (by omega)] at hnil
              cases hnil
            subst heq
            rw [if_neg (Nat.lt_irrefl _)] at hnil
            subst hnil
            refine Or.inr ⟨hinhole, ?_⟩
            by_contra hnot
            rcases seekData_spec (f := f) off with ⟨hnone, -⟩ | ⟨v, hv, hstored, hov, hvsize, hgap⟩
            · rw [hnone, lseekResult_none, throughInt_allOnes] at hnot
              omega
            · rw [hv, lseekResult_some] at hnot hrest
              -- the scan goes on from an offset below 2^31, and it has to end there as well
              have hlow : throughInt v < 2 ^ 31 := by
                have := throughInt_cases v
                omega
              have hle : throughInt v ≤ v := throughInt_le hlow
              cases ih hlow hrest with
              | inl hpast => exact hnot hpast
              | inr hrec =>
                  obtain ⟨-, hpast⟩ := hrec
                  rcases seekData_spec (f := f) (throughInt v) with
                    ⟨-, hnone⟩ | ⟨u, hu, hstored', huv, husize, hgap'⟩
                  · have := hnone v hle hvsize
                    rw [DiskFile.InHole, hstored] at this
                    cases this
                  · rw [hu, lseekResult_some] at hpast
                    have hule : u ≤ v := by
                      by_contra hlt'
                      have := hgap' v hle (by omega)
                      rw [DiskFile.InHole, hstored] at this
                      cases this
                    have hne : u ≠ v := fun heq => hnot (heq ▸ hpast)
                    have huoff : u < off := by
                      by_contra hge
                      have := hgap u (by omega) (by omega)
                      rw [DiskFile.InHole, hstored'] at this
                      cases this
                    rw [throughInt_of_lt (by omega)] at hpast
                    omega

/-! ### Ranges that begin at 2^31 or later -/

/-- A scan from 2^31 or later that reports all data, and no range that begins below 2^31, has not
been led astray by the `int`. -/
theorem fits_of_complete {n : Nat} (hlim : lim ≤ f.size) (hoff : 2 ^ 31 ≤ off)
    (h : findDataLoop f lim n off = some holes) (hsound : ∀ r ∈ holes, 2 ^ 31 ≤ r.1)
    (hcomplete : ∀ i, off ≤ i → i < lim → f.Stored i → Covered holes i) : Fits f off lim := by
  induction n generalizing off holes with
  | zero => cases h
  | succ n ih =>
      have hsize := f.size_lt
      intro i hi hilim hinhole v hv
      rcases findDataLoop_cases hlim (Nat.lt_of_le_of_lt hi hilim) h with
        ⟨-, hall⟩ | ⟨w, rest, hle, hwlim, hwhole, hdata, hrest, rfl⟩
      · exact absurd (hall i hi hilim) (DiskFile.not_stored_iff.mpr hinhole)
      · obtain ⟨hstored, ⟨hiv, hvsize⟩, hgap⟩ := SparseFile.seekData_eq_some.mp hv
        have hwi : w ≤ i := by
          by_contra hlt
          exact absurd (hdata i hi (by omega)) (DiskFile.not_stored_iff.mpr hinhole)
        have hsound' : ∀ r ∈ rest, 2 ^ 31 ≤ r.1 := by
          intro r hr
          apply hsound r
          split
          · exact List.mem_cons_of_mem _ hr
          · exact hr
        have hcomplete' : ∀ j, w ≤ j → j < lim → f.Stored j → Covered rest j := by
          intro j hj hjlim hjstored
          have hcov := hcomplete j (by omega) hjlim hjstored
          split at hcov
          · rcases (covered_cons off w rest j).mp hcov with hfirst | hrest'
            · omega
            · exact hrest'
          · exact hcov
        rcases seekData_spec (f := f) w with ⟨-, hnone⟩ | ⟨u, hu, hustored, hwu, husize, hugap⟩
        · exact absurd hstored (DiskFile.not_stored_iff.mpr (hnone v (by omega) hvsize))
        · rw [hu, lseekResult_some] at hrest
          by_cases hkept : throughInt u = u
          · by_cases hui : i ≤ u
            · rw [seekData_eq_of_le hu hwi hui] at hv
              cases hv
              exact Or.inl hkept
            · rw [hkept] at hrest
              have hfits := ih (Nat.le_trans hoff (Nat.le_trans hle hwu)) hrest hsound'
                (fun j hj => hcomplete' j (Nat.le_trans hwu hj))
              exact hfits i (by omega) hilim hinhole v hv
          · -- the scan goes back below 2^31 or ends, so nothing may be left to report
            have hnil : rest = [] ∧ Ends f lim (throughInt u) := by
              cases throughInt_cases u with
              | inr hhigh =>
                  have hpast : lim ≤ throughInt u := by omega
                  exact ⟨eq_nil_of_findDataLoop hpast hrest, Or.inl hpast⟩
              | inl hlow =>
                  have hrestNil : rest = [] := by
                    cases findDataLoop_low hlim hlow hrest with
                    | inl hnil => exact hnil
                    | inr hmem =>
                        obtain ⟨r, hr, hrlow⟩ := hmem
                        exact absurd (hsound' r hr) (by omega)
                  exact ⟨hrestNil, ends_of_findDataLoop_nil hlim hlow (hrestNil ▸ hrest)⟩
            have hbehind : lim ≤ u := by
              by_contra hlt
              have hcov := hcomplete' u hwu (by omega) hustored
              rw [hnil.1, covered_nil] at hcov
              exact hcov
            rw [seekData_eq_of_le hu hwi (by omega)] at hv
            cases hv
            exact Or.inr ⟨hbehind, hnil.2⟩

/-! ### Ranges that begin below 2^31 -/

/-- The first data range that begins at 2^31 or later, as a scan below 2^31 sees it: it begins at
`first`, and the hole before it reaches into the range. -/
structure FirstFar (f : DiskFile B) (lim first : Nat) : Prop where
  far : 2 ^ 31 ≤ first
  stored : f.Stored first
  lt_size : first < f.size
  hole : ∀ i, i < first → i + 1 = min first lim → f.InHole i ∧ f.seekData i = some first
  least : ∀ j, 2 ^ 31 ≤ j → f.Stored j → f.InHole (j - 1) → first ≤ j

/-- Where data begins behind a hole at 2^31 or later there is a first such place. -/
theorem exists_firstFar {i v : Nat} (hilim : i < lim) (hinhole : f.InHole i)
    (hv : f.seekData i = some v) (hfar : 2 ^ 31 ≤ v) :
    ∃ first, FirstFar f lim first ∧ first ≤ v ∧ (lim ≤ first → first = v) := by
  classical
  obtain ⟨hstored, ⟨hiv, hvsize⟩, hgap⟩ := SparseFile.seekData_eq_some.mp hv
  have hiv' : i < v := by
    apply Nat.lt_of_le_of_ne hiv
    intro heq
    rw [heq, DiskFile.InHole, hstored] at hinhole
    cases hinhole
  have hbegins : ∃ j, 2 ^ 31 ≤ j ∧ f.Stored j ∧ f.InHole (j - 1) :=
    ⟨v, hfar, hstored, hgap (v - 1) (by omega) (by omega)⟩
  obtain ⟨hfirst, hfirstStored, hfirstHole⟩ := Nat.find_spec hbegins
  have hleast : ∀ j, 2 ^ 31 ≤ j → f.Stored j → f.InHole (j - 1) → Nat.find hbegins ≤ j :=
    fun j hj hjs hjh => Nat.find_min' hbegins ⟨hj, hjs, hjh⟩
  have hle : Nat.find hbegins ≤ v :=
    hleast v hfar hstored (hgap (v - 1) (by omega) (by omega))
  have hsame : lim ≤ Nat.find hbegins → Nat.find hbegins = v := by
    intro hpast
    by_contra hne
    have := hgap (Nat.find hbegins) (by omega) (by omega)
    rw [hfirstStored] at this
    cases this
  refine ⟨Nat.find hbegins, ⟨hfirst, hfirstStored, by omega, ?_, hleast⟩, hle, hsame⟩
  intro j hj hjmin
  cases Nat.le_total (Nat.find hbegins) lim with
  | inl hin =>
      have hjeq : j = Nat.find hbegins - 1 := by omega
      refine ⟨hjeq ▸ hfirstHole, SparseFile.seekData_eq_some.mpr ⟨hfirstStored, by omega, ?_⟩⟩
      intro k hk hklt
      have hkeq : k = Nat.find hbegins - 1 := by omega
      exact hkeq ▸ hfirstHole
  | inr hout =>
      have hjeq : j = lim - 1 := by omega
      have hfirstV := hsame hout
      exact ⟨hgap j (by omega) (by omega),
        hfirstV ▸ seekData_eq_of_le hv (by omega) (by omega)⟩

/-- A scan below 2^31 comes to that place. If it ends, then because the place lies past the end as an
`int`, and it has not reported it. -/
theorem FirstFar.findDataLoop {n first : Nat} (hfirst : FirstFar f lim first) (hlim : lim ≤ f.size)
    (hoff : off < 2 ^ 31) (hlt : off < lim) (h : findDataLoop f lim n off = some holes) :
    lim ≤ throughInt first ∧ ¬ Covered holes first := by
  induction n generalizing off holes with
  | zero => cases h
  | succ n ih =>
      have hsize := f.size_lt
      have hfar := hfirst.far
      obtain ⟨hlast, hseekLast⟩ := hfirst.hole (min first lim - 1) (by omega) (by omega)
      rcases findDataLoop_cases hlim hlt h with
        ⟨-, hall⟩ | ⟨w, rest, hle, hwlim, hwhole, hdata, hrest, rfl⟩
      · exact absurd (hall _ (by omega) (by omega)) (DiskFile.not_stored_iff.mpr hlast)
      · have hwlast : w ≤ min first lim - 1 := by
          by_contra hgt
          exact absurd (hdata _ (by omega) (by omega)) (DiskFile.not_stored_iff.mpr hlast)
        rcases seekData_spec (f := f) w with ⟨-, hnone⟩ | ⟨u, hu, hustored, hwu, husize, hugap⟩
        · exact absurd hfirst.stored
            (DiskFile.not_stored_iff.mpr (hnone first (by omega) hfirst.lt_size))
        · have hule : u ≤ first := by
            by_contra hgt
            exact absurd hfirst.stored
              (DiskFile.not_stored_iff.mpr (hugap first (by omega) (by omega)))
          have hwu' : w < u := by
            apply Nat.lt_of_le_of_ne hwu
            intro heq
            rw [heq, DiskFile.InHole, hustored] at hwhole
            cases hwhole
          rw [hu, lseekResult_some] at hrest
          have hrest' : lim ≤ throughInt first ∧ ¬ Covered rest first := by
            cases Nat.lt_or_ge u (2 ^ 31) with
            | inl hlow =>
                rw [throughInt_of_lt hlow] at hrest
                apply ih hlow ?_ hrest
                -- data between the end and the place would be the next data of the last hole
                by_contra hge
                obtain ⟨-, -, hgapLast⟩ := SparseFile.seekData_eq_some.mp hseekLast
                have := hgapLast u (by omega) (by omega)
                rw [hustored] at this
                cases this
            | inr hhigh =>
                have heq : u = first :=
                  Nat.le_antisymm hule
                    (hfirst.least u hhigh hustored (hugap (u - 1) (by omega) (by omega)))
                subst heq
                by_cases hpast : lim ≤ throughInt u
                · rw [eq_nil_of_findDataLoop hpast hrest]
                  exact ⟨hpast, by simp⟩
                · have hlow : throughInt u < 2 ^ 31 := by
                    have := throughInt_cases u
                    omega
                  exact ih hlow (by omega) hrest
          refine ⟨hrest'.1, fun hcov => hrest'.2 ?_⟩
          split at hcov
          · rcases (covered_cons off w rest first).mp hcov with hfirstRange | hin
            · omega
            · exact hin
          · exact hcov

/-! ### Exact scans -/

/-- A scan that reports all data of its range, and no range that begins before it, has not been led
astray by the `int`. -/
theorem fits_of_reports (h : FindsData f start lim holes) (hsound : ∀ r ∈ holes, start ≤ r.1)
    (hcomplete : ∀ i, start ≤ i → i < min lim f.size → f.Stored i → Covered holes i) :
    Fits f start (min lim f.size) := by
  obtain ⟨rounds, hloop⟩ := h
  have hlim := Nat.min_le_right lim f.size
  cases Nat.lt_or_ge start (2 ^ 31) with
  | inr hfar =>
      exact fits_of_complete hlim hfar hloop (fun r hr => Nat.le_trans hfar (hsound r hr)) hcomplete
  | inl hnear =>
      intro i hi hilim hinhole v hv
      by_contra hnot
      rw [not_or] at hnot
      obtain ⟨hmoved, hstays⟩ := hnot
      obtain ⟨hstored, ⟨hiv, hvsize⟩, -⟩ := SparseFile.seekData_eq_some.mp hv
      have hvfar : 2 ^ 31 ≤ v := by
        by_contra hlow
        exact hmoved (throughInt_of_lt (by omega))
      obtain ⟨first, hfirst, hle, hsame⟩ := exists_firstFar hilim hinhole hv hvfar
      obtain ⟨hpast, hmissed⟩ := hfirst.findDataLoop hlim hnear (by omega) hloop
      by_cases hin : first < min lim f.size
      · have hfar := hfirst.far
        exact hmissed (hcomplete first (by omega) hin hfirst.stored)
      · have hfirstV := hsame (by omega)
        subst hfirstV
        exact hstays ⟨by omega, Or.inl hpast⟩

/-- The maximal data ranges are reported only where the `int` does no harm. -/
theorem fits_of_runs (h : FindsData f start lim holes)
    (hruns : Runs f.Stored start (min lim f.size) holes) : Fits f start (min lim f.size) := by
  apply fits_of_reports h
  · exact fun r hr => ((hruns.mem_iff r).mp hr).lo_le
  · exact fun i hi hilim hstored => hruns.mem_range_iff.mpr ⟨hi, hilim, hstored⟩

/-- Both scans of a range return, with the maximal holes and the maximal data ranges, and every
offset of the range lies in exactly one of them. -/
def ExactScans (f : DiskFile B) (start lim : Nat) : Prop :=
  ∃ holes ranges, FindsHoles f start lim holes ∧ FindsData f start lim ranges ∧
    Runs f.InHole start (min lim f.size) holes ∧ Runs f.Stored start (min lim f.size) ranges ∧
    ∀ i, (start ≤ i ∧ i < min lim f.size ↔ Covered holes i ∨ Covered ranges i) ∧
      ¬ (Covered holes i ∧ Covered ranges i)

/-- For every file and every range: the scans return exactly the maximal holes and the maximal data
ranges if and only if the `int` of `find_data_in_range` does no harm there. -/
theorem scans_exact_iff (B : Nat) (f : DiskFile B) (start lim : Nat) :
    ExactScans f start lim ↔ Fits f start (min lim f.size) := by
  constructor
  · rintro ⟨holes, ranges, -, hdata, -, hruns, -⟩
    exact fits_of_runs hdata hruns
  · intro hfits
    obtain ⟨holes, hholes, hholeRuns⟩ := finds_holes_runs f start lim
    obtain ⟨ranges, hranges, hdataRuns⟩ := finds_data_runs hfits
    refine ⟨holes, ranges, hholes, hranges, hholeRuns, hdataRuns, fun i => ?_⟩
    have hhole : Covered holes i ↔ start ≤ i ∧ i < min lim f.size ∧ f.InHole i :=
      hholeRuns.mem_range_iff
    have hstored : Covered ranges i ↔ start ≤ i ∧ i < min lim f.size ∧ f.Stored i :=
      hdataRuns.mem_range_iff
    rw [hhole, hstored, ← DiskFile.not_stored_iff]
    tauto

/-- A file of 2 GiB and one page, of which only the last page is stored. -/
def farFile : DiskFile pageSize where
  size := 2 ^ 31 + pageSize
  byte := fun _ => 0
  beyond := fun _ _ => rfl
  data := fun p => p == 2 ^ 31 / pageSize
  hole_zero := fun _ _ => rfl
  data_lt := by
    intro p hp
    rw [beq_iff_eq.mp hp]
    decide
  size_lt := by decide

/-- The last page of that file is the next data of its first offset. -/
theorem farFile_seekData : farFile.seekData 0 = some (2 ^ 31) := by
  apply SparseFile.seekData_eq_some.mpr
  refine ⟨by decide, by decide, fun j _ hj => ?_⟩
  have : ¬ j / pageSize = 2 ^ 31 / pageSize := by
    unfold pageSize
    omega
  exact beq_eq_false_iff_ne.mpr this

/-- The scan of the whole of that file misses its data. -/
theorem scan_misses_data : ¬ ∀ (B : Nat) (f : DiskFile B) (start lim : Nat), ExactScans f start lim := by
  intro h
  obtain ⟨holes, ranges, -, hdata, -, hruns, -⟩ := h pageSize farFile 0 (2 ^ 31 + pageSize)
  have hfits := fits_of_runs hdata hruns
  -- 2^31 becomes a negative int, and the scan stops before the page
  cases hfits 0 (Nat.le_refl 0) (by decide) rfl (2 ^ 31) farFile_seekData with
  | inl hkept => exact absurd hkept (by decide)
  | inr hbehind => exact absurd hbehind.1 (by decide)

end Gvds.HvsFileHandler
