/-
Module: Gvds.Lib.MaximalRuns
Layer: Lib
Purpose: The maximal runs of a property of numbers inside a half-open interval, as a list of half-open
  ranges in increasing order. The list is determined by the property; it is built from the left, by
  one run or one gap at a time, and it covers exactly the numbers that have the property.
Imports: Mathlib.Data.List.Pairwise, Mathlib.Data.Nat.Init, Mathlib.Order.Basic, Mathlib.Tactic.Basic
Trusted boundary: none
Main exports: MaximalRuns.IsRun, MaximalRuns.Runs, MaximalRuns.runs_nil, MaximalRuns.runs_cons_iff,
  MaximalRuns.runs_skip_iff, MaximalRuns.Runs.mem_range_iff, MaximalRuns.Runs.unique
-/
import Mathlib.Data.List.Pairwise
import Mathlib.Data.Nat.Init
import Mathlib.Order.Basic
import Mathlib.Tactic.Basic

namespace MaximalRuns

variable {P : Nat → Prop} {lo mid hi i : Nat} {r s : Nat × Nat} {rs rs' : List (Nat × Nat)}

/-- A range is not empty, lies in `[lo, hi)`, has the property throughout, and cannot be extended to
either side. -/
structure IsRun (P : Nat → Prop) (lo hi : Nat) (r : Nat × Nat) : Prop where
  lt : r.1 < r.2
  lo_le : lo ≤ r.1
  le_hi : r.2 ≤ hi
  inside : ∀ i, r.1 ≤ i → i < r.2 → P i
  before : lo < r.1 → ¬ P (r.1 - 1)
  behind : r.2 < hi → ¬ P r.2

/-- A list has exactly the maximal runs, in increasing order. -/
structure Runs (P : Nat → Prop) (lo hi : Nat) (rs : List (Nat × Nat)) : Prop where
  mem_iff : ∀ r, r ∈ rs ↔ IsRun P lo hi r
  increasing : rs.Pairwise fun r s => r.2 < s.1

/-- To the left of a number with the property its run begins somewhere. -/
theorem exists_begin (hlo : lo ≤ i) (hi : P i) :
    ∃ a, lo ≤ a ∧ a ≤ i ∧ (∀ j, a ≤ j → j ≤ i → P j) ∧ (lo < a → ¬ P (a - 1)) := by
  induction i, hlo using Nat.le_induction with
  | base =>
      refine ⟨lo, Nat.le_refl lo, Nat.le_refl lo, ?_, fun h => absurd h (Nat.lt_irrefl lo)⟩
      intro j hj hj'
      rw [Nat.le_antisymm hj' hj]
      exact hi
  | succ i hle ih =>
      by_cases hprev : P i
      · obtain ⟨a, hlo, ha, hall, hbefore⟩ := ih hprev
        refine ⟨a, hlo, Nat.le_succ_of_le ha, ?_, hbefore⟩
        intro j hj hj'
        cases Nat.lt_or_eq_of_le hj' with
        | inl hlt => exact hall j hj (Nat.le_of_lt_succ hlt)
        | inr heq => exact heq ▸ hi
      · refine ⟨i + 1, Nat.le_succ_of_le hle, Nat.le_refl _, ?_, fun _ => hprev⟩
        intro j hj hj'
        rw [Nat.le_antisymm hj' hj]
        exact hi

/-- To the right of a number with the property its run ends somewhere. -/
theorem exists_end (hhi : i < hi) (hPi : P i) :
    ∃ b, i < b ∧ b ≤ hi ∧ (∀ j, i ≤ j → j < b → P j) ∧ (b < hi → ¬ P b) := by
  induction hgap : hi - i generalizing i with
  | zero => omega
  | succ n ih =>
      have hone : ∀ j, i ≤ j → j < i + 1 → P j := by
        intro j hj hj'
        rw [Nat.le_antisymm (Nat.le_of_lt_succ hj') hj]
        exact hPi
      by_cases hnext : i + 1 < hi ∧ P (i + 1)
      · obtain ⟨b, hb, hle, hall, hbehind⟩ := ih hnext.1 hnext.2 (by omega)
        refine ⟨b, by omega, hle, ?_, hbehind⟩
        intro j hj hj'
        cases Nat.lt_or_ge j (i + 1) with
        | inl hlt => exact hone j hj hlt
        | inr hge => exact hall j hge hj'
      · refine ⟨i + 1, Nat.lt_succ_self i, hhi, hone, ?_⟩
        intro hlt hP
        exact hnext ⟨hlt, hP⟩

/-- Every number with the property lies in a maximal run. -/
theorem exists_run (hlo : lo ≤ i) (hhi : i < hi) (hPi : P i) :
    ∃ r, IsRun P lo hi r ∧ r.1 ≤ i ∧ i < r.2 := by
  obtain ⟨a, hloa, hai, hleft, hbefore⟩ := exists_begin hlo hPi
  obtain ⟨b, hib, hbhi, hright, hbehind⟩ := exists_end hhi hPi
  refine ⟨(a, b), ⟨Nat.lt_of_le_of_lt hai hib, hloa, hbhi, ?_, hbefore, hbehind⟩, hai, hib⟩
  intro j hj hj'
  cases Nat.le_total j i with
  | inl hle => exact hleft j hj hle
  | inr hge => exact hright j hge hj'

/-- Where nothing has the property there is no run. -/
theorem runs_nil (h : ∀ i, lo ≤ i → i < hi → ¬ P i) : Runs P lo hi [] where
  mem_iff := by
    intro r
    constructor
    · intro hr
      cases hr
    · intro hr
      exact absurd (hr.inside r.1 (Nat.le_refl _) hr.lt)
        (h r.1 hr.lo_le (Nat.lt_of_lt_of_le hr.lt hr.le_hi))
  increasing := .nil

/-- A run at the start of the interval, and the runs of the rest. -/
theorem runs_cons_iff (hlt : lo < mid) (hle : mid ≤ hi) (hall : ∀ i, lo ≤ i → i < mid → P i)
    (hend : mid < hi → ¬ P mid) : Runs P lo hi ((lo, mid) :: rs) ↔ Runs P mid hi rs := by
  have hfirst : IsRun P lo hi (lo, mid) :=
    ⟨hlt, Nat.le_refl lo, hle, hall, fun h => absurd h (Nat.lt_irrefl lo), hend⟩
  -- a run of the rest does not begin where the first one ends
  have hbegin : ∀ r, IsRun P mid hi r → mid < r.1 := by
    intro r hr
    apply Nat.lt_of_le_of_ne hr.lo_le
    intro heq
    apply hend (heq ▸ Nat.lt_of_lt_of_le hr.lt hr.le_hi)
    exact hr.inside mid (by omega) (by have := hr.lt; omega)
  have hrest : ∀ r, IsRun P mid hi r ↔ mid < r.1 ∧ IsRun P lo hi r := by
    intro r
    constructor
    · intro hr
      have hmid := hbegin r hr
      exact ⟨hmid, hr.lt, by omega, hr.le_hi, hr.inside, fun _ => hr.before hmid, hr.behind⟩
    · rintro ⟨hmid, hr⟩
      exact ⟨hr.lt, by omega, hr.le_hi, hr.inside, fun _ => hr.before (by omega), hr.behind⟩
  constructor
  · intro h
    obtain ⟨hapart, hincreasing⟩ := List.pairwise_cons.mp h.increasing
    refine ⟨fun r => ?_, hincreasing⟩
    rw [hrest, ← h.mem_iff, List.mem_cons]
    constructor
    · intro hr
      exact ⟨hapart r hr, Or.inr hr⟩
    · rintro ⟨hmid, rfl | hr⟩
      · exact absurd hmid (by dsimp only; omega)
      · exact hr
  · intro h
    refine ⟨fun r => ?_, List.pairwise_cons.mpr ⟨?_, h.increasing⟩⟩
    · rw [List.mem_cons, h.mem_iff, hrest]
      constructor
      · rintro (rfl | hr)
        · exact hfirst
        · exact hr.2
      · intro hr
        by_cases hmid : mid < r.1
        · exact Or.inr ⟨hmid, hr⟩
        · -- a run that begins no later than `mid` is the first one
          left
          have hbeg : r.1 = lo := by
            by_contra hne
            have hlo := hr.lo_le
            apply hr.before (by omega)
            exact hall _ (by omega) (by omega)
          have hstop : r.2 = mid := by
            rcases Nat.lt_trichotomy r.2 mid with hshort | heq | hlong
            · exact absurd (hall r.2 (by have := hr.lt; omega) hshort) (hr.behind (by omega))
            · exact heq
            · exact absurd (hr.inside mid (by omega) hlong) (hend (by have := hr.le_hi; omega))
          exact Prod.ext hbeg hstop
    · intro r hr
      exact hbegin r ((h.mem_iff r).mp hr)

/-- A gap at the start of the interval. -/
theorem runs_skip_iff (hle : lo ≤ mid) (hnone : ∀ i, lo ≤ i → i < mid → ¬ P i) :
    Runs P lo hi rs ↔ Runs P mid hi rs := by
  have hsame : ∀ r, IsRun P lo hi r ↔ IsRun P mid hi r := by
    intro r
    constructor
    · intro hr
      have hmid : mid ≤ r.1 := by
        by_contra hlt
        exact hnone r.1 hr.lo_le (by omega) (hr.inside r.1 (Nat.le_refl _) hr.lt)
      exact ⟨hr.lt, hmid, hr.le_hi, hr.inside, fun _ => hr.before (by omega), hr.behind⟩
    · intro hr
      have hmid := hr.lo_le
      refine ⟨hr.lt, by omega, hr.le_hi, hr.inside, fun hlo => ?_, hr.behind⟩
      rcases Nat.lt_or_eq_of_le hmid with hlt | heq
      · exact hr.before hlt
      · exact hnone _ (by omega) (by omega)
  constructor
  · intro h
    exact ⟨fun r => (h.mem_iff r).trans (hsame r), h.increasing⟩
  · intro h
    exact ⟨fun r => (h.mem_iff r).trans (hsame r).symm, h.increasing⟩

/-- The ranges cover exactly the numbers that have the property. -/
theorem Runs.mem_range_iff (h : Runs P lo hi rs) :
    (∃ r ∈ rs, r.1 ≤ i ∧ i < r.2) ↔ lo ≤ i ∧ i < hi ∧ P i := by
  constructor
  · rintro ⟨r, hr, hbegin, hend⟩
    have hrun := (h.mem_iff r).mp hr
    exact ⟨Nat.le_trans hrun.lo_le hbegin, Nat.lt_of_lt_of_le hend hrun.le_hi,
      hrun.inside i hbegin hend⟩
  · rintro ⟨hlo, hhi, hPi⟩
    obtain ⟨r, hrun, hbegin, hend⟩ := exists_run hlo hhi hPi
    exact ⟨r, (h.mem_iff r).mpr hrun, hbegin, hend⟩

/-- There is one list of runs only. -/
theorem Runs.unique (h : Runs P lo hi rs) (h' : Runs P lo hi rs') : rs = rs' := by
  induction rs generalizing lo rs' with
  | nil =>
      cases rs' with
      | nil => rfl
      | cons r rs' =>
          have hr := (h.mem_iff r).mpr ((h'.mem_iff r).mp List.mem_cons_self)
          cases hr
  | cons r rs ih =>
      have hr := (h.mem_iff r).mp List.mem_cons_self
      have hmem := (h'.mem_iff r).mpr hr
      cases rs' with
      | nil => cases hmem
      | cons r' rs' =>
          obtain ⟨hapart, hincreasing⟩ := List.pairwise_cons.mp h.increasing
          obtain ⟨hapart', hincreasing'⟩ := List.pairwise_cons.mp h'.increasing
          have hr' := (h'.mem_iff r').mp List.mem_cons_self
          -- neither head stands behind the other one
          have heads : r = r' := by
            cases List.mem_cons.mp hmem with
            | inl heq => exact heq
            | inr hlater =>
                have hmem' := (h.mem_iff r').mpr hr'
                cases List.mem_cons.mp hmem' with
                | inl heq => exact heq.symm
                | inr hlater' =>
                    have h₁ := hapart' r hlater
                    have h₂ := hapart r' hlater'
                    have h₃ := hr.lt
                    have h₄ := hr'.lt
                    omega
          subst heads
          have hgap : ∀ i, lo ≤ i → i < r.1 → ¬ P i := by
            intro i hlo hlt hPi
            have hhi : i < hi := Nat.lt_of_lt_of_le hlt (Nat.le_trans (Nat.le_of_lt hr.lt) hr.le_hi)
            obtain ⟨s, hs, hsi, -⟩ := exists_run hlo hhi hPi
            cases List.mem_cons.mp ((h.mem_iff s).mpr hs) with
            | inl heq => exact absurd hsi (by rw [heq]; omega)
            | inr hlater =>
                have h₁ := hapart s hlater
                have h₂ := hr.lt
                omega
          have hrest : ∀ {ts}, Runs P lo hi (r :: ts) → Runs P r.2 hi ts := fun ht =>
            (runs_cons_iff hr.lt hr.le_hi hr.inside hr.behind).mp
              ((runs_skip_iff hr.lo_le hgap).mp ht)
          rw [ih (hrest h) (hrest h')]

end MaximalRuns
