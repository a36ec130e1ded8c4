/-
Module: Gvds.Lib.Directory
Layer: Lib
Purpose: A directory leads from names to identifiers, records are kept under their identifiers. When
  entries and records match, and which single changes keep them matched.
Imports: Mathlib.Logic.Function.Basic, Mathlib.Data.Option.Basic
Trusted boundary: none
Main exports: Matched, Matched.insert_iff, Matched.replace_iff, Matched.clear_iff
-/
import Mathlib.Logic.Function.Basic
import Mathlib.Data.Option.Basic

variable {ν ι ρ : Type*} {name : ρ → ν} {ident : ρ → ι} {entries : ν → Option ι}
  {records : ι → Option ρ}

/-- An entry leads to an identifier iff there is a record, which has the name and the identifier. -/
structure Matched (name : ρ → ν) (ident : ρ → ι) (entries : ν → Option ι) (records : ι → Option ρ) :
    Prop where
  listed : ∀ i, (∃ n, entries n = some i) ↔ (records i).isSome
  agrees : ∀ n i r, entries n = some i → records i = some r → name r = n ∧ ident r = i

namespace Matched

/-- The entry of a record has its name. -/
theorem entry_of_record (h : Matched name ident entries records) {i : ι} {r : ρ}
    (hr : records i = some r) : entries (name r) = some i := by
  obtain ⟨n, hn⟩ := (h.listed i).2 (hr ▸ rfl)
  rw [(h.agrees n i r hn hr).1, hn]

/-- Without records there are no entries. -/
theorem entry_ne (h : Matched name ident entries records) {n : ν} {i : ι} (hi : records i = none) :
    entries n ≠ some i := by
  intro hn
  have hsome := (h.listed i).1 ⟨n, hn⟩
  rw [hi] at hsome
  cases hsome

variable [DecidableEq ι]

/-- A record may be replaced by one of the same name, if it has the identifier. -/
theorem replace_iff (h : Matched name ident entries records) {i : ι} {r : ρ} :
    Matched name ident entries (Function.update records i (some r)) ↔
      ident r = i ∧ ∃ old, records i = some old ∧ name old = name r := by
  constructor
  · intro h'
    obtain ⟨n, hn⟩ := (h'.listed i).2 (by rw [Function.update_self]; rfl)
    obtain ⟨hname, hident⟩ := h'.agrees n i r hn (Function.update_self i _ records)
    obtain ⟨old, hold⟩ := Option.isSome_iff_exists.1 ((h.listed i).1 ⟨n, hn⟩)
    exact ⟨hident, old, hold, (h.agrees n i old hn hold).1.trans hname.symm⟩
  · rintro ⟨hident, old, hold, hname⟩
    refine ⟨fun j => ?_, fun n j q hn hq => ?_⟩
    · by_cases hj : j = i
      · rw [hj, Function.update_self, h.listed i, hold]
        rfl
      · rw [Function.update_of_ne hj, h.listed j]
    · by_cases hj : j = i
      · subst hj
        rw [Function.update_self] at hq
        obtain rfl := Option.some.inj hq
        exact ⟨hname.symm.trans (h.agrees n j old hn hold).1, hident⟩
      · rw [Function.update_of_ne hj] at hq
        exact h.agrees n j q hn hq

/-- All entries may go with a record iff it is the only one. -/
theorem clear_iff {i : ι} :
    Matched name ident (fun _ => none) (Function.update records i none) ↔
      ∀ j ≠ i, records j = none := by
  constructor
  · intro h' j hj
    have hnone := mt (h'.listed j).2 (by rintro ⟨n, hn⟩; cases hn)
    rw [Function.update_of_ne hj, Option.not_isSome_iff_eq_none] at hnone
    exact hnone
  · intro hothers
    refine ⟨fun j => ⟨?_, fun hj => ?_⟩, fun n j q hn _ => ?_⟩
    · rintro ⟨n, hn⟩
      cases hn
    · by_cases hji : j = i
      · rw [hji, Function.update_self] at hj
        cases hj
      · rw [Function.update_of_ne hji, hothers j hji] at hj
        cases hj
    · cases hn

variable [DecidableEq ν]

/-- A new entry with its new record matches iff the record has the name and the identifier. -/
theorem insert_iff (h : Matched name ident entries records) {n : ν} {i : ι} {r : ρ}
    (hn : entries n = none) (hi : records i = none) :
    Matched name ident (Function.update entries n (some i)) (Function.update records i (some r)) ↔
      name r = n ∧ ident r = i := by
  constructor
  · intro h'
    exact h'.agrees n i r (Function.update_self n _ entries) (Function.update_self i _ records)
  · intro hr
    refine ⟨fun j => ?_, fun m j q hm hq => ?_⟩
    · by_cases hj : j = i
      · subst hj
        simp only [Function.update_self, Option.isSome_some, iff_true]
        exact ⟨n, Function.update_self n _ entries⟩
      · rw [Function.update_of_ne hj, ← h.listed j]
        constructor
        · rintro ⟨m, hm⟩
          by_cases hmn : m = n
          · rw [hmn, Function.update_self] at hm
            exact absurd (Option.some.inj hm).symm hj
          · rw [Function.update_of_ne hmn] at hm
            exact ⟨m, hm⟩
        · rintro ⟨m, hm⟩
          have hmn : m ≠ n := fun heq => by rw [heq, hn] at hm; cases hm
          exact ⟨m, by rw [Function.update_of_ne hmn, hm]⟩
    · by_cases hmn : m = n
      · subst hmn
        rw [Function.update_self] at hm
        obtain rfl := Option.some.inj hm
        rw [Function.update_self] at hq
        obtain rfl := Option.some.inj hq
        exact hr
      · rw [Function.update_of_ne hmn] at hm
        have hj : j ≠ i := fun heq => h.entry_ne hi (heq ▸ hm)
        rw [Function.update_of_ne hj] at hq
        exact h.agrees m j q hm hq

end Matched
