/-
Module: Gvds.Lib.Rounds
Layer: Lib
Purpose: Loops whose next state depends on the state alone. A loop that stays among finitely many
  states and has made more rounds than there are such states repeats one, and never ends.
Imports: Mathlib.Data.Finset.Card, Mathlib.Logic.Function.Iterate
Trusted boundary: none
Main exports: Loop.Rounds, Loop.rounds_iff_isSome, Loop.Rounds.forever
-/
import Mathlib.Data.Finset.Card
import Mathlib.Logic.Function.Iterate

namespace Loop

variable {α : Type*}

/-- A loop makes so many rounds from a state; `next` has no value where the loop ends. -/
def Rounds (next : α → Option α) : Nat → α → Prop
  | 0, _ => True
  | n + 1, a => ∃ b, next a = some b ∧ Rounds next n b

/-- The state after so many rounds, if the loop makes them. -/
def stateAfter (next : α → Option α) (n : Nat) (a : Option α) : Option α :=
  (fun x => x.bind next)^[n] a

section stateAfter

variable {next : α → Option α}

@[simp] theorem stateAfter_zero (a : Option α) : stateAfter next 0 a = a := rfl

theorem stateAfter_succ (n : Nat) (a : Option α) :
    stateAfter next (n + 1) a = (stateAfter next n a).bind next :=
  Function.iterate_succ_apply' _ n a

theorem stateAfter_add (m n : Nat) (a : Option α) :
    stateAfter next (m + n) a = stateAfter next m (stateAfter next n a) :=
  Function.iterate_add_apply _ m n a

@[simp] theorem stateAfter_none (n : Nat) : stateAfter next n none = none := by
  induction n with
  | zero => rfl
  | succ n ih => rw [stateAfter_succ, ih, Option.bind_none]

theorem rounds_iff_isSome {n : Nat} {a : α} :
    Rounds next n a ↔ (stateAfter next n (some a)).isSome = true := by
  induction n generalizing a with
  | zero => simp [Rounds]
  | succ n ih =>
      rw [stateAfter_add n 1, stateAfter_succ, stateAfter_zero, Option.bind_some]
      cases hnext : next a with
      | none => simp [Rounds, hnext]
      | some b => simp [Rounds, hnext, ih]

/-- A loop that makes some rounds makes all up to there. -/
theorem isSome_stateAfter_of_le {m n : Nat} (h : m ≤ n) {a : Option α}
    (hn : (stateAfter next n a).isSome = true) : (stateAfter next m a).isSome = true := by
  obtain ⟨k, rfl⟩ := Nat.exists_eq_add_of_le' h
  cases hm : stateAfter next m a with
  | none => simp [stateAfter_add, hm] at hn
  | some b => rfl

end stateAfter

/-- A loop that leaves a finite set of states only by ending goes on for ever once it has made more
rounds than the set has states. -/
theorem Rounds.forever {next : α → Option α} {s : Finset α}
    (hs : ∀ a b, next a = some b → a ∈ s) {a : α} (h : Rounds next (s.card + 1) a) (n : Nat) :
    Rounds next n a := by
  have hsome : ∀ k ≤ s.card + 1, (stateAfter next k (some a)).isSome = true := fun k hk =>
    isSome_stateAfter_of_le hk (rounds_iff_isSome.mp h)
  -- the states before the last round are in the set
  have hmem : ∀ k < s.card + 1, ∃ b ∈ s, stateAfter next k (some a) = some b := by
    intro k hk
    obtain ⟨b, hb⟩ := Option.isSome_iff_exists.mp (hsome k hk.le)
    obtain ⟨c, hc⟩ := Option.isSome_iff_exists.mp (hsome (k + 1) hk)
    rw [stateAfter_succ, hb, Option.bind_some] at hc
    exact ⟨b, hs b c hc, hb⟩
  obtain ⟨i, j, hij, hj, hrepeat⟩ : ∃ i j, i < j ∧ j < s.card + 1 ∧
      stateAfter next i (some a) = stateAfter next j (some a) := by
    have hcard : (s.map ⟨some, Option.some_injective α⟩).card <
        (Finset.range (s.card + 1)).card := by
      rw [Finset.card_map, Finset.card_range]
      exact Nat.lt_succ_self _
    have hmaps : Set.MapsTo (fun k => stateAfter next k (some a)) (Finset.range (s.card + 1))
        (s.map ⟨some, Option.some_injective α⟩) := by
      intro k hk
      obtain ⟨b, hb, hstate⟩ := hmem k (Finset.mem_range.mp hk)
      exact Finset.mem_coe.mpr (Finset.mem_map.mpr ⟨b, hb, hstate.symm⟩)
    obtain ⟨i, hi, j, hj, hne, heq⟩ := Finset.exists_ne_map_eq_of_card_lt_of_maps_to hcard hmaps
    rw [Finset.mem_range] at hi hj
    rcases Nat.lt_or_gt_of_ne hne with hlt | hlt
    · exact ⟨i, j, hlt, hj, heq⟩
    · exact ⟨j, i, hlt, hi, heq.symm⟩
  -- from the second time on, the loop does what it has done from the first time on
  have hall : ∀ k, (stateAfter next k (some a)).isSome = true := by
    intro k
    induction k using Nat.strong_induction_on with
    | _ k ih =>
        rcases Nat.lt_or_ge k j with hk | hk
        · exact hsome k (by omega)
        · have hback : stateAfter next k (some a) = stateAfter next (k - j + i) (some a) := by
            conv_lhs => rw [← Nat.sub_add_cancel hk, stateAfter_add, ← hrepeat, ← stateAfter_add]
          rw [hback]
          exact ih (k - j + i) (by omega)
  exact rounds_iff_isSome.mpr (hall n)

end Loop
