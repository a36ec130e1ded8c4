/-
Module: Gvds.Lib.Ledger
Layer: Lib
Purpose: A ledger: entries that each put an amount on every account, and the balances that are kept
  for the accounts. The balances stay right while an entry is changed together with them.
Imports: Mathlib.Algebra.BigOperators.Group.Finset.Basic, Mathlib.Algebra.Group.Int.Defs
Trusted boundary: none
Main exports: InBalance, InBalance.zero, InBalance.post
-/
import Mathlib.Algebra.BigOperators.Group.Finset.Basic
import Mathlib.Algebra.Group.Int.Defs

variable {ι κ : Type*}

/-- Each balance that is kept is the sum of the entries on its account, of which finitely many
count. -/
def InBalance (balance : κ → Option Int) (entry : ι → κ → Int) : Prop :=
  ∃ ids : Finset ι, (∀ i ∉ ids, ∀ k, entry i k = 0) ∧
    ∀ k b, balance k = some b → b = ∑ i ∈ ids, entry i k

/-- Without entries all balances are 0. -/
theorem InBalance.zero {balance : κ → Option Int} {entry : ι → κ → Int}
    (hbalance : ∀ k b, balance k = some b → b = 0) (hentry : ∀ i k, entry i k = 0) :
    InBalance balance entry := by
  refine ⟨∅, fun i _ k => hentry i k, fun k b hb => ?_⟩
  rw [hbalance k b hb, Finset.sum_empty]

/-- A sum after one entry has changed. -/
theorem sum_change [DecidableEq ι] {ids : Finset ι} {f f' : ι → Int} {i : ι} (hi : i ∈ ids)
    (hother : ∀ j, j ≠ i → f' j = f j) : ∑ j ∈ ids, f' j = ∑ j ∈ ids, f j + (f' i - f i) := by
  have hrest : ∑ j ∈ ids.erase i, f' j = ∑ j ∈ ids.erase i, f j :=
    Finset.sum_congr rfl fun j hj => hother j (Finset.ne_of_mem_erase hj)
  have hsum := Finset.add_sum_erase ids f hi
  have hsum' := Finset.add_sum_erase ids f' hi
  rw [hrest] at hsum'
  omega

/-- One entry is changed, and each balance by the same amount. -/
theorem InBalance.post {balance balance' : κ → Option Int} {entry entry' : ι → κ → Int}
    (h : InBalance balance entry) (i : ι) (hother : ∀ j, j ≠ i → entry' j = entry j)
    (hbalance : ∀ k b', balance' k = some b' →
      ∃ b, balance k = some b ∧ b' = b + (entry' i k - entry i k)) : InBalance balance' entry' := by
  classical
  obtain ⟨ids, hzero, hsum⟩ := h
  refine ⟨insert i ids, fun j hj k => ?_, fun k b' hb' => ?_⟩
  · rw [Finset.mem_insert, not_or] at hj
    rw [hother j hj.1, hzero j hj.2]
  · obtain ⟨b, hb, rfl⟩ := hbalance k b' hb'
    have hinsert : ∑ j ∈ insert i ids, entry j k = ∑ j ∈ ids, entry j k :=
      Finset.sum_insert_of_eq_zero_if_notMem fun hi => hzero i hi k
    rw [sum_change (Finset.mem_insert_self i ids) fun j hj => congrFun (hother j hj) k, hinsert,
      hsum k b hb]
