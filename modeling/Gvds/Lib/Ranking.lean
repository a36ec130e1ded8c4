/-
Module: Gvds.Lib.Ranking
Layer: Lib
Purpose: The orderings of a list by a value of its entries. A sort that is not stable may give each
  of them; so what holds in every one of them of any two entries, the earlier one and the later one,
  holds of all entries whose values do not order them the other way.
Imports: Mathlib.Data.List.Sort, Mathlib.Order.Defs.LinearOrder
Trusted boundary: none
Main exports: Ranking, ranking_mergeSort, exists_ranking_before, forall_ranking_iff
-/
import Mathlib.Data.List.Sort
import Mathlib.Order.Defs.LinearOrder

/-- `ranked` has the entries of `l`, and their values ascend. -/
def Ranking {α β : Type*} [LE β] (value : α → β) (l ranked : List α) : Prop :=
  ranked.Perm l ∧ ranked.Pairwise fun a b => value a ≤ value b

namespace Ranking

variable {α β : Type*} [LinearOrder β] {value : α → β} {l : List α}

theorem decide_trans (value : α → β) (a b c : α) (hab : decide (value a ≤ value b) = true)
    (hbc : decide (value b ≤ value c) = true) : decide (value a ≤ value c) = true := by
  rw [decide_eq_true_eq] at hab hbc ⊢
  exact hab.trans hbc

theorem decide_total (value : α → β) (a b : α) :
    (decide (value a ≤ value b) || decide (value b ≤ value a)) = true := by
  rw [Bool.or_eq_true, decide_eq_true_eq, decide_eq_true_eq]
  exact le_total _ _

/-- A stable sort gives one of the orderings. -/
theorem ranking_mergeSort (value : α → β) (l : List α) :
    Ranking value l (l.mergeSort fun a b => decide (value a ≤ value b)) := by
  refine ⟨List.mergeSort_perm _ _, ?_⟩
  refine (List.pairwise_mergeSort (decide_trans value) (decide_total value) l).imp ?_
  intro a b hle
  exact of_decide_eq_true hle

/-- Some ordering puts an entry before another one of no smaller value: move it to the front, and
sort the list by a stable sort. -/
theorem exists_ranking_before {a b : α} (ha : a ∈ l) (hb : b ∈ l) (hne : a ≠ b)
    (hle : value a ≤ value b) : ∃ ranked, Ranking value l ranked ∧ [a, b].Sublist ranked := by
  classical
  have hsub : [a, b].Sublist (a :: l.erase a) := by
    refine List.Sublist.cons_cons a (List.singleton_sublist.mpr ?_)
    exact (List.mem_erase_of_ne (Ne.symm hne)).mpr hb
  obtain ⟨hperm, hsorted⟩ := ranking_mergeSort value (a :: l.erase a)
  refine ⟨_, ⟨hperm.trans (List.perm_cons_erase ha).symm, hsorted⟩, ?_⟩
  exact List.pair_sublist_mergeSort (decide_trans value) (decide_total value)
    (decide_eq_true hle) hsub

/-- What holds in every ordering of any two entries. -/
theorem forall_ranking_iff (hnodup : l.Nodup) {R : α → α → Prop} :
    (∀ ranked, Ranking value l ranked → ranked.Pairwise R) ↔
      ∀ a ∈ l, ∀ b ∈ l, a ≠ b → value a ≤ value b → R a b := by
  constructor
  · intro h a ha b hb hne hle
    obtain ⟨ranked, hranking, hsub⟩ := exists_ranking_before ha hb hne hle
    exact List.pairwise_pair.mp ((h ranked hranking).sublist hsub)
  · rintro h ranked ⟨hperm, hsorted⟩
    have hdistinct : ranked.Nodup := hperm.nodup_iff.mpr hnodup
    refine (hsorted.and hdistinct).imp_of_mem ?_
    rintro a b ha hb ⟨hle, hne⟩
    exact h a (hperm.mem_iff.mp ha) b (hperm.mem_iff.mp hb) hne hle

end Ranking
