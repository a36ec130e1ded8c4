/-
Module: Gvds.Lib.SlotTable
Layer: Lib
Purpose: Numbered slots of which the smallest free one is handed out, as a Unix process numbers its
  descriptors.
Imports: Mathlib.Tactic.Basic
Trusted boundary: none
Main exports: SlotTable, SlotTable.get, SlotTable.firstFree, SlotTable.alloc, SlotTable.free,
  SlotTable.inUse, SlotTable.firstFree_lt_iff
-/
import Mathlib.Tactic.Basic

/-- The slots in use up to the largest one; a slot that is `none` is free, and so are all beyond the
end. -/
abbrev SlotTable (α : Type*) := List (Option α)

namespace SlotTable

variable {α : Type*}

/-- What slot `n` holds. -/
def get (t : SlotTable α) (n : Nat) : Option α := t[n]?.join

/-- The smallest free number. -/
def firstFree (t : SlotTable α) : Nat := t.findIdx Option.isNone

/-- Put `a` into the smallest free slot. -/
def alloc (t : SlotTable α) (a : α) : SlotTable α :=
  if t.firstFree < t.length then t.set t.firstFree (some a) else t ++ [some a]

/-- Free slot `n`. -/
def free (t : SlotTable α) (n : Nat) : SlotTable α := t.set n none

/-- How many slots are in use. -/
def inUse (t : SlotTable α) : Nat := t.countP Option.isSome

/-- The smallest free number is free. -/
theorem get_firstFree (t : SlotTable α) : t.get t.firstFree = none := by
  unfold get
  cases h : t[t.firstFree]? with
  | none => rfl
  | some slot =>
      obtain ⟨hlt, rfl⟩ := List.getElem?_eq_some_iff.mp h
      have hfree : (t[t.firstFree]).isNone = true :=
        List.findIdx_getElem (w := hlt)
      simpa using hfree

/-- The allocated slot holds what was put in. -/
theorem get_alloc_self (t : SlotTable α) (a : α) : (t.alloc a).get t.firstFree = some a := by
  unfold alloc get
  by_cases hlt : t.firstFree < t.length
  · simp [hlt]
  · have hend : t.firstFree = t.length := by
      have : t.findIdx Option.isNone ≤ t.length := List.findIdx_le_length
      unfold firstFree at *
      omega
    simp [hend]

/-- Allocation touches no other slot. -/
theorem get_alloc_of_ne {t : SlotTable α} {n : Nat} (h : n ≠ t.firstFree) (a : α) :
    (t.alloc a).get n = t.get n := by
  unfold alloc get
  by_cases hlt : t.firstFree < t.length
  · simp [hlt, List.getElem?_set_ne (Ne.symm h)]
  · have hend : t.firstFree = t.length := by
      have : t.findIdx Option.isNone ≤ t.length := List.findIdx_le_length
      unfold firstFree at *
      omega
    rw [hend] at h
    simp only [hlt, if_false]
    rcases Nat.lt_or_gt_of_ne h with hn | hn
    · rw [List.getElem?_append_left hn]
    · rw [List.getElem?_eq_none (by simp; omega), List.getElem?_eq_none (by omega)]

@[simp] theorem get_free_self (t : SlotTable α) (n : Nat) : (t.free n).get n = none := by
  unfold free get
  by_cases hn : n < t.length
  · simp [hn]
  · simp [hn]

theorem get_free_of_ne {t : SlotTable α} {m n : Nat} (h : m ≠ n) : (t.free n).get m = t.get m := by
  simp [free, get, List.getElem?_set_ne (Ne.symm h)]

/-- What is there after a slot has been freed was there before. -/
theorem get_of_get_free {t : SlotTable α} {m n : Nat} {a : α} (h : (t.free n).get m = some a) :
    t.get m = some a := by
  by_cases hmn : m = n
  · subst hmn
    rw [get_free_self] at h
    cases h
  · rwa [get_free_of_ne hmn] at h

/-! ### How many slots are in use -/

/-- Taking a slot that is not in use. -/
theorem inUse_set_some {t : SlotTable α} {n : Nat} (h : t[n]? = some none) (a : α) :
    inUse (t.set n (some a)) = t.inUse + 1 := by
  induction t generalizing n with
  | nil => simp at h
  | cons slot t ih =>
      cases n with
      | zero =>
          simp only [List.getElem?_cons_zero, Option.some.injEq] at h
          simp [inUse, h]
      | succ n =>
          have hrest := ih h
          simp only [inUse] at hrest
          simp only [inUse, List.set_cons_succ, List.countP_cons, hrest]
          omega

/-- Freeing a slot that is in use. -/
theorem inUse_set_none {t : SlotTable α} {n : Nat} {a : α} (h : t[n]? = some (some a)) :
    inUse (t.set n none) + 1 = t.inUse := by
  induction t generalizing n with
  | nil => simp at h
  | cons slot t ih =>
      cases n with
      | zero =>
          simp only [List.getElem?_cons_zero, Option.some.injEq] at h
          simp [inUse, h]
      | succ n =>
          have hrest := ih h
          simp only [inUse] at hrest
          simp only [inUse, List.set_cons_succ, List.countP_cons, ← hrest]
          omega

theorem inUse_alloc (t : SlotTable α) (a : α) : (t.alloc a).inUse = t.inUse + 1 := by
  unfold alloc
  by_cases hlt : t.firstFree < t.length
  · rw [if_pos hlt]
    apply inUse_set_some
    have hget := get_firstFree t
    unfold get at hget
    rw [List.getElem?_eq_getElem hlt] at hget ⊢
    simpa using hget
  · rw [if_neg hlt]
    simp [inUse]

theorem inUse_free {t : SlotTable α} {n : Nat} (h : (t.get n).isSome) :
    (t.free n).inUse + 1 = t.inUse := by
  obtain ⟨a, ha⟩ := Option.isSome_iff_exists.mp h
  unfold get at ha
  apply inUse_set_none (a := a)
  cases hslot : t[n]? with
  | none => simp [hslot] at ha
  | some slot =>
      rw [hslot, Option.join_some] at ha
      rw [ha]

/-- In a table that stays below a limit, a slot below it is free iff fewer than so many are in use. -/
theorem firstFree_lt_iff {t : SlotTable α} {limit : Nat} (h : t.length ≤ limit) :
    t.firstFree < limit ↔ t.inUse < limit := by
  by_cases hfree : t.firstFree < t.length
  · have hsome : t.inUse < t.length := by
      apply Nat.lt_of_le_of_ne List.countP_le_length
      intro heq
      have hall := List.countP_eq_length.mp heq _ (List.getElem_mem hfree)
      have hnone : (t[t.firstFree]).isNone = true := List.findIdx_getElem (w := hfree)
      rw [Option.isNone_iff_eq_none] at hnone
      rw [hnone] at hall
      cases hall
    exact ⟨fun _ => Nat.lt_of_lt_of_le hsome h, fun _ => Nat.lt_of_lt_of_le hfree h⟩
  · have hend : t.firstFree = t.length :=
      Nat.le_antisymm List.findIdx_le_length (Nat.le_of_not_lt hfree)
    have hall : t.inUse = t.length := by
      apply List.countP_eq_length.mpr
      intro slot hslot
      have hnone := List.findIdx_eq_length.mp hend slot hslot
      simpa using hnone
    rw [hend, hall]

/-- Allocating below the limit keeps all slots below it. -/
theorem length_alloc_le {t : SlotTable α} {limit : Nat} (h : t.length ≤ limit)
    (hfree : t.firstFree < limit) (a : α) : (t.alloc a).length ≤ limit := by
  unfold alloc
  by_cases hlt : t.firstFree < t.length
  · rw [if_pos hlt, List.length_set]
    exact h
  · have hend : t.firstFree = t.length :=
      Nat.le_antisymm List.findIdx_le_length (Nat.le_of_not_lt hlt)
    rw [if_neg hlt, List.length_append, List.length_singleton, ← hend]
    exact hfree

theorem length_free (t : SlotTable α) (n : Nat) : (t.free n).length = t.length := List.length_set

end SlotTable
