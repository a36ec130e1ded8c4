/-
Module: Gvds.Lib.IndexedList
Layer: Lib
Purpose: A list as a table of entries that are known by their index: an entry comes behind all others
  or takes the place of another one. What stands at an index then, and how counts, images and what the
  list yields change.
Imports: Mathlib.Data.List.Perm.Basic, Mathlib.Tactic.Basic
Trusted boundary: none
Main exports: IndexedList.getElem?_concat_cases, IndexedList.getElem?_set_cases,
  IndexedList.countP_set_add, IndexedList.filterMap_set_perm
-/
import Mathlib.Data.List.Perm.Basic
import Mathlib.Tactic.Basic

namespace IndexedList

open List

variable {α β : Type*}

/-- An entry of a longer list is the new one, or stood there before. -/
theorem getElem?_concat_cases {l : List α} {a b : α} {j : Nat} (h : (l ++ [a])[j]? = some b) :
    l[j]? = some b ∨ j = l.length ∧ b = a := by
  rcases Nat.lt_or_ge j l.length with hlt | hge
  · rw [List.getElem?_append_left hlt] at h
    exact .inl h
  · rw [List.getElem?_append_right hge, List.getElem?_singleton] at h
    split at h
    next hzero => exact .inr ⟨by omega, (Option.some.inj h).symm⟩
    next => cases h

/-- An entry of a list in which one was replaced is the new one, or stood there before. -/
theorem getElem?_set_cases {l : List α} {j k : Nat} {a b : α}
    (h : (l.set k a)[j]? = some b) : j = k ∧ b = a ∨ j ≠ k ∧ l[j]? = some b := by
  by_cases hj : j = k
  · subst hj
    have hlt : j < l.length := by
      simpa using (List.getElem?_eq_some_iff.mp h).1
    rw [List.getElem?_set_self hlt, Option.some.injEq] at h
    exact .inl ⟨rfl, h.symm⟩
  · rw [List.getElem?_set_ne (Ne.symm hj)] at h
    exact .inr ⟨hj, h⟩

/-- Another entry stays when one is replaced. -/
theorem mem_set_of_ne {l : List α} {k : Nat} {a x : α} (h : l[k]? = some a) (hx : x ∈ l)
    (hne : x ≠ a) (b : α) : x ∈ l.set k b := by
  obtain ⟨j, hj⟩ := List.mem_iff_getElem?.mp hx
  have hjk : k ≠ j := by
    rintro rfl
    rw [h, Option.some.injEq] at hj
    exact hne hj.symm
  exact List.mem_of_getElem? ((List.getElem?_set_ne hjk).trans hj)

/-- Replacing an entry by one with the same image changes no image. -/
theorem map_set_of_eq (f : α → β) {l : List α} {k : Nat} {a b : α} (h : l[k]? = some a)
    (hf : f b = f a) : (l.set k b).map f = l.map f := by
  obtain ⟨hlt, rfl⟩ := List.getElem?_eq_some_iff.mp h
  have hlt' : k < (l.map f).length := by simpa using hlt
  rw [List.map_set, hf]
  have hsame : (l.map f)[k] = f l[k] := List.getElem_map f
  rw [← hsame]
  exact List.set_getElem_self hlt'

/-- How a count changes with one entry. -/
theorem countP_set_add (p : α → Bool) {l : List α} {k : Nat} {a : α} (h : l[k]? = some a)
    (b : α) : (l.set k b).countP p + (p a).toNat = l.countP p + (p b).toNat := by
  induction l generalizing k with
  | nil => simp at h
  | cons x l ih =>
      cases k with
      | zero =>
          simp only [List.getElem?_cons_zero, Option.some.injEq] at h
          subst h
          simp only [List.set_cons_zero, List.countP_cons]
          cases p x <;> cases p b <;> simp
      | succ k =>
          rw [List.getElem?_cons_succ] at h
          have hrest := ih h
          simp only [List.set_cons_succ, List.countP_cons]
          omega

/-- What a list yields changes with one entry in what this one yields. -/
theorem filterMap_set_perm (f : α → Option β) {l : List α} {k : Nat} {a : α} (h : l[k]? = some a)
    (b : α) : (f a).toList ++ (l.set k b).filterMap f ~ (f b).toList ++ l.filterMap f := by
  induction l generalizing k with
  | nil => simp at h
  | cons x l ih =>
      cases k with
      | zero =>
          simp only [List.getElem?_cons_zero, Option.some.injEq] at h
          subst h
          simp only [List.set_cons_zero, List.filterMap_eq_flatMap_toList, List.flatMap_cons]
          exact List.perm_append_comm_assoc _ _ _
      | succ k =>
          rw [List.getElem?_cons_succ] at h
          have hrest := ih h
          simp only [List.filterMap_eq_flatMap_toList] at hrest
          simp only [List.set_cons_succ, List.filterMap_eq_flatMap_toList, List.flatMap_cons]
          calc (f a).toList ++ ((f x).toList ++ (l.set k b).flatMap fun a => (f a).toList)
            _ ~ (f x).toList ++ ((f a).toList ++ (l.set k b).flatMap fun a => (f a).toList) :=
                List.perm_append_comm_assoc _ _ _
            _ ~ (f x).toList ++ ((f b).toList ++ l.flatMap fun a => (f a).toList) :=
                hrest.append_left _
            _ ~ (f b).toList ++ ((f x).toList ++ l.flatMap fun a => (f a).toList) :=
                List.perm_append_comm_assoc _ _ _

end IndexedList
