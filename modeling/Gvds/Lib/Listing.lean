/-
Module: Gvds.Lib.Listing
Layer: Lib
Purpose: Things that are in use or not, and owners that each list some of them. The lists and the
  uses agree while a thing comes to a list as it is taken into use, and leaves the list as it is
  released.
Imports: Mathlib.Data.List.Nodup, Mathlib.Logic.Function.Basic
Trusted boundary: none
Main exports: Listed, AllListed, Listed.add, Listed.drop, AllListed.add, allListed_drop_iff
-/
import Mathlib.Data.List.Nodup
import Mathlib.Logic.Function.Basic

variable {ι α : Type*}

/-- Every listed thing is in use, and no thing is listed twice. -/
structure Listed (lists : ι → List α) (used : α → Prop) : Prop where
  used : ∀ i, ∀ a ∈ lists i, used a
  nodup : ∀ i, (lists i).Nodup
  alone : ∀ i j a, a ∈ lists i → a ∈ lists j → i = j

/-- Every thing in use is listed. -/
def AllListed (lists : ι → List α) (used : α → Prop) : Prop := ∀ a, used a → ∃ i, a ∈ lists i

/-- Where all is listed, each thing in use has one owner. -/
theorem Listed.existsUnique {lists : ι → List α} {used : α → Prop} (h : Listed lists used)
    (hcov : AllListed lists used) {a : α} (ha : used a) : ∃! i, a ∈ lists i := by
  obtain ⟨i, hi⟩ := hcov a ha
  exact ⟨i, hi, fun j hj => h.alone j i a hj hi⟩

/-- The lists stay while other things are taken into use. -/
theorem Listed.mono {lists : ι → List α} {used used' : α → Prop} (h : Listed lists used)
    (hle : ∀ a, used a → used' a) : Listed lists used' where
  used i a ha := hle a (h.used i a ha)
  nodup := h.nodup
  alone := h.alone

section Update

variable [DecidableEq ι] {lists : ι → List α} {used used' : α → Prop} {i : ι} {a : α}

/-- A member of a list after one list has changed. -/
theorem mem_lists_update {l : List α} {j : ι} {b : α} :
    b ∈ Function.update lists i l j ↔ (j = i ∧ b ∈ l) ∨ (j ≠ i ∧ b ∈ lists j) := by
  by_cases hj : j = i
  · subst hj
    simp
  · simp [hj]

/-- A thing that was not in use is taken into use and listed. -/
theorem Listed.add (h : Listed lists used) (ha : ¬ used a)
    (hused : ∀ b, used' b ↔ used b ∨ b = a) :
    Listed (Function.update lists i (lists i ++ [a])) used' := by
  have hnew : ∀ j, a ∉ lists j := fun j hj => ha (h.used j a hj)
  constructor
  · intro j b hb
    rw [mem_lists_update, List.mem_append, List.mem_singleton] at hb
    rw [hused]
    rcases hb with ⟨-, hb | hb⟩ | ⟨-, hb⟩
    · exact .inl (h.used i b hb)
    · exact .inr hb
    · exact .inl (h.used j b hb)
  · intro j
    by_cases hj : j = i
    · subst hj
      rw [Function.update_self]
      exact List.nodup_append.mpr ⟨h.nodup j, List.nodup_singleton a,
        fun b hb c hc hbc => hnew j (List.mem_singleton.mp hc ▸ hbc ▸ hb)⟩
    · rw [Function.update_of_ne hj]
      exact h.nodup j
  · intro j k b hj hk
    rw [mem_lists_update, List.mem_append, List.mem_singleton] at hj hk
    rcases hj with ⟨rfl, hj | rfl⟩ | ⟨hne, hj⟩ <;> rcases hk with ⟨rfl, hk | hk⟩ | ⟨hne', hk⟩
    · rfl
    · rfl
    · exact h.alone j k b hj hk
    · rfl
    · rfl
    · exact absurd hk (hnew k)
    · exact h.alone j k b hj hk
    · subst hk
      exact absurd hj (hnew j)
    · exact h.alone j k b hj hk

/-- What is taken into use and listed is covered. -/
theorem AllListed.add (hcov : AllListed lists used) (hused : ∀ b, used' b ↔ used b ∨ b = a) :
    AllListed (Function.update lists i (lists i ++ [a])) used' := by
  intro b hb
  rcases (hused b).mp hb with hb | rfl
  · obtain ⟨j, hj⟩ := hcov b hb
    by_cases hji : j = i
    · subst hji
      exact ⟨j, mem_lists_update.mpr (.inl ⟨rfl, List.mem_append_left _ hj⟩)⟩
    · exact ⟨j, mem_lists_update.mpr (.inr ⟨hji, hj⟩)⟩
  · exact ⟨i, mem_lists_update.mpr (.inl ⟨rfl, List.mem_append_right _ List.mem_cons_self⟩)⟩

variable {l : List α}

/-- Things may be dropped from a list, whether they go out of use or not. -/
theorem Listed.drop (h : Listed lists used) (hl : l.Sublist (lists i))
    (hkeep : ∀ b, (∃ j, b ∈ Function.update lists i l j) → used b → used' b) :
    Listed (Function.update lists i l) used' := by
  have hsub : ∀ j b, b ∈ Function.update lists i l j → b ∈ lists j := by
    intro j b hb
    rcases mem_lists_update.mp hb with ⟨rfl, hkept⟩ | ⟨-, hkept⟩
    · exact hl.subset hkept
    · exact hkept
  constructor
  · intro j b hb
    exact hkeep b ⟨j, hb⟩ (h.used j b (hsub j b hb))
  · intro j
    by_cases hj : j = i
    · subst hj
      rw [Function.update_self]
      exact (h.nodup j).sublist hl
    · rw [Function.update_of_ne hj]
      exact h.nodup j
  · intro j k b hj hk
    exact h.alone j k b (hsub j b hj) (hsub k b hk)

/-- After things have been dropped from a list all is covered iff they all went out of use. -/
theorem allListed_drop_iff (h : Listed lists used) (hcov : AllListed lists used)
    (hless : ∀ b, used' b → used b) :
    AllListed (Function.update lists i l) used' ↔ ∀ a ∈ lists i, a ∉ l → ¬ used' a := by
  constructor
  · intro hcov' a ha hal hused
    obtain ⟨j, hj⟩ := hcov' a hused
    rcases mem_lists_update.mp hj with ⟨-, hj⟩ | ⟨hne, hj⟩
    · exact hal hj
    · exact hne (h.alone j i a hj ha)
  · intro hdropped b hb
    obtain ⟨j, hj⟩ := hcov b (hless b hb)
    by_cases hji : j = i
    · subst hji
      by_cases hbl : b ∈ l
      · exact ⟨j, mem_lists_update.mpr (.inl ⟨rfl, hbl⟩)⟩
      · exact absurd hb (hdropped b hj hbl)
    · exact ⟨j, mem_lists_update.mpr (.inr ⟨hji, hj⟩)⟩

end Update
