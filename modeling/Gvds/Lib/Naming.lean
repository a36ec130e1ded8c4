/-
Module: Gvds.Lib.Naming
Layer: Lib
Purpose: Owners that each list things, and names of the things that shall tell the things of one
  owner apart: when a thing joins a list, and when a thing gets another name. Names that shall tell
  all things apart: when a thing gets a name, and when it goes.
Imports: Mathlib.Logic.Function.Basic
Trusted boundary: none
Main exports: Distinct, Distinct.mono, distinct_join_iff, distinct_rename_iff,
  UniqueName, UniqueName.erase, uniqueName_update_iff
-/
import Mathlib.Logic.Function.Basic

variable {ι α β : Type*}

/-- The things of one owner have different names. -/
def Distinct (lists : ι → List α) (name : α → β) : Prop :=
  ∀ i, ∀ a ∈ lists i, ∀ b ∈ lists i, name a = name b → a = b

/-- Shorter lists of things with the names they had. -/
theorem Distinct.mono {lists lists' : ι → List α} {name name' : α → β} (h : Distinct lists name)
    (hlists : ∀ i, ∀ a ∈ lists' i, a ∈ lists i) (hname : ∀ i, ∀ a ∈ lists' i, name' a = name a) :
    Distinct lists' name' := by
  intro i a ha b hb hab
  rw [hname i a ha, hname i b hb] at hab
  exact h i a (hlists i a ha) b (hlists i b hb) hab

/-- A thing joins a list: no other thing there may have its name. -/
theorem distinct_join_iff [DecidableEq ι] {lists : ι → List α} {name : α → β}
    (h : Distinct lists name) (i : ι) (a : α) :
    Distinct (Function.update lists i (lists i ++ [a])) name ↔
      ∀ b ∈ lists i, b ≠ a → name b ≠ name a := by
  constructor
  · intro hjoin b hb hne hname
    refine hne (hjoin i b ?_ a ?_ hname)
    · rw [Function.update_self]
      exact List.mem_append_left _ hb
    · rw [Function.update_self]
      exact List.mem_append_right _ List.mem_cons_self
  · intro hfree j b hb c hc hbc
    by_cases hj : j = i
    · subst hj
      rw [Function.update_self, List.mem_append, List.mem_singleton] at hb hc
      rcases hb with hb | rfl <;> rcases hc with hc | rfl
      · exact h j b hb c hc hbc
      · by_contra hne
        exact hfree b hb hne hbc
      · by_contra hne
        exact hfree c hc (Ne.symm hne) hbc.symm
      · rfl
    · rw [Function.update_of_ne hj] at hb hc
      exact h j b hb c hc hbc

/-- A thing gets another name: no other thing on a list with it may have that name. -/
theorem distinct_rename_iff [DecidableEq α] {lists : ι → List α} {name : α → β}
    (h : Distinct lists name) (a : α) (n : β) :
    Distinct lists (Function.update name a n) ↔
      ∀ i, a ∈ lists i → ∀ b ∈ lists i, b ≠ a → name b ≠ n := by
  constructor
  · intro hrename i ha b hb hne hname
    refine hne (hrename i b hb a ha ?_)
    rw [Function.update_of_ne hne, Function.update_self, hname]
  · intro hfree i b hb c hc hbc
    by_cases hba : b = a <;> by_cases hca : c = a
    · rw [hba, hca]
    · subst hba
      rw [Function.update_self, Function.update_of_ne hca] at hbc
      exact absurd hbc.symm (hfree i hb c hc hca)
    · subst hca
      rw [Function.update_self, Function.update_of_ne hba] at hbc
      exact absurd hbc (hfree i hc b hb hba)
    · rw [Function.update_of_ne hba, Function.update_of_ne hca] at hbc
      exact h i b hb c hc hbc

/-- Things with a name have different ones. -/
def UniqueName (name : α → Option β) : Prop :=
  ∀ a b n, name a = some n → name b = some n → a = b

section Update

variable [DecidableEq α] {name : α → Option β}

/-- A thing loses its name. -/
theorem UniqueName.erase (h : UniqueName name) (a : α) :
    UniqueName (Function.update name a none) := by
  intro b c n hb hc
  have hba : b ≠ a := by
    rintro rfl
    rw [Function.update_self] at hb
    cases hb
  have hca : c ≠ a := by
    rintro rfl
    rw [Function.update_self] at hc
    cases hc
  rw [Function.update_of_ne hba] at hb
  rw [Function.update_of_ne hca] at hc
  exact h b c n hb hc

/-- A thing gets a name: no other thing may have it. -/
theorem uniqueName_update_iff (h : UniqueName name) (a : α) (n : β) :
    UniqueName (Function.update name a (some n)) ↔ ∀ b, b ≠ a → name b ≠ some n := by
  constructor
  · intro hunique b hne hb
    refine hne (hunique b a n ?_ (Function.update_self a _ name))
    rw [Function.update_of_ne hne, hb]
  · intro hfree b c m hb hc
    by_cases hba : b = a <;> by_cases hca : c = a
    · rw [hba, hca]
    · subst hba
      rw [Function.update_self] at hb
      rw [Function.update_of_ne hca, ← hb] at hc
      exact absurd hc (hfree c hca)
    · subst hca
      rw [Function.update_self] at hc
      rw [Function.update_of_ne hba, ← hc] at hb
      exact absurd hb (hfree b hba)
    · rw [Function.update_of_ne hba] at hb
      rw [Function.update_of_ne hca] at hc
      exact h b c m hb hc

end Update
