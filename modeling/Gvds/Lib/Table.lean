/-
Module: Gvds.Lib.Table
Layer: Lib
Purpose: A table that is filled from a list of entries, each under its key. A later entry takes the
  place of an earlier one with the same key.
Imports: Mathlib.Logic.Function.Basic, Mathlib.Data.List.Induction
Trusted boundary: none
Main exports: Table.fill, Table.fill_eq_some, Table.exists_fill, Table.fill_of_mem
-/
import Mathlib.Logic.Function.Basic
import Mathlib.Data.List.Induction

namespace Table

variable {κ α : Type*} [DecidableEq κ]

/-- The table with all entries of a list, put into an empty one from left to right. -/
def fill (key : α → κ) (entries : List α) : κ → Option α :=
  entries.foldl (fun table a => Function.update table (key a) (some a)) fun _ => none

variable {key : α → κ} {entries : List α} {a : α} {k : κ}

/-- The last entry of a list stands under its key. -/
theorem fill_concat (key : α → κ) (entries : List α) (a : α) :
    fill key (entries ++ [a]) = Function.update (fill key entries) (key a) (some a) := by
  unfold fill
  rw [List.foldl_append]
  rfl

/-- What stands in the table is an entry under its key. -/
theorem fill_eq_some (h : fill key entries k = some a) : a ∈ entries ∧ key a = k := by
  induction entries using List.reverseRecOn with
  | nil => cases h
  | append_singleton entries b ih =>
      rw [fill_concat] at h
      by_cases hk : k = key b
      · subst hk
        rw [Function.update_self] at h
        cases h
        exact ⟨by simp, rfl⟩
      · rw [Function.update_of_ne hk] at h
        exact ⟨List.mem_append_left _ (ih h).1, (ih h).2⟩

/-- Under the key of an entry stands an entry. -/
theorem exists_fill (h : a ∈ entries) : ∃ b, fill key entries (key a) = some b := by
  induction entries using List.reverseRecOn with
  | nil => cases h
  | append_singleton entries b ih =>
      rw [fill_concat]
      by_cases hk : key a = key b
      · exact ⟨b, by rw [hk, Function.update_self]⟩
      · rw [Function.update_of_ne hk]
        rcases List.mem_append.mp h with hmem | hmem
        · exact ih hmem
        · exact absurd (congrArg key (List.mem_singleton.mp hmem)) hk

/-- An entry stands under its key if no other one has the key. -/
theorem fill_of_mem (h : a ∈ entries) (hkey : ∀ b ∈ entries, key b = key a → b = a) :
    fill key entries (key a) = some a := by
  obtain ⟨b, hb⟩ : ∃ b, fill key entries (key a) = some b := exists_fill h
  obtain ⟨hmem, hbk⟩ := fill_eq_some hb
  rw [hb, hkey b hmem hbk]

/-- All entries stand under their keys iff different entries have different keys. -/
theorem fill_injective_iff :
    (∀ b ∈ entries, fill key entries (key b) = some b) ↔
      ∀ b ∈ entries, ∀ c ∈ entries, key b = key c → b = c := by
  constructor
  · intro h b hb c hc hbc
    have hsame := h b hb
    rw [hbc, h c hc] at hsame
    exact (Option.some.inj hsame).symm
  · intro h b hb
    exact fill_of_mem hb fun c hc hcb => h c hc b hb hcb

end Table
