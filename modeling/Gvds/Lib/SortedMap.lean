/-
Module: Gvds.Lib.SortedMap
Layer: Lib
Purpose: Maps as sorted lists of entries with different keys, as an ordered associative container
  keeps and iterates them.
Imports: Mathlib.Tactic.Basic
Trusted boundary: none
Main exports: SortedMap, SortedMap.find, SortedMap.insert, SortedMap.mem_insertEntry,
  SortedMap.insertEntry_of_forall_lt, SortedMap.find_of_forall_lt
-/
import Mathlib.Tactic.Basic

/-- A map: its entries in the order of their keys. -/
structure SortedMap (κ α : Type) [LT κ] where
  entries : List (κ × α)
  sorted : entries.Pairwise fun e e' => e.1 < e'.1

namespace SortedMap

variable {κ α : Type} [LT κ]

/-- The map without entries. -/
def empty : SortedMap κ α := ⟨[], List.Pairwise.nil⟩

/-- The value of a key. -/
def find [DecidableEq κ] (m : SortedMap κ α) (k : κ) : Option α :=
  (m.entries.find? fun e => e.1 = k).map Prod.snd

/-- Put an entry in its place, or give the entry that is there a new value. -/
def insertEntry [DecidableLT κ] (k : κ) (v : α) : List (κ × α) → List (κ × α)
  | [] => [(k, v)]
  | e :: l =>
      if k < e.1 then (k, v) :: e :: l
      else if e.1 < k then e :: insertEntry k v l
      else (e.1, v) :: l

theorem mem_insertEntry [DecidableLT κ] {k : κ} {v : α} {l : List (κ × α)} {e : κ × α}
    (h : e ∈ insertEntry k v l) : e.1 = k ∨ ∃ e' ∈ l, e.1 = e'.1 := by
  induction l with
  | nil => exact .inl (congrArg Prod.fst (List.mem_singleton.mp h))
  | cons e₀ l ih =>
      unfold insertEntry at h
      split at h
      · rcases List.mem_cons.mp h with rfl | h
        · exact .inl rfl
        · exact .inr ⟨e, h, rfl⟩
      · split at h
        · rcases List.mem_cons.mp h with rfl | h
          · exact .inr ⟨e, List.mem_cons_self, rfl⟩
          · rcases ih h with hk | ⟨e', he', heq⟩
            · exact .inl hk
            · exact .inr ⟨e', List.mem_cons_of_mem e₀ he', heq⟩
        · rcases List.mem_cons.mp h with rfl | h
          · exact .inr ⟨e₀, List.mem_cons_self, rfl⟩
          · exact .inr ⟨e, List.mem_cons_of_mem e₀ h, rfl⟩

theorem insertEntry_sorted [DecidableLT κ]
    [Trans (· < · : κ → κ → Prop) (· < · : κ → κ → Prop) (· < · : κ → κ → Prop)] (k : κ) (v : α)
    {l : List (κ × α)} (h : l.Pairwise fun e e' => e.1 < e'.1) :
    (insertEntry k v l).Pairwise fun e e' => e.1 < e'.1 := by
  induction l with
  | nil => exact List.pairwise_singleton _ _
  | cons e l ih =>
      obtain ⟨hhead, htail⟩ := List.pairwise_cons.mp h
      unfold insertEntry
      split
      · rename_i hlt
        refine List.pairwise_cons.mpr ⟨fun e' he' => ?_, h⟩
        rcases List.mem_cons.mp he' with rfl | he'
        · exact hlt
        · exact Trans.trans hlt (hhead e' he')
      · split
        · rename_i hlt
          refine List.pairwise_cons.mpr ⟨fun e' he' => ?_, ih htail⟩
          rcases mem_insertEntry he' with hk | ⟨e'', he'', heq⟩
          · rw [hk]
            exact hlt
          · rw [heq]
            exact hhead e'' he''
        · exact List.pairwise_cons.mpr ⟨hhead, htail⟩

/-- The map with one more entry, or with a new value of one. -/
def insert [DecidableLT κ]
    [Trans (· < · : κ → κ → Prop) (· < · : κ → κ → Prop) (· < · : κ → κ → Prop)]
    (m : SortedMap κ α) (k : κ) (v : α) : SortedMap κ α :=
  ⟨insertEntry k v m.entries, insertEntry_sorted k v m.sorted⟩

/-- A key behind all others goes to the end. -/
theorem insertEntry_of_forall_lt [DecidableLT κ] [Std.Asymm (· < · : κ → κ → Prop)] {k : κ} (v : α)
    {l : List (κ × α)} (h : ∀ e ∈ l, e.1 < k) : insertEntry k v l = l ++ [(k, v)] := by
  induction l with
  | nil => rfl
  | cons e l ih =>
      have hlt := h e List.mem_cons_self
      rw [insertEntry, if_neg (Std.Asymm.asymm _ _ hlt), if_pos hlt,
        ih fun e' he' => h e' (List.mem_cons_of_mem e he')]
      rfl

/-- It has no value before. -/
theorem find_of_forall_lt [DecidableEq κ] [Std.Asymm (· < · : κ → κ → Prop)] {m : SortedMap κ α}
    {k : κ} (h : ∀ e ∈ m.entries, e.1 < k) : m.find k = none := by
  unfold find
  rw [List.find?_eq_none.mpr, Option.map_none]
  intro e he heq
  have hlt := h e he
  rw [of_decide_eq_true heq] at hlt
  exact Std.Asymm.asymm _ _ hlt hlt

end SortedMap
