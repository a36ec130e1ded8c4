/-
Module: Gvds.Lib.MapFill
Layer: Lib
Purpose: An ordered map that is filled from a list of entries, one after the other, where an entry
  takes the place of an earlier one with its key. The first entry of the map is the last one of the
  list with its key, and no key of the list comes before it.
Imports: Gvds.Lib.IndexedList, Mathlib.Data.List.Sort, Mathlib.Data.List.Induction
Trusted boundary: none
Main exports: MapFill.fill, MapFill.first, MapFill.Leads, MapFill.exists_leads
-/
import Gvds.Lib.IndexedList
import Mathlib.Data.List.Sort
import Mathlib.Data.List.Induction

namespace MapFill

open IndexedList

variable {κ ν : Type*} {cmp : κ → κ → Ordering}

/-- Fill a map from a list. -/
def fill (cmp : κ → κ → Ordering) (entries : List (κ × ν)) : Std.TreeMap κ ν cmp :=
  entries.foldl (fun m e => m.insert e.1 e.2) ∅

/-- The first entry of a map in the order of its keys. -/
def first (m : Std.TreeMap κ ν cmp) : Option (κ × ν) :=
  m.minKey?.bind fun k => m[k]?.map fun v => (k, v)

/-- The entry at a position of the list comes before all others: those before it have its key or a
later one, those behind it have a later one. -/
def Leads (cmp : κ → κ → Ordering) (entries : List (κ × ν)) (i : Nat) (e : κ × ν) : Prop :=
  entries[i]? = some e ∧
    ∀ j e', entries[j]? = some e' → cmp e.1 e'.1 = .lt ∨ cmp e.1 e'.1 = .eq ∧ j ≤ i

theorem fill_concat (entries : List (κ × ν)) (e : κ × ν) :
    fill cmp (entries ++ [e]) = (fill cmp entries).insert e.1 e.2 := by
  rw [fill, List.foldl_append]
  rfl

variable [Std.TransCmp cmp]

/-- Behind a new entry that comes before the leading one, or has its key, the new one leads. -/
theorem Leads.replaced {entries : List (κ × ν)} {i : Nat} {e e' : κ × ν}
    (h : Leads cmp entries i e) (hle : (cmp e'.1 e.1).isLE) :
    Leads cmp (entries ++ [e']) entries.length e' := by
  refine ⟨List.getElem?_concat_length, fun j b hj => ?_⟩
  rcases getElem?_concat_cases hj with hold | ⟨rfl, rfl⟩
  · have hlt := (List.getElem?_eq_some_iff.mp hold).1
    have hfirst : (cmp e.1 b.1).isLE := by
      rcases h.2 j b hold with hbefore | ⟨hsame, -⟩
      · simp [hbefore]
      · simp [hsame]
    have hall : (cmp e'.1 b.1).isLE := Std.TransCmp.isLE_trans hle hfirst
    rcases Ordering.isLE_iff_eq_lt_or_eq_eq.mp hall with hbefore | hsame
    · exact .inl hbefore
    · exact .inr ⟨hsame, Nat.le_of_lt hlt⟩
  · exact .inr ⟨Std.ReflCmp.compare_self, Nat.le_refl _⟩

/-- Behind a new entry that comes later, the leading one still leads. -/
theorem Leads.kept {entries : List (κ × ν)} {i : Nat} {e e' : κ × ν} (h : Leads cmp entries i e)
    (hgt : ¬ (cmp e'.1 e.1).isLE) : Leads cmp (entries ++ [e']) i e := by
  have hlt := (List.getElem?_eq_some_iff.mp h.1).1
  refine ⟨(List.getElem?_append_left hlt).trans h.1, fun j b hj => ?_⟩
  rcases getElem?_concat_cases hj with hold | ⟨rfl, rfl⟩
  · exact h.2 j b hold
  · rw [Bool.not_eq_true, Ordering.isLE_eq_false] at hgt
    exact .inl (Std.OrientedCmp.lt_of_gt hgt)

/-- A new entry becomes the first one if none is there, or if the first one has its key or comes
later. -/
theorem first_insert (m : Std.TreeMap κ ν cmp) (k : κ) (v : ν) :
    first (m.insert k v) =
      match first m with
      | none => some (k, v)
      | some e => if (cmp k e.1).isLE then some (k, v) else some e := by
  unfold first
  rw [Std.TreeMap.minKey?_insert]
  cases hmin : m.minKey? with
  | none => simp
  | some k' =>
      have hmem : m[k']?.isSome := by
        rw [← Std.TreeMap.contains_eq_isSome_getElem?]
        exact Std.TreeMap.contains_minKey? hmin
      obtain ⟨v', hv⟩ := Option.isSome_iff_exists.mp hmem
      by_cases hle : (cmp k k').isLE
      · simp [hv, hle]
      · have hne : cmp k k' ≠ .eq := fun heq => hle (by simp [heq])
        simp [hv, hle, Std.TreeMap.getElem?_insert, hne]

/-- The first entry of a map that is filled from a list with an entry leads the list. -/
theorem exists_leads {entries : List (κ × ν)} (hne : entries ≠ []) :
    ∃ i e, Leads cmp entries i e ∧ first (fill cmp entries) = some e := by
  induction entries using List.reverseRecOn with
  | nil => exact absurd rfl hne
  | append_singleton entries e' ih =>
      rw [fill_concat, first_insert]
      cases entries with
      | nil =>
          refine ⟨0, e', ⟨rfl, fun j b hj => ?_⟩, by simp [first, fill]⟩
          rcases getElem?_concat_cases hj with hold | ⟨rfl, rfl⟩
          · cases hold
          · exact .inr ⟨Std.ReflCmp.compare_self, Nat.le_refl _⟩
      | cons a rest =>
          obtain ⟨i, e, hleads, hfirst⟩ := ih (List.cons_ne_nil a rest)
          rw [hfirst]
          by_cases hle : (cmp e'.1 e.1).isLE
          · exact ⟨_, e', hleads.replaced hle, if_pos hle⟩
          · exact ⟨i, e, hleads.kept hle, if_neg hle⟩

end MapFill
