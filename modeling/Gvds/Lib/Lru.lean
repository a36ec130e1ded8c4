/-
Module: Gvds.Lib.Lru
Layer: Lib
Purpose: A list of keys with data in the order of their last use, newest first, on top of Mathlib's
  association lists without duplicate keys. A touch or a hit moves a key to the front and never
  changes what the other keys map to; an expiry drops the oldest key.
Imports: Mathlib.Data.List.AList, Mathlib.Logic.Function.Iterate
Trusted boundary: none
Main exports: Lru, Lru.touch, Lru.hit, Lru.oldest, Lru.expire, Lru.expire_entries,
  Lru.lookup_iterate_expire, Lru.size_erase, Lru.size_hit
-/
import Mathlib.Data.List.AList
import Mathlib.Logic.Function.Iterate

/-- Keys with data, the most recently used key first. -/
abbrev Lru (κ ν : Type*) := AList fun _ : κ => ν

namespace Lru

variable {κ ν : Type*} [DecidableEq κ]

/-- Put a key in front. A key that is there already keeps its data. -/
def touch (c : Lru κ ν) (k : κ) (v : ν) : Lru κ ν :=
  match c.lookup k with
  | some old => c.insert k old
  | none => c.insert k v

/-- Move a key to the front, if it is there. -/
def hit (c : Lru κ ν) (k : κ) : Lru κ ν :=
  match c.lookup k with
  | some v => c.insert k v
  | none => c

/-- The least recently used key with its data. -/
def oldest (c : Lru κ ν) : Option (κ × ν) :=
  c.entries.getLast?.map fun e => (e.1, e.2)

/-- Drop the least recently used key. -/
def expire (c : Lru κ ν) : Lru κ ν :=
  match c.oldest with
  | some (k, _) => c.erase k
  | none => c

/-- The number of keys. -/
def size (c : Lru κ ν) : Nat := c.entries.length

/-- A hit changes the order only. -/
@[simp] theorem lookup_hit (c : Lru κ ν) (k j : κ) : (c.hit k).lookup j = c.lookup j := by
  unfold hit
  cases hk : c.lookup k with
  | none => rfl
  | some v =>
      by_cases hj : j = k
      · subst hj
        rw [AList.lookup_insert, hk]
      · rw [AList.lookup_insert_ne hj]

/-- A touched key that was not there gets the data. -/
theorem lookup_touch_self {c : Lru κ ν} {k : κ} (hk : c.lookup k = none) (v : ν) :
    (c.touch k v).lookup k = some v := by
  simp [touch, hk]

/-- A touch leaves the other keys alone. -/
theorem lookup_touch_of_ne {c : Lru κ ν} {k j : κ} (hj : j ≠ k) (v : ν) :
    (c.touch k v).lookup j = c.lookup j := by
  unfold touch
  cases c.lookup k with
  | none => exact AList.lookup_insert_ne hj
  | some old => exact AList.lookup_insert_ne hj

/-- The oldest key is one of the list. -/
theorem lookup_of_oldest {c : Lru κ ν} {k : κ} {v : ν} (h : c.oldest = some (k, v)) :
    c.lookup k = some v := by
  unfold oldest at h
  cases hlast : c.entries.getLast? with
  | none => simp [hlast] at h
  | some e =>
      simp [hlast] at h
      obtain ⟨rfl, rfl⟩ := h
      exact AList.mem_lookup_iff.mpr (List.mem_of_getLast? hlast)

/-- What is left after an erasure was there before. -/
theorem lookup_of_lookup_erase {c : Lru κ ν} {k j : κ} {v : ν}
    (h : (c.erase k).lookup j = some v) : j ≠ k ∧ c.lookup j = some v := by
  by_cases hj : j = k
  · subst hj
    simp at h
  · rw [AList.lookup_erase_ne hj] at h
    exact ⟨hj, h⟩

/-- Erasing the key of the last entry drops that entry. -/
theorem kerase_getLast {l : List (Sigma fun _ : κ => ν)} (hl : l.NodupKeys)
    {e : Sigma fun _ : κ => ν} (he : l.getLast? = some e) : l.kerase e.1 = l.dropLast := by
  induction l with
  | nil => cases he
  | cons a l ih =>
      cases l with
      | nil =>
          cases he
          simp
      | cons b l =>
          rw [List.getLast?_cons_cons] at he
          have hmem : e ∈ b :: l := List.mem_of_getLast? he
          have hne : e.1 ≠ a.1 := fun heq =>
            (List.nodupKeys_cons.mp hl).1 (heq ▸ List.mem_keys_of_mem hmem)
          rw [List.kerase_cons_ne hne, ih (List.nodupKeys_cons.mp hl).2 he,
            List.dropLast_cons_of_ne_nil (List.cons_ne_nil b l)]

/-- An expiry drops the last entry of the list. -/
theorem expire_entries (c : Lru κ ν) : c.expire.entries = c.entries.dropLast := by
  unfold expire oldest
  cases hlast : c.entries.getLast? with
  | none =>
      rw [List.getLast?_eq_none_iff] at hlast
      simp [hlast]
  | some e => exact kerase_getLast c.nodupKeys hlast

/-- What is left after expiries was there before. -/
theorem lookup_of_lookup_iterate_expire {c : Lru κ ν} {n : Nat} {k : κ} {v : ν}
    (h : (expire^[n] c).lookup k = some v) : c.lookup k = some v := by
  induction n generalizing c with
  | zero => exact h
  | succ n ih =>
      rw [Function.iterate_succ_apply] at h
      have hone := ih h
      unfold expire at hone
      cases hold : c.oldest with
      | none => simpa [hold] using hone
      | some e =>
          simp only [hold] at hone
          exact (lookup_of_lookup_erase hone).2

/-- A touched key stands in front. -/
theorem touch_entries {c : Lru κ ν} {k : κ} (hk : c.lookup k = none) (v : ν) :
    (c.touch k v).entries = ⟨k, v⟩ :: c.entries := by
  have hmem : k ∉ c := AList.lookup_eq_none.mp hk
  simp only [touch, hk, AList.entries_insert_of_notMem hmem]

/-- Expiries leave a front part of the list. -/
theorem iterate_expire_entries (c : Lru κ ν) (n : Nat) :
    (expire^[n] c).entries = c.entries.take (c.entries.length - n) := by
  induction n with
  | zero => simp
  | succ n ih =>
      rw [Function.iterate_succ_apply', expire_entries, ih, List.dropLast_eq_take, List.take_take,
        List.length_take]
      congr 1
      omega

/-- The entry in front survives while not everything goes. -/
theorem lookup_iterate_expire {c : Lru κ ν} {e : Sigma fun _ : κ => ν}
    {rest : List (Sigma fun _ : κ => ν)} (h : c.entries = e :: rest) {n : Nat} (hn : n < c.size) :
    (expire^[n] c).lookup e.1 = some e.2 := by
  obtain ⟨k, hk⟩ : ∃ k, c.entries.length - n = k + 1 := by
    refine ⟨c.entries.length - n - 1, ?_⟩
    unfold size at hn
    omega
  refine AList.mem_lookup_iff.mpr ?_
  rw [iterate_expire_entries, hk, h, List.take_succ_cons]
  exact List.mem_cons_self

omit [DecidableEq κ] in
theorem size_eq_length_keys (c : Lru κ ν) : c.size = c.keys.length :=
  (List.length_map Sigma.fst).symm

/-- One key less. -/
theorem size_erase {c : Lru κ ν} {k : κ} {v : ν} (hk : c.lookup k = some v) :
    size (c.erase k) + 1 = c.size := by
  have hmem : k ∈ c.keys := AList.lookup_isSome.mp (by rw [hk]; rfl)
  have hpos := List.length_pos_of_mem hmem
  rw [size_eq_length_keys, size_eq_length_keys, AList.keys_erase, List.length_erase_of_mem hmem]
  omega

end Lru
