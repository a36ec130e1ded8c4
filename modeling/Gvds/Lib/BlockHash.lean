/-
Module: Gvds.Lib.BlockHash
Layer: Lib
Purpose: Absorbing a text item by item into a state that takes whole blocks only: the blocks taken
  and the items left over are those of the text cut into blocks, however the text is handed in.
Imports: Mathlib.Tactic.Basic, Mathlib.Data.List.Induction
Trusted boundary: none
Main exports: BlockHash.absorb, BlockHash.blocks, BlockHash.rest, BlockHash.absorb_eq,
  BlockHash.length_rest, BlockHash.rest_append
-/
import Mathlib.Tactic.Basic
import Mathlib.Data.List.Induction

namespace BlockHash

variable {S α : Type*}

/-- Take one item: the state takes the block with it once that is whole. -/
def absorbItem (n : Nat) (f : S → List α → S) (a : S × List α) (x : α) : S × List α :=
  if (a.2 ++ [x]).length = n then (f a.1 (a.2 ++ [x]), []) else (a.1, a.2 ++ [x])

/-- Take the items of a text. -/
def absorb (n : Nat) (f : S → List α → S) (a : S × List α) (text : List α) : S × List α :=
  text.foldl (absorbItem n f) a

/-- The whole blocks of a text. -/
def blocks (n : Nat) (text : List α) : List (List α) :=
  (List.range (text.length / n)).map fun k => (text.drop (k * n)).take n

/-- What a text has behind its whole blocks. -/
def rest (n : Nat) (text : List α) : List α := text.drop (text.length / n * n)

theorem absorb_append (n : Nat) (f : S → List α → S) (a : S × List α) (text text' : List α) :
    absorb n f a (text ++ text') = absorb n f (absorb n f a text) text' := by
  simp [absorb]

theorem length_rest (n : Nat) (text : List α) : (rest n text).length = text.length % n := by
  rw [rest, List.length_drop, Nat.mod_eq_sub_div_mul]

/-- The blocks of a text are not changed by what comes behind it. -/
theorem block_append {n k : Nat} {text : List α} (hk : k < text.length / n) (text' : List α) :
    ((text ++ text').drop (k * n)).take n = (text.drop (k * n)).take n := by
  have hfits : k * n + n ≤ text.length := by
    calc k * n + n = (k + 1) * n := by rw [Nat.succ_mul]
      _ ≤ text.length / n * n := Nat.mul_le_mul_right n hk
      _ ≤ text.length := Nat.div_mul_le_self _ _
  rw [List.drop_append_of_le_length (by omega), List.take_append_of_le_length]
  rw [List.length_drop]
  omega

theorem div_mul_add_mod_succ {n l : Nat} (hn : 0 < n) :
    ((l + 1) / n = l / n + 1 ∧ l % n + 1 = n) ∨ ((l + 1) / n = l / n ∧ l % n + 1 < n) := by
  have hlt := Nat.mod_lt l hn
  rw [Nat.succ_div]
  by_cases hdvd : n ∣ l + 1
  · have hmod : (l + 1) % n = 0 := Nat.mod_eq_zero_of_dvd hdvd
    left
    refine ⟨by simp [hdvd], ?_⟩
    by_contra hne
    rw [Nat.add_mod_eq_add_mod_right 1 (Nat.mod_mod l n).symm, Nat.mod_eq_of_lt (by omega)] at hmod
    omega
  · right
    refine ⟨by simp [hdvd], ?_⟩
    by_contra hge
    have hfull : l % n + 1 = n := by omega
    apply hdvd
    apply Nat.dvd_of_mod_eq_zero
    rw [Nat.add_mod_eq_add_mod_right 1 (Nat.mod_mod l n).symm, hfull, Nat.mod_self]

/-- One more item completes a block, or is left over. -/
theorem blocks_concat {n : Nat} (hn : 0 < n) (text : List α) (x : α) :
    (blocks n (text ++ [x]), rest n (text ++ [x])) =
      if (rest n text ++ [x]).length = n then (blocks n text ++ [rest n text ++ [x]], [])
      else (blocks n text, rest n text ++ [x]) := by
  have hlength : (rest n text ++ [x]).length = text.length % n + 1 := by
    rw [List.length_append, length_rest, List.length_singleton]
  have hle : text.length / n * n ≤ text.length := Nat.div_mul_le_self _ _
  have hold : ∀ k ∈ List.range (text.length / n),
      ((text ++ [x]).drop (k * n)).take n = (text.drop (k * n)).take n :=
    fun k hk => block_append (List.mem_range.mp hk) [x]
  rcases div_mul_add_mod_succ (l := text.length) hn with ⟨hdiv, hmod⟩ | ⟨hdiv, hmod⟩
  · rw [if_pos (hlength.trans hmod)]
    have hwhole : text.length + 1 = (text.length / n + 1) * n := by
      rw [Nat.succ_mul]
      have hsplit := Nat.div_add_mod' text.length n
      omega
    have hlast : ((text ++ [x]).drop (text.length / n * n)).take n = rest n text ++ [x] := by
      rw [List.drop_append_of_le_length hle, ← rest, List.take_of_length_le]
      exact Nat.le_of_eq (hlength.trans hmod)
    simp only [blocks, List.length_append, List.length_singleton, hdiv, List.range_succ,
      List.map_append, List.map_singleton, List.map_congr_left hold, hlast, Prod.mk.injEq, true_and]
    apply List.drop_eq_nil_of_le
    apply Nat.le_of_eq
    rw [List.length_append, List.length_singleton, hdiv]
    exact hwhole
  · have hpart : ¬ (rest n text ++ [x]).length = n := by omega
    rw [if_neg hpart]
    simp only [blocks, rest, List.length_append, List.length_singleton, hdiv,
      List.map_congr_left hold, List.drop_append_of_le_length hle]

/-- The state takes exactly the whole blocks of a text, in their order, and the rest is left. -/
theorem absorb_eq {n : Nat} (hn : 0 < n) (f : S → List α → S) (s : S) (text : List α) :
    absorb n f (s, []) text = ((blocks n text).foldl f s, rest n text) := by
  induction text using List.reverseRecOn with
  | nil => simp [absorb, blocks, rest]
  | append_singleton text x ih =>
      have hcut := blocks_concat hn text x
      rw [absorb_append, ih]
      simp only [absorb, List.foldl_cons, List.foldl_nil, absorbItem]
      by_cases hwhole : (rest n text ++ [x]).length = n
      · rw [if_pos hwhole] at hcut ⊢
        obtain ⟨hblocks, hrest⟩ := Prod.mk.inj hcut
        rw [hblocks, hrest, List.foldl_append]
        rfl
      · rw [if_neg hwhole] at hcut ⊢
        obtain ⟨hblocks, hrest⟩ := Prod.mk.inj hcut
        rw [hblocks, hrest]

end BlockHash
