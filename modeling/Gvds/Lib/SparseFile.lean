/-
Module: Gvds.Lib.SparseFile
Layer: Lib
Purpose: A file with its layout: which blocks of `B` bytes are stored as data and which are holes.
  A write into a hole turns the whole block into data with zeros around the written bytes, a punched
  or never written block reads as zeros, and `SEEK_DATA` / `SEEK_HOLE` report the layout. Each
  operation on the layout refines the operation on the plain contents.
Imports: Gvds.Lib.ByteFile, Mathlib.Tactic.Linarith
Trusted boundary: none
Main exports: SparseFile, SparseFile.pwrite, SparseFile.ftruncate, SparseFile.punch,
  SparseFile.seekData, SparseFile.seekHole
-/
import Gvds.Lib.ByteFile
import Mathlib.Tactic.Linarith

/-- Contents together with the set of stored blocks. A hole reads as zeros, and no block that lies
wholly beyond the end is stored. -/
@[ext] structure SparseFile (B : Nat) extends ByteFile where
  data : Nat → Bool
  hole_zero : ∀ i, data (i / B) = false → byte i = 0
  data_lt : ∀ p, data p = true → p * B < size

namespace SparseFile

open ByteFile (InRange)

variable {B : Nat} [NeZero B]

/-- The file without a byte and without a block. -/
def empty (B : Nat) : SparseFile B where
  toByteFile := ByteFile.empty
  data := fun _ => false
  hole_zero := fun _ _ => rfl
  data_lt := fun _ h => by cases h

/-- A range of bytes meets block `p`. -/
def Touches (B off n p : Nat) : Prop := n ≠ 0 ∧ off / B ≤ p ∧ p ≤ (off + n - 1) / B

instance (B off n p : Nat) : Decidable (Touches B off n p) :=
  inferInstanceAs (Decidable (_ ∧ _ ∧ _))

omit [NeZero B] in
/-- Every offset of a range lies in a block the range meets. -/
theorem touches_of_inRange {off n i : Nat} (h : InRange off n i) : Touches B off n (i / B) := by
  obtain ⟨hlow, hhigh⟩ := h
  refine ⟨by omega, Nat.div_le_div_right hlow, Nat.div_le_div_right (by omega)⟩

/-- A block that a range meets holds an offset of the range. -/
theorem exists_inRange_of_touches {off n p : Nat} (h : Touches B off n p) :
    ∃ i, InRange off n i ∧ i / B = p := by
  obtain ⟨hn, hlow, hhigh⟩ := h
  have hB : 0 < B := Nat.pos_of_neZero B
  have hend : p * B ≤ off + n - 1 := (Nat.le_div_iff_mul_le hB).mp hhigh
  have hbegin : off < (p + 1) * B := by
    have := Nat.lt_mul_div_succ off hB
    calc off < B * (off / B + 1) := this
      _ ≤ B * (p + 1) := Nat.mul_le_mul_left B (by omega)
      _ = (p + 1) * B := Nat.mul_comm _ _
  rw [Nat.add_mul, Nat.one_mul] at hbegin
  rcases Nat.le_total off (p * B) with hle | hle
  · exact ⟨p * B, ⟨hle, by omega⟩, Nat.mul_div_cancel p hB⟩
  · refine ⟨off, ⟨Nat.le_refl _, by omega⟩, ?_⟩
    refine Nat.div_eq_of_lt_le (by omega) ?_
    rw [Nat.add_mul, Nat.one_mul]
    exact hbegin

/-- `pwrite(2)`: the contents change as in a plain write, and every block that is met becomes
data. -/
def pwrite (f : SparseFile B) (off : Nat) (data : List UInt8) : SparseFile B where
  toByteFile := f.toByteFile.write off data
  data := fun p => f.data p || decide (Touches B off data.length p)
  hole_zero := by
    intro i hi
    simp only [Bool.or_eq_false_iff, decide_eq_false_iff_not] at hi
    have hout : ¬ InRange off data.length i := fun h => hi.2 (touches_of_inRange h)
    rw [ByteFile.write_byte_of_not_inRange hout]
    exact f.hole_zero i hi.1
  data_lt := by
    intro p hp
    simp only [Bool.or_eq_true, decide_eq_true_eq] at hp
    rcases hp with hp | hp
    · have := f.data_lt p hp
      simp only [ByteFile.write]
      split <;> omega
    · have hne : data ≠ [] := by
        intro hnil
        exact hp.1 (by simp [hnil])
      have := (Nat.le_div_iff_mul_le (Nat.pos_of_neZero B)).mp hp.2.2
      have hlen : 0 < data.length := List.length_pos_iff.mpr hne
      rw [ByteFile.write_size hne]
      omega

/-- `ftruncate(2)`: cut the file, or extend it by a hole. -/
def ftruncate (f : SparseFile B) (n : Nat) : SparseFile B where
  size := n
  byte := fun i => if i < n then f.byte i else 0
  beyond := fun i hi => if_neg (by omega)
  data := fun p => f.data p && decide (p * B < n)
  hole_zero := by
    intro i hi
    by_cases hin : i < n
    · rw [if_pos hin]
      refine f.hole_zero i ?_
      have hblock : i / B * B < n := Nat.lt_of_le_of_lt (Nat.div_mul_le_self i B) hin
      simpa [hblock] using hi
    · exact if_neg hin
  data_lt := by
    intro p hp
    simp only [Bool.and_eq_true, decide_eq_true_eq] at hp
    exact hp.2

/-- `fallocate(2)` with `PUNCH_HOLE | KEEP_SIZE`: the bytes of the range read as zeros, and every
block that lies wholly inside it is freed. -/
def punch (f : SparseFile B) (off n : Nat) : SparseFile B where
  size := f.size
  byte := fun i => if InRange off n i then 0 else f.byte i
  beyond := by
    intro i hi
    split
    · rfl
    · exact f.beyond i hi
  data := fun p => f.data p && !decide (off ≤ p * B ∧ (p + 1) * B ≤ off + n)
  hole_zero := by
    intro i hi
    split
    · rfl
    · rename_i hout
      cases hdata : f.data (i / B) with
      | false => exact f.hole_zero i hdata
      | true =>
          -- the block of `i` was freed, so `i` itself lies in the range
          exfalso
          simp only [hdata, Bool.true_and, Bool.not_eq_false', decide_eq_true_eq] at hi
          obtain ⟨hlow, hhigh⟩ := hi
          have hbelow := Nat.div_mul_le_self i B
          have habove := Nat.lt_div_mul_add (a := i) (Nat.pos_of_neZero B)
          rw [Nat.add_mul, Nat.one_mul] at hhigh
          exact hout ⟨by omega, by omega⟩
  data_lt := by
    intro p hp
    simp only [Bool.and_eq_true] at hp
    exact f.data_lt p hp.1

/-- `lseek(2)` with `SEEK_DATA`: the first stored offset at or after `off`, if there is one. -/
def seekData (f : SparseFile B) (off : Nat) : Option Nat :=
  (List.range' off (f.size - off)).find? fun i => f.data (i / B)

/-- `lseek(2)` with `SEEK_HOLE`: the first offset at or after `off` that lies in a hole, where the
end of the file counts as one. There is no answer at or beyond the end. -/
def seekHole (f : SparseFile B) (off : Nat) : Option Nat :=
  if off < f.size then
    some (((List.range' off (f.size - off)).find? fun i => !f.data (i / B)).getD f.size)
  else none

omit [NeZero B]

theorem seekData_eq_some {f : SparseFile B} {off v : Nat} :
    f.seekData off = some v ↔
      f.data (v / B) = true ∧ (off ≤ v ∧ v < f.size) ∧
        ∀ j, off ≤ j → j < v → f.data (j / B) = false := by
  unfold seekData
  rw [List.find?_range'_eq_some]
  simp only [List.mem_range'_1, Bool.not_eq_true']
  constructor
  · rintro ⟨hdata, hmem, hmin⟩
    exact ⟨hdata, by omega, hmin⟩
  · rintro ⟨hdata, hmem, hmin⟩
    exact ⟨hdata, by omega, hmin⟩

theorem seekData_eq_none {f : SparseFile B} {off : Nat} :
    f.seekData off = none ↔ ∀ j, off ≤ j → j < f.size → f.data (j / B) = false := by
  unfold seekData
  rw [List.find?_range'_eq_none]
  simp only [Bool.not_eq_true']
  constructor
  · intro h j hlow hhigh
    exact h j hlow (by omega)
  · intro h j hlow hhigh
    exact h j hlow (by omega)

/-- Below the end there is always a next hole; everything before it is data. -/
theorem seekHole_spec {f : SparseFile B} {off : Nat} (h : off < f.size) :
    ∃ v, f.seekHole off = some v ∧ off ≤ v ∧ v ≤ f.size ∧
      (∀ j, off ≤ j → j < v → f.data (j / B) = true) ∧
      (v < f.size → f.data (v / B) = false) := by
  unfold seekHole
  rw [if_pos h]
  cases hfind : (List.range' off (f.size - off)).find? fun i => !f.data (i / B) with
  | some v =>
      rw [List.find?_range'_eq_some] at hfind
      simp only [List.mem_range'_1, Bool.not_eq_true', Bool.not_not] at hfind
      obtain ⟨hdata, hmem, hmin⟩ := hfind
      exact ⟨v, rfl, by omega, by omega, hmin, fun _ => hdata⟩
  | none =>
      rw [List.find?_range'_eq_none] at hfind
      simp only [Bool.not_not] at hfind
      refine ⟨f.size, rfl, by omega, by omega, ?_, fun hlt => absurd hlt (by omega)⟩
      intro j hlow hhigh
      exact hfind j hlow (by omega)

@[simp] theorem ftruncate_size (f : SparseFile B) (n : Nat) : (f.ftruncate n).size = n := rfl

/-- Extending a file by a hole changes no byte. -/
theorem ftruncate_byte_of_le {f : SparseFile B} {n i : Nat} (h : f.size ≤ n) :
    (f.ftruncate n).byte i = f.byte i := by
  unfold ftruncate
  by_cases hin : i < n
  · simp [hin]
  · simp only [hin, if_false]
    exact (f.beyond i (by omega)).symm

/-- Extending a file by a hole keeps the layout. -/
theorem ftruncate_data_of_le {f : SparseFile B} {n p : Nat} (h : f.size ≤ n) :
    (f.ftruncate n).data p = f.data p := by
  cases hdata : f.data p with
  | false => simp [ftruncate, hdata]
  | true =>
      have := f.data_lt p hdata
      simp only [ftruncate, hdata, Bool.true_and, decide_eq_true_eq]
      omega

section Operations

variable [NeZero B]

@[simp] theorem pwrite_toByteFile (f : SparseFile B) (off : Nat) (data : List UInt8) :
    (f.pwrite off data).toByteFile = f.toByteFile.write off data := rfl

theorem pwrite_data {f : SparseFile B} {off p : Nat} {data : List UInt8} :
    (f.pwrite off data).data p = true ↔ f.data p = true ∨ Touches B off data.length p := by
  simp [pwrite]

/-- A write never turns data into a hole. -/
theorem data_of_pwrite {f : SparseFile B} {off p : Nat} {data : List UInt8}
    (h : f.data p = true) : (f.pwrite off data).data p = true :=
  pwrite_data.mpr (Or.inl h)

/-- Punching out the blocks `p ≤ k < q` frees exactly those. -/
theorem punch_blocks_data {f : SparseFile B} {p q k : Nat} (hpq : p ≤ q) :
    (f.punch (p * B) (q * B - p * B)).data k = true ↔ f.data k = true ∧ ¬ (p ≤ k ∧ k < q) := by
  have hB : 0 < B := Nat.pos_of_neZero B
  have hmul : p * B ≤ q * B := Nat.mul_le_mul_right B hpq
  have hlow : p * B ≤ k * B ↔ p ≤ k := Nat.mul_le_mul_right_iff hB
  have hhigh : (k + 1) * B ≤ p * B + (q * B - p * B) ↔ k < q := by
    rw [Nat.add_sub_cancel' hmul, Nat.mul_le_mul_right_iff hB]
    exact Nat.succ_le_iff
  simp only [punch, Bool.and_eq_true, Bool.not_eq_true', decide_eq_false_iff_not, hlow, hhigh]

/-- Punching out blocks changes no byte outside them. -/
theorem punch_blocks_byte {f : SparseFile B} {p q i : Nat} (hpq : p ≤ q)
    (hout : ¬ (p ≤ i / B ∧ i / B < q)) :
    (f.punch (p * B) (q * B - p * B)).byte i = f.byte i := by
  have hB : 0 < B := Nat.pos_of_neZero B
  have hmul : p * B ≤ q * B := Nat.mul_le_mul_right B hpq
  have hrange : ¬ InRange (p * B) (q * B - p * B) i := by
    rintro ⟨hlow, hhigh⟩
    refine hout ⟨(Nat.le_div_iff_mul_le hB).mpr hlow, ?_⟩
    exact (Nat.div_lt_iff_lt_mul hB).mpr (by omega)
  simp [punch, hrange]

end Operations

end SparseFile
