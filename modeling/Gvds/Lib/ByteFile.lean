/-
Module: Gvds.Lib.ByteFile
Layer: Lib
Purpose: A file as its users see it: a size and one byte for every offset. Writes put a string of
  bytes at an offset and fill a gap with zeros. Two writes commute exactly where they do not
  disagree on a common byte, and a write may be split at any point.
Imports: Mathlib.Data.UInt, Mathlib.Data.List.GetD, Mathlib.Tactic.Basic
Trusted boundary: none
Main exports: ByteFile, ByteFile.write, ByteFile.truncate, ByteFile.read, ByteFile.write_append,
  ByteFile.write_comm
-/
import Mathlib.Data.UInt
import Mathlib.Data.List.GetD
import Mathlib.Tactic.Basic

/-- The contents of a file. The bytes at and beyond `size` do not exist; they are kept at zero so
that equal files are equal values. -/
@[ext] structure ByteFile where
  size : Nat
  byte : Nat → UInt8
  beyond : ∀ i, size ≤ i → byte i = 0

namespace ByteFile

/-- The file without a byte. -/
def empty : ByteFile where
  size := 0
  byte := fun _ => 0
  beyond := fun _ _ => rfl

/-- Offset `i` lies in the `n` bytes from `off`. -/
def InRange (off n i : Nat) : Prop := off ≤ i ∧ i < off + n

instance (off n i : Nat) : Decidable (InRange off n i) := inferInstanceAs (Decidable (_ ∧ _))

/-- Put `data` at `off`. A gap between the old end and `off` reads as zero; writing no bytes
changes nothing, not even the size. -/
def write (f : ByteFile) (off : Nat) (data : List UInt8) : ByteFile where
  size := if data = [] then f.size else max f.size (off + data.length)
  byte := fun i => if InRange off data.length i then data.getD (i - off) 0 else f.byte i
  beyond := by
    intro i hi
    by_cases hnil : data = []
    · subst hnil
      have hout : ¬ InRange off ([] : List UInt8).length i := by simp [InRange]
      rw [if_neg hout]
      exact f.beyond i (by simpa using hi)
    · simp only [hnil, if_false] at hi
      have hout : ¬ InRange off data.length i := by
        unfold InRange
        omega
      rw [if_neg hout]
      exact f.beyond i (by omega)

/-- Cut the file at `n`, or extend it with zeros up to there. -/
def truncate (f : ByteFile) (n : Nat) : ByteFile where
  size := n
  byte := fun i => if i < n then f.byte i else 0
  beyond := fun _ hi => if_neg (Nat.not_lt.mpr hi)

/-- What a read of `len` bytes at `off` returns: the bytes up to the end of the file. -/
def read (f : ByteFile) (off len : Nat) : List UInt8 :=
  (List.range (min len (f.size - off))).map fun k => f.byte (off + k)

theorem write_size {f : ByteFile} {off : Nat} {data : List UInt8} (h : data ≠ []) :
    (f.write off data).size = max f.size (off + data.length) := by
  simp [write, h]

/-- A write keeps the size if it fits. -/
theorem size_write_eq_self_iff {f : ByteFile} {off : Nat} {data : List UInt8} :
    (f.write off data).size = f.size ↔ data = [] ∨ off + data.length ≤ f.size := by
  by_cases h : data = []
  · subst h
    simp [write]
  · rw [write_size h]
    simp [h]

theorem write_byte_of_inRange {f : ByteFile} {off i : Nat} {data : List UInt8}
    (h : InRange off data.length i) : (f.write off data).byte i = data.getD (i - off) 0 := by
  simp [write, h]

theorem write_byte_of_not_inRange {f : ByteFile} {off i : Nat} {data : List UInt8}
    (h : ¬ InRange off data.length i) : (f.write off data).byte i = f.byte i := by
  simp [write, h]

/-- Writing no bytes is no write. -/
@[simp] theorem write_nil (f : ByteFile) (off : Nat) : f.write off [] = f := by
  refine ByteFile.ext (by simp [write]) (funext fun i => ?_)
  exact write_byte_of_not_inRange (by simp [InRange])

@[simp] theorem read_length (f : ByteFile) (off len : Nat) :
    (f.read off len).length = min len (f.size - off) := by
  simp [read]

/-- Each byte of a read is the one at its offset. -/
theorem read_getD {f : ByteFile} {off len j : Nat} (hj : j < (f.read off len).length) :
    (f.read off len).getD j 0 = f.byte (off + j) := by
  rw [List.getD_eq_getElem _ _ hj]
  simp [read]

/-- Reads see only the size and the bytes they return. -/
theorem read_congr {f g : ByteFile} {off len : Nat} (hsize : f.size = g.size)
    (hbyte : ∀ i, off ≤ i → i < off + len → i < g.size → f.byte i = g.byte i) :
    f.read off len = g.read off len := by
  unfold read
  rw [hsize]
  refine List.map_congr_left ?_
  intro k hk
  rw [List.mem_range] at hk
  exact hbyte (off + k) (by omega) (by omega) (by omega)

/-- A write may be split in two adjacent ones. -/
theorem write_append (f : ByteFile) (off : Nat) (front back : List UInt8) :
    f.write off (front ++ back) = (f.write off front).write (off + front.length) back := by
  by_cases hback : back = []
  · subst hback
    simp
  by_cases hfront : front = []
  · subst hfront
    simp
  refine ByteFile.ext ?_ (funext fun i => ?_)
  · simp only [write, List.append_eq_nil_iff, hfront, hback, and_self, if_false,
      List.length_append]
    omega
  · by_cases hlow : InRange off front.length i
    · have hboth : InRange off (front ++ back).length i := by
        simp only [InRange, List.length_append] at hlow ⊢
        omega
      have hnot : ¬ InRange (off + front.length) back.length i := by
        simp only [InRange] at hlow ⊢
        omega
      rw [write_byte_of_inRange hboth, write_byte_of_not_inRange hnot,
        write_byte_of_inRange hlow, List.getD_append _ _ _ _ (by simp only [InRange] at hlow; omega)]
    · by_cases hhigh : InRange (off + front.length) back.length i
      · have hboth : InRange off (front ++ back).length i := by
          simp only [InRange, List.length_append] at hhigh ⊢
          omega
        rw [write_byte_of_inRange hboth, write_byte_of_inRange hhigh,
          List.getD_append_right _ _ _ _ (by simp only [InRange] at hhigh; omega)]
        congr 1
        omega
      · have hnone : ¬ InRange off (front ++ back).length i := by
          simp only [InRange, List.length_append] at hlow hhigh ⊢
          omega
        rw [write_byte_of_not_inRange hnone, write_byte_of_not_inRange hhigh,
          write_byte_of_not_inRange hlow]

/-- Data that is put at the end of a file, whatever offset it was meant for, lands where it should
only if there is none or the offset is the end. -/
theorem write_size_eq_iff {f : ByteFile} {off : Nat} {data : List UInt8} :
    f.write f.size data = f.write off data ↔ data = [] ∨ off = f.size := by
  constructor
  · intro heq
    by_cases hdata : data = []
    · exact Or.inl hdata
    · have hsize := congrArg ByteFile.size heq
      rw [write_size hdata, write_size hdata] at hsize
      have hpos : 0 < data.length := List.length_pos_iff.mpr hdata
      right
      omega
  · rintro (rfl | rfl)
    · rw [write_nil, write_nil]
    · rfl

/-- Two writes agree when every byte they both cover gets the same value from both. -/
def Agree (off₁ : Nat) (data₁ : List UInt8) (off₂ : Nat) (data₂ : List UInt8) : Prop :=
  ∀ i, InRange off₁ data₁.length i → InRange off₂ data₂.length i →
    data₁.getD (i - off₁) 0 = data₂.getD (i - off₂) 0

theorem Agree.symm {off₁ off₂ : Nat} {data₁ data₂ : List UInt8}
    (h : Agree off₁ data₁ off₂ data₂) : Agree off₂ data₂ off₁ data₁ :=
  fun i h₂ h₁ => (h i h₁ h₂).symm

/-- Writes that agree can be made in either order. -/
theorem write_comm {f : ByteFile} {off₁ off₂ : Nat} {data₁ data₂ : List UInt8}
    (h : Agree off₁ data₁ off₂ data₂) :
    (f.write off₁ data₁).write off₂ data₂ = (f.write off₂ data₂).write off₁ data₁ := by
  refine ByteFile.ext ?_ (funext fun i => ?_)
  · simp only [write]
    split <;> split <;> omega
  · by_cases h₁ : InRange off₁ data₁.length i <;> by_cases h₂ : InRange off₂ data₂.length i
    · rw [write_byte_of_inRange h₂, write_byte_of_inRange h₁, h i h₁ h₂]
    · rw [write_byte_of_not_inRange h₂, write_byte_of_inRange h₁, write_byte_of_inRange h₁]
    · rw [write_byte_of_inRange h₂, write_byte_of_not_inRange h₁, write_byte_of_inRange h₂]
    · rw [write_byte_of_not_inRange h₂, write_byte_of_not_inRange h₁,
        write_byte_of_not_inRange h₁, write_byte_of_not_inRange h₂]

end ByteFile
