/-
Module: Gvds.Lib.DecimalText
Layer: Lib
Purpose: Decimal numbers as ASCII text: printing, right-aligned printing in a field of a given
  width, and reading the leading number of a text as `atoi` and `std::stoi` do.
Imports: Mathlib.Data.UInt, Mathlib.Tactic.Basic
Trusted boundary: `isspace` and `isdigit` are those of the C locale
Main exports: DecimalText.digits, DecimalText.padded, DecimalText.atoi, DecimalText.stoi,
  DecimalText.atoi_padded, DecimalText.natAbs_atoi_lt, DecimalText.stoi_bounds
-/
import Mathlib.Data.UInt
import Mathlib.Tactic.Basic

namespace DecimalText

/-- The decimal digits of `n`, most significant first: what `%d` prints. -/
def digits (n : Nat) : List UInt8 :=
  (Nat.toDigits 10 n).map fun c => UInt8.ofNat c.toNat

/-- The digits of `n` with blanks in front up to `width` characters: what `%<width>d` prints. A
longer number is not cut. -/
def padded (width n : Nat) : List UInt8 :=
  List.replicate (width - (digits n).length) 32 ++ digits n

/-- `isspace`. -/
def isSpace (b : UInt8) : Bool := b == 32 || (9 ≤ b && b ≤ 13)

/-- `isdigit`. -/
def isDigit (b : UInt8) : Bool := 48 ≤ b && b ≤ 57

/-- The value of the digits a text begins with, after digits of value `acc`. -/
def readDigits : Nat → List UInt8 → Nat
  | acc, [] => acc
  | acc, b :: bs => if isDigit b then readDigits (acc * 10 + (b.toNat - 48)) bs else acc

/-- `atoi`: blanks, a sign, digits; whatever follows is ignored, and no digits give zero. The texts
are short enough for the value to be an `int`. -/
def atoi (text : List UInt8) : Int :=
  let rest := text.dropWhile isSpace
  match rest with
  | 43 :: bs => readDigits 0 bs
  | 45 :: bs => -(readDigits 0 bs : Int)
  | bs => readDigits 0 bs

/-- `std::stoi`: as `atoi`, but a text without digits and a value that is no `int` raise an
exception. -/
def stoi (text : List UInt8) : Option Int :=
  let rest := text.dropWhile isSpace
  let number := match rest with
    | 43 :: bs => bs
    | 45 :: bs => bs
    | bs => bs
  if (number.head?.map isDigit).getD false ∧ -2 ^ 31 ≤ atoi text ∧ atoi text < 2 ^ 31 then
    some (atoi text)
  else none

/-! ### Printing -/

/-- The character of a digit. -/
theorem digitChar_byte {d : Nat} (h : d < 10) :
    UInt8.ofNat (Nat.digitChar d).toNat = UInt8.ofNat (48 + d) := by
  have hall : ∀ d < 10, UInt8.ofNat (Nat.digitChar d).toNat = UInt8.ofNat (48 + d) := by decide
  exact hall d h

/-- The last digit comes off at the end. -/
theorem digits_eq_if (n : Nat) :
    digits n = if n < 10 then [UInt8.ofNat (48 + n)]
      else digits (n / 10) ++ [UInt8.ofNat (48 + n % 10)] := by
  unfold digits
  rw [Nat.toDigits_eq_if (by decide)]
  by_cases h : n < 10
  · simp only [h, if_true, List.map_cons, List.map_nil, digitChar_byte h]
  · have hlast : n % 10 < 10 := Nat.mod_lt _ (by decide)
    simp only [h, if_false, List.map_append, List.map_cons, List.map_nil, digitChar_byte hlast]

/-- The byte of a digit is no blank and no sign, and it has the digit's value. -/
theorem digit_byte {d : Nat} (h : d < 10) :
    isDigit (UInt8.ofNat (48 + d)) = true ∧ isSpace (UInt8.ofNat (48 + d)) = false ∧
      (UInt8.ofNat (48 + d)).toNat - 48 = d := by
  have hall : ∀ d < 10, isDigit (UInt8.ofNat (48 + d)) = true ∧
      isSpace (UInt8.ofNat (48 + d)) = false ∧ (UInt8.ofNat (48 + d)).toNat - 48 = d := by decide
  exact hall d h

/-- Printing gives digits only. -/
theorem isDigit_of_mem_digits {n : Nat} {b : UInt8} (h : b ∈ digits n) : isDigit b = true := by
  obtain ⟨c, hc, rfl⟩ := List.mem_map.mp h
  have hdigit : c.isDigit = true := Nat.isDigit_of_mem_toDigits (by decide) (by decide) hc
  simp only [Char.isDigit, Bool.and_eq_true, decide_eq_true_eq, UInt32.le_iff_toNat_le] at hdigit
  have hlow : 48 ≤ c.toNat := hdigit.1
  have hhigh : c.toNat ≤ 57 := hdigit.2
  generalize c.toNat = k at hlow hhigh
  have hall : ∀ k ≤ 57, 48 ≤ k → isDigit (UInt8.ofNat k) = true := by decide
  exact hall k hhigh hlow

/-- Printing gives at least one digit. -/
theorem digits_ne_nil (n : Nat) : digits n ≠ [] := by
  intro h
  exact Nat.toDigits_ne_nil (List.map_eq_nil_iff.mp h)

/-- A number below `10 ^ k` has at most `k` digits. -/
theorem length_digits_le_iff {n k : Nat} (hk : 0 < k) : (digits n).length ≤ k ↔ n < 10 ^ k := by
  unfold digits
  rw [List.length_map]
  exact Nat.length_toDigits_le_iff (by decide) hk

/-- A number that fits the field is printed in exactly its width. -/
theorem length_padded {width n : Nat} (h : (digits n).length ≤ width) :
    (padded width n).length = width := by
  simp only [padded, List.length_append, List.length_replicate]
  omega

/-- Right-aligned printing gives at least the field's width. -/
theorem le_length_padded (width n : Nat) : width ≤ (padded width n).length := by
  simp only [padded, List.length_append, List.length_replicate]
  omega

/-- Right-aligned printing gives blanks and digits. -/
theorem mem_padded {width n : Nat} {b : UInt8} (h : b ∈ padded width n) :
    b = 32 ∨ isDigit b = true := by
  rcases List.mem_append.mp h with hblank | hdigit
  · exact Or.inl (List.eq_of_mem_replicate hblank)
  · exact Or.inr (isDigit_of_mem_digits hdigit)

/-! ### Reading -/

/-- Reading a string of digits after another one. -/
theorem readDigits_append {acc : Nat} {front back : List UInt8}
    (h : ∀ b ∈ front, isDigit b = true) :
    readDigits acc (front ++ back) = readDigits (readDigits acc front) back := by
  induction front generalizing acc with
  | nil => rfl
  | cons b bs ih =>
      have hb : isDigit b = true := h b (by simp)
      simp only [List.cons_append, readDigits, hb, if_true]
      exact ih fun c hc => h c (by simp [hc])

/-- Reading what was printed gives the number back. -/
theorem readDigits_digits (n : Nat) : readDigits 0 (digits n) = n := by
  induction n using Nat.strong_induction_on with
  | _ n ih =>
      rw [digits_eq_if]
      by_cases h : n < 10
      · obtain ⟨hdigit, -, hvalue⟩ := digit_byte h
        simp only [h, if_true, readDigits, hdigit, hvalue]
        omega
      · obtain ⟨hdigit, -, hvalue⟩ := digit_byte (Nat.mod_lt n (by decide : 0 < 10))
        rw [if_neg h, readDigits_append fun b hb => isDigit_of_mem_digits hb,
          ih (n / 10) (by omega)]
        simp only [readDigits, hdigit, hvalue, if_true]
        omega

/-- Reading `k` characters gives a number of at most `k` digits. -/
theorem readDigits_lt (acc : Nat) (bs : List UInt8) :
    readDigits acc bs < (acc + 1) * 10 ^ bs.length := by
  induction bs generalizing acc with
  | nil => simp [readDigits]
  | cons b bs ih =>
      have hpos : 0 < 10 ^ bs.length := Nat.pow_pos (by decide)
      simp only [readDigits, List.length_cons, Nat.pow_succ]
      by_cases hdigit : isDigit b = true
      · have hvalue : b.toNat - 48 ≤ 9 := by
          simp only [isDigit, Bool.and_eq_true, decide_eq_true_eq, UInt8.le_iff_toNat_le] at hdigit
          have hhigh : b.toNat ≤ 57 := hdigit.2
          omega
        rw [if_pos hdigit]
        calc readDigits (acc * 10 + (b.toNat - 48)) bs
            < (acc * 10 + (b.toNat - 48) + 1) * 10 ^ bs.length := ih _
          _ ≤ ((acc + 1) * 10) * 10 ^ bs.length := Nat.mul_le_mul_right _ (by omega)
          _ = (acc + 1) * (10 ^ bs.length * 10) := by
            rw [Nat.mul_assoc, Nat.mul_comm 10]
      · rw [if_neg hdigit]
        calc acc < (acc + 1) * 1 := by omega
          _ ≤ (acc + 1) * (10 ^ bs.length * 10) := Nat.mul_le_mul_left _ (by omega)

/-- Dropping the blanks in front leaves what follows them. -/
theorem dropWhile_replicate_append (k : Nat) {bs : List UInt8}
    (h : ∀ b ∈ bs.head?, isSpace b = false) :
    (List.replicate k 32 ++ bs).dropWhile isSpace = bs := by
  induction k with
  | zero =>
      cases bs with
      | nil => rfl
      | cons b bs => simp [h b rfl]
  | succ k ih =>
      rw [List.replicate_succ, List.cons_append, List.dropWhile_cons_of_pos (by decide)]
      exact ih

/-- A digit is no blank. -/
theorem isSpace_of_isDigit {b : UInt8} (h : isDigit b = true) : isSpace b = false := by
  simp only [isDigit, Bool.and_eq_true, decide_eq_true_eq, UInt8.le_iff_toNat_le] at h
  have hlow : 48 ≤ b.toNat := h.1
  have hblank : b ≠ 32 := by
    rintro rfl
    exact absurd hlow (by decide)
  have hcontrol : ¬ b ≤ 13 := by
    rw [UInt8.le_iff_toNat_le]
    have hthirteen : (13 : UInt8).toNat = 13 := rfl
    omega
  simp [isSpace, hblank, hcontrol]

/-- Reading a text that begins with a digit. -/
theorem atoi_of_isDigit {b : UInt8} {bs : List UInt8} (h : isDigit b = true) :
    atoi (b :: bs) = readDigits 0 (b :: bs) := by
  have hblank : (b :: bs).dropWhile isSpace = b :: bs :=
    List.dropWhile_cons_of_neg (by simp [isSpace_of_isDigit h])
  have hplus : b ≠ 43 := by
    rintro rfl
    exact absurd h (by decide)
  have hminus : b ≠ 45 := by
    rintro rfl
    exact absurd h (by decide)
  unfold atoi
  simp only [hblank]
  split
  · next heq => exact absurd (List.cons.inj heq).1 hplus
  · next heq => exact absurd (List.cons.inj heq).1 hminus
  · rfl

/-- `atoi` reads back what right-aligned printing wrote, in any width. -/
theorem atoi_padded (width n : Nat) : atoi (padded width n) = n := by
  obtain ⟨b, bs, hbs⟩ := List.exists_cons_of_ne_nil (digits_ne_nil n)
  have hdigit : isDigit b = true := isDigit_of_mem_digits (n := n) (by simp [hbs])
  have hblanks : (padded width n).dropWhile isSpace = digits n := by
    refine dropWhile_replicate_append _ fun c hc => ?_
    rw [hbs] at hc
    cases hc
    exact isSpace_of_isDigit hdigit
  have hsame : atoi (padded width n) = atoi (digits n) := by
    unfold atoi
    rw [hblanks, hbs, List.dropWhile_cons_of_neg (by simp [isSpace_of_isDigit hdigit])]
  rw [hsame, hbs, atoi_of_isDigit hdigit, ← hbs, readDigits_digits]

/-- `atoi` of `k` characters is a number of at most `k` digits, with a sign or without. -/
theorem natAbs_atoi_lt (text : List UInt8) : (atoi text).natAbs < 10 ^ text.length := by
  have hlen : (text.dropWhile isSpace).length ≤ text.length :=
    (List.dropWhile_suffix isSpace).length_le
  have hbound : ∀ bs : List UInt8, bs.length ≤ text.length →
      readDigits 0 bs < 10 ^ text.length := by
    intro bs hbs
    have hread : readDigits 0 bs < (0 + 1) * 10 ^ bs.length := readDigits_lt 0 bs
    have hpow : 10 ^ bs.length ≤ 10 ^ text.length := Nat.pow_le_pow_right (by decide) hbs
    omega
  unfold atoi
  generalize text.dropWhile isSpace = rest at hlen
  dsimp only
  split
  · rw [Int.natAbs_natCast]
    rw [List.length_cons] at hlen
    exact hbound _ (by omega)
  · rw [Int.natAbs_neg, Int.natAbs_natCast]
    rw [List.length_cons] at hlen
    exact hbound _ (by omega)
  · rw [Int.natAbs_natCast]
    exact hbound _ hlen

/-- What `stoi` reads is an `int`. -/
theorem stoi_bounds {text : List UInt8} {n : Int} (h : stoi text = some n) :
    -2 ^ 31 ≤ n ∧ n < 2 ^ 31 := by
  simp only [stoi, Option.ite_none_right_eq_some, Option.some.injEq] at h
  obtain ⟨⟨-, hrange⟩, rfl⟩ := h
  exact hrange

end DecimalText
