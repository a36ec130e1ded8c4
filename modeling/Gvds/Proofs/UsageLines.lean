/-
Module: Gvds.Proofs.UsageLines
Layer: Proofs
Purpose: For which lines of `du -h -d 0` SpaceUsage returns the usage in KB. Decimals are lost,
  numbers without a unit and units above G count for nothing, the product has to be an `int`, and
  behind a blank of the path the program takes the path for the size.
Imports: Gvds.Manager.SpaceUsage, Mathlib.Data.List.TakeWhile
Trusted boundary: as Gvds.Manager.SpaceUsage
Main exports: DuLine, DuLine.print, Right, Readable, usage_right_iff, decimals_are_lost
-/
import Gvds.Manager.SpaceUsage
import Mathlib.Data.List.TakeWhile

namespace Gvds.SpaceUsage

open DecimalText

/-! ### The lines that du prints -/

/-- The units. -/
inductive DuUnit where
  | K | M | G | T | P | E
deriving DecidableEq

/-- The letter of a unit. -/
def DuUnit.letter : DuUnit → UInt8
  | .K => 75
  | .M => 77
  | .G => 71
  | .T => 84
  | .P => 80
  | .E => 69

/-- How often a thousand is in a unit. -/
def DuUnit.power : DuUnit → Nat
  | .K => 1
  | .M => 2
  | .G => 3
  | .T => 4
  | .P => 5
  | .E => 6

/-- A line of `du -h -d 0`: a number with or without a decimal, a unit or none, and a path, which
has no NUL. -/
structure DuLine where
  number : Nat
  decimal : Option (Fin 10)
  unit : Option DuUnit
  path : List UInt8
  path_noNul : 0 ∉ path

namespace DuLine

/-- The digits, with the decimal. -/
def numberText (line : DuLine) : List UInt8 :=
  digits line.number ++ line.decimal.elim [] fun d => [46, UInt8.ofNat (48 + d)]

/-- What stands in front of the tab. -/
def field (line : DuLine) : List UInt8 :=
  line.numberText ++ line.unit.elim [] fun u => [u.letter]

/-- The line as it is printed. -/
def print (line : DuLine) : List UInt8 :=
  line.field ++ 9 :: (line.path ++ [10])

/-- The number, in tenths. -/
def tenths (line : DuLine) : Nat :=
  10 * line.number + line.decimal.elim 0 fun d => (d : Nat)

/-- The usage in units of a ten thousandth of a KB. -/
def usage (line : DuLine) : Nat :=
  line.tenths * 1000 ^ line.unit.elim 0 DuUnit.power

/-- The usage in whole KB, rounded down. -/
def wholeKB (line : DuLine) : Nat :=
  line.usage / 10000

end DuLine

/-- A number of KB is the usage of the line, rounded down or up. -/
def Meets (line : DuLine) (kb : Int) : Prop :=
  line.wholeKB ≤ kb ∧ kb * 10000 < line.usage + 10000

/-- The result is the usage and not negative, and no multiplication overflowed. -/
def Right (line : DuLine) (result : Int64 × Bool) : Prop :=
  Meets line result.1.toInt ∧ 0 ≤ result.1.toInt ∧ result.2 = false

/-- The program knows the unit and loses no decimal, and the number of KB is an `int`. Without a
unit there is less than one KB, and of the larger units there is nothing. -/
def Simple (line : DuLine) : Prop :=
  match line.unit with
  | none => line.number < 1000
  | some .K => line.number < 2 ^ 31
  | some .M => line.tenths = 10 * line.number ∧ line.number * 1000 < 2 ^ 31
  | some .G => line.tenths = 10 * line.number ∧ line.number * 1000000 < 2 ^ 31
  | some _ => line.tenths = 0

/-- Either no blank is within the characters that are read, and the size is a simple one; or there
is one, and what stands behind the first one, up to a tab or to the end of what is read, says the
same amount. -/
def Readable (beyond : Int → Int32) (line : DuLine) : Prop :=
  32 ∉ fgets 198 line.print ∧ Simple line ∨
    ∃ front back, fgets 198 line.print = front ++ 32 :: back ∧ 32 ∉ front ∧
      Meets line (amount beyond (back.takeWhile (· != 9))) ∧
      amount beyond (back.takeWhile (· != 9)) < 2 ^ 31

/-! ### The characters of a line -/

/-- The byte of a digit. -/
theorem isDigit_ofNat (d : Fin 10) : isDigit (UInt8.ofNat (48 + d)) = true :=
  (digit_byte d.isLt).1

/-- In front of the tab stand digits, a point and letters. -/
theorem DuLine.ne_of_mem_field {line : DuLine} {b c : UInt8} (h : b ∈ line.field)
    (hc : c = 0 ∨ c = 9 ∨ c = 10 ∨ c = 32) : b ≠ c := by
  have hdigit : isDigit b = true → b ≠ c := by
    rintro hb rfl
    rcases hc with rfl | rfl | rfl | rfl <;> exact absurd hb (by decide)
  rcases List.mem_append.mp h with hnumber | hunit
  · rcases List.mem_append.mp hnumber with hn | hd
    · exact hdigit (isDigit_of_mem_digits hn)
    · cases hdec : line.decimal with
      | none =>
          rw [hdec] at hd
          cases hd
      | some d =>
          rw [hdec] at hd
          rcases List.mem_pair.mp hd with rfl | rfl
          · rcases hc with rfl | rfl | rfl | rfl <;> decide
          · exact hdigit (isDigit_ofNat d)
  · cases hu : line.unit with
    | none =>
        rw [hu] at hunit
        cases hunit
    | some u =>
        rw [hu] at hunit
        rw [List.mem_singleton.mp hunit]
        rcases hc with rfl | rfl | rfl | rfl <;> cases u <;> decide

/-- No NUL is read. -/
theorem DuLine.takeWhile_noNul (line : DuLine) :
    (fgets 198 line.print).takeWhile (· != 0) = fgets 198 line.print := by
  rw [List.takeWhile_eq_self_iff]
  intro b hb
  rw [bne_iff_ne]
  rcases List.mem_append.mp (mem_of_mem_fgets hb) with hfield | hrest
  · exact DuLine.ne_of_mem_field hfield (.inl rfl)
  · rcases List.mem_cons.mp hrest with rfl | hrest
    · decide
    · rcases List.mem_append.mp hrest with hpath | hnl
      · rintro rfl
        exact line.path_noNul hpath
      · rw [List.mem_singleton.mp hnl]
        decide

/-- The number is read without its decimal. -/
theorem DuLine.atoi_numberText (line : DuLine) : atoi line.numberText = line.number := by
  refine atoi_digits_append line.number ?_
  cases line.decimal with
  | none => intro b hb; cases hb
  | some d =>
      intro b hb
      cases hb
      decide

/-- A number of at most 13 digits fits the buffer, with its decimal and its unit. -/
theorem DuLine.length_field_le {line : DuLine} (h : line.number < 10 ^ 13) :
    line.field.length < 198 := by
  have hdigits := (length_digits_le_iff (by decide : 0 < 13)).mpr h
  have hdec : (line.decimal.elim [] fun d => [46, UInt8.ofNat (48 + d)]).length ≤ 2 := by
    cases line.decimal <;> simp
  have hunit : (line.unit.elim [] fun u => [u.letter]).length ≤ 1 := by
    cases line.unit <;> simp
  simp only [field, numberText, List.length_append]
  omega

/-- A short number is read with the tab behind it. -/
theorem DuLine.exists_fgets_print {line : DuLine} (h : line.number < 10 ^ 13) :
    ∃ rest, fgets 198 line.print = line.field ++ 9 :: rest := by
  have hlen := line.length_field_le h
  have hnl : 10 ∉ line.field := fun hmem => ne_of_mem_field hmem (.inr (.inr (.inl rfl))) rfl
  obtain ⟨k, hk⟩ : ∃ k, 198 - line.field.length = k + 1 := ⟨197 - line.field.length, by omega⟩
  refine ⟨fgets k (line.path ++ [10]), ?_⟩
  rw [print, fgets_append hnl (by omega), hk]
  rfl

/-! ### The amount in front of the tab -/

/-- The program knows three of the units. -/
theorem factor_letter (u : DuUnit) :
    factor (some u.letter) =
      match u with
      | .K => 1
      | .M => 1000
      | .G => 1000 * 1000
      | .T | .P | .E => 0 := by
  cases u <;> rfl

/-- The number that the program reads in front of the tab, if it is an `int`. -/
theorem sscanfInt_numberText {beyond : Int → Int32} {line : DuLine} (h : line.number < 2 ^ 31) :
    (sscanfInt beyond line.numberText).toInt = line.number := by
  have hint : IsInt (line.number : Int) := by
    unfold IsInt
    omega
  rw [sscanfInt, line.atoi_numberText, if_pos hint]
  exact Int32.toInt_ofInt_of_le hint.1 hint.2

/-- With a unit, the program reads the number in that unit. -/
theorem amount_field_unit (beyond : Int → Int32) {line : DuLine} {u : DuUnit}
    (hunit : line.unit = some u) :
    amount beyond line.field =
      (sscanfInt beyond line.numberText).toInt * factor (some u.letter) := by
  have hfield : line.field = line.numberText ++ [u.letter] := by
    rw [DuLine.field, hunit, Option.elim_some]
  rw [amount, hfield, List.dropLast_concat, List.getLast?_concat]

/-- Without a unit, the last character is a digit, and the amount is nothing. -/
theorem amount_field_none (beyond : Int → Int32) {line : DuLine} (hunit : line.unit = none) :
    amount beyond line.field = 0 := by
  have hfield : line.field = line.numberText := by
    rw [DuLine.field, hunit, Option.elim_none, List.append_nil]
  have hlast : ∀ b, line.numberText.getLast? = some b → isDigit b = true := by
    intro b hb
    cases hdec : line.decimal with
    | none =>
        rw [DuLine.numberText, hdec, Option.elim_none, List.append_nil] at hb
        exact isDigit_of_mem_digits (List.mem_of_getLast? hb)
    | some d =>
        rw [DuLine.numberText, hdec, Option.elim_some, ← List.singleton_append (l := [_]),
          ← List.append_assoc, List.getLast?_concat] at hb
        cases hb
        exact isDigit_ofNat d
  have hne : ∀ c, isDigit c = false → line.numberText.getLast? ≠ some c := by
    intro c hc hsome
    rw [hlast c hsome] at hc
    cases hc
  simp only [amount, factor, hfield, if_neg (hne 71 (by decide)), if_neg (hne 77 (by decide)),
    if_neg (hne 75 (by decide)), Int.mul_zero]

/-- The program reads the usage in front of the tab, as an `int`, exactly for a simple size. -/
theorem simple_iff (beyond : Int → Int32) (line : DuLine) :
    Simple line ↔ Meets line (amount beyond line.field) ∧ amount beyond line.field < 2 ^ 31 := by
  have hread : line.number < 2 ^ 31 →
      (sscanfInt beyond line.numberText).toInt = line.number := sscanfInt_numberText
  have hint := isInt_toInt (sscanfInt beyond line.numberText)
  have hdec : ∃ d < 10, line.tenths = 10 * line.number + d := by
    cases h : line.decimal with
    | none => exact ⟨0, by decide, by rw [DuLine.tenths, h, Option.elim_none]⟩
    | some d => exact ⟨d, d.isLt, by rw [DuLine.tenths, h, Option.elim_some]⟩
  obtain ⟨d, hd, htenths⟩ := hdec
  unfold IsInt at hint
  cases hunit : line.unit with
  | none =>
      rw [amount_field_none beyond hunit]
      simp only [Simple, Meets, DuLine.wholeKB, DuLine.usage, hunit, Option.elim_none, htenths]
      omega
  | some u =>
      rw [amount_field_unit beyond hunit]
      generalize (sscanfInt beyond line.numberText).toInt = n at hread hint
      rw [factor_letter]
      simp only [Simple, Meets, DuLine.wholeKB, DuLine.usage, hunit, Option.elim_some, htenths]
      cases u <;> simp only [DuUnit.power] <;> omega

/-! ### The result -/

/-- The result is right if and only if the field that the program takes says the usage. -/
theorem right_iff_amount (beyond : Int → Int32) (line : DuLine) :
    Right line (spaceUsage beyond line.print) ↔
      Meets line (amount beyond (sizeStr (fgets 198 line.print))) ∧
        amount beyond (sizeStr (fgets 198 line.print)) < 2 ^ 31 := by
  obtain ⟨hflag, hvalue⟩ := spaceUsage_eq beyond line.print (congrArg sizeStr line.takeWhile_noNul)
  constructor
  · rintro ⟨hmeets, -, hno⟩
    have hint := hflag.mp hno
    rw [hvalue hint] at hmeets
    exact ⟨hmeets, hint.2⟩
  · rintro ⟨hmeets, hsmall⟩
    have hnonneg := (Int.natCast_nonneg line.wholeKB).trans hmeets.1
    have hint : IsInt (amount beyond (sizeStr (fgets 198 line.print))) :=
      ⟨by omega, hsmall⟩
    unfold Right
    rw [hvalue hint]
    exact ⟨hmeets, hnonneg, hflag.mpr hint⟩

/-- A number of more than 13 digits is no `int` of KB in any unit. -/
theorem wholeKB_large {line : DuLine} (h : 10 ^ 13 ≤ line.number) : 2 ^ 31 ≤ line.wholeKB := by
  have hpow : 1 ≤ 1000 ^ line.unit.elim 0 DuUnit.power := Nat.one_le_pow _ _ (by decide)
  have htenths : 10 * line.number ≤ line.tenths := by
    rw [DuLine.tenths]
    omega
  have husage : line.tenths * 1 ≤ line.usage := Nat.mul_le_mul_left _ hpow
  rw [DuLine.wholeKB]
  omega

/-- Without a blank, the result is right exactly for a simple size. -/
theorem right_iff_simple (beyond : Int → Int32) {line : DuLine}
    (hblank : 32 ∉ fgets 198 line.print) :
    Right line (spaceUsage beyond line.print) ↔ Simple line := by
  rw [right_iff_amount]
  by_cases hshort : line.number < 10 ^ 13
  · obtain ⟨rest, hbuf⟩ := line.exists_fgets_print hshort
    have htab : 9 ∉ line.field := fun hmem => DuLine.ne_of_mem_field hmem (.inr (.inl rfl)) rfl
    rw [hbuf] at hblank ⊢
    rw [sizeStr_of_noBlank hblank htab]
    exact (simple_iff beyond line).symm
  · have hlarge := wholeKB_large (Nat.le_of_not_lt hshort)
    have hmeets : ∀ kb : Int, kb < 2 ^ 31 → ¬ Meets line kb := by
      rintro kb hkb ⟨hle, -⟩
      omega
    constructor
    · rintro ⟨h, hsmall⟩
      exact absurd h (hmeets _ hsmall)
    · intro hsimple
      obtain ⟨h, hsmall⟩ := (simple_iff beyond line).mp hsimple
      exact absurd h (hmeets _ hsmall)

/-- For every line that `du -h -d 0` can print: `SpaceUsage` returns the usage in KB, not less than
the whole KB, no negative number, and without an overflow, if and only if the line is readable. -/
theorem usage_right_iff (beyond : Int → Int32) (line : DuLine) :
    Right line (spaceUsage beyond line.print) ↔ Readable beyond line := by
  by_cases hblank : 32 ∈ fgets 198 line.print
  · obtain ⟨front, back, hbuf, hfront⟩ := List.eq_append_cons_of_mem hblank
    rw [right_iff_amount]
    constructor
    · intro h
      rw [hbuf, sizeStr_of_blank hfront] at h
      exact .inr ⟨front, back, hbuf, hfront, h⟩
    · rintro (⟨hno, -⟩ | ⟨front', back', hbuf', hfront', h⟩)
      · exact absurd hblank hno
      · rw [hbuf', sizeStr_of_blank hfront']
        exact h
  · rw [right_iff_simple beyond hblank]
    constructor
    · exact fun h => .inl ⟨hblank, h⟩
    · rintro (⟨-, h⟩ | ⟨front, back, hbuf, -⟩)
      · exact h
      · exact absurd (by rw [hbuf]; simp) hblank

/-- 1.5 M. -/
def oneAndAHalf : DuLine where
  number := 1
  decimal := some 5
  unit := some .M
  path := [47, 112]
  path_noNul := by decide

/-- Of 1.5 M, 1000 KB are left. -/
theorem decimals_are_lost :
    ¬ ∀ (beyond : Int → Int32) (line : DuLine), Right line (spaceUsage beyond line.print) := by
  intro hall
  have hright := hall (fun _ => 0) oneAndAHalf
  rw [right_iff_simple _ (by decide)] at hright
  exact absurd hright.1 (by decide)

end Gvds.SpaceUsage
