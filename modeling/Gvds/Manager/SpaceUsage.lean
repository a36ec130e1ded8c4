/-
Module: Gvds.Manager.SpaceUsage
Layer: Manager
Purpose: What SpaceServer::SpaceUsage (manager/space/SpaceServer.cc) makes of the output of du.
Imports: Gvds.Lib.DecimalText
Trusted boundary: the command fits its buffer, popen succeeds and `du` prints something. An `int`
  that overflows wraps around, and the model says that it did. What `sscanf` stores for a number
  that is no `int` is a parameter
Main exports: fgets, sizeStr, sscanfInt, mulInt, spaceUsage
-/
import Gvds.Lib.DecimalText

namespace Gvds.SpaceUsage

open DecimalText

/-- An `int`. -/
def IsInt (n : Int) : Prop := -2 ^ 31 ≤ n ∧ n < 2 ^ 31

instance (n : Int) : Decidable (IsInt n) := inferInstanceAs (Decidable (_ ∧ _))

/-- `fgets` into a buffer for `n` characters and the NUL behind them: it stops behind a newline. -/
def fgets : Nat → List UInt8 → List UInt8
  | 0, _ => []
  | _ + 1, [] => []
  | n + 1, b :: out => if b = 10 then [b] else b :: fgets n out

/-- `size_str`: what stands behind the first blank, up to the next tab. Without a blank `start` is
`npos`, and `start + 1` is zero; without a tab `end` is `npos`, and the rest is taken. -/
def sizeStr (cmdresult : List UInt8) : List UInt8 :=
  let start := (cmdresult.findIdx? (· == 32)).elim 0 (· + 1)
  (cmdresult.drop start).takeWhile (· != 9)

/-- `sscanf(text, "%d", &formal_size)`; without digits `formal_size` stays 0. -/
def sscanfInt (beyond : Int → Int32) (text : List UInt8) : Int32 :=
  if IsInt (atoi text) then Int32.ofInt (atoi text) else beyond (atoi text)

/-- A product of two `int`s, and whether it or one before it overflows. -/
def mulInt (product : Int32 × Bool) (factor : Int32) : Int32 × Bool :=
  (product.1 * factor, product.2 || !decide (IsInt (product.1.toInt * factor.toInt)))

/-- `SpaceUsage` for the output of `du`: the size, and whether a multiplication overflows. An empty
`size_str` has no last character; the one that is read there does not matter, since `formal_size` is
still 0. -/
def spaceUsage (beyond : Int → Int32) (output : List UInt8) : Int64 × Bool :=
  let buf := fgets 198 output
  let cmdresult := buf.takeWhile (· != 0)
  let size_str := sizeStr cmdresult
  let unit := size_str.getLast?
  let formal_size := sscanfInt beyond size_str.dropLast
  let size :=
    if unit = some 71 then mulInt (mulInt (formal_size, false) 1000) 1000
    else if unit = some 77 then mulInt (formal_size, false) 1000
    else if unit = some 75 then (formal_size, false)
    else (0, false)
  (size.1.toInt64, size.2)

/-! ### The program's reading of a field -/

/-- KB in a unit, for the units that the program knows. -/
def factor (unit : Option UInt8) : Int :=
  if unit = some 71 then 1000 * 1000
  else if unit = some 77 then 1000
  else if unit = some 75 then 1
  else 0

/-- The amount that a field stands for: the number it begins with, in the unit it ends with. -/
def amount (beyond : Int → Int32) (size_str : List UInt8) : Int :=
  (sscanfInt beyond size_str.dropLast).toInt * factor size_str.getLast?

theorem isInt_toInt (n : Int32) : IsInt n.toInt := ⟨n.le_toInt, n.toInt_lt⟩

theorem toInt_thousand : (1000 : Int32).toInt = 1000 := rfl

/-- A product that is an `int` is that of the numbers. -/
theorem toInt_mul_thousand {n : Int32} (h : IsInt (n.toInt * 1000)) :
    (n * 1000).toInt = n.toInt * 1000 := by
  rw [Int32.toInt_mul, toInt_thousand]
  exact Int.bmod_eq_of_le (by have := h.1; omega) (by have := h.2; omega)

/-- The program multiplies without an overflow exactly if the amount is an `int`, and then it gets
the amount. -/
theorem spaceUsage_eq (beyond : Int → Int32) (output : List UInt8) {size_str : List UInt8}
    (hfield : sizeStr ((fgets 198 output).takeWhile (· != 0)) = size_str) :
    ((spaceUsage beyond output).2 = false ↔ IsInt (amount beyond size_str)) ∧
      (IsInt (amount beyond size_str) →
        (spaceUsage beyond output).1.toInt = amount beyond size_str) := by
  unfold spaceUsage amount factor
  simp only [hfield]
  generalize sscanfInt beyond size_str.dropLast = formal_size
  by_cases hG : size_str.getLast? = some 71
  · simp only [hG, if_true, mulInt, toInt_thousand, Bool.false_or, Bool.or_eq_false_iff,
      Bool.not_eq_false', decide_eq_true_eq, Int32.toInt_toInt64, ← Int.mul_assoc]
    have hfirst : IsInt (formal_size.toInt * 1000 * 1000) → IsInt (formal_size.toInt * 1000) := by
      unfold IsInt
      omega
    constructor
    · constructor
      · rintro ⟨h1, h2⟩
        rwa [toInt_mul_thousand h1] at h2
      · intro h
        refine ⟨hfirst h, ?_⟩
        rwa [toInt_mul_thousand (hfirst h)]
    · intro h
      have hinner := toInt_mul_thousand (hfirst h)
      rw [← hinner] at h
      rw [toInt_mul_thousand h, hinner]
  · by_cases hM : size_str.getLast? = some 77
    · simp only [hM, if_true, if_neg (by decide : ¬ some (77 : UInt8) = some 71), mulInt,
        toInt_thousand, Bool.false_or, Bool.not_eq_false', decide_eq_true_eq, Int32.toInt_toInt64]
      exact ⟨trivial, toInt_mul_thousand⟩
    · by_cases hK : size_str.getLast? = some 75
      · simp only [hK, if_true, if_neg (by decide : ¬ some (75 : UInt8) = some 71),
          if_neg (by decide : ¬ some (75 : UInt8) = some 77), Int.mul_one, Int32.toInt_toInt64]
        exact ⟨⟨fun _ => isInt_toInt formal_size, fun _ => trivial⟩, fun _ => trivial⟩
      · simp only [hG, hM, hK, if_false, Int.mul_zero]
        exact ⟨⟨fun _ => by decide, fun _ => trivial⟩, fun _ => rfl⟩

/-- Whatever is read, the size is an `int`. -/
theorem isInt_spaceUsage (beyond : Int → Int32) (output : List UInt8) :
    IsInt (spaceUsage beyond output).1.toInt := by
  unfold spaceUsage
  simp only [Int32.toInt_toInt64]
  exact isInt_toInt _

/-! ### The fields of a line -/

/-- A text without newlines that fits the buffer is read whole. -/
theorem fgets_append {front back : List UInt8} {n : Nat} (hnl : 10 ∉ front)
    (hlen : front.length ≤ n) :
    fgets n (front ++ back) = front ++ fgets (n - front.length) back := by
  induction front generalizing n with
  | nil => simp
  | cons b front ih =>
      obtain ⟨n, rfl⟩ : ∃ m, n = m + 1 := ⟨n - 1, by simp at hlen; omega⟩
      have hb : b ≠ 10 := fun h => hnl (by simp [h])
      have hrest : 10 ∉ front := fun h => hnl (by simp [h])
      simp only [List.length_cons, Nat.add_le_add_iff_right] at hlen
      simp only [List.cons_append, fgets, if_neg hb, List.length_cons, Nat.add_sub_add_right]
      rw [ih hrest hlen]

/-- What is read was printed. -/
theorem mem_of_mem_fgets {n : Nat} {out : List UInt8} {b : UInt8} (h : b ∈ fgets n out) :
    b ∈ out := by
  induction out generalizing n with
  | nil => cases n <;> cases h
  | cons c out ih =>
      cases n with
      | zero => cases h
      | succ n =>
          rw [fgets] at h
          split at h
          · exact List.mem_of_mem_take (l := c :: out) (i := 1) h
          · rcases List.mem_cons.mp h with rfl | h
            · exact List.mem_cons_self ..
            · exact List.mem_cons_of_mem _ (ih h)

/-- Without a blank, the field reaches to the first tab. -/
theorem sizeStr_of_noBlank {field rest : List UInt8} (hblank : 32 ∉ field ++ 9 :: rest)
    (htab : 9 ∉ field) : sizeStr (field ++ 9 :: rest) = field := by
  have hnone : (field ++ 9 :: rest).findIdx? (· == 32) = none := by
    rw [List.findIdx?_eq_none_iff]
    intro b hb
    simp only [beq_eq_false_iff_ne]
    rintro rfl
    exact hblank hb
  have hall : ∀ b ∈ field, (b != 9) = true := by
    intro b hb
    simp only [bne_iff_ne]
    rintro rfl
    exact htab hb
  simp only [sizeStr, hnone, Option.elim_none, List.drop_zero]
  rw [List.takeWhile_append_of_pos hall]
  simp

/-- With a blank, the field is what stands behind the first one, up to the next tab. -/
theorem sizeStr_of_blank {front back : List UInt8} (hfront : 32 ∉ front) :
    sizeStr (front ++ 32 :: back) = back.takeWhile (· != 9) := by
  have hsome : (front ++ 32 :: back).findIdx? (· == 32) = some front.length := by
    rw [List.findIdx?_append, List.findIdx?_eq_none_iff.mpr]
    · simp [List.findIdx?_cons]
    · intro b hb
      simp only [beq_eq_false_iff_ne]
      rintro rfl
      exact hfront hb
  simp [sizeStr, hsome]

/-- A number in front of what is no digit is read. -/
theorem atoi_digits_append (n : Nat) {rest : List UInt8}
    (hrest : ∀ b ∈ rest.head?, isDigit b = false) : atoi (digits n ++ rest) = n := by
  obtain ⟨b, bs, hbs⟩ := List.exists_cons_of_ne_nil (digits_ne_nil n)
  have hdigit : isDigit b = true := isDigit_of_mem_digits (n := n) (by simp [hbs])
  have hcons : digits n ++ rest = b :: (bs ++ rest) := by rw [hbs, List.cons_append]
  rw [hcons, atoi_of_isDigit hdigit, ← hcons,
    readDigits_append fun c hc => isDigit_of_mem_digits hc, readDigits_digits]
  cases rest with
  | nil => rfl
  | cons c rest => simp [readDigits, hrest c rfl]

end Gvds.SpaceUsage
