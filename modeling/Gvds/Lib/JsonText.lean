/-
Module: Gvds.Lib.JsonText
Layer: Lib
Purpose: JSON texts without white space: a writer's strings, integers, arrays and objects, a parser
  by recursive descent, and rules for which value the parser reads in a text.
Imports: Gvds.Lib.DecimalText
Trusted boundary: numbers are integers, and a `\u` escape is read for ASCII characters only
Main exports: JsonText.Json, JsonText.quote, JsonText.integer, JsonText.array, JsonText.object,
  JsonText.parse, JsonText.Reads, JsonText.Reads.parse_eq
-/
import Gvds.Lib.DecimalText

namespace JsonText

open DecimalText (digits isDigit readDigits)

/-- JSON values. Numbers are integers. -/
inductive Json where
  | null
  | bool (b : Bool)
  | int (n : Int)
  | str (s : List UInt8)
  | arr (values : List Json)
  | obj (members : List (List UInt8 × Json))

/-! ### The writer -/

/-- A hexadecimal digit. -/
def hexDigit (n : Nat) : UInt8 := if n < 10 then UInt8.ofNat (48 + n) else UInt8.ofNat (55 + n)

/-- A character in a string: quotation marks, backslashes and control characters are escaped. -/
def escape (b : UInt8) : List UInt8 :=
  match b with
  | 34 => [92, 34]
  | 92 => [92, 92]
  | 8 => [92, 98]
  | 12 => [92, 102]
  | 10 => [92, 110]
  | 13 => [92, 114]
  | 9 => [92, 116]
  | b => if b < 32 then [92, 117, 48, 48, hexDigit (b.toNat / 16), hexDigit (b.toNat % 16)] else [b]

/-- A string. -/
def quote (s : List UInt8) : List UInt8 := 34 :: s.flatMap escape ++ [34]

/-- A number. -/
def integer (n : Int) : List UInt8 :=
  if n < 0 then 45 :: digits n.natAbs else digits n.natAbs

/-- A truth value. -/
def boolean (b : Bool) : List UInt8 :=
  if b then [116, 114, 117, 101] else [102, 97, 108, 115, 101]

/-- Texts with commas between them. -/
def commaSeparated : List (List UInt8) → List UInt8
  | [] => []
  | [text] => text
  | text :: more => text ++ 44 :: commaSeparated more

/-- An array, of the texts of its values. -/
def array (values : List (List UInt8)) : List UInt8 := 91 :: commaSeparated values ++ [93]

/-- A member of an object. -/
def member (key value : List UInt8) : List UInt8 := quote key ++ 58 :: value

/-- An object, of its keys and the texts of its values. -/
def object (members : List (List UInt8 × List UInt8)) : List UInt8 :=
  123 :: commaSeparated (members.map fun m => member m.1 m.2) ++ [125]

/-! ### The parser -/

/-- The value of a hexadecimal digit. -/
def hexValue (b : UInt8) : Option Nat :=
  if isDigit b then some (b.toNat - 48)
  else if 65 ≤ b && b ≤ 70 then some (b.toNat - 55)
  else if 97 ≤ b && b ≤ 102 then some (b.toNat - 87)
  else none

/-- What a letter after a backslash stands for. -/
def unescape (b : UInt8) : Option UInt8 :=
  match b with
  | 34 => some 34
  | 92 => some 92
  | 47 => some 47
  | 98 => some 8
  | 102 => some 12
  | 110 => some 10
  | 114 => some 13
  | 116 => some 9
  | _ => none

/-- The character with a code of two hexadecimal digits, if it is an ASCII one. -/
def asciiOf (high low : UInt8) : Option UInt8 :=
  match hexValue high, hexValue low with
  | some h, some l => if h < 8 then some (UInt8.ofNat (16 * h + l)) else none
  | _, _ => none

/-- The first character of what is left of a string. -/
def readChar : List UInt8 → Option (UInt8 × List UInt8)
  | [] => none
  | b :: rest =>
      if b = 92 then
        match rest with
        | 117 :: 48 :: 48 :: high :: low :: rest => (asciiOf high low).map fun c => (c, rest)
        | c :: rest => (unescape c).map fun c => (c, rest)
        | [] => none
      else if b = 34 ∨ b < 32 then none
      else some (b, rest)

/-- What is left of a string, behind its first quotation mark. -/
def parseString : Nat → List UInt8 → Option (List UInt8 × List UInt8)
  | 0, _ => none
  | fuel + 1, text =>
      match text with
      | 34 :: rest => some ([], rest)
      | _ => do
          let (b, rest) ← readChar text
          let (s, rest) ← parseString fuel rest
          some (b :: s, rest)

/-- The digits of a number. -/
def parseDigits (text : List UInt8) : Option (Nat × List UInt8) :=
  if (text.head?.map isDigit).getD false then
    some (readDigits 0 text, text.dropWhile isDigit)
  else none

mutual

/-- A value at the beginning of a text, and what is behind it. -/
def parseValue : Nat → List UInt8 → Option (Json × List UInt8)
  | 0, _ => none
  | fuel + 1, text =>
      match text with
      | 110 :: 117 :: 108 :: 108 :: rest => some (.null, rest)
      | 116 :: 114 :: 117 :: 101 :: rest => some (.bool true, rest)
      | 102 :: 97 :: 108 :: 115 :: 101 :: rest => some (.bool false, rest)
      | 34 :: rest => do
          let (s, rest) ← parseString fuel rest
          some (.str s, rest)
      | 91 :: 93 :: rest => some (.arr [], rest)
      | 91 :: rest => do
          let (values, rest) ← parseValues fuel rest
          some (.arr values, rest)
      | 123 :: 125 :: rest => some (.obj [], rest)
      | 123 :: rest => do
          let (members, rest) ← parseMembers fuel rest
          some (.obj members, rest)
      | 45 :: rest => do
          let (n, rest) ← parseDigits rest
          some (.int (-n), rest)
      | _ => do
          let (n, rest) ← parseDigits text
          some (.int n, rest)

/-- The values of an array up to its end. -/
def parseValues : Nat → List UInt8 → Option (List Json × List UInt8)
  | 0, _ => none
  | fuel + 1, text => do
      let (value, rest) ← parseValue fuel text
      match rest with
      | 93 :: rest => some ([value], rest)
      | 44 :: rest => do
          let (values, rest) ← parseValues fuel rest
          some (value :: values, rest)
      | _ => none

/-- The members of an object up to its end. -/
def parseMembers : Nat → List UInt8 → Option (List (List UInt8 × Json) × List UInt8)
  | 0, _ => none
  | fuel + 1, text =>
      match text with
      | 34 :: rest => do
          let (key, rest) ← parseString fuel rest
          match rest with
          | 58 :: rest => do
              let (value, rest) ← parseValue fuel rest
              match rest with
              | 125 :: rest => some ([(key, value)], rest)
              | 44 :: rest => do
                  let (members, rest) ← parseMembers fuel rest
                  some ((key, value) :: members, rest)
              | _ => none
          | _ => none
      | _ => none

end

/-- The value of a whole text. -/
def parse (text : List UInt8) : Option Json :=
  match parseValue text.length text with
  | some (j, []) => some j
  | _ => none

/-! ### Strings -/

theorem hexValue_hexDigit {n : Nat} (h : n < 16) : hexValue (hexDigit n) = some n := by
  have hall : ∀ n < 16, hexValue (hexDigit n) = some n := by decide
  exact hall n h

theorem hexDigit_ne_zero {n : Nat} (h : n < 16) : hexDigit n ≠ 0 := by
  have hall : ∀ n < 16, hexDigit n ≠ 0 := by decide
  exact hall n h

/-- A character is read back. -/
theorem readChar_escape (b : UInt8) (rest : List UInt8) :
    readChar (escape b ++ rest) = some (b, rest) := by
  unfold escape
  split
  iterate 7 rfl
  case _ hquote hbackslash _ _ _ _ _ =>
    split
    case isTrue hcontrol =>
      have hlt : b.toNat < 32 := UInt8.lt_iff_toNat_lt.mp hcontrol
      have hvalue : asciiOf (hexDigit (b.toNat / 16)) (hexDigit (b.toNat % 16)) = some b := by
        have hcode : 16 * (b.toNat / 16) + b.toNat % 16 = b.toNat := Nat.div_add_mod b.toNat 16
        rw [asciiOf, hexValue_hexDigit (by omega), hexValue_hexDigit (by omega)]
        simp only [hcode, UInt8.ofNat_toNat]
        exact if_pos (by omega)
      change (asciiOf _ _).map _ = _
      rw [hvalue]
      rfl
    case isFalse hcontrol =>
      rw [List.singleton_append]
      unfold readChar
      dsimp only
      rw [if_neg hbackslash, if_neg fun h => h.elim hquote hcontrol]

theorem zero_notMem_escape (b : UInt8) : 0 ∉ escape b := by
  unfold escape
  split
  iterate 7 decide
  split
  case isTrue hcontrol =>
    have hlt : b.toNat < 32 := UInt8.lt_iff_toNat_lt.mp hcontrol
    have hhigh := hexDigit_ne_zero (n := b.toNat / 16) (by omega)
    have hlow := hexDigit_ne_zero (n := b.toNat % 16) (by omega)
    simp [hhigh.symm, hlow.symm]
  case isFalse hcontrol =>
    intro hmem
    rw [← List.mem_singleton.mp hmem] at hcontrol
    exact hcontrol (by decide)

theorem parseString_of_readChar {text rest : List UInt8} {b : UInt8}
    (h : readChar text = some (b, rest)) (fuel : Nat) :
    parseString (fuel + 1) text = (parseString fuel rest).map fun p => (b :: p.1, p.2) := by
  have hquote : ∀ more, text = 34 :: more → False := by
    rintro more rfl
    cases h
  rw [parseString, h, Option.map_eq_bind]
  · rfl
  · exact hquote

/-- A string is read back. By induction on the string. -/
theorem parseString_quoted (s rest : List UInt8) (fuel : Nat) (hfuel : s.length < fuel) :
    parseString fuel (s.flatMap escape ++ 34 :: rest) = some (s, rest) := by
  induction s generalizing fuel with
  | nil =>
      obtain ⟨fuel, rfl⟩ := Nat.exists_eq_succ_of_ne_zero (Nat.ne_zero_of_lt hfuel)
      rfl
  | cons b s ih =>
      obtain ⟨fuel, rfl⟩ := Nat.exists_eq_succ_of_ne_zero (Nat.ne_zero_of_lt hfuel)
      rw [List.flatMap_cons, List.append_assoc, parseString_of_readChar (readChar_escape b _),
        ih fuel (Nat.lt_of_succ_lt_succ hfuel), Option.map_some]

theorem length_le_flatMap_escape (s : List UInt8) : s.length ≤ (s.flatMap escape).length := by
  induction s with
  | nil => exact Nat.le_refl 0
  | cons b s ih =>
      have hpos : escape b ≠ [] := fun h => by
        have hread := readChar_escape b []
        rw [h] at hread
        cases hread
      have hlen := List.length_pos_iff.mpr hpos
      rw [List.flatMap_cons, List.length_append, List.length_cons]
      omega

/-! ### Values -/

/-- A text does not begin with a digit. -/
def NoDigit (rest : List UInt8) : Prop := ∀ b ∈ rest.head?, isDigit b = false

theorem noDigit_cons {b : UInt8} (h : isDigit b = false) (rest : List UInt8) :
    NoDigit (b :: rest) := by
  intro c hc
  cases hc
  exact h

/-- A text without null bytes in which the parser reads a value, whatever is behind it, with as much
fuel as the text is long. -/
structure Reads (text : List UInt8) (j : Json) : Prop where
  noNull : 0 ∉ text
  parses : ∀ fuel, text.length ≤ fuel → ∀ rest, NoDigit rest →
    parseValue fuel (text ++ rest) = some (j, rest)

/-- The parser reads the value in the text alone. -/
theorem Reads.parse_eq {text : List UInt8} {j : Json} (h : Reads text j) : parse text = some j := by
  have hall := h.parses text.length (Nat.le_refl _) [] fun b hb => by cases hb
  rw [List.append_nil] at hall
  rw [parse, hall]

theorem reads_boolean (b : Bool) : Reads (boolean b) (.bool b) := by
  constructor
  · cases b <;> decide
  · intro fuel hfuel rest _
    have hpos : fuel ≠ 0 := by
      rintro rfl
      cases b <;> cases hfuel
    obtain ⟨fuel, rfl⟩ := Nat.exists_eq_succ_of_ne_zero hpos
    cases b <;> rfl

theorem zero_notMem_quote (s : List UInt8) : 0 ∉ quote s := by
  intro hmem
  rcases List.mem_append.mp hmem with hmem | hmem
  · rcases List.mem_cons.mp hmem with heq | hmem
    · cases heq
    · obtain ⟨b, -, hb⟩ := List.mem_flatMap.mp hmem
      exact zero_notMem_escape b hb
  · cases List.mem_singleton.mp hmem

theorem reads_quote (s : List UInt8) : Reads (quote s) (.str s) := by
  constructor
  · exact zero_notMem_quote s
  · intro fuel hfuel rest _
    have hlen := length_le_flatMap_escape s
    simp only [quote, List.length_append, List.length_cons, List.length_nil] at hfuel
    obtain ⟨fuel, rfl⟩ := Nat.exists_eq_succ_of_ne_zero (by omega : fuel ≠ 0)
    have hread := parseString_quoted s rest fuel (by omega)
    rw [quote, List.append_assoc, List.cons_append, List.singleton_append, parseValue, hread]
    rfl

theorem parseDigits_digits (n : Nat) {rest : List UInt8} (h : NoDigit rest) :
    parseDigits (digits n ++ rest) = some (n, rest) := by
  have hall : ∀ b ∈ digits n, isDigit b = true := fun b => DecimalText.isDigit_of_mem_digits
  have hhead : (((digits n ++ rest).head?).map isDigit).getD false = true := by
    obtain ⟨d, ds, hds⟩ := List.exists_cons_of_ne_nil (DecimalText.digits_ne_nil n)
    rw [hds]
    exact hall d (hds ▸ List.mem_cons_self)
  have hvalue : readDigits 0 (digits n ++ rest) = n := by
    rw [DecimalText.readDigits_append hall, DecimalText.readDigits_digits]
    cases rest with
    | nil => rfl
    | cons b rest => simp [readDigits, h b rfl]
  have hrest : (digits n ++ rest).dropWhile isDigit = rest := by
    rw [List.dropWhile_append_of_pos hall]
    cases rest with
    | nil => rfl
    | cons b rest => exact List.dropWhile_cons_of_neg (by simp [h b rfl])
  rw [parseDigits, if_pos hhead, hvalue, hrest]

theorem parseValue_of_isDigit {d : UInt8} (h : isDigit d = true) (fuel : Nat) (ds : List UInt8) :
    parseValue (fuel + 1) (d :: ds) = (parseDigits (d :: ds)).map fun p => (.int p.1, p.2) := by
  rw [parseValue]
  · rw [Option.map_eq_bind]
    rfl
  all_goals
    intro rest heq
    cases heq
    exact absurd h (by decide)

theorem reads_integer (n : Int) : Reads (integer n) (.int n) := by
  have hall : ∀ b ∈ digits n.natAbs, isDigit b = true := fun b => DecimalText.isDigit_of_mem_digits
  constructor
  · intro hmem
    unfold integer at hmem
    split at hmem
    · rcases List.mem_cons.mp hmem with heq | hmem
      · cases heq
      · cases hall 0 hmem
    · cases hall 0 hmem
  · intro fuel hfuel rest hrest
    have hread := parseDigits_digits n.natAbs hrest
    obtain ⟨d, ds, hds⟩ := List.exists_cons_of_ne_nil (DecimalText.digits_ne_nil n.natAbs)
    unfold integer at hfuel ⊢
    split at hfuel
    case isTrue hneg =>
      obtain ⟨fuel, rfl⟩ := Nat.exists_eq_succ_of_ne_zero (Nat.ne_zero_of_lt hfuel)
      rw [if_pos hneg, List.cons_append, parseValue, hread]
      change some (Json.int (-n.natAbs), rest) = _
      rw [Int.ofNat_natAbs_of_nonpos (by omega), Int.neg_neg]
    case isFalse hnonneg =>
      rw [hds] at hfuel
      obtain ⟨fuel, rfl⟩ := Nat.exists_eq_succ_of_ne_zero (Nat.ne_zero_of_lt hfuel)
      rw [hds, List.cons_append] at hread
      rw [if_neg hnonneg, hds, List.cons_append,
        parseValue_of_isDigit (hall d (hds ▸ List.mem_cons_self)), hread, Option.map_some,
        Int.natAbs_of_nonneg (by omega)]

/-! ### Arrays and objects -/

theorem zero_notMem_commaSeparated {texts : List (List UInt8)} (h : ∀ text ∈ texts, 0 ∉ text) :
    0 ∉ commaSeparated texts := by
  induction texts with
  | nil => exact List.not_mem_nil
  | cons text more ih =>
      have hmore := ih fun text' htext' => h text' (List.mem_cons_of_mem _ htext')
      cases more with
      | nil => exact h text List.mem_cons_self
      | cons text' more =>
          intro hmem
          rcases List.mem_append.mp hmem with hmem | hmem
          · exact h text List.mem_cons_self hmem
          · rcases List.mem_cons.mp hmem with heq | hmem
            · cases heq
            · exact hmore hmem

theorem parseValues_last {fuel : Nat} {text rest : List UInt8} {value : Json}
    (h : parseValue fuel text = some (value, 93 :: rest)) :
    parseValues (fuel + 1) text = some ([value], rest) := by
  rw [parseValues, h]
  rfl

theorem parseValues_cons {fuel : Nat} {text rest rest' : List UInt8} {value : Json}
    {values : List Json} (h : parseValue fuel text = some (value, 44 :: rest))
    (hmore : parseValues fuel rest = some (values, rest')) :
    parseValues (fuel + 1) text = some (value :: values, rest') := by
  rw [parseValues, h]
  change (parseValues fuel rest).bind _ = _
  rw [hmore]
  rfl

/-- The values of an array are read one by one. By induction on them. -/
theorem parseValues_commaSeparated {l : List (List UInt8 × Json)} (hne : l ≠ [])
    (h : ∀ e ∈ l, Reads e.1 e.2) (fuel : Nat)
    (hfuel : (commaSeparated (l.map Prod.fst)).length < fuel) (rest : List UInt8) :
    parseValues fuel (commaSeparated (l.map Prod.fst) ++ 93 :: rest) =
      some (l.map Prod.snd, rest) := by
  induction l generalizing fuel with
  | nil => exact absurd rfl hne
  | cons e l ih =>
      obtain ⟨fuel, rfl⟩ := Nat.exists_eq_succ_of_ne_zero (Nat.ne_zero_of_lt hfuel)
      have hhead := (h e List.mem_cons_self).parses
      cases l with
      | nil =>
          exact parseValues_last
            (hhead fuel (Nat.le_of_lt_succ hfuel) _ (noDigit_cons rfl rest))
      | cons e' l =>
          simp only [List.map_cons, commaSeparated, List.length_append, List.length_cons] at hfuel
          have hmore := ih (List.cons_ne_nil e' l) (fun e he => h e (List.mem_cons_of_mem _ he))
            fuel (by simp only [List.map_cons]; omega)
          simp only [List.map_cons, commaSeparated, List.append_assoc, List.cons_append]
          exact parseValues_cons (hhead fuel (by omega) _ (noDigit_cons rfl _)) hmore

/-- A bracket is followed by the values of an array, which do not begin with its end. -/
theorem parseValue_of_parseValues {fuel : Nat} {text rest : List UInt8} {values : List Json}
    (h : parseValues fuel text = some (values, rest)) :
    parseValue (fuel + 1) (91 :: text) = some (.arr values, rest) := by
  have hend : ∀ more, text = 93 :: more → False := by
    rintro more rfl
    cases fuel with
    | zero => cases h
    | succ fuel => cases fuel <;> cases h
  rw [parseValue, h]
  · rfl
  · exact hend

/-- An array of values that are read is read. -/
theorem reads_array (l : List (List UInt8 × Json)) (h : ∀ e ∈ l, Reads e.1 e.2) :
    Reads (array (l.map Prod.fst)) (.arr (l.map Prod.snd)) := by
  constructor
  · have hnull : 0 ∉ commaSeparated (l.map Prod.fst) := by
      refine zero_notMem_commaSeparated fun text htext => ?_
      obtain ⟨e, he, rfl⟩ := List.mem_map.mp htext
      exact (h e he).noNull
    simp [array, hnull]
  · intro fuel hfuel rest _
    simp only [array, List.length_append, List.length_cons, List.length_nil] at hfuel
    obtain ⟨fuel, rfl⟩ := Nat.exists_eq_succ_of_ne_zero (by omega : fuel ≠ 0)
    rw [array, List.cons_append, List.cons_append, List.append_assoc, List.singleton_append]
    by_cases hne : l = []
    · rw [hne]
      rfl
    · exact parseValue_of_parseValues (parseValues_commaSeparated hne h fuel (by omega) rest)

theorem parseMembers_last {fuel : Nat} {text rest rest' : List UInt8} {key : List UInt8}
    {value : Json} (hkey : parseString fuel text = some (key, 58 :: rest))
    (h : parseValue fuel rest = some (value, 125 :: rest')) :
    parseMembers (fuel + 1) (34 :: text) = some ([(key, value)], rest') := by
  rw [parseMembers, hkey]
  change (parseValue fuel rest).bind _ = _
  rw [h]
  rfl

theorem parseMembers_cons {fuel : Nat} {text rest rest' rest'' : List UInt8} {key : List UInt8}
    {value : Json} {members : List (List UInt8 × Json)}
    (hkey : parseString fuel text = some (key, 58 :: rest))
    (h : parseValue fuel rest = some (value, 44 :: rest'))
    (hmore : parseMembers fuel rest' = some (members, rest'')) :
    parseMembers (fuel + 1) (34 :: text) = some ((key, value) :: members, rest'') := by
  rw [parseMembers, hkey]
  change (parseValue fuel rest).bind _ = _
  rw [h]
  change (parseMembers fuel rest').bind _ = _
  rw [hmore]
  rfl

theorem member_append (key value rest : List UInt8) : member key value ++ rest =
    34 :: (key.flatMap escape ++ 34 :: 58 :: (value ++ rest)) := by
  simp [member, quote]

theorem length_member (key value : List UInt8) :
    (member key value).length = (key.flatMap escape).length + value.length + 3 := by
  simp only [member, quote, List.length_append, List.length_cons, List.length_nil]
  omega

/-- The texts of members. -/
def memberTexts (l : List (List UInt8 × List UInt8 × Json)) : List (List UInt8) :=
  l.map fun e => member e.1 e.2.1

/-- The members of an object are read one by one. By induction on them. -/
theorem parseMembers_commaSeparated {l : List (List UInt8 × List UInt8 × Json)} (hne : l ≠ [])
    (h : ∀ e ∈ l, Reads e.2.1 e.2.2) (fuel : Nat)
    (hfuel : (commaSeparated (memberTexts l)).length < fuel) (rest : List UInt8) :
    parseMembers fuel (commaSeparated (memberTexts l) ++ 125 :: rest) =
      some (l.map fun e => (e.1, e.2.2), rest) := by
  induction l generalizing fuel with
  | nil => exact absurd rfl hne
  | cons e l ih =>
      obtain ⟨fuel, rfl⟩ := Nat.exists_eq_succ_of_ne_zero (Nat.ne_zero_of_lt hfuel)
      obtain ⟨key, text, value⟩ := e
      have hhead : ∀ fuel, text.length ≤ fuel → ∀ rest, NoDigit rest →
          parseValue fuel (text ++ rest) = some (value, rest) := (h _ List.mem_cons_self).parses
      have hkey := fun more => parseString_quoted key (58 :: more) fuel
      have hlen := length_le_flatMap_escape key
      cases l with
      | nil =>
          simp only [memberTexts, List.map_cons, List.map_nil, commaSeparated] at hfuel ⊢
          rw [length_member] at hfuel
          rw [member_append]
          exact parseMembers_last (hkey _ (by omega))
            (hhead fuel (by omega) _ (noDigit_cons rfl rest))
      | cons e' l =>
          have hmore := ih (List.cons_ne_nil e' l) (fun e he => h e (List.mem_cons_of_mem _ he))
            fuel
          simp only [memberTexts, List.map_cons, commaSeparated] at hfuel hmore ⊢
          rw [List.length_append, List.length_cons, length_member] at hfuel
          rw [List.append_assoc, member_append, List.cons_append]
          exact parseMembers_cons (hkey _ (by omega))
            (hhead fuel (by omega) _ (noDigit_cons rfl _)) (hmore (by omega))

/-- A brace is followed by the members of an object, which do not begin with its end. -/
theorem parseValue_of_parseMembers {fuel : Nat} {text rest : List UInt8}
    {members : List (List UInt8 × Json)} (h : parseMembers fuel text = some (members, rest)) :
    parseValue (fuel + 1) (123 :: text) = some (.obj members, rest) := by
  have hend : ∀ more, text = 125 :: more → False := by
    rintro more rfl
    cases fuel <;> cases h
  rw [parseValue, h]
  · rfl
  · exact hend

/-- An object whose values are read is read. -/
theorem reads_object (l : List (List UInt8 × List UInt8 × Json))
    (h : ∀ e ∈ l, Reads e.2.1 e.2.2) :
    Reads (object (l.map fun e => (e.1, e.2.1))) (.obj (l.map fun e => (e.1, e.2.2))) := by
  have htexts : object (l.map fun e => (e.1, e.2.1)) =
      123 :: commaSeparated (memberTexts l) ++ [125] := by
    rw [object, List.map_map]
    rfl
  rw [htexts]
  constructor
  · have hnull : 0 ∉ commaSeparated (memberTexts l) := by
      refine zero_notMem_commaSeparated fun text htext => ?_
      obtain ⟨e, he, rfl⟩ := List.mem_map.mp htext
      simp [member, zero_notMem_quote, (h e he).noNull]
    simp [hnull]
  · intro fuel hfuel rest _
    simp only [List.length_append, List.length_cons, List.length_nil] at hfuel
    obtain ⟨fuel, rfl⟩ := Nat.exists_eq_succ_of_ne_zero (by omega : fuel ≠ 0)
    rw [List.cons_append, List.cons_append, List.append_assoc, List.singleton_append]
    by_cases hne : l = []
    · rw [hne]
      rfl
    · exact parseValue_of_parseMembers (parseMembers_commaSeparated hne h fuel (by omega) rest)

end JsonText
