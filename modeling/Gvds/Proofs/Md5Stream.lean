/-
Module: Gvds.Proofs.Md5Stream
Layer: Proofs
Purpose: A context holds the text it was given, cut into blocks, however the text came in and
  whatever its buffers had in them; so the digest is that of the padded text and of two counts.
Imports: Gvds.Manager.Md5, Gvds.Lib.BlockHash, Gvds.Proofs.SessionTokens,
  Mathlib.Data.Nat.Bitwise
Trusted boundary: as Gvds.Manager.Md5
Main exports: Holds, holds_update, update_i1, textDigest, final_digest, md5_eq, md5_hex,
  digest_of_chunks
-/
import Gvds.Manager.Md5
import Gvds.Lib.BlockHash
import Gvds.Proofs.SessionTokens
import Mathlib.Data.Nat.Bitwise

namespace Gvds.Md5

open BlockHash (absorb absorbItem blocks rest)

/-- What a block does to `buf`. -/
def compress (buf : Buf) (block : List UInt8) : Buf := TransformMD5 buf (wordsOf 16 block)

/-! ### The loop of MD5Update -/

/-- A context in the loop has taken the whole blocks and keeps the rest in `in_`. -/
structure InLoop (s : MD5_CTX × Nat) (a : Buf × List UInt8) : Prop where
  buf : s.1.buf = a.1
  mdi : s.2 = a.2.length
  lt : a.2.length < 64
  held : s.1.in_.take s.2 = a.2
  size : s.1.in_.length = 64

/-- A byte that is set behind the first `k` comes behind them. -/
theorem take_set_succ {α : Type} {bytes : List α} {k : Nat} (h : k < bytes.length) (b : α) :
    (bytes.set k b).take (k + 1) = bytes.take k ++ [b] := by
  have hlength : (bytes.take k ++ [b]).length = k + 1 := by
    rw [List.length_append, List.length_take, List.length_singleton]
    omega
  rw [List.set_eq_take_append_cons_drop, if_pos h, List.append_cons, List.take_append_of_le_length]
  · exact List.take_of_length_le (Nat.le_of_eq hlength)
  · exact Nat.le_of_eq hlength.symm

theorem inLoop_round {s : MD5_CTX × Nat} {a : Buf × List UInt8} (h : InLoop s a) (b : UInt8) :
    InLoop (updateRound s b) (absorbItem 64 compress a b) := by
  have hlt := h.lt
  have hmdi := h.mdi
  have hset : (s.1.in_.set s.2 b).take (s.2 + 1) = a.2 ++ [b] := by
    rw [take_set_succ (by rw [h.size]; omega), h.held]
  have hlength : (a.2 ++ [b]).length = s.2 + 1 := by
    rw [List.length_append, List.length_singleton, hmdi]
  by_cases hfull : s.2 + 1 = 64
  · have hblock : s.1.in_.set s.2 b = a.2 ++ [b] := by
      rw [← hset, List.take_of_length_le]
      rw [List.length_set, h.size, hfull]
    rw [updateRound, if_pos hfull, absorbItem, if_pos (hlength.trans hfull)]
    exact {
      buf := by rw [hblock, h.buf]; rfl
      mdi := rfl
      lt := Nat.zero_lt_succ _
      held := rfl
      size := by rw [List.length_set, h.size] }
  · rw [updateRound, if_neg hfull, absorbItem, if_neg (by rw [hlength]; exact hfull)]
    exact {
      buf := h.buf
      mdi := hlength.symm
      lt := by rw [hlength]; omega
      held := hset
      size := by rw [List.length_set, h.size] }

/-- `buf` has nothing to do with the counts. -/
theorem counts_of_buf (c : MD5_CTX) (buf : Buf) :
    ({ c with buf := buf } : MD5_CTX).i0 = c.i0 ∧ ({ c with buf := buf } : MD5_CTX).i1 = c.i1 :=
  ⟨rfl, rfl⟩

theorem updateRound_counts (s : MD5_CTX × Nat) (b : UInt8) :
    (updateRound s b).1.i0 = s.1.i0 ∧ (updateRound s b).1.i1 = s.1.i1 := by
  by_cases hfull : s.2 + 1 = 64
  · rw [updateRound, if_pos hfull]
    exact counts_of_buf { s.1 with in_ := s.1.in_.set s.2 b } _
  · rw [updateRound, if_neg hfull]
    exact ⟨rfl, rfl⟩

/-- The loop takes the bytes of a text as the abstract hash does, and leaves the counts alone. -/
theorem inLoop_run {s : MD5_CTX × Nat} {a : Buf × List UInt8} (h : InLoop s a)
    (text : List UInt8) :
    InLoop (text.foldl updateRound s) (absorb 64 compress a text) ∧
      (text.foldl updateRound s).1.i0 = s.1.i0 ∧ (text.foldl updateRound s).1.i1 = s.1.i1 := by
  induction text generalizing s a with
  | nil => exact ⟨h, rfl, rfl⟩
  | cons b text ih =>
      obtain ⟨hi0, hi1⟩ := updateRound_counts s b
      obtain ⟨hloop, hrun0, hrun1⟩ := ih (inLoop_round h b)
      exact ⟨hloop, hrun0.trans hi0, hrun1.trans hi1⟩

/-! ### What a context holds -/

/-- A context that was given a text. -/
structure Holds (c : MD5_CTX) (text : List UInt8) : Prop where
  size : c.in_.length = 64
  buf : c.buf = (blocks 64 text).foldl compress magic
  held : c.in_.take (text.length % 64) = rest 64 text
  count : c.i0 = UInt64.ofNat (8 * text.length)

theorem mdi_eq {c : MD5_CTX} {l : Nat} (h : c.i0 = UInt64.ofNat (8 * l)) : mdi c = l % 64 := by
  have hmask : ∀ n : Nat, n &&& 63 = n % 64 := fun n => Nat.and_two_pow_sub_one_eq_mod n 6
  have hbits : (c.i0 >>> 3).toNat = 8 * l % 2 ^ 64 / 8 := by
    rw [h, UInt64.toNat_shiftRight, UInt64.toNat_ofNat', Nat.shiftRight_eq_div_pow]
    rfl
  rw [mdi, UInt64.toNat_and, hbits]
  change 8 * l % 2 ^ 64 / 8 &&& 63 = l % 64
  rw [hmask]
  omega

/-- The context's loop begins with what it holds. -/
theorem Holds.inLoop {c : MD5_CTX} {text : List UInt8} (h : Holds c text) (i0 i1 : UInt64) :
    InLoop ({ c with i0 := i0, i1 := i1 }, mdi c)
      ((blocks 64 text).foldl compress magic, rest 64 text) where
  buf := h.buf
  mdi := by rw [mdi_eq h.count, BlockHash.length_rest]
  lt := by
    rw [BlockHash.length_rest]
    exact Nat.mod_lt _ (by decide)
  held := by
    rw [mdi_eq h.count]
    exact h.held
  size := h.size

theorem toNat_bits {l : Nat} (h : l < 2 ^ 32) :
    ((UInt32.ofNat l).toUInt64 <<< 3).toNat = 8 * l := by
  rw [UInt64.toNat_shiftLeft, UInt32.toNat_toUInt64, UInt32.toNat_ofNat_of_lt' h,
    Nat.shiftLeft_eq]
  change l * 2 ^ 3 % 2 ^ 64 = 8 * l
  omega

theorem holds_init {c : MD5_CTX} (h : c.in_.length = 64) : Holds (MD5Init c) [] where
  size := h
  buf := rfl
  held := rfl
  count := rfl

/-- `MD5Update` adds the bytes it was given to what the context holds. -/
theorem holds_update {c : MD5_CTX} {text inBuf : List UInt8} {n : Nat} (h : Holds c text)
    (hn : n < 2 ^ 32) (hle : n ≤ inBuf.length) :
    Holds (MD5Update c inBuf (UInt32.ofNat n)) (text ++ inBuf.take n) := by
  unfold MD5Update
  rw [UInt32.toNat_ofNat_of_lt' hn]
  obtain ⟨hloop, hi0, _⟩ := inLoop_run (h.inLoop (c.i0 + (UInt32.ofNat n).toUInt64 <<< 3)
    ((if c.i0 + (UInt32.ofNat n).toUInt64 <<< 3 < c.i0 then c.i1 + 1 else c.i1) +
      (UInt32.ofNat n).toUInt64 >>> 29)) (inBuf.take n)
  rw [← BlockHash.absorb_eq (by decide), ← BlockHash.absorb_append,
    BlockHash.absorb_eq (by decide)] at hloop
  have hmdi := hloop.mdi
  rw [BlockHash.length_rest] at hmdi
  exact {
    size := hloop.size
    buf := hloop.buf
    held := by
      rw [← hmdi]
      exact hloop.held
    count := by
      rw [hi0]
      apply UInt64.toNat_inj.mp
      rw [UInt64.toNat_add, toNat_bits hn, h.count, UInt64.toNat_ofNat', UInt64.toNat_ofNat',
        List.length_append, List.length_take, Nat.min_eq_left hle]
      omega }

/-- The test for a carry finds every carry. -/
theorem carry_eq {l n : Nat} (hn : n < 2 ^ 32) :
    8 * (l + n) / 2 ^ 64 =
      8 * l / 2 ^ 64 + if (8 * l % 2 ^ 64 + 8 * n) % 2 ^ 64 < 8 * l % 2 ^ 64 then 1 else 0 := by
  have hsplit := Nat.div_add_mod (8 * l) (2 ^ 64)
  have hlt : 8 * l % 2 ^ 64 < 2 ^ 64 := Nat.mod_lt _ (by decide)
  by_cases hover : 8 * l % 2 ^ 64 + 8 * n < 2 ^ 64
  · rw [Nat.mod_eq_of_lt hover, if_neg (by omega)]
    omega
  · have hmod : (8 * l % 2 ^ 64 + 8 * n) % 2 ^ 64 = 8 * l % 2 ^ 64 + 8 * n - 2 ^ 64 := by
      rw [Nat.mod_eq_sub_mod (by omega), Nat.mod_eq_of_lt (by omega)]
    rw [hmod, if_pos (by omega)]
    omega

/-- `i1` counts the carries of `i0`, and what the high bits of the lengths of the calls make: a word
of 64 bits already has the whole number of bits in `i0`. -/
theorem update_i1 {c : MD5_CTX} {text : List UInt8} {n k : Nat} (inBuf : List UInt8)
    (h : Holds c text) (hi1 : c.i1 = UInt64.ofNat (8 * text.length / 2 ^ 64 + k))
    (hn : n < 2 ^ 32) :
    (MD5Update c inBuf (UInt32.ofNat n)).i1 =
      UInt64.ofNat (8 * (text.length + n) / 2 ^ 64 + (k + n / 2 ^ 29)) := by
  unfold MD5Update
  obtain ⟨_, _, hrun⟩ := inLoop_run (h.inLoop (c.i0 + (UInt32.ofNat n).toUInt64 <<< 3)
    ((if c.i0 + (UInt32.ofNat n).toUInt64 <<< 3 < c.i0 then c.i1 + 1 else c.i1) +
      (UInt32.ofNat n).toUInt64 >>> 29)) (inBuf.take (UInt32.ofNat n).toNat)
  have hhigh : ((UInt32.ofNat n).toUInt64 >>> 29).toNat = n / 2 ^ 29 := by
    rw [UInt64.toNat_shiftRight, UInt32.toNat_toUInt64, UInt32.toNat_ofNat_of_lt' hn,
      Nat.shiftRight_eq_div_pow]
    rfl
  have hcarry : c.i0 + (UInt32.ofNat n).toUInt64 <<< 3 < c.i0 ↔
      (8 * text.length % 2 ^ 64 + 8 * n) % 2 ^ 64 < 8 * text.length % 2 ^ 64 := by
    rw [UInt64.lt_iff_toNat_lt, UInt64.toNat_add, toNat_bits hn, h.count, UInt64.toNat_ofNat']
  rw [hrun, carry_eq hn]
  generalize 8 * text.length / 2 ^ 64 = q at hi1
  apply UInt64.toNat_inj.mp
  by_cases hover : c.i0 + (UInt32.ofNat n).toUInt64 <<< 3 < c.i0
  · have hone : (1 : UInt64).toNat = 1 := rfl
    rw [if_pos hover, if_pos (hcarry.mp hover), UInt64.toNat_add, UInt64.toNat_add, hhigh, hi1,
      UInt64.toNat_ofNat', UInt64.toNat_ofNat', hone]
    omega
  · rw [if_neg hover, if_neg fun hlt => hover (hcarry.mpr hlt), UInt64.toNat_add, hhigh, hi1,
      UInt64.toNat_ofNat', UInt64.toNat_ofNat']
    omega

/-! ### The digest -/

/-- The number of bytes that a text is padded with. -/
def padLen (l : Nat) : Nat := if l % 64 < 56 then 56 - l % 64 else 120 - l % 64

/-- A text with its padding. -/
def padded (text : List UInt8) : List UInt8 := text ++ PADDING.take (padLen text.length)

/-- The digest of a text with two words behind its padding. -/
def textDigest (text : List UInt8) (i0 i1 : UInt64) : List UInt8 :=
  storeBuf (TransformMD5 ((blocks 64 (padded text)).foldl compress magic)
    (wordsOf 14 (rest 64 (padded text)) ++ [i0, i1]))

theorem padLen_bounds (l : Nat) : padLen l ≤ 64 ∧ (l + padLen l) % 64 = 56 := by
  unfold padLen
  split <;> omega

theorem length_padded (text : List UInt8) : (padded text).length % 64 = 56 := by
  obtain ⟨hle, hmod⟩ := padLen_bounds text.length
  have hpadding : PADDING.length = 64 := rfl
  rw [padded, List.length_append, List.length_take, hpadding, Nat.min_eq_left hle]
  exact hmod

/-- Words are made of their bytes only. -/
theorem wordsOf_take {k n : Nat} (h : 4 * k ≤ n) (bytes : List UInt8) :
    wordsOf k (bytes.take n) = wordsOf k bytes := by
  apply List.map_congr_left
  intro i hi
  have hi := List.mem_range.mp hi
  have hget : ∀ j < n, (bytes.take n).getD j 0 = bytes.getD j 0 := by
    intro j hj
    rw [List.getD_eq_getElem?_getD, List.getD_eq_getElem?_getD, List.getElem?_take_of_lt hj]
  rw [wordAt, wordAt, hget _ (by omega), hget _ (by omega), hget _ (by omega), hget _ (by omega)]

/-- `MD5Final` of a context makes the digest of the text it holds. -/
theorem final_digest {c : MD5_CTX} {text : List UInt8} (h : Holds c text) :
    (MD5Final c).digest = textDigest text c.i0 c.i1 := by
  have hpad : (if mdi c < 56 then 56 - mdi c else 120 - mdi c) = padLen text.length := by
    rw [mdi_eq h.count]
    rfl
  obtain ⟨hle, _⟩ := padLen_bounds text.length
  have hpadded : Holds (MD5Update c PADDING (UInt32.ofNat (padLen text.length))) (padded text) :=
    holds_update h (Nat.lt_of_le_of_lt hle (by decide)) hle
  have hwords : wordsOf 14 (MD5Update c PADDING (UInt32.ofNat (padLen text.length))).in_ =
      wordsOf 14 (rest 64 (padded text)) := by
    rw [← hpadded.held, length_padded]
    exact (wordsOf_take (by decide) _).symm
  unfold MD5Final
  rw [hpad]
  change storeBuf (TransformMD5 (MD5Update c PADDING (UInt32.ofNat (padLen text.length))).buf _) = _
  rw [hwords, hpadded.buf]
  rfl

/-! ### Texts that come in chunks -/

/-- A text is given in chunks, each with its own call. -/
def updates (c : MD5_CTX) (chunks : List (List UInt8)) : MD5_CTX :=
  chunks.foldl (fun c chunk => MD5Update c chunk (UInt32.ofNat chunk.length)) c

/-- What the lengths of the chunks add to `i1`. -/
def highBits (chunks : List (List UInt8)) : Nat :=
  (chunks.map fun chunk => chunk.length / 2 ^ 29).sum

theorem holds_updates {c : MD5_CTX} {text : List UInt8} {k : Nat} (h : Holds c text)
    (hi1 : c.i1 = UInt64.ofNat (8 * text.length / 2 ^ 64 + k)) {chunks : List (List UInt8)}
    (hchunks : ∀ chunk ∈ chunks, chunk.length < 2 ^ 32) :
    Holds (updates c chunks) (text ++ chunks.flatten) ∧
      (updates c chunks).i1 =
        UInt64.ofNat (8 * (text ++ chunks.flatten).length / 2 ^ 64 + (k + highBits chunks)) := by
  induction chunks generalizing c text k with
  | nil => simpa [updates, highBits] using And.intro h hi1
  | cons chunk chunks ih =>
      have hlength := hchunks chunk List.mem_cons_self
      have hnext := holds_update h hlength (Nat.le_refl _)
      have hi1' := update_i1 chunk h hi1 hlength
      rw [List.take_length] at hnext
      rw [← List.length_append] at hi1'
      obtain ⟨hrun, hrun1⟩ := ih hnext hi1' fun other hother =>
        hchunks other (List.mem_cons_of_mem _ hother)
      rw [List.append_assoc] at hrun hrun1
      refine ⟨hrun, ?_⟩
      rw [highBits, List.map_cons, List.sum_cons, ← highBits, ← Nat.add_assoc k]
      exact hrun1

/-- `md5` prints the digest of the whole text. -/
theorem md5_eq {c : MD5_CTX} (hsize : c.in_.length = 64) {strPlain : List UInt8}
    (hlength : strPlain.length < 2 ^ 32) :
    md5 c strPlain = (textDigest strPlain (UInt64.ofNat (8 * strPlain.length))
      (UInt64.ofNat (8 * strPlain.length / 2 ^ 64 + strPlain.length / 2 ^ 29))).flatMap hexByte := by
  have hholds := holds_update (holds_init hsize) hlength (Nat.le_refl strPlain.length)
  have hi1 := update_i1 (k := 0) strPlain (holds_init hsize) rfl hlength
  rw [List.take_length, List.nil_append] at hholds
  rw [List.length_nil, Nat.zero_add, Nat.zero_add] at hi1
  rw [md5, final_digest hholds, hholds.count, hi1]

theorem hexDigit_spec {n : UInt8} (h : n < 16) : UserModel.HexDigit (hexDigit n) := by
  unfold hexDigit UserModel.HexDigit
  split
  · left
    constructor <;> grind
  · right
    constructor <;> grind

/-- `md5` writes 32 digits, whatever its text. -/
theorem md5_hex (c : MD5_CTX) (strPlain : List UInt8) :
    (md5 c strPlain).length = 32 ∧ ∀ b ∈ md5 c strPlain, UserModel.HexDigit b := by
  obtain ⟨buf, hbuf⟩ : ∃ buf, (MD5Final (MD5Update (MD5Init c) strPlain
      (UInt32.ofNat strPlain.length))).digest = storeBuf buf := ⟨_, rfl⟩
  rw [md5, hbuf]
  refine ⟨rfl, fun b hb => ?_⟩
  obtain ⟨byte, _, hdigit⟩ := List.mem_flatMap.mp hb
  have hhigh : byte / 16 < 16 := by
    rw [UInt8.lt_iff_toNat_lt, UInt8.toNat_div]
    have hbyte := byte.toNat_lt
    change byte.toNat / 16 < 16
    omega
  have hlow : byte % 16 < 16 := by
    rw [UInt8.lt_iff_toNat_lt, UInt8.toNat_mod]
    exact Nat.mod_lt _ (by decide)
  rcases List.mem_cons.mp hdigit with rfl | hdigit
  · exact hexDigit_spec hhigh
  · rw [List.mem_singleton.mp hdigit]
    exact hexDigit_spec hlow

/-- The digest does not depend on what was in the context's buffers, and on the chunks only through
the text they make up and the high bits of their lengths. -/
theorem digest_of_chunks {c : MD5_CTX} (hsize : c.in_.length = 64) {chunks : List (List UInt8)}
    (hchunks : ∀ chunk ∈ chunks, chunk.length < 2 ^ 32) :
    (MD5Final (updates (MD5Init c) chunks)).digest =
      textDigest chunks.flatten (UInt64.ofNat (8 * chunks.flatten.length))
        (UInt64.ofNat (8 * chunks.flatten.length / 2 ^ 64 + highBits chunks)) := by
  obtain ⟨hholds, hi1⟩ := holds_updates (k := 0) (holds_init hsize) rfl hchunks
  rw [List.nil_append] at hholds hi1
  rw [Nat.zero_add] at hi1
  rw [final_digest hholds, hholds.count, hi1]

/-- A context with zeros in its buffer. -/
def zeroContext : MD5_CTX := ⟨0, 0, magic, List.replicate 64 0, []⟩

theorem digest_of_two_chunks :
    (MD5Final (updates (MD5Init zeroContext) [[97], [98, 99]])).digest =
      textDigest [97, 98, 99] 24 0 :=
  @digest_of_chunks zeroContext rfl [[97], [98, 99]] (by decide)

end Gvds.Md5
