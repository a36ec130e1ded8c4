/-
Module: Gvds.Proofs.IpcFraming
Layer: Proofs
Purpose: The session's loop is a frame reader whose headers are four characters of decimal text, so
  a stream of messages is read back exactly when every length has at most four digits.
Imports: Gvds.Lib.FrameReader, Gvds.Common.Ipc, Mathlib.Data.List.TakeWhile
Trusted boundary: none
Main exports: IPCMessage.announced_headerOf, IPCSession.frames_arrive,
  IPCSession.stream_read_back
-/
import Gvds.Lib.FrameReader
import Gvds.Common.Ipc
import Mathlib.Data.List.TakeWhile

namespace Gvds

namespace IPCMessage

/-! ### Messages -/

/-- The length that four received bytes announce, unless the header is rejected. -/
def announced (header : List UInt8) : Option Nat :=
  let decoded := { new with header := header }.decode_header
  if decoded.1 then some decoded.2.body_length_ else none

/-- The header of a message with a body of `n` bytes. -/
def headerOf (n : Nat) : List UInt8 := (DecimalText.padded 4 n).take header_length

theorem length_headerOf (n : Nat) : (headerOf n).length = header_length := by
  rw [headerOf, List.length_take]
  exact Nat.min_eq_left (DecimalText.le_length_padded 4 n)

/-- Decoding does not depend on what the message held before. -/
theorem decode_header_eq (m : IPCMessage) (header : List UInt8) :
    { m with header := header }.decode_header =
      ((announced header).isSome,
        { m with header := header, body_length_ := (announced header).getD 0 }) := by
  unfold announced decode_header
  dsimp only
  split <;> rfl

/-- A header announces the number that its text shows, when that is not negative and not beyond the
bound. -/
theorem announced_eq_some {header : List UInt8} {n : Nat} :
    announced header = some n ↔
      (DecimalText.atoi (header.takeWhile (· != 0)) % 2 ^ 64).toNat = n ∧ n ≤ max_body_length := by
  unfold announced decode_header
  dsimp only
  split
  · next hbig =>
      simp only [Bool.false_eq_true, if_false, reduceCtorEq, false_iff, not_and]
      rintro rfl
      omega
  · next hsmall =>
      simp only [if_true, Option.some.injEq]
      constructor
      · rintro rfl
        exact ⟨rfl, by omega⟩
      · exact fun h => h.1

/-- No byte of a printed number is NUL. -/
theorem takeWhile_headerOf (n : Nat) : (headerOf n).takeWhile (· != 0) = headerOf n := by
  refine List.takeWhile_eq_self_iff.mpr fun b hb => ?_
  rcases DecimalText.mem_padded (List.mem_of_mem_take hb) with rfl | hdigit
  · decide
  · refine bne_iff_ne.mpr ?_
    rintro rfl
    exact absurd hdigit (by decide)

/-- The header announces the length of its own body exactly when that has at most four digits. -/
theorem announced_headerOf {n : Nat} (hmax : n ≤ max_body_length) :
    announced (headerOf n) = some n ↔ n < 10000 := by
  rw [announced_eq_some, takeWhile_headerOf]
  constructor
  · rintro ⟨hvalue, -⟩
    have hfour : (DecimalText.atoi (headerOf n)).natAbs < 10 ^ (headerOf n).length :=
      DecimalText.natAbs_atoi_lt (headerOf n)
    have hten : 10 ^ (headerOf n).length = 10000 := by
      rw [length_headerOf]
      decide
    have hbound : max_body_length = 1048576 := rfl
    -- a negative number would have been announced as more than the bound
    omega
  · intro hsmall
    have hdigits : (DecimalText.digits n).length ≤ 4 :=
      (DecimalText.length_digits_le_iff (by decide)).mpr hsmall
    have hwhole : headerOf n = DecimalText.padded 4 n :=
      List.take_of_length_le (DecimalText.length_padded hdigits).le
    rw [hwhole, DecimalText.atoi_padded]
    exact ⟨by omega, hmax⟩

/-- `strlen` of a string without NUL. -/
theorem strlen_eq_length {str : List UInt8} (hnul : 0 ∉ str) : strlen str = str.length := by
  have hall : str.takeWhile (· != 0) = str := by
    refine List.takeWhile_eq_self_iff.mpr fun b hb => bne_iff_ne.mpr ?_
    rintro rfl
    exact hnul hb
  rw [strlen, hall]

/-- What is sent for a string: the header of its length and the string. -/
theorem data_make_message {str : List UInt8} (hnul : 0 ∉ str)
    (hmax : str.length ≤ max_body_length) :
    (make_message_by_charstring str).data = headerOf str.length ++ str := by
  have hfits : ¬ str.length > max_body_length := by omega
  unfold make_message_by_charstring set_body_length encode_header data length
  simp only [strlen_eq_length hnul, hfits, if_false, List.take_length]
  rw [List.take_of_length_le]
  · rfl
  · rw [List.length_append, List.length_take]
    omega

end IPCMessage

namespace IPCSession

/-! ### The loop -/

/-- The frame reader that a session is. -/
def frames (s : IPCSession) : FrameReader UInt8 where
  stage :=
    match s.stage with
    | .header => .header
    | .body => .body s.read_msg_.body_length_
    | .left => .stopped
  received := s.received
  frames := s.tasks

/-- The handler of a header read does what the frame reader does. -/
theorem frames_header_read (s : IPCSession) (got : List UInt8) :
    (s.header_read got).frames = FrameReader.handleHeader IPCMessage.announced got s.tasks := by
  unfold header_read FrameReader.handleHeader
  rw [IPCMessage.decode_header_eq]
  cases hlength : IPCMessage.announced got with
  | none => rfl
  | some n =>
      cases n with
      | zero => rfl
      | succ n => rfl

/-- The session is a frame reader. -/
theorem frames_receive (s : IPCSession) (b : UInt8) :
    (s.receive b).frames =
      s.frames.receive IPCMessage.header_length IPCMessage.announced b := by
  obtain ⟨msg, stage, got, tasks⟩ := s
  cases stage with
  | header =>
      by_cases hfull : (got ++ [b]).length = IPCMessage.header_length
      · have hframes := frames_header_read ⟨msg, .header, got, tasks⟩ (got ++ [b])
        simp only [receive, FrameReader.receive, frames, hfull, if_true] at hframes ⊢
        exact hframes
      · simp only [receive, FrameReader.receive, frames, hfull, if_false]
  | body =>
      by_cases hfull : (got ++ [b]).length = msg.body_length_
      · have hbody : (got ++ [b]).take msg.body_length_ = got ++ [b] :=
          List.take_of_length_le hfull.le
        simp only [receive, FrameReader.receive, frames, hfull, if_true, body_read, do_read_header,
          IPCMessage.body, hbody, FrameReader.ready]
      · simp only [receive, FrameReader.receive, frames, hfull, if_false]
  | left => rfl

/-- The session is a frame reader over a segment of the stream. -/
theorem frames_segment (s : IPCSession) (segment : List UInt8) :
    (s.arrive segment).frames =
      segment.foldl (FrameReader.receive IPCMessage.header_length IPCMessage.announced)
        s.frames := by
  unfold arrive
  induction segment generalizing s with
  | nil => rfl
  | cons b bs ih => rw [List.foldl_cons, List.foldl_cons, ih, frames_receive]

/-- The session is a frame reader over a whole stream, however it is cut. -/
theorem frames_arrive (s : IPCSession) (segments : List (List UInt8)) :
    (segments.foldl arrive s).frames =
      segments.flatten.foldl (FrameReader.receive IPCMessage.header_length IPCMessage.announced)
        s.frames := by
  rw [List.foldl_flatten]
  induction segments generalizing s with
  | nil => rfl
  | cons segment segments ih => rw [List.foldl_cons, List.foldl_cons, ih, frames_segment]

/-- The session waits for a header of which nothing has come, and has handed on these bodies. -/
def ReadBack (s : IPCSession) (strings : List (List UInt8)) : Prop :=
  s.stage = .header ∧ s.received = [] ∧ s.tasks = strings

theorem readBack_iff_frames {s : IPCSession} {strings : List (List UInt8)} :
    s.ReadBack strings ↔ s.frames = FrameReader.ready strings := by
  unfold ReadBack frames FrameReader.ready
  rw [FrameReader.mk.injEq]
  cases hstage : s.stage <;> simp

/-- A stream of messages is read back exactly when every header announces its body. -/
theorem readBack_iff_announced {strings segments : List (List UInt8)}
    (hnul : ∀ str ∈ strings, 0 ∉ str)
    (hmax : ∀ str ∈ strings, str.length ≤ IPCMessage.max_body_length)
    (hsegments : segments.flatten = IPCMessage.stream strings) :
    (segments.foldl arrive start).ReadBack strings ↔
      ∀ str ∈ strings, IPCMessage.announced (IPCMessage.headerOf str.length) = some str.length := by
  have hstream : IPCMessage.stream strings =
      strings.flatMap fun str => IPCMessage.headerOf str.length ++ str := by
    unfold IPCMessage.stream
    exact List.flatMap_congr fun str hstr =>
      IPCMessage.data_make_message (hnul str hstr) (hmax str hstr)
  have hstart : start.frames = FrameReader.ready [] := rfl
  rw [readBack_iff_frames, frames_arrive, hsegments, hstream, hstart]
  exact FrameReader.receive_frames_iff [] (by decide : 0 < IPCMessage.header_length)
    fun str _ => IPCMessage.length_headerOf str.length

/-- The framing round trip: the strings are read back, with nothing left over and no header
rejected, exactly when none of them is longer than the four characters of a header can say. -/
theorem stream_read_back (strings segments : List (List UInt8))
    (hnul : ∀ str ∈ strings, 0 ∉ str)
    (hmax : ∀ str ∈ strings, str.length ≤ IPCMessage.max_body_length)
    (hsegments : segments.flatten = IPCMessage.stream strings) :
    (segments.foldl arrive start).ReadBack strings ↔ ∀ str ∈ strings, str.length < 10000 := by
  refine (readBack_iff_announced hnul hmax hsegments).trans (forall₂_congr fun str hstr => ?_)
  exact IPCMessage.announced_headerOf (hmax str hstr)

/-- Two messages, the first without a byte, in segments that cut a header and a body. -/
theorem stream_read_back_two :
    ([[32, 32], [32, 48, 32, 32, 32, 53, 89], [97, 111, 120, 117]].foldl arrive start).ReadBack
      [[], [89, 97, 111, 120, 117]] :=
  (stream_read_back [[], [89, 97, 111, 120, 117]] _ (by decide) (by decide) (by decide)).mpr
    (by decide)

/-- A message of 10000 bytes announces 1000, so the stream is not read back. -/
theorem long_message_not_read_back :
    ¬ ∀ strings segments : List (List UInt8), (∀ str ∈ strings, 0 ∉ str) →
      (∀ str ∈ strings, str.length ≤ IPCMessage.max_body_length) →
      segments.flatten = IPCMessage.stream strings →
      (segments.foldl arrive start).ReadBack strings := by
  intro hall
  have hnul : ∀ str ∈ [List.replicate 10000 (65 : UInt8)], (0 : UInt8) ∉ str := by
    intro str hstr hmem
    rw [List.mem_singleton.mp hstr] at hmem
    exact absurd (List.eq_of_mem_replicate hmem) (by decide)
  have hmax : ∀ str ∈ [List.replicate 10000 (65 : UInt8)],
      str.length ≤ IPCMessage.max_body_length := by
    intro str hstr
    rw [List.mem_singleton.mp hstr, List.length_replicate]
    decide
  have hwhole : [IPCMessage.stream [List.replicate 10000 65]].flatten =
      IPCMessage.stream [List.replicate 10000 65] := List.flatten_singleton
  have hheader := (readBack_iff_announced hnul hmax hwhole).mp (hall _ _ hnul hmax hwhole)
    (List.replicate 10000 65) (List.mem_singleton_self _)
  rw [List.length_replicate, IPCMessage.announced_headerOf (by decide)] at hheader
  omega

end IPCSession

end Gvds
