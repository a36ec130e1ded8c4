/-
Module: Gvds.Lib.FrameReader
Layer: Lib
Purpose: Reading frames off a stream: a header of fixed length announces how many elements the body
  has, and the reader waits for exactly that many. The elements arrive one after another, so that
  the stream may be cut into segments in any way.
Imports: Mathlib.Tactic.Basic
Trusted boundary: none
Main exports: FrameReader, FrameReader.receive, FrameReader.receive_frame,
  FrameReader.receive_frames_iff, FrameReader.frames_of_prefix
-/
import Mathlib.Tactic.Basic

/-- What a frame reader waits for. -/
inductive FrameStage where
  | header
  | body (length : Nat)
  | stopped
deriving DecidableEq

/-- A frame reader: what it waits for, what has arrived of it, and the bodies it has read. -/
structure FrameReader (β : Type*) where
  stage : FrameStage
  received : List β
  frames : List (List β)
deriving DecidableEq

namespace FrameReader

variable {β : Type*}

/-- The reader between two frames. -/
def ready (frames : List (List β)) : FrameReader β := ⟨.header, [], frames⟩

/-- The header is there. A body without elements is complete at once. -/
def handleHeader (decode : List β → Option Nat) (header : List β) (frames : List (List β)) :
    FrameReader β :=
  match decode header with
  | none => ⟨.stopped, [], frames⟩
  | some 0 => ready (frames ++ [[]])
  | some (n + 1) => ⟨.body (n + 1), [], frames⟩

/-- One element arrives. -/
def receive (headerLength : Nat) (decode : List β → Option Nat) (r : FrameReader β) (b : β) :
    FrameReader β :=
  match r.stage with
  | .header =>
      if (r.received ++ [b]).length = headerLength then
        handleHeader decode (r.received ++ [b]) r.frames
      else { r with received := r.received ++ [b] }
  | .body n =>
      if (r.received ++ [b]).length = n then ready (r.frames ++ [r.received ++ [b]])
      else { r with received := r.received ++ [b] }
  | .stopped => r

section Arrivals

variable {headerLength : Nat} {decode : List β → Option Nat}

/-- The rest of a header arrives. -/
theorem receive_header {got bs : List β} {frames : List (List β)} (hne : bs ≠ [])
    (hlen : (got ++ bs).length = headerLength) :
    bs.foldl (receive headerLength decode) ⟨.header, got, frames⟩ =
      handleHeader decode (got ++ bs) frames := by
  induction bs generalizing got with
  | nil => exact absurd rfl hne
  | cons b bs ih =>
      by_cases hlast : bs = []
      · subst hlast
        simp only [List.foldl_cons, List.foldl_nil, receive, hlen, if_true]
      · have hmore : (got ++ [b]).length ≠ headerLength := by
          have hpos : 0 < bs.length := List.length_pos_iff.mpr hlast
          simp only [List.length_append, List.length_cons, List.length_nil] at hlen ⊢
          omega
        simp only [List.foldl_cons, receive, hmore, if_false]
        rw [ih hlast (by simpa using hlen), List.append_assoc, List.singleton_append]

/-- A whole header arrives. -/
theorem receive_whole_header {header : List β} {frames : List (List β)} (hne : header ≠ [])
    (hlen : header.length = headerLength) :
    header.foldl (receive headerLength decode) (ready frames) =
      handleHeader decode header frames := by
  rw [← List.nil_append header] at hlen
  exact receive_header hne hlen

/-- The rest of a body arrives. -/
theorem receive_body {got bs : List β} {frames : List (List β)} (hne : bs ≠ []) :
    bs.foldl (receive headerLength decode) ⟨.body (got ++ bs).length, got, frames⟩ =
      ready (frames ++ [got ++ bs]) := by
  generalize hn : (got ++ bs).length = n
  induction bs generalizing got with
  | nil => exact absurd rfl hne
  | cons b bs ih =>
      by_cases hlast : bs = []
      · subst hlast
        simp only [List.foldl_cons, List.foldl_nil, receive, hn, if_true]
      · have hmore : (got ++ [b]).length ≠ n := by
          have hpos : 0 < bs.length := List.length_pos_iff.mpr hlast
          simp only [List.length_append, List.length_cons, List.length_nil] at hn ⊢
          omega
        simp only [List.foldl_cons, receive, hmore, if_false]
        rw [ih hlast (by simpa using hn), List.append_assoc, List.singleton_append]

/-- A frame whose header announces its body is read as that body. -/
theorem receive_frame {header body : List β} (frames : List (List β)) (hne : header ≠ [])
    (hlen : header.length = headerLength) (hdecode : decode header = some body.length) :
    (header ++ body).foldl (receive headerLength decode) (ready frames) =
      ready (frames ++ [body]) := by
  rw [List.foldl_append, receive_whole_header hne hlen]
  unfold handleHeader
  rw [hdecode]
  cases body with
  | nil => rfl
  | cons b bs =>
      have hwhole : (b :: bs).foldl (receive headerLength decode)
          ⟨.body ([] ++ b :: bs).length, [], frames⟩ = ready (frames ++ [[] ++ b :: bs]) :=
        receive_body (by simp)
      exact hwhole

/-- A reader that has stopped reads nothing more. -/
theorem receive_stopped {got : List β} {frames : List (List β)} (bs : List β) :
    bs.foldl (receive headerLength decode) ⟨.stopped, got, frames⟩ = ⟨.stopped, got, frames⟩ := by
  induction bs with
  | nil => rfl
  | cons b bs ih => exact ih

/-- What was read stays. -/
theorem frames_prefix (headerLength : Nat) (decode : List β → Option Nat) (bs : List β)
    (r : FrameReader β) :
    r.frames <+: (bs.foldl (receive headerLength decode) r).frames := by
  induction bs generalizing r with
  | nil => exact List.prefix_rfl
  | cons b bs ih =>
      refine List.IsPrefix.trans ?_ (ih (receive headerLength decode r b))
      unfold receive handleHeader ready
      split
      · split
        · split
          · exact List.prefix_rfl
          · exact List.prefix_append _ _
          · exact List.prefix_rfl
        · exact List.prefix_rfl
      · split
        · exact List.prefix_append _ _
        · exact List.prefix_rfl
      · exact List.prefix_rfl

/-- The next body read after a header has the length the header announced. -/
theorem next_frame_length (headerLength : Nat) (decode : List β → Option Nat) (n : Nat)
    (bs got : List β) (frames : List (List β)) :
    let r := bs.foldl (receive headerLength decode) ⟨.body n, got, frames⟩
    r.frames = frames ∨ ∃ body, body.length = n ∧ frames ++ [body] <+: r.frames := by
  induction bs generalizing got with
  | nil => exact Or.inl rfl
  | cons b bs ih =>
      by_cases hfull : (got ++ [b]).length = n
      · right
        refine ⟨got ++ [b], hfull, ?_⟩
        simp only [List.foldl_cons, receive, hfull, if_true]
        exact frames_prefix headerLength decode bs (ready (frames ++ [got ++ [b]]))
      · simp only [List.foldl_cons, receive, hfull, if_false]
        exact ih (got ++ [b])

/-- If the body after a header is read as it was sent, the header announced its length. -/
theorem decode_of_frames_eq {header rest : List β} {body : List β} {frames more : List (List β)}
    (hne : header ≠ []) (hlen : header.length = headerLength)
    (h : ((header ++ rest).foldl (receive headerLength decode) (ready frames)).frames =
      frames ++ body :: more) : decode header = some body.length := by
  rw [List.foldl_append, receive_whole_header hne hlen] at h
  have hlonger : frames ≠ frames ++ body :: more := by simp
  have hnext : ∀ sent, frames ++ [sent] <+: frames ++ body :: more → sent = body := by
    intro sent hprefix
    rw [List.prefix_append_right_inj, List.cons_prefix_cons] at hprefix
    exact hprefix.1
  unfold handleHeader at h
  cases hdecode : decode header with
  | none =>
      simp only [hdecode, receive_stopped] at h
      exact absurd h hlonger
  | some n =>
      cases n with
      | zero =>
          simp only [hdecode] at h
          have hprefix := frames_prefix headerLength decode rest
            (ready (frames ++ [[]]))
          rw [h] at hprefix
          rw [← hnext [] hprefix, List.length_nil]
      | succ n =>
          simp only [hdecode] at h
          have hlength := next_frame_length headerLength decode (n + 1) rest [] frames
          simp only [h] at hlength
          rcases hlength with hsame | ⟨sent, hsent, hprefix⟩
          · exact absurd hsame.symm hlonger
          · rw [← hnext sent hprefix, hsent]

/-- A stream of frames is read as the bodies that were sent, with nothing left over, exactly when
every header announces its body. -/
theorem receive_frames_iff {header : List β → List β} {bodies : List (List β)}
    (frames : List (List β)) (hpos : 0 < headerLength)
    (hlen : ∀ body ∈ bodies, (header body).length = headerLength) :
    (bodies.flatMap fun body => header body ++ body).foldl (receive headerLength decode)
        (ready frames) = ready (frames ++ bodies) ↔
      ∀ body ∈ bodies, decode (header body) = some body.length := by
  induction bodies generalizing frames with
  | nil => simp
  | cons body bodies ih =>
      have hlength : (header body).length = headerLength := hlen body (by simp)
      have hne : header body ≠ [] := by
        rw [← List.length_pos_iff]
        omega
      have hrest := ih (frames ++ [body]) fun b hb => hlen b (by simp [hb])
      rw [List.append_assoc, List.singleton_append] at hrest
      rw [List.flatMap_cons, List.forall_mem_cons]
      constructor
      · intro h
        have hdecode : decode (header body) = some body.length := by
          rw [List.append_assoc] at h
          exact decode_of_frames_eq hne hlength (congrArg FrameReader.frames h)
        rw [List.foldl_append, receive_frame frames hne hlength hdecode] at h
        exact ⟨hdecode, hrest.mp h⟩
      · rintro ⟨hdecode, hall⟩
        rw [List.foldl_append, receive_frame frames hne hlength hdecode]
        exact hrest.mpr hall

/-- Of a stream of frames that is cut anywhere, bodies that were sent are read, in their order. -/
theorem frames_of_prefix {header : List β → List β} {bodies : List (List β)} {bs : List β}
    (hpos : 0 < headerLength) (hlen : ∀ body ∈ bodies, (header body).length = headerLength)
    (hdecode : ∀ body ∈ bodies, decode (header body) = some body.length)
    (h : bs <+: bodies.flatMap fun body => header body ++ body) :
    (bs.foldl (receive headerLength decode) (ready [])).frames <+: bodies := by
  obtain ⟨cs, hcs⟩ := h
  have hwhole := (receive_frames_iff [] hpos hlen).mpr hdecode
  rw [← hcs, List.foldl_append] at hwhole
  have hprefix := frames_prefix headerLength decode cs
    (bs.foldl (receive headerLength decode) (ready []))
  rw [hwhole] at hprefix
  exact hprefix

end Arrivals

end FrameReader
