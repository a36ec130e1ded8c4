/-
Module: Gvds.Proofs.IpcDialogue
Layer: Proofs
Purpose: The dialogue of the command line with the client over whole runs of both ends of every
  connection: the callback of the server gets what was written, one message after the other, and
  its answers come back to the connection that asked, in the order of the questions.
Imports: Gvds.Lib.Machine, Gvds.Common.IpcDialogue, Gvds.Proofs.IpcFraming
Trusted boundary: as Gvds.Common.IpcDialogue
Main exports: IPCMessage.text, IPCWriter.pending, Carried, Dialogue.InOrder,
  Dialogue.answers_in_order
-/
import Gvds.Lib.Machine
import Gvds.Common.IpcDialogue
import Gvds.Proofs.IpcFraming

namespace Gvds

/-! ### Messages -/

namespace IPCMessage

/-- The characters of a string in front of its NUL. -/
def text (str : List UInt8) : List UInt8 := str.takeWhile (· != 0)

theorem zero_notMem_text (str : List UInt8) : 0 ∉ text str := by
  intro hmem
  have hne := List.mem_takeWhile_imp hmem
  simp at hne

/-- No more is sent than there are characters in front of the NUL. -/
theorem body_length_le (str : List UInt8) :
    (new.set_body_length (strlen str)).body_length_ ≤ strlen str := by
  unfold set_body_length
  dsimp only
  split <;> omega

/-- A message is made from the characters in front of the NUL. -/
theorem make_message_text (str : List UInt8) :
    make_message_by_charstring (text str) = make_message_by_charstring str := by
  have hstrlen : strlen (text str) = strlen str := by
    unfold strlen text
    rw [List.takeWhile_idem]
  have htake : (text str).take (new.set_body_length (strlen str)).body_length_ =
      str.take (new.set_body_length (strlen str)).body_length_ := by
    obtain ⟨rest, hrest⟩ := List.takeWhile_prefix (p := (· != (0 : UInt8))) (l := str)
    have hsplit : text str ++ rest = str := hrest
    have hle : (new.set_body_length (strlen str)).body_length_ ≤ (text str).length :=
      body_length_le str
    calc (text str).take _ = (text str ++ rest).take _ :=
        (List.take_append_of_le_length hle).symm
      _ = str.take _ := by rw [hsplit]
  unfold make_message_by_charstring
  simp only [hstrlen, htake]

/-- As many bytes are written as the message says. -/
theorem length_data_make_message (str : List UInt8) :
    (make_message_by_charstring str).data.length = (make_message_by_charstring str).length := by
  have hbody : (new.set_body_length (strlen str)).body_length_ ≤ str.length :=
    (body_length_le str).trans (List.takeWhile_prefix _).length_le
  have hheader :
      4 ≤ (DecimalText.padded 4 (new.set_body_length (strlen str)).body_length_).length :=
    DecimalText.le_length_padded 4 _
  unfold make_message_by_charstring data length encode_header
  simp only [List.length_take, List.length_append, header_length]
  omega

/-- The bytes of messages with short texts: each text behind the header of its length. -/
theorem stream_eq_frames {strings : List (List UInt8)}
    (hshort : ∀ str ∈ strings, (text str).length < 10000) :
    stream strings =
      (strings.map text).flatMap fun body => headerOf body.length ++ body := by
  rw [List.flatMap_map]
  refine List.flatMap_congr fun str hstr => ?_
  have hmax : (text str).length ≤ max_body_length := by
    have hbound : max_body_length = 1048576 := rfl
    have hlength := hshort str hstr
    omega
  rw [← make_message_text]
  exact data_make_message (zero_notMem_text str) hmax

theorem stream_append (strings : List (List UInt8)) (str : List UInt8) :
    stream (strings ++ [str]) = stream strings ++ (make_message_by_charstring str).data := by
  simp [stream]

end IPCMessage

/-! ### Reading a part of a stream -/

namespace IPCSession

/-- The header of a short text announces it. -/
theorem announced_of_short {strings : List (List UInt8)}
    (hshort : ∀ str ∈ strings, (IPCMessage.text str).length < 10000) :
    ∀ body ∈ strings.map IPCMessage.text,
      IPCMessage.announced (IPCMessage.headerOf body.length) = some body.length := by
  intro body hbody
  obtain ⟨str, hstr, rfl⟩ := List.mem_map.mp hbody
  have hlength := hshort str hstr
  have hbound : IPCMessage.max_body_length = 1048576 := rfl
  exact (IPCMessage.announced_headerOf (by omega)).mpr hlength

/-- Of a stream of short messages that is cut anywhere, the first texts are read. -/
theorem tasks_of_prefix {strings : List (List UInt8)} {got : List UInt8}
    (hshort : ∀ str ∈ strings, (IPCMessage.text str).length < 10000)
    (h : got <+: IPCMessage.stream strings) :
    (start.arrive got).tasks <+: strings.map IPCMessage.text := by
  have hframes : (start.arrive got).tasks = (start.arrive got).frames.frames := rfl
  rw [hframes, frames_segment]
  rw [IPCMessage.stream_eq_frames hshort] at h
  exact FrameReader.frames_of_prefix (by decide : 0 < IPCMessage.header_length)
    (fun body _ => IPCMessage.length_headerOf body.length) (announced_of_short hshort) h

/-- Of a whole stream of short messages, all texts are read. -/
theorem tasks_of_stream {strings : List (List UInt8)}
    (hshort : ∀ str ∈ strings, (IPCMessage.text str).length < 10000) :
    (start.arrive (IPCMessage.stream strings)).tasks = strings.map IPCMessage.text := by
  have hframes : (start.arrive (IPCMessage.stream strings)).tasks =
      (start.arrive (IPCMessage.stream strings)).frames.frames := rfl
  have hready := (FrameReader.receive_frames_iff [] (by decide : 0 < IPCMessage.header_length)
    fun body _ => IPCMessage.length_headerOf body.length).mpr (announced_of_short hshort)
  rw [hframes, frames_segment, IPCMessage.stream_eq_frames hshort]
  exact congrArg FrameReader.frames hready

/-- A byte completes one body at most. -/
theorem tasks_receive (s : IPCSession) (b : UInt8) :
    (s.receive b).tasks = s.tasks ∨ ∃ body, (s.receive b).tasks = s.tasks ++ [body] := by
  unfold receive
  cases s.stage with
  | header =>
      dsimp only
      split_ifs
      · unfold header_read do_read_body
        dsimp only
        split_ifs
        · exact Or.inr ⟨_, rfl⟩
        · exact Or.inl rfl
        · exact Or.inl rfl
      · exact Or.inl rfl
  | body =>
      dsimp only
      split_ifs
      · exact Or.inr ⟨_, rfl⟩
      · exact Or.inl rfl
  | left => exact Or.inl rfl

end IPCSession

/-! ### One direction of a connection -/

/-- What the messages in the queue have still to send. -/
def IPCWriter.pending (w : IPCWriter) : List UInt8 :=
  (w.write_msgs_.flatMap IPCMessage.data).drop w.written

/-- What is written is the front of what was to be sent; a message is taken off when all of it is
out. -/
theorem IPCWriter.pending_do_write {w w' : IPCWriter} {n : Nat} {out : List UInt8}
    (hwhole : ∀ msg ∈ w.write_msgs_, msg.data.length = msg.length)
    (hwrite : w.do_write n = some (out, w')) :
    out ++ w'.pending = w.pending ∧ w'.write_msgs_ <:+ w.write_msgs_ ∧
      w'.written ≤ (w'.write_msgs_.flatMap IPCMessage.data).length := by
  obtain ⟨msgs, written, failed⟩ := w
  cases msgs with
  | nil => cases hwrite
  | cons msg msgs =>
      simp only [do_write, Option.ite_none_right_eq_some, Option.some.injEq,
        Prod.mk.injEq] at hwrite
      obtain ⟨⟨_, _, hle⟩, rfl, rfl⟩ := hwrite
      have hlength : msg.data.length = msg.length := hwhole msg (by simp)
      have hpending : ∀ k ≤ msg.length, (msg.data ++ msgs.flatMap IPCMessage.data).drop k =
          msg.data.drop k ++ msgs.flatMap IPCMessage.data := fun k hk =>
        List.drop_append_of_le_length (by omega)
      split_ifs with hlast
      · have htake : (msg.data.drop written).take n = msg.data.drop written :=
          List.take_of_length_le (by rw [List.length_drop]; omega)
        refine ⟨?_, List.suffix_cons msg msgs, Nat.zero_le _⟩
        simp only [pending, List.flatMap_cons, List.drop_zero, htake]
        exact (hpending written (by omega)).symm
      · refine ⟨?_, List.suffix_rfl, ?_⟩
        · simp only [pending, List.flatMap_cons]
          rw [hpending (written + n) (by omega), hpending written (by omega), ← List.drop_drop,
            ← List.append_assoc, List.take_append_drop]
        · simp only [List.flatMap_cons, List.length_append]
          omega

/-- One direction of a connection, from the writer at one end to the reader at the other: of the
stream of the strings the reader has got the first bytes, those behind them are under way, and the
rest has not been sent yet. -/
structure Carried (w : IPCWriter) (wire : List UInt8) (reader : IPCSession)
    (strings : List (List UInt8)) (got : List UInt8) : Prop where
  stream : got ++ wire ++ w.pending = IPCMessage.stream strings
  whole : ∀ msg ∈ w.write_msgs_, msg.data.length = msg.length
  inside : w.written ≤ (w.write_msgs_.flatMap IPCMessage.data).length
  tasks : reader.tasks = (IPCSession.start.arrive got).tasks
  live : reader.stage ≠ .left → reader = IPCSession.start.arrive got

namespace Carried

variable {w w' : IPCWriter} {wire out : List UInt8} {reader : IPCSession}
  {strings : List (List UInt8)} {got : List UInt8}

theorem start : Carried .start [] .start [] [] where
  stream := rfl
  whole := by simp [IPCWriter.start]
  inside := Nat.zero_le _
  tasks := rfl
  live := fun _ => rfl

/-- One more message is handed to the writer. -/
theorem deal_with_msg (h : Carried w wire reader strings got) (str : List UInt8) :
    Carried (w.deal_with_msg (.make_message_by_charstring str)) wire reader (strings ++ [str])
      got where
  stream := by
    have hpending : (w.deal_with_msg (.make_message_by_charstring str)).pending =
        w.pending ++ (IPCMessage.make_message_by_charstring str).data := by
      simp only [IPCWriter.pending, IPCWriter.deal_with_msg, List.flatMap_append,
        List.flatMap_singleton]
      exact List.drop_append_of_le_length h.inside
    rw [IPCMessage.stream_append, ← h.stream, hpending, ← List.append_assoc]
  whole := by
    intro msg hmsg
    rcases List.mem_append.mp hmsg with hold | hnew
    · exact h.whole msg hold
    · rw [List.mem_singleton.mp hnew]
      exact IPCMessage.length_data_make_message str
  inside := by
    have hinside := h.inside
    simp only [IPCWriter.deal_with_msg, List.flatMap_append, List.length_append]
    omega
  tasks := h.tasks
  live := h.live

/-- The writer gets some bytes out. -/
theorem do_write {n : Nat} (h : Carried w wire reader strings got)
    (hwrite : w.do_write n = some (out, w')) : Carried w' (wire ++ out) reader strings got := by
  obtain ⟨hpending, hsuffix, hinside⟩ := IPCWriter.pending_do_write h.whole hwrite
  exact
    { stream := by
        rw [← h.stream, ← hpending]
        simp only [List.append_assoc]
      whole := fun msg hmsg => h.whole msg (hsuffix.subset hmsg)
      inside := hinside
      tasks := h.tasks
      live := h.live }

/-- The reader gets a byte. -/
theorem receive {b : UInt8} (h : Carried w (b :: wire) reader strings got)
    (hlive : reader.stage ≠ .left) :
    Carried w wire (reader.receive b) strings (got ++ [b]) := by
  have hreader : reader.receive b = IPCSession.start.arrive (got ++ [b]) := by
    rw [h.live hlive, IPCSession.arrive, IPCSession.arrive, List.foldl_append]
    rfl
  exact
    { stream := by
        rw [← h.stream]
        simp only [List.append_assoc, List.cons_append, List.nil_append]
      whole := h.whole
      inside := h.inside
      tasks := congrArg IPCSession.tasks hreader
      live := fun _ => hreader }

/-- The reader leaves. -/
theorem fail_reader (h : Carried w wire reader strings got) :
    Carried w wire reader.fail strings got :=
  { h with
    tasks := h.tasks
    live := fun hlive => absurd rfl hlive }

/-- The writer is given up. -/
theorem fail_writer (h : Carried w wire reader strings got) :
    Carried w.fail wire reader strings got :=
  { h with
    stream := h.stream
    whole := h.whole
    inside := h.inside }

/-- What was got are the first texts of the strings. -/
theorem tasks_prefix (h : Carried w wire reader strings got)
    (hshort : ∀ str ∈ strings, (IPCMessage.text str).length < 10000) :
    reader.tasks <+: strings.map IPCMessage.text := by
  rw [h.tasks]
  refine IPCSession.tasks_of_prefix hshort ?_
  rw [← h.stream, List.append_assoc]
  exact List.prefix_append _ _

/-- When nothing waits and nothing is under way, all has been got. -/
theorem tasks_eq (h : Carried w [] reader strings got) (hidle : w.write_msgs_ = [])
    (hshort : ∀ str ∈ strings, (IPCMessage.text str).length < 10000) :
    reader.tasks = strings.map IPCMessage.text := by
  have hgot : got = IPCMessage.stream strings := by
    rw [← h.stream, IPCWriter.pending, hidle]
    simp
  rw [h.tasks, hgot]
  exact IPCSession.tasks_of_stream hshort

end Carried

/-! ### All connections -/

/-- What the callback answers when it is asked for these bodies one after another, and the state it
leaves. -/
def ask {σ : Type} (process : σ → List UInt8 → σ × List UInt8) (state : σ)
    (bodies : List (List UInt8)) : List (List UInt8) × σ :=
  bodies.foldl (fun acc body => (acc.1 ++ [(process acc.2 body).2], (process acc.2 body).1))
    ([], state)

namespace Dialogue

variable {σ κ : Type} [DecidableEq κ] {process : σ → List UInt8 → σ × List UInt8}

/-- What the callback was asked for on a connection. -/
def requests (s : Dialogue σ κ) (c : κ) : List (List UInt8) :=
  (s.handled.filter fun h => h.1 = c).map fun h => h.2.1

/-- What it has answered there. -/
def answers (s : Dialogue σ κ) (c : κ) : List (List UInt8) :=
  (s.handled.filter fun h => h.1 = c).map fun h => h.2.2

/-- On a connection no message waits and no byte is under way. -/
def Settled (v : Conversation) : Prop :=
  v.client_writer.write_msgs_ = [] ∧ v.toSession = [] ∧ v.session_writer.write_msgs_ = [] ∧
    v.toClient = []

/-- No text of these is too long for its header. -/
def Short (strings : List (List UInt8)) : Prop :=
  ∀ str ∈ strings, (IPCMessage.text str).length < 10000

/-- The callback is asked for one message after another, whichever connections they are from. On a
connection it is asked for what the command line has written there, and the command line gets its
answers, each in order and once; when the connection has settled, nothing is missing. -/
structure InOrder (process : σ → List UInt8 → σ × List UInt8) (state : σ) (s : Dialogue σ κ) :
    Prop where
  asked : ask process state (s.handled.map fun h => h.2.1) =
    (s.handled.map fun h => h.2.2, s.state)
  requests : ∀ c, Short (s.conversations c).strings →
    s.requests c <+: (s.conversations c).strings.map IPCMessage.text
  answers : ∀ c, Short (s.answers c) →
    (s.conversations c).client.tasks <+: (s.answers c).map IPCMessage.text
  settled : ∀ c, Settled (s.conversations c) → Short (s.conversations c).strings →
    Short (s.answers c) → s.requests c = (s.conversations c).strings.map IPCMessage.text ∧
      (s.conversations c).client.tasks = (s.answers c).map IPCMessage.text

/-- Both directions of a connection carry what is due. -/
structure Linked (v : Conversation) (requests answers : List (List UInt8)) : Prop where
  toSession : ∃ got, Carried v.client_writer v.toSession v.session v.strings got
  toClient : ∃ got, Carried v.session_writer v.toClient v.client answers got
  tasks : v.session.tasks = requests

/-- The invariant of the dialogue. -/
structure Sound (process : σ → List UInt8 → σ × List UInt8) (state : σ) (s : Dialogue σ κ) :
    Prop where
  asked : ask process state (s.handled.map fun h => h.2.1) =
    (s.handled.map fun h => h.2.2, s.state)
  linked : ∀ c, Linked (s.conversations c) (s.requests c) (s.answers c)

variable {state : σ} {s : Dialogue σ κ} {c : κ}

theorem sound_start (process : σ → List UInt8 → σ × List UInt8) (state : σ) :
    Sound process state (start state : Dialogue σ κ) where
  asked := rfl
  linked := fun _ => ⟨⟨[], .start⟩, ⟨[], .start⟩, rfl⟩

/-- A step that does not call the callback. -/
theorem Sound.set (h : Sound process state s) {v : Conversation}
    (hv : Linked v (s.requests c) (s.answers c)) : Sound process state (s.set c v) where
  asked := h.asked
  linked := by
    intro k
    by_cases hk : k = c
    · subst hk
      have hself : (s.set k v).conversations k = v := Function.update_self ..
      rw [hself]
      exact hv
    · have hother : (s.set c v).conversations k = s.conversations k := Function.update_of_ne hk ..
      rw [hother]
      exact h.linked k

/-- What is handled is asked for on its own connection. -/
theorem requests_handled (body ret : List UInt8) (k : κ) (s : Dialogue σ κ)
    {t : Dialogue σ κ} (ht : t.handled = s.handled ++ [(c, body, ret)]) :
    t.requests k = (if k = c then s.requests k ++ [body] else s.requests k) ∧
      t.answers k = if k = c then s.answers k ++ [ret] else s.answers k := by
  unfold requests answers
  rw [ht, List.filter_append]
  by_cases hk : k = c
  · subst hk
    simp
  · have hne : ¬c = k := fun heq => hk heq.symm
    simp [hk, hne]

/-- `add_task` for a body that the session has read. -/
theorem Sound.add_task (h : Sound process state s) {v : Conversation} {body got back : List UInt8}
    (hto : Carried v.client_writer v.toSession v.session v.strings got)
    (hfrom : Carried v.session_writer v.toClient v.client (s.answers c) back)
    (htasks : v.session.tasks = s.requests c ++ [body]) :
    Sound process state (Dialogue.add_task process c (s.set c v) body) where
  asked := by
    have hasked := h.asked
    unfold ask at hasked ⊢
    simp only [Dialogue.add_task, Dialogue.set, List.map_append, List.map_cons, List.map_nil,
      List.foldl_append, hasked, List.foldl_cons, List.foldl_nil]
  linked := by
    intro k
    have hself : (s.set c v).conversations c = v := Function.update_self ..
    obtain ⟨hrequests, hanswers⟩ := requests_handled body (process s.state body).2 k s
      (t := Dialogue.add_task process c (s.set c v) body) rfl
    rw [hrequests, hanswers]
    by_cases hk : k = c
    · subst hk
      simp only [Dialogue.add_task, hself, Function.update_self, if_true]
      exact ⟨⟨got, hto⟩, ⟨back, hfrom.deal_with_msg _⟩, htasks⟩
    · have hother : (s.set c v).conversations k = s.conversations k := Function.update_of_ne hk ..
      simp only [Dialogue.add_task, Function.update_of_ne hk, hother, hk, if_false]
      exact h.linked k

/-- The session reads a byte. -/
theorem Sound.session_read (h : Sound process state s) {b : UInt8} {rest : List UInt8}
    (hwire : (s.conversations c).toSession = b :: rest)
    (hlive : (s.conversations c).session.stage ≠ .left) :
    Sound process state (s.session_read process c b rest) := by
  obtain ⟨⟨got, hto⟩, ⟨back, hfrom⟩, htasks⟩ := h.linked c
  rw [hwire] at hto
  unfold Dialogue.session_read
  dsimp only
  rcases IPCSession.tasks_receive (s.conversations c).session b with hsame | ⟨body, hmore⟩
  · rw [hsame, List.drop_length]
    exact h.set ⟨⟨_, hto.receive hlive⟩, ⟨back, hfrom⟩, hsame.trans htasks⟩
  · rw [hmore, List.drop_left]
    exact h.add_task (hto.receive hlive) hfrom (by rw [hmore, htasks])

/-- The client reads a byte. -/
theorem Linked.client_read {v : Conversation} {requests answers : List (List UInt8)} {b : UInt8}
    {rest : List UInt8} (h : Linked v requests answers) (hwire : v.toClient = b :: rest)
    (hlive : v.client.stage ≠ .left) :
    Linked ({ v with toClient := rest }.client_read b) requests answers := by
  obtain ⟨⟨got, hto⟩, ⟨back, hfrom⟩, htasks⟩ := h
  rw [hwire] at hfrom
  unfold Conversation.client_read Conversation.close
  dsimp only
  split_ifs
  · exact ⟨⟨got, hto.fail_writer⟩, ⟨_, (hfrom.receive hlive).fail_reader⟩, htasks⟩
  · exact ⟨⟨got, hto⟩, ⟨_, hfrom.receive hlive⟩, htasks⟩

/-- Every step keeps the invariant. -/
theorem sound_step {t : Dialogue σ κ} {act : κ × IpcAct} (h : Sound process state s)
    (hstep : step process s act = some t) : Sound process state t := by
  obtain ⟨c, act⟩ := act
  have hlinked := h.linked c
  obtain ⟨⟨got, hto⟩, ⟨back, hfrom⟩, htasks⟩ := h.linked c
  cases act with
  | accept =>
      simp only [step, Option.ite_none_left_eq_some, Option.some.injEq] at hstep
      obtain ⟨_, rfl⟩ := hstep
      exact h.set ⟨⟨got, hto⟩, ⟨back, hfrom⟩, htasks⟩
  | write str =>
      cases hstep
      exact h.set ⟨⟨got, hto.deal_with_msg str⟩, ⟨back, hfrom⟩, htasks⟩
  | client_write n =>
      simp only [step, Option.ite_none_right_eq_some, Option.map_eq_some_iff] at hstep
      obtain ⟨_, ⟨bytes, w⟩, hwrite, rfl⟩ := hstep
      exact h.set ⟨⟨got, hto.do_write hwrite⟩, ⟨back, hfrom⟩, htasks⟩
  | session_read =>
      cases hwire : (s.conversations c).toSession with
      | nil => simp [step, hwire] at hstep
      | cons b rest =>
          simp only [step, hwire, Option.ite_none_left_eq_some, Option.some.injEq] at hstep
          obtain ⟨hlive, rfl⟩ := hstep
          exact h.session_read hwire hlive
  | session_write n =>
      simp only [step, Option.map_eq_some_iff] at hstep
      obtain ⟨⟨bytes, w⟩, hwrite, rfl⟩ := hstep
      exact h.set ⟨⟨got, hto⟩, ⟨back, hfrom.do_write hwrite⟩, htasks⟩
  | client_read =>
      cases hwire : (s.conversations c).toClient with
      | nil => simp [step, hwire] at hstep
      | cons b rest =>
          simp only [step, hwire, Option.ite_none_left_eq_some, Option.some.injEq] at hstep
          obtain ⟨hlive, rfl⟩ := hstep
          exact h.set (hlinked.client_read hwire hlive)
  | read_fails =>
      cases hstep
      exact h.set ⟨⟨got, hto.fail_reader⟩, ⟨back, hfrom⟩, htasks⟩
  | write_fails =>
      cases hstep
      exact h.set ⟨⟨got, hto⟩, ⟨back, hfrom.fail_writer⟩, htasks⟩
  | client_fails =>
      cases hstep
      exact h.set ⟨⟨got, hto.fail_writer⟩, ⟨back, hfrom.fail_reader⟩, htasks⟩

theorem Sound.inOrder (h : Sound process state s) : InOrder process state s where
  asked := h.asked
  requests := by
    intro c hshort
    obtain ⟨⟨got, hto⟩, _, htasks⟩ := h.linked c
    rw [← htasks]
    exact hto.tasks_prefix hshort
  answers := by
    intro c hshort
    obtain ⟨_, ⟨got, hfrom⟩, _⟩ := h.linked c
    exact hfrom.tasks_prefix hshort
  settled := by
    rintro c ⟨hqueue, hwire, hqueue', hwire'⟩ hshort hshort'
    obtain ⟨⟨got, hto⟩, ⟨back, hfrom⟩, htasks⟩ := h.linked c
    rw [hwire] at hto
    rw [hwire'] at hfrom
    rw [← htasks]
    exact ⟨hto.tasks_eq hqueue hshort, hfrom.tasks_eq hqueue' hshort'⟩

/-- Whatever the order in which bytes leave and arrive on all connections, and wherever one breaks,
each command line is answered in order. -/
theorem answers_in_order (process : σ → List UInt8 → σ × List UInt8) (state : σ)
    (acts : List (κ × IpcAct)) :
    Machine.Always (step process) (InOrder process state) (start state) acts :=
  Machine.always_of_preserves (fun _ _ _ h hstep => sound_step h hstep)
    (fun _ h => h.inOrder) (sound_start process state)

/-- Two command lines write at once; each gets the count of the messages up to its own. -/
example :
    (Machine.run (step fun n body => (n + 1, UInt8.ofNat (n + 49) :: body))
        (start 0 : Dialogue Nat Bool)
        ([true, false].flatMap (fun c => [(c, .accept), (c, .write [c.toNat.toUInt8 + 65]),
            (c, .client_write 2), (c, .client_write 3)]) ++
          List.replicate 5 (true, .session_read) ++ List.replicate 5 (false, .session_read) ++
          [(false, .session_write 6), (true, .session_write 1), (true, .session_write 5)] ++
          [true, false].flatMap fun c => List.replicate 6 (c, .client_read))).map
      (fun s => [true, false].map fun c => (s.conversations c).client.tasks) =
      some [[[49, 66]], [[50, 65]]] := by
  decide

end Dialogue

end Gvds
