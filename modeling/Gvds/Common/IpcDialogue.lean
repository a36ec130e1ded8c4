/-
Module: Gvds.Common.IpcDialogue
Layer: Common
Purpose: The dialogue between the command line and the client over local TCP connections
  (common/ipc/IPCServer.cc, IPCClient.cc): both ends of every connection with their queues, the
  bytes that are under way, and the callback that the server runs for each message.
Imports: Gvds.Common.Ipc, Mathlib.Logic.Function.Basic
Trusted boundary: `async_read` and `async_write` as in Gvds.Common.Ipc, the latter in pieces of any
  size; one thread runs the handlers of an `io_context`. A callback that throws ends the process,
  and a run with it.
Main exports: IPCWriter, Conversation, Dialogue, Dialogue.step
-/
import Gvds.Common.Ipc
import Mathlib.Logic.Function.Basic

namespace Gvds

/-! ### Writing -/

/-- The writing side of an `IPCSession`, and of an `IPCClient`: the messages to be written, how much
of the first one the running `async_write` has written, and whether one has failed. The handler of
one that fails takes no message off, so that none is ever started behind it. -/
structure IPCWriter where
  write_msgs_ : List IPCMessage
  written : Nat
  failed : Bool
deriving DecidableEq

namespace IPCWriter

def start : IPCWriter := ⟨[], 0, false⟩

/-- `deal_with_msg`, and what `IPCClient::write` posts. In front of an empty queue it calls
`do_write`. -/
def deal_with_msg (w : IPCWriter) (msg : IPCMessage) : IPCWriter :=
  { w with write_msgs_ := w.write_msgs_ ++ [msg] }

/-- The `async_write` of `do_write` gets `n` more bytes of the first message out; its handler when
they are the last ones. -/
def do_write (w : IPCWriter) (n : Nat) : Option (List UInt8 × IPCWriter) :=
  match w.write_msgs_ with
  | [] => none
  | msg :: msgs =>
      if w.failed = false ∧ 0 < n ∧ w.written + n ≤ msg.length then
        some ((msg.data.drop w.written).take n,
          if w.written + n = msg.length then { w with write_msgs_ := msgs, written := 0 }
          else { w with written := w.written + n })
      else none

/-- The `async_write` fails, or is cancelled. -/
def fail (w : IPCWriter) : IPCWriter := { w with failed := true }

end IPCWriter

/-- The pending read fails, or is cancelled. -/
def IPCSession.fail (s : IPCSession) : IPCSession := { s with stage := .left, received := [] }

/-! ### A connection -/

/-- Both ends of a connection, and what is under way between them. The bodies that the reader of the
client has handed on are those that `do_jobs` has called the callback with. Not in the source is
`strings`: what the command line has written. -/
structure Conversation where
  connected : Bool
  client : IPCSession
  client_writer : IPCWriter
  session : IPCSession
  session_writer : IPCWriter
  toSession : List UInt8
  toClient : List UInt8
  strings : List (List UInt8)

namespace Conversation

def start : Conversation := ⟨false, .start, .start, .start, .start, [], [], []⟩

/-- `IPCClient::write` of the message that `make_message_by_charstring` makes. -/
def write (v : Conversation) (str : List UInt8) : Conversation :=
  { v with
    client_writer := v.client_writer.deal_with_msg (.make_message_by_charstring str)
    strings := v.strings ++ [str] }

/-- `socket_.close()` in the client: what is pending is cancelled. -/
def close (v : Conversation) : Conversation :=
  { v with client := v.client.fail, client_writer := v.client_writer.fail }

/-- The client reads a byte. -/
def client_read (v : Conversation) (b : UInt8) : Conversation :=
  let v := { v with client := v.client.receive b }
  if v.client.stage = .left then v.close else v

end Conversation

/-! ### All connections -/

/-- The server with all its connections. `state` is what the callback works on, which the sessions
share. Not in the source is `handled`: whose messages the callback was called with, and what it
returned. -/
structure Dialogue (σ κ : Type) where
  state : σ
  conversations : κ → Conversation
  handled : List (κ × List UInt8 × List UInt8)

/-- What may happen on a connection: it is accepted; the command line writes; bytes leave and arrive
at either end; a read or a write of the session fails, or one of the client. -/
inductive IpcAct where
  | accept
  | write (str : List UInt8)
  | client_write (n : Nat)
  | session_read
  | session_write (n : Nat)
  | client_read
  | read_fails
  | write_fails
  | client_fails

namespace Dialogue

variable {σ κ : Type} [DecidableEq κ]

def start (state : σ) : Dialogue σ κ := ⟨state, fun _ => .start, []⟩

/-- A connection has another state. -/
def set (s : Dialogue σ κ) (c : κ) (v : Conversation) : Dialogue σ κ :=
  { s with conversations := Function.update s.conversations c v }

/-- `add_task`. There is no work in progress when it is called: `do_work` takes its message off the
queue before the thread goes on to anything else. -/
def add_task (process : σ → List UInt8 → σ × List UInt8) (c : κ) (s : Dialogue σ κ)
    (body : List UInt8) : Dialogue σ κ :=
  let (state, ret) := process s.state body
  let v := s.conversations c
  { s with
    state := state
    handled := s.handled ++ [(c, body, ret)]
    conversations := Function.update s.conversations c
      { v with
        session_writer := v.session_writer.deal_with_msg (.make_message_by_charstring ret) } }

/-- The session reads a byte; `add_task` gets the body that is complete with it. -/
def session_read (process : σ → List UInt8 → σ × List UInt8) (c : κ) (s : Dialogue σ κ)
    (b : UInt8) (rest : List UInt8) : Dialogue σ κ :=
  let v := s.conversations c
  let session := v.session.receive b
  (session.tasks.drop v.session.tasks.length).foldl (add_task process c)
    (s.set c { v with session := session, toSession := rest })

/-- One step on a connection. -/
def step (process : σ → List UInt8 → σ × List UInt8) (s : Dialogue σ κ) :
    κ × IpcAct → Option (Dialogue σ κ)
  | (c, act) =>
      let v := s.conversations c
      match act with
      | .accept => if v.connected then none else some (s.set c { v with connected := true })
      | .write str => some (s.set c (v.write str))
      | .client_write n =>
          if v.connected then
            (v.client_writer.do_write n).map fun out =>
              s.set c { v with client_writer := out.2, toSession := v.toSession ++ out.1 }
          else none
      | .session_read =>
          match v.toSession with
          | [] => none
          | b :: rest =>
              if v.session.stage = .left then none else some (s.session_read process c b rest)
      | .session_write n =>
          (v.session_writer.do_write n).map fun out =>
            s.set c { v with session_writer := out.2, toClient := v.toClient ++ out.1 }
      | .client_read =>
          match v.toClient with
          | [] => none
          | b :: rest =>
              if v.client.stage = .left then none
              else some (s.set c ({ v with toClient := rest }.client_read b))
      | .read_fails => some (s.set c { v with session := v.session.fail })
      | .write_fails => some (s.set c { v with session_writer := v.session_writer.fail })
      | .client_fails => some (s.set c v.close)

end Dialogue

end Gvds
