/-
Module: Gvds.Common.Ipc
Layer: Common
Purpose: The messages between the command line and the client (common/ipc/IPCMessage.hpp) and the
  loop that reads them off a TCP stream (IPCServer.cc, IPCClient.cc).
Imports: Gvds.Lib.DecimalText
Trusted boundary: `async_read` completes when its buffer is full, at once for an empty one; the
  bytes of a stream arrive in order and are not lost. From 10000 bytes on `sprintf` writes more than
  the five bytes of `header`, which C++ leaves undefined; the model takes the four bytes that
  `memcpy` copies from there.
Main exports: IPCMessage, IPCMessage.make_message_by_charstring, IPCSession, IPCSession.receive
-/
import Gvds.Lib.DecimalText

namespace Gvds

/-- `IPCMessage`. The array `data_` is kept in its two parts, each as far as it was written. -/
structure IPCMessage where
  header : List UInt8
  content : List UInt8
  body_length_ : Nat
deriving DecidableEq

namespace IPCMessage

/-- `header_length`. -/
def header_length : Nat := 4

/-- `max_body_length`. -/
def max_body_length : Nat := 1048576

/-- `IPCMessage()`. -/
def new : IPCMessage := ⟨[], [], 0⟩

/-- `length`. -/
def length (m : IPCMessage) : Nat := header_length + m.body_length_

/-- `data()[0..length())`: what is written to the socket. -/
def data (m : IPCMessage) : List UInt8 := (m.header ++ m.content).take m.length

/-- `body()[0..body_length())`: what the callbacks read. -/
def body (m : IPCMessage) : List UInt8 := m.content.take m.body_length_

/-- `body_length(new_length)`. -/
def set_body_length (m : IPCMessage) (new_length : Nat) : IPCMessage :=
  { m with body_length_ := if new_length > max_body_length then max_body_length else new_length }

/-- `decode_header`. A negative `atoi` becomes a `size_t` beyond every bound. -/
def decode_header (m : IPCMessage) : Bool × IPCMessage :=
  let header := m.header.takeWhile (· != 0)
  let length := (DecimalText.atoi header % 2 ^ 64).toNat
  if length > max_body_length then (false, { m with body_length_ := 0 })
  else (true, { m with body_length_ := length })

/-- `encode_header`. -/
def encode_header (m : IPCMessage) : IPCMessage :=
  { m with header := (DecimalText.padded 4 m.body_length_).take header_length }

/-- `strlen` of a string whose bytes are followed by a NUL. -/
def strlen (str : List UInt8) : Nat := (str.takeWhile (· != 0)).length

/-- `make_message_by_charstring`. -/
def make_message_by_charstring (str : List UInt8) : IPCMessage :=
  let msg := new.set_body_length (strlen str)
  let msg := { msg with content := str.take msg.body_length_ }
  msg.encode_header

end IPCMessage

/-- What the pending `async_read` of a session fills. -/
inductive ReadStage where
  | header
  | body
  | left
deriving DecidableEq

/-- The reading side of an `IPCSession`, and of an `IPCClient`, which closes its socket where the
session leaves the collection and calls `push_to_return_msgs` for `add_task`: the message being
read, the pending read with what it has received, and the bodies handed on. -/
structure IPCSession where
  read_msg_ : IPCMessage
  stage : ReadStage
  received : List UInt8
  tasks : List (List UInt8)
deriving DecidableEq

namespace IPCSession

/-- `do_read_header`. -/
def do_read_header (s : IPCSession) : IPCSession :=
  { s with stage := .header, received := [] }

/-- The handler of the read that `do_read_body` starts. -/
def body_read (s : IPCSession) (got : List UInt8) : IPCSession :=
  let msg := { s.read_msg_ with content := got }
  do_read_header { s with read_msg_ := msg, tasks := s.tasks ++ [msg.body] }

/-- `do_read_body`. -/
def do_read_body (s : IPCSession) : IPCSession :=
  if s.read_msg_.body_length_ = 0 then s.body_read []
  else { s with stage := .body, received := [] }

/-- The handler of the read that `do_read_header` starts. -/
def header_read (s : IPCSession) (got : List UInt8) : IPCSession :=
  let decoded := { s.read_msg_ with header := got }.decode_header
  if decoded.1 then do_read_body { s with read_msg_ := decoded.2 }
  else { s with read_msg_ := decoded.2, stage := .left, received := [] }

/-- A byte arrives on the socket. -/
def receive (s : IPCSession) (b : UInt8) : IPCSession :=
  match s.stage with
  | .header =>
      if (s.received ++ [b]).length = IPCMessage.header_length then s.header_read (s.received ++ [b])
      else { s with received := s.received ++ [b] }
  | .body =>
      if (s.received ++ [b]).length = s.read_msg_.body_length_ then s.body_read (s.received ++ [b])
      else { s with received := s.received ++ [b] }
  | .left => s

/-- A segment of the stream arrives. -/
def arrive (s : IPCSession) (segment : List UInt8) : IPCSession := segment.foldl receive s

/-- `start`, or the connected client. -/
def start : IPCSession := ⟨.new, .header, [], []⟩

end IPCSession

/-- The bytes of the messages made from a sequence of strings, one after another. -/
def IPCMessage.stream (strings : List (List UInt8)) : List UInt8 :=
  strings.flatMap fun str => (make_message_by_charstring str).data

end Gvds
