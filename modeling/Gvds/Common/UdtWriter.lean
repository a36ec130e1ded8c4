/-
Module: Gvds.Common.UdtWriter
Layer: Common
Purpose: The thread that sends the messages of a UDT session (msg/udt_writer.cc): any number of
  producers in write, the loop in entry with its do_write rounds, and close. What UDT::send answers
  is part of the action.
Imports: Mathlib.Data.List.Basic, Mathlib.Data.Int.Notation
Trusted boundary: UDT::send takes some of the bytes it is given, from the first on, or fails; a
  thread in pthread_cond_wait may wake up at any time; the comparison of m_pending_write with the
  unsigned m_max_write is one of integers, which it is while m_pending_write is not negative
Main exports: Message, Fate, Writer, State, start, push, write, writerStep, Act, step
-/
import Mathlib.Data.List.Basic
import Mathlib.Data.Int.Notation

namespace Gvds.UdtWriter

/-- A packed reply or request. -/
abbrev Message := List UInt8

/-- What became of a message: all its bytes were sent, or the writer dropped it. -/
inductive Fate where
  | sent
  | discarded
deriving DecidableEq

/-- Where the writer thread is: at the head of the loop in `entry`; waiting on `m_cond_writer`; in
`do_write` before the swap; at the head of `_write_unsafe`; in its loop with the rest of the batch;
in the send circle with one message, of which `UDT::send` has taken `sent` bytes; gone. The flag
tells the last `do_write` of `entry`, behind the loop, from those in it. -/
inductive Writer where
  | loop
  | waiting
  | swapping (last : Bool)
  | entering (last : Bool) (q : List Message)
  | writing (last : Bool) (q : List Message)
  | sending (last : Bool) (q : List Message) (data : Message) (sent : Nat)
  | ended
deriving DecidableEq

/-- `UDTWriter`. `producers` are the threads that wait in `write` for room, with their messages.
Not in the source are `wire`, the bytes that `UDT::send` has taken; `accepted`, the messages pushed
on `m_new` so far; and `handled`, the messages the writer is done with. -/
structure State where
  m_new : List Message
  m_pending_write : Int
  m_stop : Bool
  should_close : Bool
  producers : List (Nat × Message)
  writer : Writer
  wire : List UInt8
  accepted : List Message
  handled : List (Message × Fate)

/-- `UDTWriter::start`. -/
def start : State where
  m_new := []
  m_pending_write := 0
  m_stop := false
  should_close := false
  producers := []
  writer := .loop
  wire := []
  accepted := []
  handled := []

/-- `m_max_write` as `start` sets it. -/
def m_max_write : Int := 20

/-- The end of `write`. -/
def push (s : State) (data : Message) : State :=
  { s with
    m_new := s.m_new ++ [data]
    m_pending_write := s.m_pending_write + 1
    accepted := s.accepted ++ [data] }

/-- The threads that wait in `write`. -/
def blocked (s : State) : List Nat := s.producers.map Prod.fst

/-- `write`, up to its first wait. -/
def write (s : State) (producer : Nat) (data : Message) : State :=
  if s.m_pending_write > m_max_write then
    { s with producers := s.producers ++ [(producer, data)] }
  else push s data

/-- A producer that waits looks at the counter again. -/
def wake (s : State) (producer : Nat) (data : Message) : State :=
  if s.m_pending_write > m_max_write then s
  else push { s with producers := s.producers.filter fun w => w.1 ≠ producer } data

/-- Where the writer thread goes after `do_write`. -/
def back : Bool → Writer
  | true => .ended
  | false => .loop

/-- The writer is done with some messages without sending them. -/
def discard (s : State) (q : List Message) : State :=
  { s with handled := s.handled ++ q.map fun data => (data, .discarded) }

/-- One step of the writer thread. `ss` is what `UDT::send` answers, should the step call it; the
answer `none` is `UDT::ERROR`. -/
def writerStep (s : State) (ss : Option Nat) : Option State :=
  match s.writer with
  | .loop =>
      if s.m_stop then some { s with writer := .swapping true }
      else if s.m_new.isEmpty then some { s with writer := .waiting }
      else some { s with writer := .swapping false }
  | .waiting => some { s with writer := .loop }
  | .swapping last => some { s with m_new := [], writer := .entering last s.m_new }
  | .entering last q =>
      if s.should_close then some { discard s q with writer := back last }
      else some { s with writer := .writing last q }
  | .writing last [] => some { s with writer := back last }
  | .writing last (data :: q) =>
      some { s with
        m_pending_write := s.m_pending_write - 1
        writer := .sending last q data 0 }
  | .sending last q data sent =>
      if sent < data.length then
        match ss with
        | none =>
            -- The rest of the batch goes with the message: the local queue is destroyed.
            some { discard s (data :: q) with should_close := true, writer := back last }
        | some ss =>
            if ss ≤ data.length - sent then
              some { s with
                wire := s.wire ++ (data.drop sent).take ss
                writer := .sending last q data (sent + ss) }
            else none
      else some { s with handled := s.handled ++ [(data, .sent)], writer := .writing last q }
  | .ended => none

/-- What may happen: a thread calls `write`; a thread that waits there looks again; somebody calls
`close`; the writer thread makes a step. -/
inductive Act where
  | write (producer : Nat) (data : Message)
  | wake (producer : Nat)
  | close
  | writer (ss : Option Nat)
deriving DecidableEq

/-- One step of the session. A thread that waits in `write` makes no other call. -/
def step (s : State) : Act → Option State
  | .write producer data =>
      if producer ∈ blocked s then none else some (write s producer data)
  | .wake producer => (s.producers.lookup producer).map fun data => wake s producer data
  | .close => some { s with m_stop := true }
  | .writer ss => writerStep s ss

/-- The message in the send circle. -/
def Writer.underWay : Writer → List Message
  | .sending _ _ data _ => [data]
  | .loop => []
  | .waiting => []
  | .swapping _ => []
  | .entering _ _ => []
  | .writing _ _ => []
  | .ended => []

/-- The messages of the batch behind it. -/
def Writer.batch : Writer → List Message
  | .entering _ q => q
  | .writing _ q => q
  | .sending _ q _ _ => q
  | .loop => []
  | .waiting => []
  | .swapping _ => []
  | .ended => []

/-- The bytes of the message in the send circle that `UDT::send` has taken. -/
def Writer.progress : Writer → List UInt8
  | .sending _ _ data sent => data.take sent
  | .loop => []
  | .waiting => []
  | .swapping _ => []
  | .entering _ _ => []
  | .writing _ _ => []
  | .ended => []

/-- The writer is in the loop of `_write_unsafe`. -/
def Writer.inLoop : Writer → Bool
  | .writing _ _ => true
  | .sending _ _ _ _ => true
  | .loop => false
  | .waiting => false
  | .swapping _ => false
  | .entering _ _ => false
  | .ended => false

@[simp] theorem underWay_back (last : Bool) : (back last).underWay = [] := by
  cases last <;> rfl

@[simp] theorem batch_back (last : Bool) : (back last).batch = [] := by
  cases last <;> rfl

@[simp] theorem progress_back (last : Bool) : (back last).progress = [] := by
  cases last <;> rfl

@[simp] theorem inLoop_back (last : Bool) : (back last).inLoop = false := by
  cases last <;> rfl

/-- The messages that were sent, in the order in which they were. -/
def sent (s : State) : List Message :=
  (s.handled.filter fun h => h.2 = .sent).map Prod.fst

/-- How many messages were accepted and neither sent nor discarded. A message counts as sent from
when the writer takes it out of its batch to send it. -/
def unsettled (s : State) : Int :=
  s.accepted.length - s.handled.length - s.writer.underWay.length

end Gvds.UdtWriter
