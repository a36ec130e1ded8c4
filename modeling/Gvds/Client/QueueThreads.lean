/-
Module: Gvds.Client.QueueThreads
Layer: Client
Purpose: The threads of the write-behind queue (client/queue.cc, client/client_worker.cc): any
  number of callers of queue_buffer, the dispatcher thread with its loop in entry, the workers, and
  stop. Every call has a number, and every buffer carries the numbers of the calls merged into it,
  so that one can ask where a call's bytes have gone.
Imports: Gvds.Client.Queue
Trusted boundary: as Gvds.Client.Queue; a thread in pthread_cond_wait may wake up at any time
Main exports: Queued, Dispatcher, State, submitted, callsIn, taken, Act, step
-/
import Gvds.Client.Queue

namespace Gvds.QueueThreads

open WriteBehind (Buffer QueueConfig WriteCall repliedSize)

/-- A buffer in the queue with the numbers of the calls whose bytes it holds. The numbers are not in
the source. -/
structure Queued where
  buffer : Buffer
  calls : List Nat
deriving DecidableEq

/-- Where the dispatcher thread is: at the head of the loop in `entry`; waiting on
`m_cond_dispatcher`; in `_dispatch` before the swap; in `_dispatch_unsafe` with the rest of its
local queue; gone. -/
inductive Dispatcher where
  | loop
  | waiting
  | swapping
  | dispatching (t : List Queued)
  | ended
deriving DecidableEq

/-- `ClientBufferQueue` with its threads. `waiters` are the calls that wait for room, with their
buffers; `assigned` holds the buffers whose `BufferQueued` event a worker has not seen yet,
`processing` those whose worker waits for `BufferComplete`. Not in the source are `calls`, the
buffers of all calls so far in the order of their numbers; `accepted`, the calls with bytes that
`queue_buffer` took before `stop`; `handed`, every buffer given to a worker; and `begun`, every
buffer for which a worker entered `Processing`. -/
structure State where
  waiters : List (Nat × Buffer)
  buf_waiting_line : List Queued
  dispatcher : Dispatcher
  m_stop : Bool
  idle_worker_num : Nat
  assigned : List Queued
  processing : List Queued
  buf_onlink : Int
  buf_inqueue : Int
  calls : List Buffer
  accepted : List Nat
  handed : List Queued
  begun : List Queued

/-- `ClientBufferQueue::start`. -/
def start (cfg : QueueConfig) : State where
  waiters := []
  buf_waiting_line := []
  dispatcher := .loop
  m_stop := false
  idle_worker_num := 8 * (cfg.m_max_worker / 8)
  assigned := []
  processing := []
  buf_onlink := 0
  buf_inqueue := 0
  calls := []
  accepted := []
  handed := []
  begun := []

/-- The buffers that workers have submitted to an IO proxy: a buffer with an empty path is a fake
one, for which the worker runs its callback only. -/
def submitted (s : State) : List Queued := s.begun.filter fun q => q.buffer.path ≠ ""

/-- The rest of the dispatcher's local queue. -/
def Dispatcher.batch : Dispatcher → List Queued
  | .dispatching t => t
  | .loop => []
  | .waiting => []
  | .swapping => []
  | .ended => []

/-- The numbers of the calls in some buffers. -/
def callsIn (qs : List Queued) : List Nat := qs.flatMap Queued.calls

/-- The buffers that are in the queue or were handed to a worker. -/
def taken (s : State) : List Queued :=
  s.handed ++ (s.dispatcher.batch ++ s.buf_waiting_line)

/-- `queue_buffer` returns for a call: it is accepted, unless it is empty or the queue was
stopped. -/
def accept (s : State) (b : Buffer) (call : Nat) : State :=
  if s.m_stop || b.buf.isEmpty then s else { s with accepted := s.accepted ++ [call] }

/-- The end of `queue_buffer`. -/
def push (s : State) (b : Buffer) (call : Nat) : State :=
  accept { s with
    buf_waiting_line := s.buf_waiting_line ++ [⟨b, [call]⟩]
    buf_inqueue := s.buf_inqueue + b.buf.length } b call

/-- A merge in `queue_buffer`. -/
def merge (s : State) (last : Queued) (b : Buffer) (call : Nat) : State :=
  accept { s with
    buf_waiting_line := s.buf_waiting_line.dropLast ++
      [⟨last.buffer.append b.buf, last.calls ++ [call]⟩]
    buf_inqueue := s.buf_inqueue + b.buf.length } b call

/-- The part of `queue_buffer` behind the attempt to merge. -/
def waitOrPush (cfg : QueueConfig) (s : State) (b : Buffer) (call : Nat) (block : Bool) : State :=
  if s.buf_inqueue > cfg.m_max_buf ∧ block then
    { s with waiters := s.waiters ++ [(call, b)] }
  else push s b call

/-- `queue_buffer`, called with a new number. -/
def queue_buffer (cfg : QueueConfig) (s : State) (b : Buffer) (block : Bool) : State :=
  let call := s.calls.length
  let s := { s with calls := s.calls ++ [b] }
  match s.buf_waiting_line.getLast? with
  | some last =>
      if last.buffer.Merges b then merge s last b call else waitOrPush cfg s b call block
  | none => waitOrPush cfg s b call block

/-- The buffer of `block_on_last`. -/
def fakeBuffer : Buffer := ⟨"", [], 0, 0⟩

/-- What can happen next: a thread calls `gvdsfs_write` in async mode or `block_on_last`; the `i`-th
waiting call wakes up; another thread calls `stop`; the dispatcher thread goes on; the `i`-th worker
with a buffer sees its `BufferQueued` event, or its `BufferComplete` event. -/
inductive Act where
  | write (c : WriteCall)
  | blockOnLast
  | wakeUp (i : Nat)
  | stop
  | dispatch
  | process (i : Nat)
  | complete (i : Nat)

/-- One step of the dispatcher thread. In its loop it leaves if the queue was stopped, without
another look at the waiting line; it returns to the loop when its local queue is empty; it cannot go
on with a buffer while every worker is busy. -/
def dispatch (s : State) : Option State :=
  match s.dispatcher with
  | .loop =>
      if s.m_stop then some { s with dispatcher := .ended }
      else if s.buf_waiting_line = [] then some { s with dispatcher := .waiting }
      else some { s with dispatcher := .swapping }
  | .waiting => some { s with dispatcher := .loop }
  | .swapping =>
      some { s with dispatcher := .dispatching s.buf_waiting_line, buf_waiting_line := [] }
  | .dispatching [] => some { s with dispatcher := .loop }
  | .dispatching (q :: t) =>
      if s.idle_worker_num = 0 then none
      else some { s with
        dispatcher := .dispatching t
        idle_worker_num := s.idle_worker_num - 1
        buf_onlink := s.buf_onlink + 1
        assigned := s.assigned ++ [q]
        handed := s.handed ++ [q] }
  | .ended => none

/-- One step of the client. -/
def step (cfg : QueueConfig) (s : State) : Act → Option State
  | .write c => some (queue_buffer cfg s c.toBuffer true)
  | .blockOnLast => if s.buf_onlink = 0 then some s else some (queue_buffer cfg s fakeBuffer false)
  | .wakeUp i =>
      s.waiters[i]?.bind fun w =>
        if s.buf_inqueue > cfg.m_max_buf then none
        else some (push { s with waiters := s.waiters.eraseIdx i } w.2 w.1)
  | .stop => some { s with m_stop := true }
  | .dispatch => dispatch s
  | .process i =>
      s.assigned[i]?.map fun q =>
        { s with
          assigned := s.assigned.eraseIdx i
          processing := s.processing ++ [q]
          begun := s.begun ++ [q] }
  | .complete i =>
      s.processing[i]?.map fun q =>
        { s with
          processing := s.processing.eraseIdx i
          idle_worker_num := s.idle_worker_num + 1
          buf_onlink := s.buf_onlink - 1
          buf_inqueue := s.buf_inqueue - repliedSize cfg q.buffer }

end Gvds.QueueThreads
