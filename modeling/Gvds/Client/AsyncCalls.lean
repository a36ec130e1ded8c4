/-
Module: Gvds.Client.AsyncCalls
Layer: Client
Purpose: One client thread that calls gvdsfs_write and gvdsfs_read in async mode
  (client/gvds_fuse_impl.cc). A write goes into the queue; a read is answered from the read-ahead
  buffers or by an RPC of its own. Neither way looks at the queue.
Imports: Gvds.Client.ReadAhead
Trusted boundary: as Gvds.Client.Queue and Gvds.Client.ReadAhead; a read RPC succeeds. What the
  read-ahead buffers give for a whole request is input
Main exports: ReadRecord, State, Act, step
-/
import Gvds.Client.ReadAhead

namespace Gvds.AsyncCalls

open WriteBehind (FileName QueueConfig QueueState WriteCall)
open ReadAhead (ReadCall plainBytes)

/-- A read that has returned, with the writes called before it. -/
structure ReadRecord where
  call : ReadCall
  earlier : List WriteCall
  bytes : List UInt8

/-- The queue, the writes called so far, and the reads that have returned. -/
structure State where
  queue : QueueState
  calls : List WriteCall
  reads : List ReadRecord

/-- The client before its first call. -/
def start (cfg : QueueConfig) (files : FileName → ByteFile) : State where
  queue := WriteBehind.start cfg files
  calls := []
  reads := []

/-- A step of the queue, among them the call of a write; or a read, with the bytes that the
read-ahead buffers hold for all of its sectors, if they do. -/
inductive Act where
  | queue (a : WriteBehind.Act)
  | read (c : ReadCall) (buffered : Option (List UInt8))

/-- The call that a step of the queue is. -/
def calledBy : WriteBehind.Act → List WriteCall
  | .write c => [c]
  | .wakeUp => []
  | .swap => []
  | .handOut => []
  | .arrive _ => []
  | .complete _ => []

/-- `gvdsfs_read`, which the thread can call when it is not in `queue_buffer`. -/
def read (readahead : Nat) (s : State) (c : ReadCall) (buffered : Option (List UInt8)) :
    Option State :=
  if s.queue.waiter.isNone ∧ (buffered.isSome → readahead ≠ 0) then
    some { s with
      reads := s.reads ++ [⟨c, s.calls, buffered.getD (plainBytes s.queue.proxy c)⟩] }
  else none

/-- One step of the client and the IO proxies. -/
def step (cfg : QueueConfig) (readahead : Nat) (s : State) : Act → Option State
  | .queue a =>
      (WriteBehind.step cfg s.queue a).map fun queue =>
        { s with queue := queue, calls := s.calls ++ calledBy a }
  | .read c buffered => read readahead s c buffered

end Gvds.AsyncCalls
