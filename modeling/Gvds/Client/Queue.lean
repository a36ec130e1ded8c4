/-
Module: Gvds.Client.Queue
Layer: Client
Purpose: The write-behind queue of the client in async mode (client/queue.cc,
  client/client_worker.cc and the async branch of gvdsfs_write). A call is copied into a buffer that
  is merged into the last waiting one or queued; the dispatcher swaps the waiting line out and hands
  its buffers to idle workers; each worker submits its buffer by itself, so the writes reach the IO
  proxies in any order.
Imports: Gvds.Lib.WriteLog, Mathlib.Algebra.Order.Ring.Nat
Trusted boundary: the RPC layer delivers every submitted write once; gRPC channels and UDT sessions
  do not order the writes of different workers
Main exports: WriteCall, Buffer, QueueConfig, QueueState, queueBuffer, step
-/
import Gvds.Lib.WriteLog
import Mathlib.Algebra.Order.Ring.Nat

namespace Gvds.WriteBehind

/-- `MAX_MERGE_SIZE`. -/
def maxMergeSize : Nat := 1048576

/-- A file of an IO proxy: the node and the path on it. -/
abbrev FileName := Nat × String

/-- The arguments of `gvdsfs_write`, with the node and the path that `get_mapping` resolves its path
to. The path is never empty, it begins with the space's; the kernel passes at most 2^31 bytes at
once and no range that leaves `loff_t`. -/
structure WriteCall where
  iop : Nat
  rpath : String
  buf : List UInt8
  offset : Nat
  rpath_ne : rpath ≠ ""
  size_lt : buf.length < 2 ^ 31
  range_lt : offset + buf.length < 2 ^ 63

/-- `gvds::Buffer`, as `gvdsfs_write` fills it in. -/
structure Buffer where
  path : String
  buf : List UInt8
  offset : Nat
  dest : Nat
deriving DecidableEq

/-- The write that a buffer stands for at its IO proxy. -/
def Buffer.toWrite (b : Buffer) : FileWrite FileName := ⟨(b.dest, b.path), b.offset, b.buf⟩

/-- The configured sizes `client.max_queue` and `client.onlink`, and the transport. -/
structure QueueConfig where
  m_max_buf : Int
  m_max_worker : Nat
  use_udt : Bool

/-- `ClientBufferQueue` with its workers, the calling thread and the IO proxies. `waiter` is the
buffer of a call that waits in `queue_buffer` for room; `dispatching` is the local queue of
`_dispatch`; `processing` holds the buffers of busy workers whose write has not reached its proxy,
in the order in which they were handed out, and `replied` the sizes of those whose write has. -/
structure QueueState where
  waiter : Option Buffer
  buf_waiting_line : List Buffer
  dispatching : List Buffer
  idle_worker_num : Nat
  processing : List Buffer
  replied : List Nat
  buf_onlink : Nat
  buf_inqueue : Int
  proxy : FileName → ByteFile

/-- `ClientBufferQueue::start`: eight schedulers, each with an eighth of the workers. -/
def start (cfg : QueueConfig) (files : FileName → ByteFile) : QueueState where
  waiter := none
  buf_waiting_line := []
  dispatching := []
  idle_worker_num := 8 * (cfg.m_max_worker / 8)
  processing := []
  replied := []
  buf_onlink := 0
  buf_inqueue := 0
  proxy := files

/-- The merge condition of `queue_buffer`: same path, adjacent, and small enough together. The nodes
are not compared. -/
def Buffer.Merges (last b : Buffer) : Prop :=
  last.path = b.path ∧ last.buf.length + b.buf.length < maxMergeSize ∧
    last.offset + last.buf.length = b.offset

instance (last b : Buffer) : Decidable (last.Merges b) :=
  inferInstanceAs (Decidable (_ ∧ _ ∧ _))

/-- `Buffer::append`. -/
def Buffer.append (last : Buffer) (data : List UInt8) : Buffer :=
  { last with buf := last.buf ++ data }

/-- The end of `queue_buffer`: push the buffer. -/
def pushBuffer (s : QueueState) (b : Buffer) : QueueState :=
  { s with
    waiter := none
    buf_waiting_line := s.buf_waiting_line ++ [b]
    buf_inqueue := s.buf_inqueue + b.buf.length }

/-- `ClientBufferQueue::queue_buffer`: merge into the last waiting buffer, or wait for the
dispatcher to catch up, or push. -/
def queueBuffer (cfg : QueueConfig) (s : QueueState) (b : Buffer) : QueueState :=
  match s.buf_waiting_line.getLast? with
  | some last =>
      if last.Merges b then
        { s with
          buf_waiting_line := s.buf_waiting_line.dropLast ++ [last.append b.buf]
          buf_inqueue := s.buf_inqueue + b.buf.length }
      else if s.buf_inqueue > cfg.m_max_buf then { s with waiter := some b }
      else pushBuffer s b
  | none =>
      if s.buf_inqueue > cfg.m_max_buf then { s with waiter := some b } else pushBuffer s b

/-- The buffer that the async branch of `gvdsfs_write` builds. -/
def WriteCall.toBuffer (c : WriteCall) : Buffer := ⟨c.rpath, c.buf, c.offset, c.iop⟩

/-- `Processing::Processing` as far as the files go: a buffer with an empty path is a fake one, any
other is a write at its IO proxy. -/
def submit (files : FileName → ByteFile) (b : Buffer) : FileName → ByteFile :=
  if b.path = "" then files else b.toWrite.apply files

/-- What `Processing::react(BufferComplete)` reads as the size of the buffer: the conversion to a
UDT request has moved the bytes out. -/
def repliedSize (cfg : QueueConfig) (b : Buffer) : Nat :=
  if cfg.use_udt then 0 else b.buf.length

/-- What can happen next: the client thread makes a call, or wakes up in one; the dispatcher swaps
the waiting line out or hands a buffer to an idle worker; the `i`-th write on its way reaches its IO
proxy; a worker handles the completion. -/
inductive Act where
  | write (c : WriteCall)
  | wakeUp
  | swap
  | handOut
  | arrive (i : Nat)
  | complete (i : Nat)

/-- One step of the client and the IO proxies. -/
def step (cfg : QueueConfig) (s : QueueState) : Act → Option QueueState
  | .write c =>
      match s.waiter with
      | none => some (queueBuffer cfg s c.toBuffer)
      | some _ => none
  | .wakeUp =>
      match s.waiter with
      | none => none
      | some b => if s.buf_inqueue > cfg.m_max_buf then none else some (pushBuffer s b)
  | .swap =>
      match s.dispatching, s.buf_waiting_line with
      | [], b :: bs => some { s with dispatching := b :: bs, buf_waiting_line := [] }
      | _, _ => none
  | .handOut =>
      match s.dispatching, s.idle_worker_num with
      | b :: bs, idle + 1 =>
          some { s with
            dispatching := bs
            idle_worker_num := idle
            processing := s.processing ++ [b]
            buf_onlink := s.buf_onlink + 1 }
      | _, _ => none
  | .arrive i =>
      match s.processing[i]? with
      | none => none
      | some b =>
          some { s with
            processing := s.processing.eraseIdx i
            replied := s.replied ++ [repliedSize cfg b]
            proxy := submit s.proxy b }
  | .complete i =>
      match s.replied[i]? with
      | none => none
      | some size =>
          some { s with
            replied := s.replied.eraseIdx i
            idle_worker_num := s.idle_worker_num + 1
            buf_onlink := s.buf_onlink - 1
            buf_inqueue := s.buf_inqueue - size }

end Gvds.WriteBehind
