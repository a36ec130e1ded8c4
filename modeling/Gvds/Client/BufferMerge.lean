/-
Module: Gvds.Client.BufferMerge
Layer: Client
Purpose: What queue_buffer does to the waiting line (client/queue.cc, common/buffer.h), with the
  widths of a buffer's fields: sizes are uint32_t and offsets are uint64_t. A buffer is appended to
  the last waiting one or pushed behind it. The node of a buffer is the one that the graph mapped its
  path to when it was written, and the merge does not look at it.
Imports: Gvds.Client.Queue, Gvds.IoProxy.FileHandler
Trusted boundary: realloc has room; the kernel passes no range that leaves loff_t. A call that finds
  the queue full waits and then pushes its buffer onto the line that it finds
Main exports: SizedBuffer, MergesSized, appendSized, queue_buffer, perform, queue_buffer_eq
-/
import Gvds.Client.Queue
import Gvds.IoProxy.FileHandler

namespace Gvds.WriteBehind

/-- A `Buffer` with the width of its size, and a range that stays in `loff_t`. -/
structure SizedBuffer extends Buffer where
  size_lt : buf.length < 2 ^ 32
  range_lt : offset + buf.length < 2 ^ 63

/-- The sum of two `uint32_t`. -/
def addU32 (a b : Nat) : Nat := (a + b) % 2 ^ 32

/-- The merge condition of `queue_buffer` in the arithmetic of the fields. -/
def MergesSized (last b : Buffer) : Prop :=
  last.path = b.path ∧ addU32 last.buf.length b.buf.length < maxMergeSize ∧
    addU64 last.offset last.buf.length = b.offset

instance (last b : Buffer) : Decidable (MergesSized last b) :=
  inferInstanceAs (Decidable (_ ∧ _ ∧ _))

/-- `Buffer::append`: the memory is resized to the sum of the sizes, in which all bytes have to find
room. -/
def appendSized (last : Buffer) (data : List UInt8) : Option Buffer :=
  if addU32 last.buf.length data.length = last.buf.length + data.length then some (last.append data)
  else none

/-- `ClientBufferQueue::queue_buffer` on the waiting line. -/
def queue_buffer (line : List Buffer) (b : Buffer) : Option (List Buffer) :=
  match line.getLast? with
  | none => some (line ++ [b])
  | some last =>
      if MergesSized last b then
        (appendSized last b.buf).map fun merged => line.dropLast ++ [merged]
      else some (line ++ [b])

/-- The files of all IO proxies after the buffers of a line have been performed in order. -/
def perform (files : FileName → ByteFile) (line : List Buffer) : FileName → ByteFile :=
  line.foldl submit files

/-- Among buffers of less than 2^31 bytes this is what `queueBuffer` does to its line, as long as the
call does not wait. -/
theorem queue_buffer_eq (cfg : QueueConfig) {s : QueueState} {b : SizedBuffer}
    (hline : ∀ b ∈ s.buf_waiting_line, b.buf.length < 2 ^ 31 ∧ b.offset + b.buf.length < 2 ^ 63)
    (hsize : b.buf.length < 2 ^ 31) (hroom : ¬ s.buf_inqueue > cfg.m_max_buf) :
    queue_buffer s.buf_waiting_line b.toBuffer =
      some (queueBuffer cfg s b.toBuffer).buf_waiting_line := by
  unfold queue_buffer queueBuffer
  cases hlast : s.buf_waiting_line.getLast? with
  | none =>
      simp only [if_neg hroom]
      rfl
  | some last =>
      obtain ⟨hshort, hrange⟩ := hline last (List.mem_of_getLast? hlast)
      have hsum : addU32 last.buf.length b.buf.length = last.buf.length + b.buf.length :=
        Nat.mod_eq_of_lt (by omega)
      have hend : addU64 last.offset last.buf.length = last.offset + last.buf.length :=
        Nat.mod_eq_of_lt (by omega)
      have hiff : MergesSized last b.toBuffer ↔ last.Merges b.toBuffer := by
        rw [MergesSized, Buffer.Merges, hsum, hend]
      simp only [hiff, appendSized, hsum, if_true, Option.map_some, if_neg hroom]
      split
      · rfl
      · rfl

end Gvds.WriteBehind
