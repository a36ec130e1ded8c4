/-
Module: Gvds.Proofs.MergedWrites
Layer: Proofs
Purpose: The waiting line after queue_buffer against the line before it and the new buffer behind it.
  A merged buffer goes to the node of the earlier one, so where the graph has mapped the path to
  another node in between, the line does the same only if every new byte is already written at both
  nodes.
Imports: Gvds.Client.BufferMerge
Trusted boundary: as Gvds.Client.BufferMerge; a performed buffer is one write of its bytes at its
  offset
Main exports: perform_eq_apply, perform_merged_iff, PreservesWrites, SafeMerge,
  queue_buffer_preserves_iff, merged_write_goes_astray
-/
import Gvds.Client.BufferMerge

namespace Gvds.WriteBehind

variable {line : List Buffer} {last b : Buffer}

/-! ### Lines as logs of writes -/

/-- The writes of a line: the buffers that are no fake ones. -/
def writes (line : List Buffer) : List (FileWrite FileName) :=
  (line.filter fun b => b.path ≠ "").map Buffer.toWrite

/-- A line does what the log of its writes does. -/
theorem perform_eq_apply (files : FileName → ByteFile) (line : List Buffer) :
    perform files line = WriteLog.apply files (writes line) := by
  induction line generalizing files with
  | nil => rfl
  | cons b line ih =>
      rw [perform, List.foldl_cons, ← perform, ih]
      by_cases hfake : b.path = ""
      · simp [submit, writes, hfake]
      · simp [submit, writes, hfake]

theorem perform_append (files : FileName → ByteFile) (line rest : List Buffer) :
    perform files (line ++ rest) = perform (perform files line) rest :=
  List.foldl_append

/-- A buffer that is no fake one is a write. -/
theorem perform_singleton (files : FileName → ByteFile) (hpath : b.path ≠ "") :
    perform files [b] = b.toWrite.apply files := by
  simp [perform, submit, hpath]

/-- Appending writes the new bytes behind the old ones, at the node of the old ones. -/
theorem apply_append_toWrite (files : FileName → ByteFile) (last : Buffer) (data : List UInt8) :
    (last.append data).toWrite.apply files =
      FileWrite.apply (last.toWrite.apply files)
        ⟨(last.dest, last.path), last.offset + last.buf.length, data⟩ :=
  FileWrite.apply_append files _ _ _ _

/-- A write at one node does what the same write at another node does, behind a log, exactly if it
changes nothing at either. -/
theorem apply_eq_apply_iff {log : List (FileWrite FileName)} {m n : FileName} (hne : m ≠ n)
    {off : Nat} {data : List UInt8} :
    (∀ files, FileWrite.apply (WriteLog.apply files log) ⟨m, off, data⟩ =
        FileWrite.apply (WriteLog.apply files log) ⟨n, off, data⟩) ↔
      (∀ files, (WriteLog.apply files log m).write off data = WriteLog.apply files log m) ∧
        ∀ files, (WriteLog.apply files log n).write off data = WriteLog.apply files log n := by
  constructor
  · intro h
    constructor
    · intro files
      have hm := congrFun (h files) m
      rwa [FileWrite.apply, FileWrite.apply, Function.update_self,
        Function.update_of_ne hne] at hm
    · intro files
      have hn := congrFun (h files) n
      rw [FileWrite.apply, FileWrite.apply, Function.update_self,
        Function.update_of_ne (Ne.symm hne)] at hn
      exact hn.symm
  · rintro ⟨hm, hn⟩ files
    simp only [FileWrite.apply, hm files, hn files, Function.update_eq_self]

/-! ### Merged buffers -/

/-- Every byte of `b` is the last one that the line writes there at node `dest`. -/
def AlreadyWritten (line : List Buffer) (dest : Nat) (b : Buffer) : Prop :=
  ∀ k, k < b.buf.length →
    WriteLog.lastByte (writes line) (dest, b.path) (b.offset + k) = some (b.buf.getD k 0)

/-- A line that ends in the merged buffer does what the line and the new buffer do, exactly if both
go to one node or every new byte is already written at both. -/
theorem perform_merged_iff (hlast : line.getLast? = some last) (hpath : b.path ≠ "")
    (hsame : last.path = b.path) (hoffset : last.offset + last.buf.length = b.offset) :
    (∀ files, perform files (line.dropLast ++ [last.append b.buf]) =
        submit (perform files line) b) ↔
      last.dest = b.dest ∨ (AlreadyWritten line last.dest b ∧ AlreadyWritten line b.dest b) := by
  have hmerged : ∀ files, perform files (line.dropLast ++ [last.append b.buf]) =
      FileWrite.apply (WriteLog.apply files (writes line)) ⟨(last.dest, b.path), b.offset, b.buf⟩ := by
    intro files
    have hlastPath : last.path ≠ "" := hsame ▸ hpath
    have hline : perform files line =
        last.toWrite.apply (perform files line.dropLast) := by
      conv_lhs => rw [← List.dropLast_append_getLast? last hlast]
      rw [perform_append, perform_singleton _ hlastPath]
    rw [perform_append, perform_singleton _ (by exact hlastPath), apply_append_toWrite, ← hline,
      perform_eq_apply, hsame, hoffset]
  have hnew : ∀ files, submit (perform files line) b =
      FileWrite.apply (WriteLog.apply files (writes line)) ⟨(b.dest, b.path), b.offset, b.buf⟩ := by
    intro files
    rw [submit, if_neg hpath, perform_eq_apply]
    rfl
  simp only [hmerged, hnew]
  by_cases hdest : last.dest = b.dest
  · rw [hdest]
    exact ⟨fun _ => Or.inl rfl, fun _ _ => rfl⟩
  · have hne : ((last.dest, b.path) : FileName) ≠ (b.dest, b.path) := by
      intro heq
      exact hdest (Prod.mk.inj heq).1
    rw [apply_eq_apply_iff hne, WriteLog.write_apply_eq_self_iff, WriteLog.write_apply_eq_self_iff]
    exact ⟨fun h => Or.inr h, fun h => h.resolve_left hdest⟩

/-! ### The waiting line after queue_buffer -/

/-- `queue_buffer` returns, the line does what the old line and the new buffer do, and no merged
buffer has reached `MAX_MERGE_SIZE`. -/
def PreservesWrites (line : List SizedBuffer) (b : SizedBuffer) : Prop :=
  ∃ line', queue_buffer (line.map SizedBuffer.toBuffer) b.toBuffer = some line' ∧
    (∀ files, perform files line' =
      submit (perform files (line.map SizedBuffer.toBuffer)) b.toBuffer) ∧
    ∀ last, line.getLast? = some last → MergesSized last.toBuffer b.toBuffer →
      (last.append b.buf).buf.length < maxMergeSize

/-- If the new buffer is merged then the sum of the sizes has 32 bits, and both buffers go to one
node or every new byte is already written at both. -/
def SafeMerge (line : List SizedBuffer) (b : SizedBuffer) : Prop :=
  ∀ last, line.getLast? = some last → last.path = b.path →
    addU32 last.buf.length b.buf.length < maxMergeSize →
    last.offset + last.buf.length = b.offset →
      last.buf.length + b.buf.length < 2 ^ 32 ∧
        (last.dest = b.dest ∨
          (AlreadyWritten (line.map SizedBuffer.toBuffer) last.dest b.toBuffer ∧
            AlreadyWritten (line.map SizedBuffer.toBuffer) b.dest b.toBuffer))

/-- A pushed buffer is performed behind the line. -/
theorem perform_pushed (files : FileName → ByteFile) (line : List Buffer) (b : Buffer) :
    perform files (line ++ [b]) = submit (perform files line) b := by
  rw [perform_append]
  rfl

/-- A line whose last buffer does not merge with the new one keeps its writes. -/
theorem preservesWrites_of_not_merges {line : List SizedBuffer} {b : SizedBuffer}
    (hno : ∀ last, line.getLast? = some last → ¬ MergesSized last.toBuffer b.toBuffer) :
    PreservesWrites line b := by
  refine ⟨line.map SizedBuffer.toBuffer ++ [b.toBuffer], ?_,
    fun files => perform_pushed files _ _, fun last hlast hmerge => absurd hmerge (hno last hlast)⟩
  rw [queue_buffer, List.getLast?_map]
  cases hlast : line.getLast? with
  | none => rfl
  | some last => simp only [Option.map_some, if_neg (hno last hlast)]

/-- A sized buffer ends where its offset and its length say; the sum does not wrap. -/
theorem SizedBuffer.addU64_eq (b : SizedBuffer) :
    addU64 b.offset b.buf.length = b.offset + b.buf.length := by
  have hrange := b.range_lt
  exact Nat.mod_eq_of_lt (by omega)

/-- The sum of two sizes keeps its value exactly if it has 32 bits. -/
theorem addU32_eq_iff {m n : Nat} : addU32 m n = m + n ↔ m + n < 2 ^ 32 := by
  unfold addU32
  omega

/-- A line whose last buffer merges with the new one keeps its writes exactly if the sum of the
sizes has 32 bits, and the merged buffer does what the two do. -/
theorem preservesWrites_of_merges_iff {line : List SizedBuffer} {last b : SizedBuffer}
    (hlast : line.getLast? = some last) (hmerge : MergesSized last.toBuffer b.toBuffer) :
    PreservesWrites line b ↔
      last.buf.length + b.buf.length < 2 ^ 32 ∧
        ∀ files, perform files
            ((line.map SizedBuffer.toBuffer).dropLast ++ [last.toBuffer.append b.buf]) =
          submit (perform files (line.map SizedBuffer.toBuffer)) b.toBuffer := by
  have hqueue : queue_buffer (line.map SizedBuffer.toBuffer) b.toBuffer =
      (appendSized last.toBuffer b.buf).map fun merged =>
        (line.map SizedBuffer.toBuffer).dropLast ++ [merged] := by
    have hlastMap : (line.map SizedBuffer.toBuffer).getLast? = some last.toBuffer := by
      rw [List.getLast?_map, hlast, Option.map_some]
    simp only [queue_buffer, hlastMap, if_pos hmerge]
  constructor
  · rintro ⟨line', hline', hperform, -⟩
    rw [hqueue] at hline'
    obtain ⟨merged, happend, rfl⟩ := Option.map_eq_some_iff.mp hline'
    unfold appendSized at happend
    split at happend
    next hsum =>
      cases happend
      exact ⟨addU32_eq_iff.mp hsum, hperform⟩
    next => cases happend
  · rintro ⟨hsum, hperform⟩
    have hwidth := addU32_eq_iff.mpr hsum
    have happend : appendSized last.toBuffer b.buf = some (last.append b.buf) := if_pos hwidth
    refine ⟨_, by rw [hqueue, happend]; rfl, hperform, ?_⟩
    intro last' hlast' _
    rw [hlast] at hlast'
    cases hlast'
    have hlen : (last.append b.buf).buf.length = last.buf.length + b.buf.length :=
      List.length_append
    rw [hlen, ← hwidth]
    exact hmerge.2.1

/-- For every waiting line and every buffer with a path: `queue_buffer` preserves the writes if and
only if the merge, where there is one, is safe. -/
theorem queue_buffer_preserves_iff (line : List SizedBuffer) (b : SizedBuffer)
    (hpath : b.path ≠ "") : PreservesWrites line b ↔ SafeMerge line b := by
  by_cases hmerges : ∃ last, line.getLast? = some last ∧ MergesSized last.toBuffer b.toBuffer
  · obtain ⟨last, hlast, hmerge⟩ := hmerges
    obtain ⟨hsame, hsize, hoffset⟩ := id hmerge
    rw [last.addU64_eq] at hoffset
    have hlastMap : (line.map SizedBuffer.toBuffer).getLast? = some last.toBuffer := by
      rw [List.getLast?_map, hlast, Option.map_some]
    rw [preservesWrites_of_merges_iff hlast hmerge,
      perform_merged_iff hlastMap hpath hsame hoffset]
    constructor
    · intro hsafe last' hlast' _ _ _
      rw [hlast] at hlast'
      cases hlast'
      exact hsafe
    · intro hsafe
      exact hsafe last hlast hsame hsize hoffset
  · have hno : ∀ last, line.getLast? = some last → ¬ MergesSized last.toBuffer b.toBuffer :=
      fun last hlast hmerge => hmerges ⟨last, hlast, hmerge⟩
    refine ⟨fun _ last hlast hsame hsize hoffset => ?_, fun _ => preservesWrites_of_not_merges hno⟩
    exact absurd ⟨hsame, hsize, last.addU64_eq.trans hoffset⟩ (hno last hlast)

theorem byteBuffer_range {offset : Nat} (byte : UInt8) (h : offset < 2 ^ 32) :
    offset + [byte].length < 2 ^ 63 := by
  rw [List.length_singleton]
  omega

/-- A buffer of one byte of the file `s/f`. -/
def byteBuffer (dest offset : Nat) (byte : UInt8) (h : offset < 2 ^ 32) : SizedBuffer where
  path := "s/f"
  buf := [byte]
  offset := offset
  dest := dest
  size_lt := by simp only [List.length_singleton]; omega
  range_lt := byteBuffer_range byte h

/-- Two bytes for one node. -/
theorem queue_buffer_preserves_iff_bytes :
    PreservesWrites [byteBuffer 1 0 7 (by decide)] (byteBuffer 1 1 8 (by decide)) ↔
      SafeMerge [byteBuffer 1 0 7 (by decide)] (byteBuffer 1 1 8 (by decide)) :=
  queue_buffer_preserves_iff [byteBuffer 1 0 7 (by decide)] (byteBuffer 1 1 8 (by decide)) (by decide)

/-- The path was mapped to node 1 for the first byte and to node 2 for the second one; both are
written at node 1. -/
theorem merged_write_goes_astray :
    ¬ ∀ (line : List SizedBuffer) (b : SizedBuffer), b.path ≠ "" → PreservesWrites line b := by
  intro h
  obtain ⟨line', hline', hperform, -⟩ :=
    h [byteBuffer 1 0 7 (by decide)] (byteBuffer 2 1 8 (by decide)) (by decide)
  cases hline'
  have hfile := congrFun (hperform fun _ => ByteFile.empty) (2, "s/f")
  have hbyte := congrArg (fun f => f.byte 1) hfile
  revert hbyte
  decide

end Gvds.WriteBehind
