/-
Module: Gvds.IoProxy.FileSync
Layer: IoProxy
Purpose: Both ends of a rep_sync_data request (io_proxy/replica_mgr.cc). The peer reads the data
  ranges of its copy one after another into one string and lists their offsets and sizes. The center
  that asked walks through that list with an int as its cursor into the string and writes each piece
  into its own copy; it asks all peers one after another and writes every answer.
Imports: Gvds.IoProxy.RangeScan, Gvds.IoProxy.CenterIds, Gvds.Lib.WriteLog
Trusted boundary: pread transfers between one byte and 0x7ffff000 of what is asked below the end of
  the file, or fails; pwrite transfers as much and refuses a range beyond off_t; the local file
  system has room. Bytes outside a string are arbitrary
Main exports: PreadAnswer, readCount, SyncReply, readRanges, MaxSize, handle_file_sync_data, advance,
  syncWrites, ReadsInside, sync_filedata
-/
import Gvds.IoProxy.RangeScan
import Gvds.IoProxy.CenterIds
import Gvds.Lib.WriteLog

namespace Gvds.FileSync

open HvsFileHandler (DiskFile findHolesLoop findDataLoop)
open ReplicaQueue (toId)

/-! ### The peer -/

/-- What a `pread` of the handler answers: an error, or all but so many of the bytes asked for. -/
inductive PreadAnswer where
  | fails (errno : {n : Nat // n ≠ 0})
  | reads (missing : Nat)
deriving DecidableEq

/-- The most that one `pread` or `pwrite` transfers. -/
def maxRwCount : Nat := 0x7ffff000

/-- The bytes that a `pread` of `n` bytes below the end of the file transfers: at least one. -/
def readCount (n : Nat) : PreadAnswer → Nat
  | .fails _ => 0
  | .reads missing => min n (max 1 (min (n - missing) maxRwCount))

/-- The fields of `OpReply` that rep_sync_data uses. -/
structure SyncReply where
  io_params : List (Nat × Nat)
  data : List UInt8
  err_code : Int
deriving DecidableEq

variable {B : Nat}

/-- The loop of `_handle_file_sync_data` over the data ranges; what is in the reply so far is also
what is in `buf` below `cursor`. There is no value where it reads past the end of `buf`. -/
def readRanges (f : DiskFile B) (answers : Nat → PreadAnswer) (len : Nat) :
    List (Nat × Nat) → Nat → SyncReply → Option SyncReply
  | [], _, reply => some reply
  | (off1, off2) :: data_ranges, i, reply =>
      match answers i with
      | .fails errno => some { reply with data := [], err_code := -(errno.val : Int) }
      | .reads missing =>
          let ret := readCount (off2 - off1) (.reads missing)
          if len < reply.data.length + ret then none
          else
            readRanges f answers len data_ranges (i + 1)
              { reply with
                io_params := reply.io_params ++ [(off1, ret)]
                data := reply.data ++ f.read off1 ret }

/-- `std::string::max_size()`: lengths are differences of pointers. -/
abbrev MaxSize := {n : Nat // n < 2 ^ 63}

/-- `ReplicaMgr::_handle_file_sync_data`. There is no value while the scan is running, and where
`buf->resize(len)` throws. -/
def handle_file_sync_data (f : DiskFile B) (max_size : MaxSize) (answers : Nat → PreadAnswer)
    (rounds off len : Nat) : Option SyncReply :=
  (findDataLoop f (min (addU64 off len) f.size) rounds off).bind fun data_ranges =>
    if max_size.val < len then none
    else readRanges f answers len data_ranges 0 ⟨[], [], 0⟩

/-! ### The center that asks -/

/-- `cursor += size`: an `int` plus a `uint64_t`, kept in the `int`. -/
def advance (cursor : Int) (size : Nat) : Int := Int.bmod (cursor + size) (2 ^ 32)

/-- The byte at `data.c_str() + p`; outside the string it is what happens to be `around`. -/
def charAt (around : Int → UInt8) (data : List UInt8) (p : Int) : UInt8 :=
  if 0 ≤ p ∧ p < data.length then data.getD p.toNat 0 else around p

/-- The calls of `pwrite` in the loop of `sync_filedata` over the parameters of a reply. -/
def syncWrites (around : Int → UInt8) (data : List UInt8) :
    Int → List (Nat × Nat) → List (FileWrite Unit)
  | _, [] => []
  | cursor, (offset, size) :: params =>
      ⟨(), offset, (List.range (min size maxRwCount)).map fun (k : Nat) =>
          charAt around data (cursor + k)⟩ ::
        syncWrites around data (advance cursor size) params

/-- That loop reads no byte outside a string of `n` bytes. -/
def ReadsInside (n : Nat) : Int → List (Nat × Nat) → Prop
  | _, [] => True
  | cursor, (_, size) :: params =>
      (size = 0 ∨ (0 ≤ cursor ∧ cursor + size ≤ n)) ∧ ReadsInside n (advance cursor size) params

/-- `pwrite` refuses a range beyond `off_t`. -/
def accepted (w : FileWrite Unit) : Bool := w.off + w.data.length < 2 ^ 63

/-- The local copy after some calls of `pwrite`. -/
def pwriteAll [NeZero B] (f : SparseFile B) (log : List (FileWrite Unit)) : SparseFile B :=
  (log.filter accepted).foldl (fun f w => f.pwrite w.off w.data) f

/-- The centers that `sync_filedata` comes to: those of the attribute but itself, up to the first
one without a node, where it dereferences a null pointer. -/
def asked (ioproxys : UInt32 → Bool) (mcid : UInt8) (cids : List UInt8) : List UInt32 :=
  (CenterIds.peers mcid cids).takeWhile ioproxys

/-- All calls of `pwrite` when the `i`th center that is asked answers with `replies i`; a request
that fails leaves an empty reply. -/
def replyWrites (around : Int → UInt8) (replies : Nat → SyncReply) (n : Nat) :
    List (FileWrite Unit) :=
  (List.range n).flatMap fun i => syncWrites around (replies i).data 0 (replies i).io_params

/-- `ReplicaMgr::sync_filedata`: the local copy afterwards, with `cids` the attribute of the space if
it can be read. There is no value while the scan is running. -/
def sync_filedata [NeZero B] (ioproxys : UInt32 → Bool) (mcid : UInt8) (cids : Option (List UInt8))
    (around : Int → UInt8) (replies : Nat → SyncReply) (f : DiskFile B) (rounds off len : Nat) :
    Option (SparseFile B) :=
  (findHolesLoop f (min (addU64 off len) f.size) rounds off).map fun holes =>
    if holes.length = 0 then f.toSparseFile
    else
      match cids.bind CenterIds.getxattr with
      | none => f.toSparseFile
      | some cids =>
          pwriteAll f.toSparseFile
            (replyWrites around replies (asked ioproxys mcid cids).length)

end Gvds.FileSync
