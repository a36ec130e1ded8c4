/-
Module: Gvds.IoProxy.SyncIo
Layer: IoProxy
Purpose: What becomes of the operations that come in over UDT: ioproxy_do_data_op for reads and
  writes (io_proxy/proxy_op.cc) with sync_io::sread and sync_io::swrite (io_proxy/sync_io.cc), on
  the same FdManager as the requests of ProxyOP::do_op. Unlike these they sync nothing with other
  centers.
Imports: Gvds.IoProxy.ProxyOp
Trusted boundary: as Gvds.IoProxy.ProxyOp. Offsets and sizes are those of the operation as 64 bit
  numbers; one that is no off_t makes pread and pwrite fail
Main exports: Errno.number, DataResult, sread, swriteRounds, swrite, Served, Answer, serve
-/
import Gvds.IoProxy.ProxyOp

namespace Gvds

/-- The error numbers of Linux. -/
def Errno.number : Errno → Int
  | .enoent => 2
  | .ebadf => 9
  | .eexist => 17
  | .enotdir => 20
  | .eisdir => 21
  | .einval => 22
  | .efbig => 27
  | .enotempty => 39

/-- What is left in an `IOProxyDataOP`: for a read also what `pread` returned, as the new `size`,
and what it put into `obuf`. -/
structure DataResult where
  error_code : Int
  size : Int
  obuf : List UInt8
deriving DecidableEq

namespace IoProxy

variable {β : Type*}

/-- `sread`. After a failed open `pread` is called with the negative number, so that its error is
the one that is told. -/
def sread (s : IoProxy β) (path : PathName) (open_flags : BitVec 32) (count offset : Nat) :
    IoProxy β × DataResult :=
  match s.fdmOpen path (open_flags ||| oRdwr) with
  | (s, .error _) => (s, ⟨-Errno.ebadf.number, -1, []⟩)
  | (s, .ok fd) =>
      match s.k.sysPread fd count offset with
      | .ok bytes => (s, ⟨0, bytes.length, bytes⟩)
      | .error e => (s, ⟨-e.number, -1, []⟩)

/-- The loop of `swrite`, at most `n` rounds of it: a descriptor that is not open is dropped, and
the file opened again. After a failed open the error number is told without its sign. -/
def swriteRounds (path : PathName) (open_flags : BitVec 32) (data : List UInt8) (offset : Nat) :
    Nat → IoProxy β → Option (IoProxy β × Int)
  | 0, _ => none
  | n + 1, s =>
      match s.fdmOpen path (open_flags ||| oRdwr) with
      | (s, .error e) => some (s, e.number)
      | (s, .ok fd) =>
          match s.k.sysPwrite fd data offset with
          | .ok (k, count) => some ({ s with k := k }, count)
          | .error .ebadf => swriteRounds path open_flags data offset n (s.fdmExpire path)
          | .error e => some (s, -e.number)

/-- `swrite`. Each round but the last drops a cached descriptor for good (`swriteRounds_isSome`). -/
def swrite (s : IoProxy β) (path : PathName) (open_flags : BitVec 32) (data : List UInt8)
    (offset : Nat) : Option (IoProxy β × Int) :=
  swriteRounds path open_flags data offset (s.fdm.fds.size + 1) s

end IoProxy

/-- The requests that a proxy gets: over gRPC, with what the other centers send to a sync, and over
UDT. -/
inductive Served where
  | rpc (peers : Peers) (r : Request)
  | read (path : PathName) (open_flags : BitVec 32) (count offset : Nat)
  | write (path : PathName) (open_flags : BitVec 32) (data : List UInt8) (offset : Nat)

/-- What they are answered with. -/
inductive Answer where
  | reply (r : Reply)
  | done (r : DataResult)
deriving DecidableEq

/-- A proxy serves a request. There is no result if it never comes back. -/
def IoProxy.serve {β : Type*} (s : IoProxy β) : Served → Option (IoProxy β × Answer)
  | .rpc peers r =>
      let (s, reply) := s.doOp peers r
      some (s, .reply reply)
  | .read path open_flags count offset =>
      let (s, r) := s.sread path open_flags count offset
      some (s, .done r)
  | .write path open_flags data offset =>
      (s.swrite path open_flags data offset).map fun r => (r.1, .done ⟨r.2, data.length, []⟩)

end Gvds
