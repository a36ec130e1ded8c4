/-
Module: Gvds.IoProxy.PlainProxy
Layer: IoProxy
Purpose: What an IO proxy is for, as an abstract model: files under names, each request resolved by
  the name it gives. Such a proxy keeps no descriptors; it opens the file of every request anew and
  closes it again.
Imports: Gvds.IoProxy.SyncIo
Trusted boundary: as Gvds.IoProxy.ProxyOp
Main exports: PlainProxy.withFile, PlainProxy.doOp, PlainProxy.serve, PlainProxy.serveAll,
  IoProxy.serveAll, Answer.Agree, Answer.AgreeAll
-/
import Gvds.IoProxy.SyncIo

namespace Gvds

variable {β : Type*}

namespace PlainProxy

/-- Open the file of a path, use it, and close it. -/
def withFile {ρ : Type*} (k : Kernel β) (path : PathName) (flags : BitVec 32) (failed : Errno → ρ)
    (use : Kernel β → Nat → Kernel β × ρ) : Kernel β × ρ :=
  match k.sysOpen path (flags &&& ~~~IoProxy.maskFlags) with
  | .error e => (k, failed e)
  | .ok (k, fd) =>
      let (k, r) := use k fd
      (k.sysClose fd, r)

/-- A system call that changes the files. -/
def withCall (k : Kernel β) : Except Errno (Kernel β) → Kernel β × Reply
  | .ok k' => (k', .done 0)
  | .error e => (k, .failed e)

/-- Store what the other centers send for a range. -/
def sync (peers : Peers) (path : PathName) (k : Kernel β) (fd off len : Nat) : Kernel β :=
  (peers path off len).foldl (fun k piece => IoProxy.storePiece k fd piece) k

/-- The same for the pages that a write covers in part. -/
def syncEnds (peers : Peers) (path : PathName) (k : Kernel β) (fd off len : Nat) : Kernel β :=
  let k := if off % 4096 ≠ 0 then sync peers path k fd (off / 4096 * 4096) 4096 else k
  if (off + len) % 4096 ≠ 0 then sync peers path k fd ((off + len) / 4096 * 4096) 4096 else k

def doOpen (k : Kernel β) (path : PathName) (mode : BitVec 32) : Kernel β × Reply :=
  withFile k path (mode ||| oRdwr) .failed fun k fd => (k, .done fd)

def doRead (k : Kernel β) (peers : Peers) (path : PathName) (offset size : Nat) :
    Kernel β × Reply :=
  withFile k path oRdwr .failed fun k fd =>
    let k := sync peers path k fd offset size
    match k.sysPread fd size offset with
    | .ok bytes => (k, .data bytes)
    | .error e => (k, .failed e)

def doWrite (k : Kernel β) (peers : Peers) (path : PathName) (data : List UInt8) (offset : Nat) :
    Kernel β × Reply :=
  withFile k path oRdwr .failed fun k fd =>
    let k := syncEnds peers path k fd offset data.length
    match k.sysPwrite fd data offset with
    | .ok (k, n) => (k, .done n)
    | .error e => (k, .failed e)

def create (k : Kernel β) (path : PathName) : Kernel β × Int :=
  match k.sysOpen path (oCreat ||| oSync) with
  | .error _ => (k, -1)
  | .ok (k, fd) => (k.sysClose fd, 0)

def remove (k : Kernel β) (path : PathName) : Kernel β × Int :=
  match k.sysUnlink path with
  | .error _ => (k, -1)
  | .ok k => (k, 0)

def doOp (k : Kernel β) (peers : Peers) : Request → Kernel β × Reply
  | .open path mode => doOpen k path mode
  | .create path =>
      let (k, err) := create k path
      (k, .done err)
  | .read path offset size => doRead k peers path offset size
  | .write path data offset => doWrite k peers path data offset
  | .truncate path size => withCall k (k.sysTruncate path size)
  | .unlink path =>
      let (k, ret) := remove k path
      (k, .done ret)
  | .rename path newpath => withCall k (k.sysRename path newpath)
  | .mkdir path => withCall k (IoProxy.fsCreateDirectory k path)
  | .rmdir path => withCall k (IoProxy.fsRemove k path)

/-- `sread` on a file that is opened anew. -/
def sread (k : Kernel β) (path : PathName) (open_flags : BitVec 32) (count offset : Nat) :
    Kernel β × DataResult :=
  withFile k path (open_flags ||| oRdwr) (fun _ => ⟨-Errno.ebadf.number, -1, []⟩) fun k fd =>
    match k.sysPread fd count offset with
    | .ok bytes => (k, ⟨0, bytes.length, bytes⟩)
    | .error e => (k, ⟨-e.number, -1, []⟩)

/-- `swrite` on a file that is opened anew. -/
def swrite (k : Kernel β) (path : PathName) (open_flags : BitVec 32) (data : List UInt8)
    (offset : Nat) : Kernel β × Int :=
  withFile k path (open_flags ||| oRdwr) Errno.number fun k fd =>
    match k.sysPwrite fd data offset with
    | .ok (k, count) => (k, count)
    | .error e => (k, -e.number)

def serve (k : Kernel β) : Served → Kernel β × Answer
  | .rpc peers r =>
      let (k, reply) := doOp k peers r
      (k, .reply reply)
  | .read path open_flags count offset =>
      let (k, r) := sread k path open_flags count offset
      (k, .done r)
  | .write path open_flags data offset =>
      let (k, error_code) := swrite k path open_flags data offset
      (k, .done ⟨error_code, data.length, []⟩)

/-- Serve some requests one after another. -/
def serveAll (k : Kernel β) : List Served → Kernel β × List Answer
  | [] => (k, [])
  | a :: as =>
      let (k, answer) := serve k a
      let (k, answers) := serveAll k as
      (k, answer :: answers)

end PlainProxy

/-- A proxy serves some requests one after another. -/
def IoProxy.serveAll (s : IoProxy β) : List Served → Option (IoProxy β × List Answer)
  | [] => some (s, [])
  | a :: as =>
      (s.serve a).bind fun r => (r.1.serveAll as).map fun rest => (rest.1, r.2 :: rest.2)

/-- The same answer, up to the number of a descriptor that an open returns. -/
def Answer.Agree : Served → Answer → Answer → Prop
  | .rpc _ (.open _ _), a, b =>
      a = b ∨ ∃ fd fd' : Nat, a = .reply (.done fd) ∧ b = .reply (.done fd')
  | _, a, b => a = b

/-- The same answers to some requests. -/
def Answer.AgreeAll : List Served → List Answer → List Answer → Prop
  | [], [], [] => True
  | r :: rs, a :: as, b :: bs => Agree r a b ∧ AgreeAll rs as bs
  | _, _, _ => False

end Gvds
