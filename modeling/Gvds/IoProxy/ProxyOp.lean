/-
Module: Gvds.IoProxy.ProxyOp
Layer: IoProxy
Purpose: The namespace and data cases of ProxyOP::do_op (io_proxy/proxy_op.cc) on a single IO proxy.
  What the other centers of a replicated space send to the sync before a read or write is input. The
  paths of requests are those FUSE hands out, joined to the data path: they have no empty, `.` or
  `..` component. A write request carries as many bytes as its io_param says.
Imports: Gvds.IoProxy.FdMgr
Trusted boundary: as Gvds.IoProxy.Kernel
Main exports: Request, Reply, Peers, doOp
-/
import Gvds.IoProxy.FdMgr

namespace Gvds

/-- The requests that act on names and contents, with their decoded arguments. -/
inductive Request where
  | open (path : PathName) (mode : BitVec 32)
  | create (path : PathName)
  | read (path : PathName) (offset size : Nat)
  | write (path : PathName) (data : List UInt8) (offset : Nat)
  | truncate (path : PathName) (size : Nat)
  | unlink (path : PathName)
  | rename (path newpath : PathName)
  | mkdir (path : PathName)
  | rmdir (path : PathName)
deriving DecidableEq

/-- The outcome of a request. -/
inductive Reply where
  | failed (err : Errno)
  | done (err_code : Int)
  | data (bytes : List UInt8)
deriving DecidableEq

/-- What the other centers send back when they are asked for a range of a file: pieces of data with
their offsets. In a space without replica centers, or where the range has no hole, nobody is asked
and nothing comes. -/
abbrev Peers := PathName → Nat → Nat → List (Nat × List UInt8)

/-- Nobody sends anything. -/
def noPeers : Peers := fun _ _ _ => []

namespace IoProxy

variable {β : Type*}

/-- Take over the result of a system call that changes the file system. -/
def withCall (s : IoProxy β) (result : Except Errno (Kernel β)) : IoProxy β × Reply :=
  match result with
  | .ok k => ({ s with k := k }, .done 0)
  | .error e => (s, .failed e)

/-- The experimental `fs::remove`: it removes a file or an empty directory, and a missing path is no
error. -/
def fsRemove (k : Kernel β) (path : PathName) : Except Errno (Kernel β) :=
  match k.tree.node path with
  | none => .ok k
  | some (.file _) => k.sysUnlink path
  | some .dir => k.sysRmdir path

/-- `fs::create_directory`: a directory that is there is no error. -/
def fsCreateDirectory (k : Kernel β) (path : PathName) : Except Errno (Kernel β) :=
  match k.tree.node path with
  | some .dir => .ok k
  | some (.file _) => .error .eexist
  | none => k.sysMkdir path

/-- One `pwrite` of `ReplicaMgr::sync_filedata`, whose result nobody looks at. -/
def storePiece (k : Kernel β) (fd : Nat) (piece : Nat × List UInt8) : Kernel β :=
  match k.sysPwrite fd piece.2 piece.1 with
  | .ok (k, _) => k
  | .error _ => k

/-- `ReplicaMgr::sync_filedata`: write what the peers send for the range through the descriptor of
the file handler. -/
def syncFiledata (s : IoProxy β) (peers : Peers) (path : PathName) (off len : Nat) : IoProxy β :=
  match s.getFileHandler path with
  | (s, none) => s
  | (s, some fh) =>
      { s with k := (peers path off len).foldl (fun k piece => storePiece k fh.fd piece) s.k }

/-- `ReplicaMgr::sync_unalign_page`: fetch the first and the last page if they are not covered. -/
def syncUnalignPage (s : IoProxy β) (peers : Peers) (path : PathName) (off len : Nat) : IoProxy β :=
  let s := if off % 4096 ≠ 0 then s.syncFiledata peers path (off / 4096 * 4096) 4096 else s
  if (off + len) % 4096 ≠ 0 then s.syncFiledata peers path ((off + len) / 4096 * 4096) 4096 else s

/-- `OpType::open`: the descriptor number is the reply. -/
def doOpen (s : IoProxy β) (path : PathName) (mode : BitVec 32) : IoProxy β × Reply :=
  match s.fdmOpen path (mode ||| oRdwr) with
  | (s, .ok fd) => (s, .done fd)
  | (s, .error e) => (s, .failed e)

/-- `OpType::read`. -/
def doRead (s : IoProxy β) (peers : Peers) (path : PathName) (offset size : Nat) :
    IoProxy β × Reply :=
  match s.fdmOpen path oRdwr with
  | (s, .error e) => (s, .failed e)
  | (s, .ok fd) =>
      let s := s.syncFiledata peers path offset size
      match s.k.sysPread fd size offset with
      | .ok bytes => (s, .data bytes)
      | .error e => (s, .failed e)

/-- `OpType::write`. -/
def doWrite (s : IoProxy β) (peers : Peers) (path : PathName) (data : List UInt8) (offset : Nat) :
    IoProxy β × Reply :=
  match s.fdmOpen path oRdwr with
  | (s, .error e) => (s, .failed e)
  | (s, .ok fd) =>
      let s := s.syncUnalignPage peers path offset data.length
      match s.k.sysPwrite fd data offset with
      | .ok (k, n) => ({ s with k := k }, .done n)
      | .error e => (s, .failed e)

/-- The cases of `ProxyOP::do_op`. -/
def doOp (s : IoProxy β) (peers : Peers) : Request → IoProxy β × Reply
  | .open path mode => s.doOpen path mode
  | .create path =>
      let (s, err) := s.fdmCreate path
      (s, .done err)
  | .read path offset size => s.doRead peers path offset size
  | .write path data offset => s.doWrite peers path data offset
  | .truncate path size => s.withCall (s.k.sysTruncate path size)
  | .unlink path =>
      let (s, ret) := s.fdmRemove path
      (s, .done ret)
  | .rename path newpath => s.withCall (s.k.sysRename path newpath)
  | .mkdir path => s.withCall (fsCreateDirectory s.k path)
  | .rmdir path => s.withCall (fsRemove s.k path)

end IoProxy

end Gvds
