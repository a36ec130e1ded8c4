/-
Module: Gvds.IoProxy.FdWorkers
Layer: IoProxy
Purpose: The worker threads that run ProxyOP::do_op (io_proxy/proxy_op.cc) on one FdManager. A read,
  a write and a fallocate get a number from FdManager::open and use it after the lock is released;
  in between, a read or write may sync ranges of the file with the peers, each through the number of
  a file handler of its own. Every call of FdManager and every system call is one step.
Imports: Gvds.IoProxy.ProxyOp
Trusted boundary: as Gvds.IoProxy.Kernel. get_file_handler counts as one step: its second part only
  looks the number up. What fallocate(2) makes of a file's contents, and what the peers send, is
  input
Main exports: DataRequest, Held, Worker, Use, State, Act, step
-/
import Gvds.IoProxy.ProxyOp

namespace Gvds.FdWorkers

/-- The requests that use a descriptor after `FdManager::open` has returned it. -/
inductive DataRequest where
  | read (path : PathName) (offset size : Nat)
  | write (path : PathName) (data : List UInt8) (offset : Nat)
  | fallocate (path : PathName) (change : ByteFile → ByteFile)

namespace DataRequest

/-- The file of a request. -/
def path : DataRequest → PathName
  | .read path _ _ => path
  | .write path _ _ => path
  | .fallocate path _ => path

/-- The flags that it opens its file with. -/
def flags : DataRequest → BitVec 32
  | .read _ _ _ => oRdwr
  | .write _ _ _ => oRdwr
  | .fallocate _ _ => oCreat ||| oRdwr

/-- The ranges that are synced before the descriptor is used: the range of a read, the unaligned
first and last page of a write. -/
def ranges : DataRequest → List (Nat × Nat)
  | .read _ offset size => [(offset, size)]
  | .write _ data offset =>
      (if offset % 4096 ≠ 0 then [(offset / 4096 * 4096, 4096)] else []) ++
        if (offset + data.length) % 4096 ≠ 0 then [((offset + data.length) / 4096 * 4096, 4096)]
        else []
  | .fallocate _ _ => []

/-- `fd < 0` is an error for a read and a write, `fd <= 0` for a fallocate. -/
def accepts (r : DataRequest) (fd : Nat) : Bool :=
  match r with
  | .fallocate _ _ => decide (0 < fd)
  | _ => true

end DataRequest

/-- A descriptor number in a worker's hands. `resolved`, which is not in the source, is the file
behind the number when the worker's own open returned it. -/
structure Held where
  fd : Nat
  resolved : Option Nat
deriving DecidableEq

/-- Where a worker is in `do_op`: between requests; with the number of its file and the ranges still
to be synced; in `sync_filedata`, with the number of the file handler as well. -/
inductive Worker where
  | idle
  | opened (r : DataRequest) (h : Held) (ranges : List (Nat × Nat))
  | syncing (r : DataRequest) (h fh : Held) (ranges : List (Nat × Nat))

/-- The numbers that a worker has still to use. -/
def Worker.holds : Worker → List Held
  | .idle => []
  | .opened _ h _ => [h]
  | .syncing _ h fh _ => [h, fh]

/-- A pread, pwrite or fallocate: the file that the worker's open resolved, and the file that the
call acted on, if the number was open at all. -/
structure Use where
  resolved : Option Nat
  acted : Option Nat
deriving DecidableEq

variable {β : Type*}

/-- The proxy, its workers, and the uses of descriptors so far, which are not in the source. -/
structure State (β : Type*) where
  io : IoProxy β
  worker : Nat → Worker
  uses : List Use

/-- What can happen next: some worker executes a request that calls FdManager once at most; worker
`w` opens the file of a request; it gets the file handler for its next range; it stores a piece that
a peer has sent; it is done with the range; it uses its descriptor. -/
inductive Act where
  | call (r : Request)
  | start (w : Nat) (r : DataRequest)
  | sync (w : Nat)
  | store (w : Nat) (piece : Nat × List UInt8)
  | synced (w : Nat)
  | use (w : Nat)

/-- The file behind a descriptor number. -/
def resolve (io : IoProxy β) (fd : Nat) : Option Nat := (io.k.fdTable.get fd).map OpenFile.ino

/-- A number that an open has just returned. -/
def hold (io : IoProxy β) (fd : Nat) : Held := ⟨fd, resolve io fd⟩

/-- Replace the state of a worker. -/
def setWorker (s : State β) (w : Nat) (x : Worker) : State β :=
  { s with worker := Function.update s.worker w x }

/-- Record the use of a number. -/
def record (s : State β) (h : Held) : State β :=
  { s with uses := s.uses ++ [⟨h.resolved, resolve s.io h.fd⟩] }

/-- The call of `FdManager::open` with which a request begins. -/
def start (s : State β) (w : Nat) (r : DataRequest) : State β :=
  match s.io.fdmOpen r.path r.flags with
  | (io, .error _) => { s with io := io }
  | (io, .ok fd) =>
      let s := { s with io := io }
      if r.accepts fd then setWorker s w (.opened r (hold io fd) r.ranges) else s

/-- `get_file_handler` in `sync_filedata`; the process crashes where there is none. -/
def sync (s : State β) (w : Nat) (r : DataRequest) (h : Held) (ranges : List (Nat × Nat)) :
    Option (State β) :=
  match s.io.getFileHandler r.path with
  | (_, none) => none
  | (io, some fh) => some (setWorker { s with io := io } w (.syncing r h (hold io fh.fd) ranges))

/-- A change of the contents behind a descriptor. -/
def changeContent (k : Kernel β) (fd : Nat) (change : ByteFile → ByteFile) : Kernel β :=
  match k.fdTable.get fd with
  | some file => k.setContent file.ino (change (k.content file.ino))
  | none => k

/-- The pread, pwrite or fallocate with which a request ends. -/
def useFd (k : Kernel β) (fd : Nat) : DataRequest → Kernel β
  | .read _ _ _ => k
  | .write _ data offset =>
      match k.sysPwrite fd data offset with
      | .ok (k, _) => k
      | .error _ => k
  | .fallocate _ change => changeContent k fd change

/-- Replace the operating system's state. -/
def setKernel (s : State β) (k : Kernel β) : State β := { s with io := { s.io with k := k } }

/-- Whether `do_op` answers a request in one step. -/
def isCall : Request → Bool
  | .read _ _ _ => false
  | .write _ _ _ => false
  | _ => true

/-- One step of the workers. -/
def step (s : State β) : Act → Option (State β)
  | .call r => if isCall r then some { s with io := (s.io.doOp noPeers r).1 } else none
  | .start w r =>
      match s.worker w with
      | .idle => some (start s w r)
      | _ => none
  | .sync w =>
      match s.worker w with
      | .opened r h (_ :: ranges) => sync s w r h ranges
      | _ => none
  | .store w piece =>
      match s.worker w with
      | .syncing _ _ fh _ =>
          some (setKernel (record s fh) (IoProxy.storePiece s.io.k fh.fd piece))
      | _ => none
  | .synced w =>
      match s.worker w with
      | .syncing r h _ ranges => some (setWorker s w (.opened r h ranges))
      | _ => none
  | .use w =>
      match s.worker w with
      | .opened r h [] =>
          some (setWorker (setKernel (record s h) (useFd s.io.k h.fd r)) w .idle)
      | _ => none

end Gvds.FdWorkers
