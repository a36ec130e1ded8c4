/-
Module: Gvds.IoProxy.FdMgr
Layer: IoProxy
Purpose: FdManager and the bitmaps of HvsFileHandler (io_proxy/fd_mgr.cc): a cache of open
  descriptors by path, in the order of their last use, and the file handlers by descriptor number.
  Bitmaps are values of a type `β`; its default is what `roaring_bitmap_create` returns.
Imports: Gvds.Lib.Lru, Gvds.IoProxy.Kernel
Trusted boundary: the portable form of a bitmap reads back as the bitmap, and fits into an attribute.
  `open` reads a cached descriptor back from the list node that `hit` has just moved
Main exports: Handler, FdManager, IoProxy, fdmOpen, fdmCreate, fdmRemove, fdmExpire, getFileHandler,
  Handler.getBitmap, Handler.setBitmap, Handler.flushBitmap
-/
import Gvds.Lib.Lru
import Gvds.IoProxy.Kernel

namespace Gvds

/-- `HvsFileHandler`: its descriptor and the bitmaps it holds, by center. -/
structure Handler (β : Type*) where
  fd : Nat
  bitmaps : Int → Option β

/-- `FdManager`. `setMaxFdNum` keeps `max_fd_num` positive. -/
structure FdManager (β : Type*) where
  fds : Lru PathName Nat
  file_handlers : Nat → Option (Handler β)
  max_fd_num : Nat
  max_fd_num_pos : 0 < max_fd_num

/-- An IO proxy: its operating system and its descriptor cache. Paths are local ones. -/
structure IoProxy (β : Type*) where
  k : Kernel β
  fdm : FdManager β

variable {β : Type*}

namespace IoProxy

/-- A proxy that starts on an empty directory with room for `n + 1` descriptors. -/
def blank (n : Nat) : IoProxy β where
  k := Kernel.blank
  fdm :=
    { fds := ∅
      file_handlers := fun _ => none
      max_fd_num := n + 1
      max_fd_num_pos := Nat.succ_pos n }

/-- Replace the cached descriptors. -/
def setFds (s : IoProxy β) (fds : Lru PathName Nat) : IoProxy β :=
  { s with fdm := { s.fdm with fds := fds } }

/-- Replace the handler of one descriptor number. -/
def setHandler (s : IoProxy β) (fd : Nat) (h : Handler β) : IoProxy β :=
  { s with
    fdm := { s.fdm with file_handlers := Function.update s.fdm.file_handlers fd (some h) } }

/-- One round of the loop of `checkAndExpire`: close the least recently used descriptor. -/
def expireOldest (s : IoProxy β) : IoProxy β :=
  match s.fdm.fds.oldest with
  | some (_, fd) => { s.setFds s.fdm.fds.expire with k := s.k.sysClose fd }
  | none => s

/-- `FdManager::checkAndExpire`. Each round drops one entry, so the loop ends after as many rounds
as there are entries too many. -/
def checkAndExpire (s : IoProxy β) : IoProxy β :=
  expireOldest^[s.fdm.fds.size - s.fdm.max_fd_num] s

/-- The flags that `FdManager::open` drops. -/
def maskFlags : BitVec 32 := oSync ||| oDsync ||| oDirect ||| oRdonly ||| oWronly

/-- `FdManager::open`: the cached descriptor, or a new one. -/
def fdmOpen (s : IoProxy β) (path : PathName) (flags : BitVec 32) : IoProxy β × Except Errno Nat :=
  match s.fdm.fds.lookup path with
  | some fd =>
      let k := if hasFlag flags oTrunc then s.k.sysFtruncate fd else s.k
      ({ s.setFds (s.fdm.fds.hit path) with k := k }, .ok fd)
  | none =>
      match s.k.sysOpen path (flags &&& ~~~maskFlags) with
      | .error e => (s, .error e)
      | .ok (k, fd) =>
          (({ s.setFds (s.fdm.fds.touch path fd) with k := k } : IoProxy β).checkAndExpire, .ok fd)

/-- `FdManager::expire`: close the cached descriptor of a path, if there is one. `create` and
`remove` do the same. -/
def fdmExpire (s : IoProxy β) (path : PathName) : IoProxy β :=
  match s.fdm.fds.lookup path with
  | some fd => { s.setFds (s.fdm.fds.erase path) with k := s.k.sysClose fd }
  | none => s

/-- `FdManager::create`. The descriptor of the created file is closed last; a failure is -1 whatever
the error. -/
def fdmCreate (s : IoProxy β) (path : PathName) : IoProxy β × Int :=
  match s.k.sysOpen path (oCreat ||| oSync) with
  | .error _ => (s, -1)
  | .ok (k, fdNew) =>
      let s := ({ s with k := k } : IoProxy β).fdmExpire path
      ({ s with k := s.k.sysClose fdNew }, 0)

/-- `FdManager::remove`. -/
def fdmRemove (s : IoProxy β) (path : PathName) : IoProxy β × Int :=
  let s := s.fdmExpire path
  match s.k.sysUnlink path with
  | .error _ => (s, -1)
  | .ok k => ({ s with k := k }, 0)

/-- `FdManager::get_file_handler`: the handler that is kept for the descriptor of the path. -/
def getFileHandler (s : IoProxy β) (path : PathName) : IoProxy β × Option (Handler β) :=
  match s.fdmOpen path oRdwr with
  | (s, .error _) => (s, none)
  | (s, .ok fd) =>
      match s.fdm.file_handlers fd with
      | some h => (s, some h)
      | none =>
          let h : Handler β := ⟨fd, fun _ => none⟩
          (s.setHandler fd h, some h)

end IoProxy

namespace Handler

/-- The bitmap that the handler's descriptor finds in the attributes of its file. -/
def attr (h : Handler β) (k : Kernel β) (cid : Int) : Option β :=
  (k.fdTable.get h.fd).bind fun file => k.replicaAttr file.ino cid

/-- Keep a bitmap for a center. -/
def put (h : Handler β) (cid : Int) (bitmap : β) : Handler β :=
  { h with bitmaps := Function.update h.bitmaps cid (some bitmap) }

/-- `HvsFileHandler::get_bitmap`: the bitmap held, or the one in the attributes, or a new one. -/
def getBitmap [Inhabited β] (h : Handler β) (k : Kernel β) (cid : Int) (create : Bool) :
    Handler β × Option β :=
  match h.bitmaps cid with
  | some bitmap => (h, some bitmap)
  | none =>
      match h.attr k cid with
      | some bitmap => (h.put cid bitmap, some bitmap)
      | none => if create then (h.put cid default, some default) else (h, none)

/-- `HvsFileHandler::set_bitmap`. -/
def setBitmap (h : Handler β) (cid : Int) (bitmap : β) : Handler β := h.put cid bitmap

/-- `HvsFileHandler::flush_bitmap`: write a held bitmap into the attributes of the file behind the
descriptor. -/
def flushBitmap (h : Handler β) (k : Kernel β) (cid : Int) : Kernel β :=
  match h.bitmaps cid, k.fdTable.get h.fd with
  | some bitmap, some file =>
      { k with
        replicaAttr := Function.update k.replicaAttr file.ino
          (Function.update (k.replicaAttr file.ino) cid (some bitmap)) }
  | _, _ => k

end Handler

end Gvds
