/-
Module: Gvds.IoProxy.SpaceReplay
Layer: IoProxy
Purpose: How a center makes the directories and files of a space that is replicated to it: the loop
  of _handle_create_replicated_space (io_proxy/replica_mgr.cc) over the entries that another center
  has collected. The descriptor that creat returns is dropped, so it stays open.
Imports: Gvds.Lib.Machine, Gvds.IoProxy.FdMgr, Gvds.IoProxy.SpaceScan
Trusted boundary: as Gvds.IoProxy.Kernel, but for the limit on the number of descriptors. Protobuf
  returns the entries as they were sent; CRoaring frees whatever it has made. Modes and times are
  left out
Main exports: Center, EmptyReplica, openWithin, getFileHandler, Replay, createEntry, createEntries
-/
import Gvds.Lib.Machine
import Gvds.IoProxy.FdMgr
import Gvds.IoProxy.SpaceScan

namespace Gvds.SpaceReplay

open DataDirectory (NodeType)
open ProxyProcess (Attr)

variable {β : Type*}

/-- A center: the limit on its descriptors (`RLIMIT_NOFILE`), `replicate_data_path`, and CRoaring's
`roaring_bitmap_from_range` with step 1. -/
structure Center (β : Type*) where
  limit : Nat
  replicate_data_path : PathName
  from_range : Nat → Nat → β

/-- An IO proxy with an empty replica directory for a space: nothing below it has a name, or a
cached descriptor. As always, each cached descriptor is open and belongs to one path, there are not
too many of them, and all descriptors are below the limit. -/
structure EmptyReplica (c : Center β) (path : PathName) where
  proxy : IoProxy β
  is_dir : proxy.k.tree.node (path ++ c.replicate_data_path) = some .dir
  childless : proxy.k.tree.Childless (path ++ c.replicate_data_path)
  uncached : ∀ p fd, proxy.fdm.fds.lookup p = some fd → ¬ path ++ c.replicate_data_path <:+ p
  cached_open : ∀ p fd, proxy.fdm.fds.lookup p = some fd → (proxy.k.fdTable.get fd).isSome
  cached_inj : ∀ p q fd,
    proxy.fdm.fds.lookup p = some fd → proxy.fdm.fds.lookup q = some fd → p = q
  cached_le : proxy.fdm.fds.size ≤ proxy.fdm.max_fd_num
  below_limit : proxy.k.fdTable.length ≤ c.limit

/-- The entry loop's proxy. Not in the source is `failed`: the entries whose `mkdir` or `creat` has
failed, which the loop does not look at. -/
structure Replay (β : Type*) where
  proxy : IoProxy β
  failed : List PathName

variable (c : Center β)

/-- `open(2)` under the limit. -/
def openWithin (k : Kernel β) (path : PathName) (flags : BitVec 32) : Option (Kernel β × Nat) :=
  match k.sysOpen path flags with
  | .error _ => none
  | .ok (k, fd) => if fd < c.limit then some (k, fd) else none

/-- `FdManager::get_file_handler` under the limit. -/
def getFileHandler (s : IoProxy β) (path : PathName) : IoProxy β × Option (Handler β) :=
  if (s.fdm.fds.lookup path).isSome || decide (s.k.fdTable.firstFree < c.limit) then
    s.getFileHandler path
  else (s, none)

/-- `creat(2)`; its descriptor is not kept. -/
def creat (st : Replay β) (name : PathName) : Replay β :=
  match openWithin c st.proxy.k (name ++ c.replicate_data_path) (oCreat ||| oWronly ||| oTrunc) with
  | none => { st with failed := st.failed ++ [name] }
  | some (k, _) => { st with proxy := { st.proxy with k := k } }

/-- `truncate(2)`, whose result is not looked at. -/
def truncate (st : Replay β) (name : PathName) (size : Nat) : Replay β :=
  match st.proxy.k.sysTruncate (name ++ c.replicate_data_path) size with
  | .error _ => st
  | .ok k => { st with proxy := { st.proxy with k := k } }

/-- `get_file_handler` with `set_bitmap`: a handler that is null ends the process. -/
def setBitmap (sender : Int) (st : Replay β) (name : PathName) (size : Nat) : Option (Replay β) :=
  match getFileHandler c st.proxy (name ++ c.replicate_data_path) with
  | (_, none) => none
  | (s, some fh) =>
      some { st with
        proxy := s.setHandler fh.fd (fh.setBitmap sender (c.from_range 0 size)) }

/-- `mkdir(2)`. -/
def mkdir (st : Replay β) (name : PathName) : Replay β :=
  match st.proxy.k.sysMkdir (name ++ c.replicate_data_path) with
  | .error _ => { st with failed := st.failed ++ [name] }
  | .ok k => { st with proxy := { st.proxy with k := k } }

/-- One round of the loop; `sender` is `request.extra()[0]`. -/
def createEntry (sender : Int) (st : Replay β) (entry : PathName × Attr) : Option (Replay β) :=
  match entry.2.type with
  | .directory => some (mkdir c st entry.1)
  | .regularFile =>
      setBitmap c sender (truncate c (creat c st entry.1) entry.1 entry.2.size) entry.1 entry.2.size
  | _ => some st

/-- The loop of `ReplicaMgr::_handle_create_replicated_space`. -/
def createEntries (sender : Int) (st : Replay β) (entries : List (PathName × Attr)) :
    Option (Replay β) :=
  Machine.run (createEntry c sender) st entries

end Gvds.SpaceReplay
