/-
Module: Gvds.IoProxy.ProxyProcess
Layer: IoProxy
Purpose: ProxyOP::do_op (io_proxy/proxy_op.cc) with FdManager and HvsFileHandler (io_proxy/fd_mgr.cc)
  and the handlers of ReplicaMgr (io_proxy/replica_mgr.cc) in a process that can end. A function has
  no result where it dereferences a null pointer, an exception leaves it, an assertion fails, a
  buffer is overrun or a loop never ends; else do_op has come to its callback.
Imports: Gvds.IoProxy.DataPath, Gvds.IoProxy.FdMgr, Gvds.IoProxy.FileHandler, Gvds.Lib.Machine
Trusted boundary: requests are handled one after another. What the system answers is input; an error
  is a negative number. Memory, threads and the room in the replication queue do not run out, RPCs
  come back, and the directories of a space have no links, so its scan ends; system calls check the
  buffers that they are given, and `closedir` accepts a null pointer. While a file is scanned its
  layout stays as it is
Main exports: OpRequest, Roaring, Config, System, Memory, do_op, serve
-/
import Gvds.IoProxy.DataPath
import Gvds.IoProxy.FdMgr
import Gvds.IoProxy.FileHandler
import Gvds.Lib.Machine

namespace Gvds.ProxyProcess

open DataDirectory (Path DataPath NodeType spacePath)
open ReplicaQueue (route toId)

/-! ### Requests -/

/-- `OpRequest` with all fields but its number. -/
structure OpRequest where
  filepath : String
  type : ReplicaQueue.OpType
  extra : List UInt8
  additional_param : AdditionalParam
  mode : BitVec 32
  size : BitVec 64
  data : List UInt8

namespace OpRequest

/-- `request.filepath()`. -/
def path (r : OpRequest) : Path := r.filepath.toList

/-- `request.newpath()`. -/
def newpath (r : OpRequest) : Path :=
  match r.additional_param with
  | .newpath path => path.toList
  | _ => []

/-- `request.xattr_name()`. -/
def xattr_name (r : OpRequest) : String :=
  match r.additional_param with
  | .xattr_name name => name
  | _ => ""

/-- `request.io_param()`. -/
def io_param (r : OpRequest) : IOParam :=
  match r.additional_param with
  | .io_param param => param
  | _ => ⟨0#64, 0#64⟩

/-- `request.io_param().offset()`. -/
def off (r : OpRequest) : Nat := r.io_param.offset.toNat

/-- `request.io_param().size()`. -/
def len (r : OpRequest) : Nat := r.io_param.size.toNat

/-- `request.extra()[0]`; behind the last character stands a null character. -/
def sender (r : OpRequest) : UInt8 := r.extra.headD 0

end OpRequest

/-- What `_handle_create_replicated_space` reads of an `Attr` to make a file or directory. -/
structure Attr where
  type : NodeType
  size : Nat

/-- The directory structure that an `OpReply` carries. -/
structure DirEntries where
  entry_names : List String
  entries : List Attr

/-! ### What the process works with -/

/-- CRoaring: a bitmap is none where the pointer to it is null. Whether a call with a null pointer
returns is left open: `add_null` for `add_range_closed`, `serialize_null` for
`portable_size_in_bytes` with `portable_serialize`, `free_null` for `free`. -/
structure Roaring (β : Type*) where
  from_range : Nat → Nat → Nat → Option β
  create : β
  portable_deserialize_safe : List UInt8 → Option β
  add_range_closed : β → UInt32 → UInt32 → β
  add_null : UInt32 → UInt32 → Bool
  serialize_null : Bool
  free_null : Bool

/-- The data directory, the own center, `std::string::max_size()` and the bitmaps. -/
structure Config (β : Type*) where
  data_path : DataPath
  mcid : UInt8
  max_size : Nat
  lib : Roaring β

/-- The system calls whose result becomes the error code of a reply, or is looked at no further than
whether it is an error. -/
inductive SysCall where
  | stat (path : Path)
  | rename (path newpath : Path)
  | utimensat (path : Path) (tv_sec tv_nsec : BitVec 64)
  | permissions (path : Path) (perm : BitVec 32)
  | resize_file (path : Path) (size : BitVec 64)
  | create (path : Path) (flags mode : BitVec 32)
  | fallocate (fd : Nat) (mode : BitVec 32) (offset size : BitVec 64)
  | create_directory (path : Path)
  | remove (path : Path)
  | readdir (path : Path)
  | pread (fd size offset : Nat)
  | pwrite (fd : Nat) (data : List UInt8) (size offset : Nat)
  | unlink (path : Path)
  | mkdir (path : Path) (mode : BitVec 32)
  | setxattr (path : Path) (name : String) (value : List UInt8) (size : BitVec 64)
      (flags : BitVec 32)
  | getxattr (path : Path) (name : String) (size : BitVec 64)
  | listxattr (path : Path) (size : BitVec 64)
  | removexattr (path : Path) (name : String)

/-- What a request finds: the system's answers, the centers in `ioproxys`, and protobuf's parser. Of
calls that are made more than once the first argument is the number. A file that `lseek` refuses has
no layout; the attribute with the centers of a space may be missing, or too long for the buffer; an
attribute with a bitmap that is missing is empty. -/
structure System where
  call : SysCall → Int
  sysOpen : Nat → Path → BitVec 32 → Int
  layout : Nat → Nat → Option DataFile
  pread : Nat → Nat → Nat → Int
  center_ids : Nat → Path → Option (List UInt8)
  bitmap_attr : Nat → Int → List UInt8
  ioproxys : UInt32 → Bool
  parse : List UInt8 → DirEntries

/-- `HvsFileHandler`: a bitmap that it holds may be a null pointer. -/
structure FileHandler (β : Type*) where
  fd : Nat
  bitmaps : Int → Option (Option β)

/-- The descriptors and handlers that `FdManager` keeps. `setMaxFdNum` keeps `max_fd_num`
positive. -/
structure Memory (β : Type*) where
  fds : Lru Path Nat
  max_fd_num : Nat
  max_fd_num_pos : 0 < max_fd_num
  file_handlers : Nat → Option (FileHandler β)
  handler_fd : ∀ fd h, file_handlers fd = some h → h.fd = fd

variable {β : Type*} (cfg : Config β) (sys : System)

/-! ### FdManager -/

namespace Memory

/-- A proxy that has just been started, with room for `n + 1` descriptors. -/
def start (n : Nat) : Memory β where
  fds := ∅
  max_fd_num := n + 1
  max_fd_num_pos := Nat.succ_pos n
  file_handlers := fun _ => none
  handler_fd := fun _ _ h => by cases h

/-- `FdManager::checkAndExpire`. -/
def checkAndExpire (m : Memory β) : Memory β :=
  { m with fds := Lru.expire^[m.fds.size - m.max_fd_num] m.fds }

/-- `FdManager::open`, with the number that its system call has. -/
def fdmOpen (m : Memory β) (sys : System) (n : Nat) (path : Path) (flags : BitVec 32) :
    Int × Memory β :=
  match m.fds.lookup path with
  | some fd => (fd, { m with fds := m.fds.hit path })
  | none =>
      let fd := sys.sysOpen n path (flags &&& ~~~IoProxy.maskFlags)
      if fd < 0 then (fd, m)
      else (fd, checkAndExpire { m with fds := m.fds.touch path fd.toNat })

/-- `FdManager::create`. -/
def fdmCreate (m : Memory β) (sys : System) (path : Path) (mode : BitVec 32) : Int × Memory β :=
  if sys.call (.create path (oCreat ||| oSync) mode) < 0 then (-1, m)
  else (0, { m with fds := m.fds.erase path })

/-- `FdManager::remove`. -/
def fdmRemove (m : Memory β) (sys : System) (path : Path) : Int × Memory β :=
  (if sys.call (.unlink path) < 0 then -1 else 0, { m with fds := m.fds.erase path })

/-- Keep a handler for its descriptor. -/
def setHandler (m : Memory β) (h : FileHandler β) : Memory β :=
  { m with
    file_handlers := Function.update m.file_handlers h.fd (some h)
    handler_fd := by
      intro fd h' hfd
      by_cases heq : fd = h.fd
      · rw [heq, Function.update_self] at hfd
        rw [heq, Option.some.inj hfd]
      · rw [Function.update_of_ne heq] at hfd
        exact m.handler_fd fd h' hfd }

/-- `FdManager::get_file_handler`. -/
def get_file_handler (m : Memory β) (sys : System) (n : Nat) (path : Path) :
    Option (FileHandler β) × Memory β :=
  match m.fdmOpen sys n path oRdwr with
  | (fd, m) =>
      if fd < 0 then (none, m)
      else
        match m.file_handlers fd.toNat with
        | some h => (some h, m)
        | none =>
            let h : FileHandler β := ⟨fd.toNat, fun _ => none⟩
            (some h, m.setHandler h)

end Memory

/-! ### HvsFileHandler -/

namespace Roaring

variable (lib : Roaring β)

/-- `roaring_bitmap_add_range_closed`, on a pointer. -/
def addRange (bitmap : Option β) (first last : UInt32) : Option (Option β) :=
  match bitmap with
  | some bitmap => some (some (lib.add_range_closed bitmap first last))
  | none => if lib.add_null first last then some none else none

end Roaring

namespace FileHandler

variable (lib : Roaring β) (h : FileHandler β) (cid : Int)

/-- Hold a pointer. -/
def put (bitmap : Option β) : FileHandler β :=
  { h with bitmaps := Function.update h.bitmaps cid (some bitmap) }

/-- `HvsFileHandler::get_bitmap` with `create`: a pointer that is null is not kept. -/
def get_bitmap (sys : System) : FileHandler β × Option β :=
  match h.bitmaps cid with
  | some bitmap => (h, bitmap)
  | none =>
      let value := sys.bitmap_attr h.fd cid
      let bitmap := if value ≠ [] then lib.portable_deserialize_safe value else some lib.create
      match bitmap with
      | some bitmap => (h.put cid (some bitmap), some bitmap)
      | none => (h, none)

/-- `HvsFileHandler::set_bitmap`, which frees the bitmap that it replaces. -/
def set_bitmap (bitmap : Option β) : Option (FileHandler β) :=
  match h.bitmaps cid with
  | some none => if lib.free_null then some (h.put cid bitmap) else none
  | _ => some (h.put cid bitmap)

/-- Whether `HvsFileHandler::flush_bitmap` returns. -/
def flush_bitmap : Bool :=
  match h.bitmaps cid with
  | some none => lib.serialize_null
  | _ => true

end FileHandler

/-- `HvsFileHandler::find_holes_in_range`. Where `lseek` fails, its -1 is taken for an offset. -/
def find_holes_in_range (layout : Option DataFile) (start lim : Nat) :
    Option (List (Nat × Nat)) :=
  match layout with
  | none => some (if start < lim then [(start, lim)] else [])
  | some f => findHolesInRange f start lim

/-- `HvsFileHandler::find_data_in_range`. A scan that has gone on for more rounds than there are
offsets below its limit never ends. -/
def find_data_in_range (layout : Option DataFile) (start lim : Nat) : Option (List (Nat × Nat)) :=
  match layout with
  | none => some (if start < lim then [(start, lim)] else [])
  | some f => dataLoop f (min lim f.size) (min lim f.size + 1) start

/-! ### The handlers of ReplicaMgr -/

/-- `ReplicaMgr::sync_filedata`, number `n` in its request. A center that `ioproxys` does not have is
a null node. -/
def sync_filedata (m : Memory β) (n : Nat) (path : Path) (off len : Nat) : Option (Memory β) :=
  match m.get_file_handler sys (n + 1) (cfg.data_path.below path) with
  | (none, _) => none
  | (some fh, m) =>
      (find_holes_in_range (sys.layout n fh.fd) off (addU64 off len)).bind fun holes =>
        if holes.length = 0 then some m
        else
          (spacePath cfg.data_path path).bind fun space_path =>
            match sys.center_ids n space_path with
            | none => some m
            | some cids => if (CenterIds.peers cfg.mcid cids).all sys.ioproxys then some m else none

/-- `ReplicaMgr::sync_unalign_page`. -/
def sync_unalign_page (m : Memory β) (path : Path) (off len : Nat) : Option (Memory β) := do
  let pg_bg := off / pageSize
  let pg_ed := addU64 off len / pageSize
  let m ←
    (if off % pageSize ≠ 0 then sync_filedata cfg sys m 0 path (pg_bg * pageSize) pageSize
      else some m)
  if addU64 off len % pageSize ≠ 0 then sync_filedata cfg sys m 1 path (pg_ed * pageSize) pageSize
  else some m

/-- `ReplicaMgr::create_replicated_space`: its error code. A part of the text that is no number raises
an exception. The node of a center is looked up again with the character that stands for it. -/
def create_replicated_space (path : Path) (cids_str : List UInt8) : Option Int :=
  match CenterIds.compressIds sys.ioproxys [cfg.mcid] (CenterIds.split cids_str) with
  | .error .exception => none
  | .error _ => some (-6)
  | .ok cids =>
      (spacePath cfg.data_path path).bind fun space_path =>
        if sys.call (.setxattr space_path "user.gvds.r.c" cids (BitVec.ofNat 64 cids.length) 1) < 0
        then some (-31)
        else if (cids.tail.map toId).all sys.ioproxys then some 0 else none

/-- One round of the loop of `_handle_create_replicated_space`: the number, the name and the entry,
if there is one. What `mkdir`, `creat`, `truncate` and `utimensat` return is not looked at. -/
def createEntry (r : OpRequest) (m : Memory β) (node : Nat × String × Option Attr) :
    Option (Memory β) :=
  match node.2.2 with
  | none => none
  | some ⟨.regularFile, size⟩ =>
      match m.get_file_handler sys node.1 (cfg.data_path.below node.2.1.toList) with
      | (none, _) => none
      | (some fh, m) =>
          (fh.set_bitmap cfg.lib r.sender.toInt8.toInt (cfg.lib.from_range 0 size 1)).map
            m.setHandler
  | some _ => some m

/-- The rounds of the loop of `_handle_create_replicated_space`. -/
def nodes (dir_entries : DirEntries) : List (Nat × String × Option Attr) :=
  dir_entries.entry_names.mapIdx fun cur_node name => (cur_node, name, dir_entries.entries[cur_node]?)

/-- `ReplicaMgr::_handle_create_replicated_space`. `EEXIST` is 17. -/
def _handle_create_replicated_space (m : Memory β) (r : OpRequest) : Option (Int × Memory β) :=
  let rep_space_path := cfg.data_path.below r.path
  let err := sys.call (.mkdir rep_space_path 0o775#32)
  if err < 0 ∧ err ≠ -17 then some (err, m)
  else
    let sz := sys.call
      (.setxattr rep_space_path "user.gvds.r.c" r.extra (BitVec.ofNat 64 r.extra.length) 1)
    if sz < 0 then some (sz, m)
    else (Machine.run (createEntry cfg sys r) m (nodes (sys.parse r.data))).map fun m => (0, m)

/-- The loop of `_handle_file_sync_data` over the ranges, with the answers to its reads: a read that
fails ends it, and none writes behind the end of the buffer. -/
def readRanges (len : Nat) : (Nat → Nat → Nat → Int) → Nat → List (Nat × Nat) → Option Int
  | _, _, [] => some 0
  | pread, cursor, (off1, off2) :: data_ranges =>
      let ret := pread 0 (off2 - off1) off1
      if ret < 0 then some ret
      else
        let cursor := cursor + min ret.toNat (off2 - off1)
        if cursor ≤ len then readRanges len (fun i => pread (i + 1)) cursor data_ranges else none

/-- `ReplicaMgr::_handle_file_sync_data`. A size that a string cannot have is an exception. -/
def _handle_file_sync_data (m : Memory β) (r : OpRequest) : Option (Int × Memory β) :=
  match m.get_file_handler sys 0 (cfg.data_path.below r.path) with
  | (none, _) => none
  | (some fd, m) =>
      (find_data_in_range (sys.layout 0 fd.fd) r.off (addU64 r.off r.len)).bind fun data_ranges =>
        if cfg.max_size < r.len then none
        else (readRanges r.len sys.pread 0 data_ranges).map fun err => (err, m)

/-- `_GVDS_REPLICATE_SYNC_BLK`. -/
def syncBlk : Nat := 0x20000

/-- `ReplicaMgr::_handle_file_index_update`. The bitmap changes where it is. -/
def _handle_file_index_update (m : Memory β) (r : OpRequest) : Option (Int × Memory β) :=
  match m.get_file_handler sys 0 (cfg.data_path.below r.path) with
  | (none, _) => none
  | (some fd, m) =>
      let id : Int := r.sender.toNat
      if r.type ≠ .rep_update_index then none
      else
        let (fd, bitmap) := fd.get_bitmap cfg.lib id sys
        let first := UInt32.ofNat (r.off / syncBlk)
        let last := UInt32.ofNat (addU64 r.off r.len / syncBlk)
        (cfg.lib.addRange bitmap first last).bind fun bitmap =>
          let fd := if bitmap.isSome then fd.put id bitmap else fd
          if fd.flush_bitmap cfg.lib id then some (0, m.setHandler fd) else none

/-- Parts 1.b to 2 of `handle_replica_async`. -/
def askSpace (m : Memory β) (r : OpRequest) (err_code : Int) : Option (Int × Memory β) :=
  if err_code < 0 then some (err_code, m)
  else (spacePath cfg.data_path r.path).map fun _ => (err_code, m)

/-- `ReplicaMgr::handle_replica_async`. -/
def handle_replica_async (m : Memory β) (r : OpRequest) (err_code : Int) :
    Option (Int × Memory β) :=
  if r.filepath = "" then some (err_code, m)
  else
    match route r.type with
    | .readOnly => some (err_code, m)
    | .change => if r.extra.length ≠ 0 then some (err_code, m) else askSpace cfg m r err_code
    | .write => askSpace cfg m r err_code
    | .default => askSpace cfg m r err_code
    | .handled =>
        match r.type with
        | .rep_init_space => _handle_create_replicated_space cfg sys m r
        | .rep_sync_data => _handle_file_sync_data cfg sys m r
        | _ => _handle_file_index_update cfg sys m r

/-! ### ProxyOP::do_op -/

/-- A system call whose result becomes the error code. -/
def reply (m : Memory β) (c : SysCall) : Option (Int × Memory β) := some (sys.call c, m)

/-- The switch of `ProxyOP::do_op`: the error code of the reply. -/
def perform_op (m : Memory β) (r : OpRequest) : Option (Int × Memory β) :=
  let path := cfg.data_path.below r.path
  match r.type with
  | .getattr => reply sys m (.stat path)
  | .rename => reply sys m (.rename path (cfg.data_path.below r.newpath))
  | .utimens => reply sys m (.utimensat path r.io_param.size r.io_param.offset)
  | .chmod => reply sys m (.permissions path (r.mode &&& 0xfff#32))
  | .truncate => reply sys m (.resize_file path r.size)
  | .open => some (m.fdmOpen sys 0 path (r.mode ||| oRdwr))
  | .release => some (0, m)
  | .create => some (m.fdmCreate sys path r.mode)
  | .fallocate =>
      match m.fdmOpen sys 0 path (oCreat ||| oRdwr) with
      | (fd, m) =>
          if fd > 0 then
            reply sys m (.fallocate fd.toNat r.mode r.io_param.offset r.io_param.size)
          else some (-9, m)
  | .mkdir => reply sys m (.create_directory path)
  | .rmdir => reply sys m (.remove path)
  | .readdir => reply sys m (.readdir path)
  | .read =>
      match m.fdmOpen sys 0 path oRdwr with
      | (fd, m) =>
          if fd < 0 then some (fd, m)
          else
            (sync_filedata cfg sys m 0 r.path r.off r.len).bind fun m =>
              if cfg.max_size < r.len then none else reply sys m (.pread fd.toNat r.len r.off)
  | .write =>
      match m.fdmOpen sys 0 path oRdwr with
      | (fd, m) =>
          if fd < 0 then some (fd, m)
          else
            (sync_unalign_page cfg sys m r.path r.off r.len).bind fun m =>
              reply sys m (.pwrite fd.toNat r.data r.len r.off)
  | .unlink => some (m.fdmRemove sys path)
  | .setxattr =>
      if r.xattr_name = "user.replicate.create" then
        (create_replicated_space cfg sys r.path r.data).map fun err => (err, m)
      else reply sys m (.setxattr path r.xattr_name r.data r.size r.mode)
  | .getxattr =>
      if cfg.max_size < r.size.toNat then none
      else reply sys m (.getxattr path r.xattr_name r.size)
  | .listxattr =>
      if cfg.max_size < r.size.toNat then none else reply sys m (.listxattr path r.size)
  | .removexattr => reply sys m (.removexattr path r.xattr_name)
  | _ => some (0, m)

/-- `ProxyOP::do_op`, up to its callback: the error code of the reply, if it gets there. -/
def do_op (m : Memory β) (r : OpRequest) : Option (Int × Memory β) :=
  (perform_op cfg sys m r).bind fun (err_code, m) => handle_replica_async cfg sys m r err_code

/-- The proxy handles a request. -/
def serve (m : Memory β) (a : OpRequest × System) : Option (Memory β) :=
  (do_op cfg a.2 m a.1).map Prod.snd

end Gvds.ProxyProcess
