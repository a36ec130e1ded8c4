/-
Module: Gvds.IoProxy.DataPath
Layer: IoProxy
Purpose: The paths that ProxyOP::do_op (io_proxy/proxy_op.cc) and the handlers of ReplicaMgr that it
  calls (io_proxy/replica_mgr.cc) hand to the system: a request as a program of system calls, whose
  answers decide how it goes on. A path is data_path joined with what the request gives.
Imports: Gvds.Lib.PathWalk, Gvds.Lib.Program, Gvds.Common.OpProto, Gvds.IoProxy.CenterIds,
  Gvds.IoProxy.Kernel
Trusted boundary: no links below the data directory. Whether the system grants an access is an answer
  of its calls, so permissions and the lengths of names are left open. A cached descriptor stands for
  the file of its path. Calls on descriptors and RPCs name no file. An entry name without an entry,
  the first component of an empty path and a file handler that is not there end the process
Main exports: DataPath, join, components, firstComponent, Access, Host, SysCall, OpRequest, do_op
-/
import Gvds.Lib.PathWalk
import Gvds.Lib.Program
import Gvds.Common.OpProto
import Gvds.IoProxy.CenterIds
import Gvds.IoProxy.Kernel

namespace Gvds.DataDirectory

open ReplicaQueue (Route route)

/-! ### Paths -/

/-- The characters of a path. -/
abbrev Path := List Char

/-- `'\0'`. -/
def nul : Char := Char.ofNat 0

/-- `operator/` of the filesystem TS: a separator goes between the operands unless one is empty or
has one there. -/
def join (a b : Path) : Path :=
  if a ≠ [] ∧ a.getLast? ≠ some '/' ∧ b ≠ [] ∧ b.head? ≠ some '/' then a ++ '/' :: b else a ++ b

/-- What a system call reads of a path, as `c_str` ends at the first null character: the parts
between the separators. -/
def components (p : Path) : List String :=
  (((p.takeWhile (· ≠ nul)).splitOn '/').filter (· ≠ [])).map String.ofList

/-- `*fs::path(p).begin()`: nothing for the empty path, a root name after two separators, else a root
directory or a name. -/
def firstComponent : Path → Option Path
  | [] => none
  | ['/', '/'] => some ['/', '/']
  | '/' :: '/' :: c :: p =>
      if c = '/' then some ['/'] else some ('/' :: '/' :: (c :: p).takeWhile (· ≠ '/'))
  | '/' :: _ => some ['/']
  | c :: p => some ((c :: p).takeWhile (· ≠ '/'))

/-- `IOProxy::data_path`, which names a directory when the proxy starts. -/
structure DataPath where
  text : Path
  ne_nil : text ≠ []
  noNul : nul ∉ text

/-- A path from the root. -/
def Absolute (p : Path) : Prop := p.head? = some '/'

instance (p : Path) : Decidable (Absolute p) := inferInstanceAs (Decidable (_ = _))

/-- `DataPath / path`. -/
def DataPath.below (dp : DataPath) (p : Path) : Path := join dp.text p

/-! ### Where paths lead -/

/-- What a relative path is relative to: the current directory, or the directory of descriptor 0. -/
inductive Base where
  | cwd
  | descriptor0
deriving DecidableEq

/-- A path that is handed to the system, and whether what it names may be created. -/
structure Access where
  base : Base
  path : Path
  creates : Bool

/-- The file system as the process sees it: the names, the current directory, and the directory that
descriptor 0 is open on, if it is one. -/
structure Host where
  tree : FileTree
  cwd : PathName
  descriptor0 : Option PathName

/-- Where the walk along a path starts. -/
def Host.start (h : Host) (a : Access) : Option PathName :=
  if Absolute a.path then some []
  else
    match a.base with
    | .cwd => some h.cwd
    | .descriptor0 => h.descriptor0

/-- The file or directory that an access concerns. -/
def Host.locate (h : Host) (a : Access) : Option PathName :=
  (h.start a).bind fun loc => PathWalk.locate h.tree a.creates loc (components a.path)

/-- The data path names the directory at a location. -/
def Host.Serves (h : Host) (dp : DataPath) (loc : PathName) : Prop :=
  h.locate ⟨.cwd, dp.text, false⟩ = some loc ∧ h.tree.node loc = some .dir

/-- An access concerns nothing but what is in the directory at a location, itself included. -/
def Host.Within (h : Host) (loc : PathName) (a : Access) : Prop :=
  ∀ q, h.locate a = some q → loc <:+ q

/-! ### System calls -/

/-- The name of a directory entry. -/
def EntryName := { name : Path // name ≠ [] ∧ '/' ∉ name ∧ nul ∉ name }

/-- The calls that name files, with what of their answers decides how the program goes on: an error
code, which is negative, or 0 or a descriptor or a length; for `stat` an error code or whether it is
a directory; for `readdir` the entries. The last two act on descriptors: `transfer` is `pread`,
`pwrite` or `fallocate`. -/
inductive SysCall : Type → Type where
  | stat (path : Path) : SysCall (Except Int Bool)
  | rename (path newpath : Path) : SysCall Int
  | utimensat (path : Path) : SysCall Int
  | permissions (path : Path) : SysCall Int
  | resize_file (path : Path) : SysCall Int
  | open (path : Path) (flags : BitVec 32) : SysCall Int
  | create_directory (path : Path) : SysCall Int
  | remove (path : Path) : SysCall Int
  | readdir (path : Path) : SysCall (Except Int (List EntryName))
  | unlink (path : Path) : SysCall Int
  | setxattr (path : Path) : SysCall Int
  | getxattr (path : Path) : SysCall Int
  | listxattr (path : Path) : SysCall Int
  | removexattr (path : Path) : SysCall Int
  | hasHoles (offset size : UInt64) : SysCall Bool
  | transfer : SysCall Int

/-- The paths of a call. `utimensat` is given descriptor 0 for its directory. -/
def SysCall.accesses {β : Type} : SysCall β → List Access
  | .stat path => [⟨.cwd, path, false⟩]
  | .rename path newpath => [⟨.cwd, path, false⟩, ⟨.cwd, newpath, true⟩]
  | .utimensat path => [⟨.descriptor0, path, false⟩]
  | .permissions path => [⟨.cwd, path, false⟩]
  | .resize_file path => [⟨.cwd, path, false⟩]
  | .open path flags => [⟨.cwd, path, hasFlag flags oCreat⟩]
  | .create_directory path => [⟨.cwd, path, true⟩]
  | .remove path => [⟨.cwd, path, false⟩]
  | .readdir path => [⟨.cwd, path, false⟩]
  | .unlink path => [⟨.cwd, path, false⟩]
  | .setxattr path => [⟨.cwd, path, false⟩]
  | .getxattr path => [⟨.cwd, path, false⟩]
  | .listxattr path => [⟨.cwd, path, false⟩]
  | .removexattr path => [⟨.cwd, path, false⟩]
  | .hasHoles _ _ => []
  | .transfer => []

/-! ### Requests -/

/-- `OpRequest` with all fields but its number and its size. -/
structure OpRequest where
  filepath : String
  type : ReplicaQueue.OpType
  extra : List UInt8
  additional_param : AdditionalParam
  mode : BitVec 32
  data : List UInt8

namespace OpRequest

/-- `request.filepath()`. -/
def path (r : OpRequest) : Path := r.filepath.toList

/-- `request.newpath()`. -/
def newpath (r : OpRequest) : Path :=
  match r.additional_param with
  | .newpath path => path.toList
  | _ => []

/-- `request.xattr_name()`. -/
def xattr_name (r : OpRequest) : String :=
  match r.additional_param with
  | .xattr_name name => name
  | _ => ""

/-- `request.io_param().offset()`. -/
def offset (r : OpRequest) : UInt64 :=
  match r.additional_param with
  | .io_param param => UInt64.ofBitVec param.offset
  | _ => 0

/-- `request.io_param().size()`. -/
def size (r : OpRequest) : UInt64 :=
  match r.additional_param with
  | .io_param param => UInt64.ofBitVec param.size
  | _ => 0

end OpRequest

/-- `Attr::NodeType`; protobuf keeps other values. -/
inductive NodeType where
  | regularFile
  | directory
  | link
  | unknown (value : Int)
deriving DecidableEq

/-- The entry names and the entries' types of an `OpReply` that carries a directory structure. -/
structure DirEntries where
  entry_names : List String
  entries : List NodeType

/-- What a center knows: its own number, the centers in `ioproxys`, and protobuf's parser for the
data of `rep_init_space`. -/
structure Center where
  mcid : UInt8
  ioproxys : UInt32 → Bool
  parse : List UInt8 → DirEntries

variable (dp : DataPath)

/-- `iop->data_path / *fs::path(path).begin()`; nothing where the path is empty. -/
def spacePath (path : Path) : Option Path := (firstComponent path).map dp.below

/-! ### The handlers of ReplicaMgr -/

/-- `ReplicaMgr::sync_filedata`, after its caller has opened the file. It is false where the process
ends. -/
def sync_filedata (path : Path) (off len : UInt64) : Program SysCall Bool := do
  let fh ← .perform (.open (dp.below path) oRdwr)
  if fh < 0 then pure false
  else if ← .perform (.hasHoles off len) then
    match spacePath dp path with
    | none => pure false
    | some space_path =>
        let _ ← .perform (.getxattr space_path)
        pure true
  else pure true

/-- `ReplicaMgr::sync_unalign_page`. -/
def sync_unalign_page (path : Path) (off len : UInt64) : Program SysCall Bool := do
  let first ←
    (if off &&& 0xFFF ≠ 0 then sync_filedata dp path (off / 4096 * 4096) 4096 else pure true)
  if first then
    if (off + len) &&& 0xFFF ≠ 0 then sync_filedata dp path ((off + len) / 4096 * 4096) 4096
    else pure true
  else pure false

/-- The loop of `_replicate_space_request` over the entries of one directory; it returns the stack of
directories. -/
def scanEntries (cur_dir : Path) : List EntryName → List Path → Program SysCall (List Path)
  | [], dirs => pure dirs
  | filename :: rest, dirs => do
      if filename.val = ['.'] ∨ filename.val = ['.', '.'] then scanEntries cur_dir rest dirs
      else
        match ← .perform (.stat (join (dp.below cur_dir) filename.val)) with
        | .ok true => scanEntries cur_dir rest (join cur_dir filename.val :: dirs)
        | _ => scanEntries cur_dir rest dirs

/-- The loop of `_replicate_space_request` over the stack of directories, for so many rounds. -/
def scan : Nat → List Path → Program SysCall Unit
  | 0, _ => pure ()
  | _, [] => pure ()
  | fuel + 1, cur_dir :: dirs => do
      match ← .perform (.readdir (dp.below cur_dir)) with
      | .error _ => scan fuel dirs
      | .ok filenames => scan fuel (← scanEntries dp cur_dir filenames dirs)

/-- `ReplicaMgr::create_replicated_space`: its error code, or nothing where an exception leaves it or
the process ends. A center that is not known gives `-ENXIO`, an attribute that cannot be set
`-EMLINK`. -/
def create_replicated_space (c : Center) (fuel : Nat) (path : Path) (cids_str : List UInt8) :
    Program SysCall (Option Int) :=
  match CenterIds.compressIds c.ioproxys [c.mcid] (CenterIds.split cids_str), firstComponent path with
  | .error .exception, _ => pure none
  | .error _, _ => pure (some (-6))
  | .ok _, none => pure none
  | .ok _, some space => do
      if (← .perform (.setxattr (dp.below space))) < 0 then pure (some (-31))
      else
        scan dp fuel [space]
        pure (some 0)

/-- The switch of `_handle_create_replicated_space`. It is false where a created file cannot be
opened, which ends the process. -/
def createEntry (nodepath : Path) : NodeType → Program SysCall Bool
  | .directory => do
      let _ ← .perform (.create_directory nodepath)
      pure true
  | .regularFile => do
      let _ ← .perform (.open nodepath (oCreat ||| oWronly ||| oTrunc))
      let _ ← .perform (.resize_file nodepath)
      let fh ← .perform (.open nodepath oRdwr)
      pure (decide (0 ≤ fh))
  | _ => pure true

/-- The loop of `_handle_create_replicated_space`. Where the entries end before the names do, the
process ends. -/
def createEntries : List (String × NodeType) → Program SysCall Unit
  | [] => pure ()
  | (name, type) :: rest => do
      let nodepath := dp.below name.toList
      if ← createEntry nodepath type then
        let _ ← .perform (.utimensat nodepath)
        createEntries rest
      else pure ()

/-- `ReplicaMgr::_handle_create_replicated_space`. `EEXIST` is 17. -/
def _handle_create_replicated_space (c : Center) (r : OpRequest) : Program SysCall Unit := do
  let rep_space_path := dp.below r.path
  let err ← .perform (.create_directory rep_space_path)
  if err < 0 ∧ err ≠ -17 then pure ()
  else if (← .perform (.setxattr rep_space_path)) < 0 then pure ()
  else
    let dir_entries := c.parse r.data
    createEntries dp (dir_entries.entry_names.zip dir_entries.entries)

/-- `FdManager::get_file_handler` for the file of a request. -/
def get_file_handler (r : OpRequest) : Program SysCall Unit := do
  let _ ← .perform (.open (dp.below r.path) oRdwr)
  pure ()

/-- `ReplicaMgr::_handle_file_sync_data`. All else it does on the descriptor. -/
def _handle_file_sync_data (r : OpRequest) : Program SysCall Unit := get_file_handler dp r

/-- `ReplicaMgr::_handle_file_index_update`. All else it does on the descriptor. -/
def _handle_file_index_update (r : OpRequest) : Program SysCall Unit := get_file_handler dp r

/-- Parts 1.b and 1.c of `handle_replica_async`. -/
def askSpace (r : OpRequest) (err_code : Int) : Program SysCall Unit :=
  if err_code < 0 then pure ()
  else
    match spacePath dp r.path with
    | none => pure ()
    | some space_path => do
        let _ ← .perform (.getxattr space_path)
        pure ()

/-- `ReplicaMgr::handle_replica_async`. -/
def handle_replica_async (c : Center) (r : OpRequest) (err_code : Int) : Program SysCall Unit :=
  if r.filepath = "" then pure ()
  else
    match route r.type with
    | .readOnly => pure ()
    | .change => if r.extra.length ≠ 0 then pure () else askSpace dp r err_code
    | .write => askSpace dp r err_code
    | .default => askSpace dp r err_code
    | .handled =>
        match r.type with
        | .rep_init_space => _handle_create_replicated_space dp c r
        | .rep_sync_data => _handle_file_sync_data dp r
        | _ => _handle_file_index_update dp r

/-! ### ProxyOP::do_op -/

/-- The error code of `get_attr`. -/
def get_attr (path : Path) : Program SysCall Int := do
  match ← .perform (.stat path) with
  | .error err => pure err
  | .ok _ => pure 0

/-- The loop over the entries of a directory. -/
def statEntries (path : Path) : List EntryName → Program SysCall Unit
  | [] => pure ()
  | filename :: rest => do
      let _ ← get_attr (join path filename.val)
      statEntries path rest

/-- A call whose error code becomes that of the reply. -/
def reply (call : SysCall Int) : Program SysCall (Option Int) := do
  let err ← .perform call
  pure (some err)

/-- The switch of `ProxyOP::do_op`: the error code of the reply, or nothing where the request ends
early. -/
def perform_op (c : Center) (fuel : Nat) (r : OpRequest) : Program SysCall (Option Int) :=
  let path := dp.below r.path
  match r.type with
  | .getattr => do
      let err ← get_attr path
      pure (some err)
  | .rename => reply (.rename path (dp.below r.newpath))
  | .utimens => reply (.utimensat path)
  | .chmod => reply (.permissions path)
  | .truncate => reply (.resize_file path)
  | .open => reply (.open path (r.mode ||| oRdwr))
  | .release => pure (some 0)
  | .create => reply (.open path (oCreat ||| oSync))
  | .fallocate => do
      let fd ← .perform (.open path (oCreat ||| oRdwr))
      if fd > 0 then reply .transfer else pure (some (-9))
  | .mkdir => reply (.create_directory path)
  | .rmdir => reply (.remove path)
  | .readdir => do
      match ← .perform (.readdir path) with
      | .error err => pure (some err)
      | .ok filenames =>
          statEntries path filenames
          pure (some 0)
  | .read => do
      let fd ← .perform (.open path oRdwr)
      if fd < 0 then pure (some fd)
      else if ← sync_filedata dp r.path r.offset r.size then reply .transfer
      else pure none
  | .write => do
      let fd ← .perform (.open path oRdwr)
      if fd < 0 then pure (some fd)
      else if ← sync_unalign_page dp r.path r.offset r.size then reply .transfer
      else pure none
  | .unlink => reply (.unlink path)
  | .setxattr =>
      if r.xattr_name = "user.replicate.create" then
        create_replicated_space dp c fuel r.path r.data
      else reply (.setxattr path)
  | .getxattr => reply (.getxattr path)
  | .listxattr => reply (.listxattr path)
  | .removexattr => reply (.removexattr path)
  | _ => pure (some 0)

/-- `ProxyOP::do_op`. The scan of a new replicated space takes at most `fuel` rounds. -/
def do_op (c : Center) (fuel : Nat) (r : OpRequest) : Program SysCall Unit := do
  match ← perform_op dp c fuel r with
  | none => pure ()
  | some err_code => handle_replica_async dp c r err_code

end Gvds.DataDirectory
