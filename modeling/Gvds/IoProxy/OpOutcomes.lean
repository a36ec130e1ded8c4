/-
Module: Gvds.IoProxy.OpOutcomes
Layer: IoProxy
Purpose: The error codes of ProxyOP::do_op (io_proxy/proxy_op.cc) under all outcomes of its system
  calls, with `FdManager::open`, `create` and `remove` (io_proxy/fd_mgr.cc), the functions of the
  filesystem library, and what `handle_replica_async` (io_proxy/replica_mgr.cc) puts on its queue.
  Each call succeeds or fails with an error number, which it leaves in `errno`.
Imports: Gvds.IoProxy.DataPath, Gvds.IoProxy.FdMgr
Trusted boundary: Linux and libstdc++. A call that succeeds leaves `errno` alone, and so does what
  is no system call; what a call transfers is shorter than 2^31. What the syncs before a read or a
  write do is one call. The attribute user.replicate.create is handled elsewhere, and is a parameter
Main exports: ErrorNumber, SysCall, own, Outcomes, Process, fdm_open, fdm_create, fdm_remove,
  perform_op, handle_replica_async, do_op
-/
import Gvds.IoProxy.DataPath
import Gvds.IoProxy.FdMgr

namespace Gvds.OpOutcomes

open DataDirectory (Path DataPath EntryName NodeType join spacePath)
open ReplicaQueue (route)

/-! ### System calls -/

/-- A value of `errno` after a call that has failed. -/
abbrev ErrorNumber := { n : Nat // 0 < n ∧ n ≤ 4095 }

/-- The error numbers that the library or the source distinguish. -/
def ENOENT : Nat := 2
def EBADF : Nat := 9
def EEXIST : Nat := 17
def ENOTDIR : Nat := 20
def EOVERFLOW : Nat := 75

/-- What `get_attr` reads of a `struct stat`. -/
structure Stat where
  st_mode : BitVec 32
  st_size : UInt64
  st_mtim : UInt64
  st_ctim : UInt64
deriving DecidableEq

/-- What is left in a directory stream: entries, and then the end or an error. -/
inductive DirStream where
  | ended (err : Option ErrorNumber)
  | entry (filename : EntryName) (next : DirStream)

/-- How the stream ends. -/
def DirStream.ending : DirStream → Option ErrorNumber
  | .ended err => err
  | .entry _ next => next.ending

/-- The calls, with what they return where they succeed. For a call that fills a buffer this is the
number that it returns and the buffer. `statEntry` is the `stat` of a directory entry, `status` the
one with which `fs::create_directory` looks for a directory, and `centers` the `getxattr` for the
centers of a space. -/
inductive SysCall : Type → Type where
  | stat (path : Path) : SysCall Stat
  | statEntry (path : Path) : SysCall Stat
  | rename (path newpath : Path) : SysCall Unit
  | utimensat (path : Path) (tv_sec tv_nsec : UInt64) : SysCall Unit
  | fchmodat (path : Path) (mode : BitVec 32) : SysCall Unit
  | truncate (path : Path) (size : UInt64) : SysCall Unit
  | open (path : Path) (flags mode : BitVec 32) : SysCall Nat
  | ftruncate (fd : Int) : SysCall Unit
  | fsync (fd : Int) : SysCall Unit
  | close (fd : Int) : SysCall Unit
  | fallocate (fd : Int) (mode : BitVec 32) (offset size : UInt64) : SysCall Unit
  | mkdir (path : Path) : SysCall Unit
  | status (path : Path) : SysCall Bool
  | lstat (path : Path) : SysCall Unit
  | remove (path : Path) : SysCall Unit
  | opendir (path : Path) : SysCall DirStream
  | closedir (dp : Option DirStream) : SysCall Unit
  | pread (fd : Int) (size offset : UInt64) : SysCall (Nat × List UInt8)
  | pwrite (fd : Int) (data : List UInt8) (size offset : UInt64) : SysCall Nat
  | unlink (path : Path) : SysCall Unit
  | setxattr (path : Path) (name : String) (value : List UInt8) (size : UInt64)
      (flags : BitVec 32) : SysCall Unit
  | getxattr (path : Path) (name : String) (size : UInt64) : SysCall (Nat × List UInt8)
  | listxattr (path : Path) (size : UInt64) : SysCall (Nat × List UInt8)
  | removexattr (path : Path) (name : String) : SysCall Unit
  | sync_filedata (path : Path) (off len : UInt64) : SysCall Unit
  | sync_unalign_page (path : Path) (off len : UInt64) : SysCall Unit
  | centers (space_path : Path) : SysCall (List UInt8)

/-- The operation is made of this call, so that it fails if the call fails. It goes on without the
others: what only gives descriptors and streams back, the look at a directory entry, which is left
out then, the second look of the library, the syncs and the replication. -/
def SysCall.own {β : Type} : SysCall β → Bool
  | .statEntry _ => false
  | .fsync _ => false
  | .close _ => false
  | .status _ => false
  | .closedir _ => false
  | .sync_filedata _ _ _ => false
  | .sync_unalign_page _ _ _ => false
  | .centers _ => false
  | _ => true

/-- What each call does, by its number. -/
abbrev Outcomes := ∀ β : Type, Nat → SysCall β → Except ErrorNumber β

/-! ### Requests and replies -/

/-- `OpRequest` in full. -/
structure OpRequest extends DataDirectory.OpRequest where
  id : UInt64
  size : UInt64

/-- `Attr`. -/
structure Attr where
  size : UInt64
  type : NodeType
  permission : BitVec 32
  ctime : UInt64
  mtime : UInt64

/-- The oneof of an `OpReply`. -/
inductive Additional where
  | none
  | data (bytes : List UInt8)
  | attr (attr : Attr)

/-- `OpReply`, without the parameters of a sync. -/
structure OpReply where
  id : UInt64
  err_code : Int
  additional : Additional
  entry_names : List Path
  entries : List Attr

/-- The process: `errno`, the descriptors of `FdManager`, and the replicated queue. The number of
calls made, and the first failure of a call that the operation is made of, are not known to it. -/
structure Process where
  errno : Nat
  fds : Lru Path Nat
  max_fd_num : Nat
  m_new : List OpRequest
  calls : Nat
  failed : Option ErrorNumber

/-- What a request is served with: the data path, and `create_replicated_space`. -/
structure Server where
  data_path : DataPath
  create_replicated_space : Path → List UInt8 → StateM Process Int

/-- The process after a failure. -/
def Process.fail (p : Process) (own : Bool) (e : ErrorNumber) : Process :=
  { p with
    errno := e.val
    failed := if own then p.failed.or (some e) else p.failed }

/-- The process after one more call. -/
def Process.count (p : Process) : Process := { p with calls := p.calls + 1 }

section Calls

variable (os : Outcomes)

/-- Make a call. Nothing is -1, or a null pointer. -/
def sys {β : Type} (c : SysCall β) : StateM Process (Option β) := fun p =>
  match os β p.calls c with
  | .ok b => (some b, p.count)
  | .error e => (none, p.count.fail c.own e)

/-- `-errno`. -/
def minusErrno : StateM Process Int := do
  let p ← get
  pure (-(p.errno : Int))

/-- `readdir`: the next entry and the stream behind it, or a null pointer. -/
def readdir : DirStream → StateM Process (Option (EntryName × DirStream))
  | .entry filename next => pure (some (filename, next))
  | .ended none => pure none
  | .ended (some e) => do
      modify fun p => p.fail true e
      pure none

/-! ### The filesystem library -/

/-- `ec.value()` after a function that makes one call: `fs::rename`, `fs::permissions`,
`fs::resize_file`. -/
def errorCode (c : SysCall Unit) : StateM Process Nat := do
  match ← sys os c with
  | some _ => pure 0
  | none => do
      let p ← get
      pure p.errno

/-- `fs::create_directory`: it is no error if there is a directory. -/
def fs_create_directory (path : Path) : StateM Process Nat := do
  let err ← errorCode os (.mkdir path)
  if err = EEXIST then
    match ← sys os (.status path) with
    | some true => pure 0
    | _ => pure err
  else pure err

/-- `fs::remove`: it is no error if there is nothing. What cannot be described is removed. -/
def fs_remove (path : Path) : StateM Process Nat := do
  let err ← errorCode os (.lstat path)
  if err = ENOENT ∨ err = ENOTDIR then pure 0
  else if err = 0 ∨ err = EOVERFLOW then errorCode os (.remove path)
  else pure err

/-! ### FdManager -/

/-- The rounds of `checkAndExpire`: each closes the descriptor that was used last. -/
def checkAndExpire : Nat → StateM Process Unit
  | 0 => pure ()
  | rounds + 1 => do
      let p ← get
      match p.fds.oldest with
      | none => pure ()
      | some (_, fd_exp) => do
          set { p with fds := p.fds.expire }
          let _ ← sys os (.close fd_exp)
          checkAndExpire rounds

/-- `FdManager::open`. -/
def fdm_open (path : Path) (flags mode : BitVec 32) : StateM Process Int := do
  let p ← get
  match p.fds.lookup path with
  | some fd => do
      if hasFlag flags oTrunc then
        let _ ← sys os (.ftruncate fd)
      modify fun p => { p with fds := p.fds.hit path }
      pure fd
  | none => do
      match ← sys os (.open path (flags &&& ~~~IoProxy.maskFlags) mode) with
      | none => minusErrno
      | some fd => do
          modify fun p => { p with fds := p.fds.touch path fd }
          let p ← get
          checkAndExpire os (p.fds.size - p.max_fd_num)
          pure fd

/-- `FdManager::close`. -/
def fdm_close (path : Path) : StateM Process Int := do
  let p ← get
  match p.fds.lookup path with
  | some fd => do
      let _ ← sys os (.fsync fd)
      pure 0
  | none => pure 0

/-- What `create` and `remove` do with a cached descriptor. -/
def closeCached (path : Path) : StateM Process Unit := do
  let p ← get
  match p.fds.lookup path with
  | some fd_old => do
      set { p with fds := p.fds.erase path }
      let _ ← sys os (.close fd_old)
      pure ()
  | none => pure ()

/-- `FdManager::create`. A failure is what `open` returns, -1. -/
def fdm_create (path : Path) (mode : BitVec 32) : StateM Process Int := do
  match ← sys os (.open path (oCreat ||| oSync) mode) with
  | none => pure (-1)
  | some fd_new => do
      closeCached os path
      let _ ← sys os (.close fd_new)
      pure 0

/-- `FdManager::remove`. It returns what `unlink` returns. -/
def fdm_remove (path : Path) : StateM Process Int := do
  closeCached os path
  match ← sys os (.unlink path) with
  | none => pure (-1)
  | some _ => pure 0

/-! ### ProxyOP::do_op -/

/-- `ProxyOP::get_attr`: the error code, or the attributes. -/
def get_attr (c : SysCall Stat) : StateM Process (Except Int Attr) := do
  match ← sys os c with
  | none => do
      let err ← minusErrno
      pure (.error err)
  | some st =>
      let format := st.st_mode &&& 0xF000#32
      let type : NodeType :=
        if format = 0x4000#32 then .directory
        else if format = 0xA000#32 then .link
        else .regularFile
      pure (.ok ⟨st.st_size, type, st.st_mode, st.st_ctim, st.st_mtim⟩)

/-- A call whose failure is reported at once as `-errno`. -/
def orMinusErrno {β : Type} (c : SysCall β) (reply : OpReply) (ok : β → OpReply) :
    StateM Process OpReply := do
  match ← sys os c with
  | none => do
      let err ← minusErrno
      pure { reply with err_code := err }
  | some b => pure (ok b)

/-- The body of the loop over a directory. An entry without attributes is left out. -/
def addEntry (path : Path) (filename : EntryName) (reply : OpReply) : StateM Process OpReply := do
  match ← get_attr os (.statEntry (join path filename.val)) with
  | .error _ => pure reply
  | .ok attr =>
      pure { reply with
        entry_names := reply.entry_names ++ [filename.val]
        entries := reply.entries ++ [attr] }

/-- The loop over a directory, from an entry on. -/
def addEntries (path : Path) (filename : EntryName) :
    DirStream → OpReply → StateM Process OpReply
  | .entry filename' next, reply => do
      let reply ← addEntry os path filename reply
      addEntries path filename' next reply
  | .ended err, reply => do
      let reply ← addEntry os path filename reply
      let _ ← readdir (.ended err)
      pure reply

/-- The case of a directory: a null pointer from `opendir` or the first `readdir` is reported after
`closedir`. -/
def readDirectory (path : Path) (reply : OpReply) : StateM Process OpReply := do
  match ← sys os (.opendir path) with
  | none => do
      let _ ← sys os (.closedir none)
      let err ← minusErrno
      pure { reply with err_code := err }
  | some dp => do
      match ← readdir dp with
      | none => do
          let _ ← sys os (.closedir (some dp))
          let err ← minusErrno
          pure { reply with err_code := err }
      | some (filename, next) => do
          let reply ← addEntries os path filename next reply
          let _ ← sys os (.closedir (some dp))
          pure reply

/-- The reply with an error code. -/
def withCode (reply : OpReply) (err_code : StateM Process Int) : StateM Process OpReply := do
  let err_code ← err_code
  pure { reply with err_code := err_code }

/-- The reply with `-ec.value()`. -/
def withEc (reply : OpReply) (ec : StateM Process Nat) : StateM Process OpReply := do
  let ec ← ec
  pure { reply with err_code := -(ec : Int) }

variable (srv : Server)

/-- The switch of `ProxyOP::do_op`. -/
def perform_op (r : OpRequest) (reply : OpReply) : StateM Process OpReply :=
  let path := srv.data_path.below r.path
  let offset := r.toOpRequest.offset
  let size := r.toOpRequest.size
  match r.type with
  | .getattr => do
      match ← get_attr os (.stat path) with
      | .error err => pure { reply with err_code := err }
      | .ok attr => pure { reply with additional := .attr attr, err_code := 0 }
  | .rename => withEc reply (errorCode os (.rename path (srv.data_path.below r.newpath)))
  | .utimens => orMinusErrno os (.utimensat path size offset) reply fun _ => reply
  | .chmod => withEc reply (errorCode os (.fchmodat path (r.mode &&& 0xFFF#32)))
  | .truncate => withEc reply (errorCode os (.truncate path r.size))
  | .open => withCode reply (fdm_open os path (r.mode ||| oRdwr) 0o644#32)
  | .release => withCode reply (fdm_close os path)
  | .create => withCode reply (fdm_create os path r.mode)
  | .fallocate => do
      let fd ← fdm_open os path (oCreat ||| oRdwr) 0o666#32
      if fd > 0 then orMinusErrno os (.fallocate fd r.mode offset size) reply fun _ => reply
      else pure { reply with err_code := -(EBADF : Int) }
  | .mkdir => withEc reply (fs_create_directory os path)
  | .rmdir => withEc reply (fs_remove os path)
  | .readdir => readDirectory os path reply
  | .read => do
      let fd ← fdm_open os path oRdwr 0o655#32
      if fd < 0 then pure { reply with err_code := fd }
      else
        let _ ← sys os (.sync_filedata r.path offset size)
        orMinusErrno os (.pread fd size offset) reply fun ret =>
          { reply with additional := .data ret.2, err_code := ret.1 }
  | .write => do
      let fd ← fdm_open os path oRdwr 0o655#32
      if fd < 0 then pure { reply with err_code := fd }
      else
        let _ ← sys os (.sync_unalign_page r.path offset size)
        orMinusErrno os (.pwrite fd r.data size offset) reply fun ret =>
          { reply with err_code := ret }
  | .unlink => withCode reply (fdm_remove os path)
  | .setxattr =>
      if r.xattr_name = "user.replicate.create" then
        withCode reply (srv.create_replicated_space r.path r.data)
      else
        orMinusErrno os (.setxattr path r.xattr_name r.data r.size r.mode) reply fun _ => reply
  | .getxattr =>
      orMinusErrno os (.getxattr path r.xattr_name r.size) reply fun err =>
        { reply with err_code := err.1, additional := .data err.2 }
  | .listxattr =>
      orMinusErrno os (.listxattr path r.size) reply fun err =>
        { reply with err_code := err.1, additional := .data err.2 }
  | .removexattr =>
      orMinusErrno os (.removexattr path r.xattr_name) reply fun _ => { reply with err_code := 0 }
  | _ => pure reply

/-- Parts 1.b to 2 of `handle_replica_async`. -/
def enqueue (r : OpRequest) (err_code : Int) : StateM Process Unit :=
  if err_code < 0 then pure ()
  else
    match spacePath srv.data_path r.path with
    | none => pure ()
    | some space_path => do
        match ← sys os (.centers space_path) with
        | none => pure ()
        | some cid =>
            if cid.length < 2 then pure ()
            else modify fun p => { p with m_new := p.m_new ++ [{ r with extra := cid }] }

/-- `ReplicaMgr::handle_replica_async`. What the manager handles itself is left out. -/
def handle_replica_async (r : OpRequest) (err_code : Int) : StateM Process Unit :=
  if r.filepath = "" then pure ()
  else
    match route r.type with
    | .readOnly => pure ()
    | .change => if r.extra.length ≠ 0 then pure () else enqueue os srv r err_code
    | .write => enqueue os srv { r with data := [] } err_code
    | .handled => pure ()
    | .default => enqueue os srv r err_code

/-- `ProxyOP::do_op`. -/
def do_op (r : OpRequest) : StateM Process OpReply := do
  let reply ← perform_op os srv r ⟨r.id, 0, .none, [], []⟩
  handle_replica_async os srv r reply.err_code
  pure reply

end Calls

end Gvds.OpOutcomes
