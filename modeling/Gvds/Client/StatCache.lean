/-
Module: Gvds.Client.StatCache
Layer: Client
Purpose: The stat cache of the client (client/cache_mod.cc) with the FUSE calls that fill and expire
  it (client/gvds_fuse_impl.cc), and the IO proxies that the calls go to, with the permissions of
  their files and directories.
Imports: Gvds.Client.FuseCalls, Gvds.IoProxy.Dispatch
Trusted boundary: as Gvds.IoProxy.Kernel. The maps of zones, spaces and IO proxies stay as they are,
  RPCs are answered, and writes are synchronous. No other center sends data. Times are left out, and
  what the calls but getattr return
Main exports: Stat, Proxy, Op, Proxy.doOp, Proxy.get_attr, ClientCache, Config, Call, State, step
-/
import Gvds.Client.FuseCalls
import Gvds.IoProxy.Dispatch
import Gvds.Lib.FileNames

namespace Gvds.StatCache

/-! ### The IO proxies -/

/-- What getattr reports: the kind and the permissions, which share `st_mode`, and the size. -/
structure Stat where
  kind : NodeKind
  permission : BitVec 32
  size : Nat
deriving DecidableEq

/-- The answer to a getattr. -/
abbrev Answer := Except Int Stat

variable {β : Type*}

/-- An IO proxy with the permissions of what its paths name. -/
structure Proxy (β : Type*) where
  io : IoProxy β
  mode : PathName → BitVec 32

/-- Of the file system: the mask of the process for the permissions of new files, and the size of
directories. -/
structure FileSystem where
  umask : BitVec 32
  dirSize : FileTree → PathName → Nat

/-- `errno` values. -/
def Errno.number : Errno → Int
  | .enoent => 2
  | .eexist => 17
  | .enotdir => 20
  | .eisdir => 21
  | .enotempty => 39
  | .einval => 22
  | .ebadf => 9
  | .efbig => 27

/-- The requests that change something, with what the mode field says about permissions. -/
inductive Op where
  | open (path : PathName) (flags : BitVec 32)
  | create (path : PathName) (mode : BitVec 32)
  | write (path : PathName) (data : List UInt8) (offset : Nat)
  | truncate (path : PathName) (size : Nat)
  | unlink (path : PathName)
  | mkdir (path : PathName)
  | rmdir (path : PathName)
  | rename (path newpath : PathName)
  | chmod (path : PathName) (mode : BitVec 32)

/-- The paths of a request. -/
def Op.paths : Op → List PathName
  | .open path _ => [path]
  | .create path _ => [path]
  | .write path _ _ => [path]
  | .truncate path _ => [path]
  | .unlink path => [path]
  | .mkdir path => [path]
  | .rmdir path => [path]
  | .rename path newpath => [path, newpath]
  | .chmod path _ => [path]

namespace Proxy

/-- `ProxyOP::get_attr`. -/
def get_attr (fs : FileSystem) (s : Proxy β) (path : PathName) : Answer :=
  match s.io.k.tree.node path with
  | none => .error (-Errno.number (s.io.k.missing path))
  | some .dir => .ok ⟨.dir, s.mode path, fs.dirSize s.io.k.tree path⟩
  | some (.file ino) => .ok ⟨.file, s.mode path, (s.io.k.content ino).size⟩

/-- A request on one path, which gives its permissions to what it makes there. -/
def execute (fs : FileSystem) (s : Proxy β) (r : Request) (path : PathName) (mode : BitVec 32) :
    Proxy β :=
  let io := (s.io.doOp noPeers r).1
  if s.io.k.tree.node path = none ∧ io.k.tree.node path ≠ none then
    ⟨io, Function.update s.mode path (mode &&& permsMask &&& ~~~fs.umask)⟩
  else ⟨io, s.mode⟩

/-- The permissions after `src` has been moved to `dst`. -/
def movedMode (mode : PathName → BitVec 32) (src dst : PathName) : PathName → BitVec 32 := fun q =>
  if dst <:+ q then mode (q.take (q.length - dst.length) ++ src) else mode q

/-- The cases of `ProxyOP::do_op`. -/
def doOp (fs : FileSystem) (s : Proxy β) : Op → Proxy β
  | .open path flags => s.execute fs (.open path flags) path 0o644#32
  | .create path mode => s.execute fs (.create path) path mode
  | .write path data offset => s.execute fs (.write path data offset) path 0
  | .truncate path size => s.execute fs (.truncate path size) path 0
  | .unlink path => s.execute fs (.unlink path) path 0
  | .mkdir path => s.execute fs (.mkdir path) path 0o777#32
  | .rmdir path => s.execute fs (.rmdir path) path 0
  | .rename path newpath =>
      match s.io.doOp noPeers (.rename path newpath) with
      | (io, .done _) => ⟨io, movedMode s.mode path newpath⟩
      | (io, _) => ⟨io, s.mode⟩
  | .chmod path mode =>
      if (s.io.k.tree.node path).isSome then
        ⟨s.io, Function.update s.mode path (mode &&& permsMask)⟩
      else s

end Proxy

/-! ### ClientCache -/

/-- `ClientCache`; the capacity is part of the configuration. -/
structure ClientCache where
  missing : PathName → Bool
  cached : PathName → Option Stat
  stat_cache_ct : Int

namespace ClientCache

/-- `ClientCache::Status`, with the entry that is found. -/
inductive Status where
  | found (st : Stat)
  | notFound
  | foundMissing
deriving DecidableEq

/-- After `ClientCache::start`. -/
def empty : ClientCache where
  missing := fun _ => false
  cached := fun _ => none
  stat_cache_ct := 0

/-- `ClientCache::lookup`, and `get_stat`. -/
def lookup (c : ClientCache) (key : PathName) : Status :=
  if c.missing key then .foundMissing
  else
    match c.cached key with
    | none => .notFound
    | some st => .found st

/-- `ClientCache::set_stat` with `nullptr`. -/
def set_missing (c : ClientCache) (path : PathName) : ClientCache :=
  { c with missing := Function.update c.missing path true }

/-- `ClientCache::set_stat` with a stat. -/
def set_stat (max_stat_cache_ct : Int) (c : ClientCache) (path : PathName) (st : Stat) :
    ClientCache :=
  let c := { c with missing := Function.update c.missing path false }
  match c.lookup path with
  | .found _ => { c with cached := Function.update c.cached path (some st) }
  | _ =>
      if c.stat_cache_ct ≥ max_stat_cache_ct then c
      else
        { c with
          cached := Function.update c.cached path (some st)
          stat_cache_ct := c.stat_cache_ct + 1 }

/-- What `ClientCache::set_stat` with a stat returns: false if there is no room for it. -/
def stores (max_stat_cache_ct : Int) (c : ClientCache) (path : PathName) : Bool :=
  match ({ c with missing := Function.update c.missing path false }).lookup path with
  | .found _ => true
  | _ => !decide (c.stat_cache_ct ≥ max_stat_cache_ct)

/-- `ClientCache::expire_stat`. -/
def expire_stat (c : ClientCache) (path : PathName) : ClientCache where
  missing := Function.update c.missing path false
  cached := Function.update c.cached path none
  stat_cache_ct := if (c.cached path).isSome then c.stat_cache_ct - 1 else c.stat_cache_ct

/-- The calls of the cache's functions. -/
inductive CacheCall where
  | get_stat (path : PathName)
  | set_stat (path : PathName) (st_buf : Option Stat)
  | expire_stat (path : PathName)

/-- A call with what it returned. -/
inductive CacheEvent where
  | get_stat (path : PathName) (res : Status)
  | set_stat (path : PathName) (st_buf : Option Stat) (res : Bool)
  | expire_stat (path : PathName)

/-- One call. -/
def perform (max_stat_cache_ct : Int) (c : ClientCache) : CacheCall → ClientCache × CacheEvent
  | .get_stat path => (c, .get_stat path (c.lookup path))
  | .set_stat path none => (c.set_missing path, .set_stat path none true)
  | .set_stat path (some st) =>
      (c.set_stat max_stat_cache_ct path st,
        .set_stat path (some st) (c.stores max_stat_cache_ct path))
  | .expire_stat path => (c.expire_stat path, .expire_stat path)

end ClientCache

/-! ### The client -/

/-- The zones and the IO proxies as the client knows them. A path beyond them is one of a space: the
space's own path, which is the space's UUID, and the names behind it. FUSE hands out no path with a
`.` or `..` component. -/
structure Env (ι : Type*) where
  isZoneSpacePath : String → Int
  zoneGetattr : String → Answer
  locatePosition : String → Option (String × PathName)
  ioproxy : String → Option ι
  plain : ∀ path space rpath, locatePosition path = some (space, rpath) →
    "." ∉ rpath ++ [space] ∧ ".." ∉ rpath ++ [space]

variable {ι : Type*}

/-- `ClientGraph::get_mapping`: the running IO proxy of a path, and the path there. -/
def Env.get_mapping (env : Env ι) (path : String) : Option (ι × PathName) :=
  (env.locatePosition path).bind fun (space, rpath) =>
    (env.ioproxy space).map fun iop => (iop, rpath ++ [space])

/-- The client and its servers: the file systems, and the size of the cache, where none means that
the cache is off. -/
structure Config (ι : Type*) where
  env : Env ι
  fs : FileSystem
  max_stat_cache_ct : Int

/-- The same client without the cache. -/
def Config.off (cfg : Config ι) : Config ι := { cfg with max_stat_cache_ct := 0 }

/-- What a call sends once it has mapped its path: the server and the request, and the keys that it
expires before. -/
structure Sent (ι : Type*) where
  iop : ι
  op : Op
  expires : List PathName

/-- Send a request on the mapped path, which is expired. -/
def Env.send (env : Env ι) (path : String) (op : PathName → Op) : Option (Sent ι) :=
  (env.get_mapping path).map fun (iop, rpath) => ⟨iop, op rpath, [rpath]⟩

/-- The calls that refuse a path outside the spaces. -/
def insideSpace (path : String) (sent : Option (Sent ι)) : Option (Sent ι) :=
  if (splitWithStl path).length ≤ 3 then none else sent

namespace Env

variable (env : Env ι)

def gvdsfs_open (path : String) (flags : BitVec 32) : Option (Sent ι) :=
  if env.isZoneSpacePath path < 2 then none else env.send path fun rpath => .open rpath flags

def gvdsfs_write (path : String) (buf : List UInt8) (offset : Nat) : Option (Sent ι) :=
  env.send path fun rpath => .write rpath buf offset

/-- The size that the server looks at is a field that the call does not set. -/
def gvdsfs_truncate (path : String) (_size : Nat) : Option (Sent ι) :=
  env.send path fun rpath => .truncate rpath 0

/-- The server does not look at the mode. -/
def gvdsfs_mkdir (path : String) (_mode : BitVec 32) : Option (Sent ι) :=
  insideSpace path (env.send path fun rpath => .mkdir rpath)

def gvdsfs_unlink (path : String) : Option (Sent ι) := env.send path fun rpath => .unlink rpath

def gvdsfs_rmdir (path : String) : Option (Sent ι) :=
  insideSpace path (env.send path fun rpath => .rmdir rpath)

def gvdsfs_create (path : String) (mode : BitVec 32) : Option (Sent ι) :=
  insideSpace path (env.send path fun rpath => .create rpath mode)

def gvdsfs_chmod (path : String) (mode : BitVec 32) : Option (Sent ι) :=
  insideSpace path (env.send path fun rpath => .chmod rpath mode)

/-- A move from one IO proxy to another is refused. -/
def gvdsfs_rename [DecidableEq ι] (path newpath : String) : Option (Sent ι) :=
  insideSpace path <|
    match env.get_mapping path, env.get_mapping newpath with
    | some (siop, srpath), some (diop, drpath) =>
        if siop ≠ diop then none else some ⟨siop, .rename srpath drpath, [srpath, drpath]⟩
    | _, _ => none

end Env

/-- The FUSE calls. A readdir comes with the names that the server lists and the kernel's buffer
takes. -/
inductive Call where
  | getattr (path : String)
  | readdir (path : String) (names : List String)
  | open (path : String) (flags : BitVec 32)
  | write (path : String) (buf : List UInt8) (offset : Nat)
  | truncate (path : String) (size : Nat)
  | mkdir (path : String) (mode : BitVec 32)
  | unlink (path : String)
  | rmdir (path : String)
  | rename (path newpath : String)
  | create (path : String) (mode : BitVec 32)
  | chmod (path : String) (mode : BitVec 32)

/-- What a call that changes something sends. -/
def Call.sent [DecidableEq ι] (env : Env ι) : Call → Option (Sent ι)
  | .getattr _ => none
  | .readdir _ _ => none
  | .open path flags => env.gvdsfs_open path flags
  | .write path buf offset => env.gvdsfs_write path buf offset
  | .truncate path size => env.gvdsfs_truncate path size
  | .mkdir path mode => env.gvdsfs_mkdir path mode
  | .unlink path => env.gvdsfs_unlink path
  | .rmdir path => env.gvdsfs_rmdir path
  | .rename path newpath => env.gvdsfs_rename path newpath
  | .create path mode => env.gvdsfs_create path mode
  | .chmod path mode => env.gvdsfs_chmod path mode

/-- The IO proxies and the cache. -/
structure State (ι β : Type*) where
  servers : ι → Proxy β
  cache : ClientCache

/-- A client that has just been started. -/
def State.start (servers : ι → Proxy β) : State ι β := ⟨servers, .empty⟩

/-- `gvdsfs_getattr`: the cache after it, and what it reports. `ENOENT` is 2 and `EPERM` is 1. -/
def gvdsfs_getattr (cfg : Config ι) (s : State ι β) (path : String) : ClientCache × Answer :=
  let zs_res := cfg.env.isZoneSpacePath path
  if zs_res < 0 then (s.cache, .error zs_res)
  else if zs_res < 2 then (s.cache, cfg.env.zoneGetattr path)
  else
    match cfg.env.get_mapping path with
    | none => (s.cache, .error (-1))
    | some (iop, rpath) =>
        let reply := (s.servers iop).get_attr cfg.fs rpath
        if cfg.max_stat_cache_ct > 0 then
          match s.cache.lookup rpath with
          | .found st => (s.cache, .ok st)
          | .foundMissing => (s.cache, .error (-2))
          | .notFound =>
              match reply with
              | .error err => (s.cache.set_missing rpath, .error err)
              | .ok st => (s.cache.set_stat cfg.max_stat_cache_ct rpath st, .ok st)
        else (s.cache, reply)

/-- The attributes of an entry of a directory: the entries `.` and `..` stand for the directory and
its parent. -/
def entryAttr (fs : FileSystem) (s : Proxy β) (rpath : PathName) (name : String) : Answer :=
  if name = "." then s.get_attr fs rpath
  else if name = ".." then s.get_attr fs rpath.tail
  else s.get_attr fs (name :: rpath)

/-- The loop of `gvdsfs_readdir` over the entries of the reply: an entry without attributes is not
among them. -/
def cacheEntries (cfg : Config ι) (s : Proxy β) (rpath : PathName) (c : ClientCache)
    (names : List String) : ClientCache :=
  names.foldl (fun c name =>
    match entryAttr cfg.fs s rpath name with
    | .error _ => c
    | .ok st => c.set_stat cfg.max_stat_cache_ct (name :: rpath) st) c

/-- `gvdsfs_readdir`: the cache after it. -/
def gvdsfs_readdir (cfg : Config ι) (s : State ι β) (path : String) (names : List String) :
    ClientCache :=
  if cfg.env.isZoneSpacePath path < 2 then s.cache
  else
    match cfg.env.get_mapping path with
    | none => s.cache
    | some (iop, rpath) =>
        if cfg.max_stat_cache_ct > 0 then cacheEntries cfg (s.servers iop) rpath s.cache names
        else s.cache

/-- A call that sends a request to change something. -/
def change [DecidableEq ι] (cfg : Config ι) (s : State ι β) (x : Sent ι) : State ι β where
  servers := Function.update s.servers x.iop ((s.servers x.iop).doOp cfg.fs x.op)
  cache :=
    if cfg.max_stat_cache_ct > 0 then x.expires.foldl ClientCache.expire_stat s.cache else s.cache

/-- One call. -/
def step [DecidableEq ι] (cfg : Config ι) (s : State ι β) (a : Call) : State ι β :=
  match a with
  | .getattr path => { s with cache := (gvdsfs_getattr cfg s path).1 }
  | .readdir path names => { s with cache := gvdsfs_readdir cfg s path names }
  | a =>
      match a.sent cfg.env with
      | none => s
      | some x => change cfg s x

end Gvds.StatCache
