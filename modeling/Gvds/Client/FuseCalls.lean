/-
Module: Gvds.Client.FuseCalls
Layer: Client
Purpose: What the FUSE calls of the client send to the IO proxy (client/gvds_fuse_impl.cc): each
  builds one OpRequest for the remote path, unless it returns before. `gvdsfs_read` is what remains
  when no read-ahead serves the call, `gvdsfs_write` is the one of synchronous mode; the stat cache
  is left out, it does not touch the request.
Imports: Gvds.Common.OpProto, Mathlib.Data.List.Infix
Trusted boundary: the maps of zones, spaces and IO proxies, as functions of the path
Main exports: ClientEnv, ClientStep, FuseCall, FuseCall.run
-/
import Gvds.Common.OpProto
import Mathlib.Data.List.Infix

namespace Gvds

/-- What the client knows: the kind of a path (`isZoneSpacePath`), and for a path the uuid of a
running IO proxy, if there is one, and the path there (`get_mapping`). -/
structure ClientEnv where
  isZoneSpacePath : String → Int
  getMapping : String → Option String × String

/-- A call returns at once, or it submits a request. -/
inductive ClientStep where
  | done (retstat : Int)
  | submit (request : OpRequest)

/-- The calls with their arguments, without the `fuse_file_info` that they do not look at. -/
inductive FuseCall where
  | truncate (path : String) (size : BitVec 64)
  | rename (path newpath : String) (flags : BitVec 32)
  | utimens (path : String) (atime mtime : Timespec)
  | chmod (path : String) (mode : BitVec 32)
  | open (path : String) (flags : BitVec 32)
  | create (path : String) (mode : BitVec 32)
  | unlink (path : String)
  | rmdir (path : String)
  | read (path : String) (size offset : BitVec 64)
  | write (path : String) (buf : List UInt8) (size offset : BitVec 64)
  | setxattr (path name : String) (value : List UInt8) (size : BitVec 64) (flags : BitVec 32)
  | getxattr (path name : String) (size : BitVec 64)
  | removexattr (path name : String)

/-- Error numbers of the client side. -/
def ePerm : Int := 1
def eNoent : Int := 2
def eNodata : Int := 61
def eNotsup : Int := 95

/-- `splitWithStl(path, "/")`. -/
def splitWithStl (str : String) : List String := if str = "" then [] else str.splitOn "/"

/-- `str.rfind(pattern) == 0`: the last place where the pattern occurs is the front. -/
def lastAtFront (pattern str : String) : Bool :=
  decide (pattern.toList <+: str.toList ∧ ¬ pattern.toList <:+: str.toList.tail)

namespace ClientEnv

/-- Go on with the remote path, or fail with `-err` where no IO proxy serves the path. -/
def withIop (env : ClientEnv) (err : Int) (path : String) (k : String → ClientStep) : ClientStep :=
  match env.getMapping path with
  | (none, _) => .done (-err)
  | (some _, rpath) => k rpath

/-- Fail with `-err` for a path that is not inside a space. -/
def insideSpace (err : Int) (path : String) (k : ClientStep) : ClientStep :=
  if (splitWithStl path).length ≤ 3 then .done (-err) else k

def gvdsfsTruncate (env : ClientEnv) (path : String) (size : BitVec 64) : ClientStep :=
  env.withIop eNoent path fun rpath =>
    .submit ((OpRequest.make .truncate rpath).setIoSize size)

/-- The `flags` of renameat2 are not looked at. -/
def gvdsfsRename (env : ClientEnv) (path newpath : String) (_flags : BitVec 32) : ClientStep :=
  insideSpace ePerm path <|
    match env.getMapping path, env.getMapping newpath with
    | (some siop, srpath), (some diop, drpath) =>
        if siop ≠ diop then .done (-eNotsup)
        else .submit ((OpRequest.make .rename srpath).setNewpath drpath)
    | _, _ => .done (-eNoent)

def gvdsfsUtimens (env : ClientEnv) (path : String) (_atime mtime : Timespec) : ClientStep :=
  insideSpace ePerm path <| env.withIop eNoent path fun rpath =>
    .submit (((OpRequest.make .utimens rpath).setIoSize mtime.tv_sec).setIoOffset mtime.tv_nsec)

def gvdsfsChmod (env : ClientEnv) (path : String) (mode : BitVec 32) : ClientStep :=
  insideSpace ePerm path <| env.withIop eNoent path fun rpath =>
    .submit ((OpRequest.make .chmod rpath).setMode mode)

def gvdsfsOpen (env : ClientEnv) (path : String) (flags : BitVec 32) : ClientStep :=
  let zsRes := env.isZoneSpacePath path
  if zsRes < 0 then .done zsRes
  else if zsRes < 2 then .done (-eNotsup)
  else
    env.withIop eNoent path fun rpath =>
      .submit ((OpRequest.make .open rpath).setMode flags)

def gvdsfsCreate (env : ClientEnv) (path : String) (mode : BitVec 32) : ClientStep :=
  insideSpace ePerm path <| env.withIop eNoent path fun rpath =>
    .submit ((OpRequest.make .create rpath).setMode mode)

def gvdsfsUnlink (env : ClientEnv) (path : String) : ClientStep :=
  env.withIop eNoent path fun rpath => .submit (OpRequest.make .unlink rpath)

def gvdsfsRmdir (env : ClientEnv) (path : String) : ClientStep :=
  insideSpace ePerm path <| env.withIop eNoent path fun rpath =>
    .submit (OpRequest.make .rmdir rpath)

def gvdsfsRead (env : ClientEnv) (path : String) (size offset : BitVec 64) : ClientStep :=
  env.withIop eNoent path fun rpath =>
    .submit (((OpRequest.make .read rpath).setIoSize size).setIoOffset offset)

def gvdsfsWrite (env : ClientEnv) (path : String) (buf : List UInt8) (size offset : BitVec 64) :
    ClientStep :=
  env.withIop eNoent path fun rpath =>
    .submit ((((OpRequest.make .write rpath).setIoSize size).setIoOffset offset).setData buf size)

/-- One name is for the client itself: it forces the space to be visited at another center. -/
def gvdsfsSetxattr (env : ClientEnv) (path name : String) (value : List UInt8) (size : BitVec 64)
    (flags : BitVec 32) : ClientStep :=
  insideSpace ePerm path <|
    if name = "user.gvds.visit.force" then .done 0
    else
      env.withIop eNoent path fun rpath =>
        .submit (((((OpRequest.make .setxattr rpath).setXattrName name).setData value size).setSize
          size).setMode flags)

def gvdsfsGetxattr (env : ClientEnv) (path name : String) (size : BitVec 64) : ClientStep :=
  insideSpace eNodata path <| env.withIop eNodata path fun rpath =>
    if lastAtFront "security.capability" name then .done (-eNodata)
    else .submit (((OpRequest.make .getxattr rpath).setXattrName name).setSize size)

def gvdsfsRemovexattr (env : ClientEnv) (path name : String) : ClientStep :=
  insideSpace ePerm path <| env.withIop eNoent path fun rpath =>
    .submit ((OpRequest.make .removexattr rpath).setXattrName name)

end ClientEnv

/-- What a call does first. -/
def FuseCall.run (env : ClientEnv) : FuseCall → ClientStep
  | .truncate path size => env.gvdsfsTruncate path size
  | .rename path newpath flags => env.gvdsfsRename path newpath flags
  | .utimens path atime mtime => env.gvdsfsUtimens path atime mtime
  | .chmod path mode => env.gvdsfsChmod path mode
  | .open path flags => env.gvdsfsOpen path flags
  | .create path mode => env.gvdsfsCreate path mode
  | .unlink path => env.gvdsfsUnlink path
  | .rmdir path => env.gvdsfsRmdir path
  | .read path size offset => env.gvdsfsRead path size offset
  | .write path buf size offset => env.gvdsfsWrite path buf size offset
  | .setxattr path name value size flags => env.gvdsfsSetxattr path name value size flags
  | .getxattr path name size => env.gvdsfsGetxattr path name size
  | .removexattr path name => env.gvdsfsRemovexattr path name

end Gvds
