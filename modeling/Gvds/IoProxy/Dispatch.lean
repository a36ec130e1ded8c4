/-
Module: Gvds.IoProxy.Dispatch
Layer: IoProxy
Purpose: How ProxyOP::do_op reads an OpRequest (io_proxy/proxy_op.cc): the call that each type
  makes, with the fields of the request that it takes the arguments from. The calls that act on
  names and contents are the requests of Gvds.IoProxy.ProxyOp.
Imports: Gvds.Common.OpProto, Gvds.IoProxy.ProxyOp
Trusted boundary: paths stand below the data directory, without `.` and `..` components
Main exports: ServerCall, dispatch, ServerCall.toRequest
-/
import Gvds.Common.OpProto
import Gvds.IoProxy.ProxyOp

namespace Gvds

/-- The calls of the server, on paths below the data directory. -/
inductive ServerCall where
  | rename (path newpath : String)
  | utimensat (path : String) (atime mtime : Timespec)
  | permissions (path : String) (perm : BitVec 32)
  | resizeFile (path : String) (size : BitVec 64)
  | fdmOpen (path : String) (flags : BitVec 32)
  | fdmCreate (path : String) (mode : BitVec 32)
  | createDirectory (path : String)
  | remove (path : String)
  | pread (path : String) (size offset : BitVec 64)
  | pwrite (path : String) (data : List UInt8) (size offset : BitVec 64)
  | fdmRemove (path : String)
  | createReplicatedSpace (path : String) (cids : List UInt8)
  | setxattr (path name : String) (value : List UInt8) (size : BitVec 64) (flags : BitVec 32)
  | getxattr (path name : String) (size : BitVec 64)
  | removexattr (path name : String)
deriving DecidableEq

/-- `fs::perms::mask`. -/
def permsMask : BitVec 32 := 0xfff#32

/-- `ProxyOP::do_op`, up to the call it makes. -/
def dispatch (request : OpRequest) : ServerCall :=
  let path := request.filepath
  match request.type with
  | .rename => .rename path request.newpath
  | .utimens =>
      let ts : Timespec := ⟨request.ioParam.size, request.ioParam.offset⟩
      .utimensat path ts ts
  | .chmod => .permissions path (request.mode &&& permsMask)
  | .truncate => .resizeFile path request.size
  | .open => .fdmOpen path (request.mode ||| oRdwr)
  | .create => .fdmCreate path request.mode
  | .mkdir => .createDirectory path
  | .rmdir => .remove path
  | .read => .pread path request.ioParam.size request.ioParam.offset
  | .write => .pwrite path request.data request.ioParam.size request.ioParam.offset
  | .unlink => .fdmRemove path
  | .setxattr =>
      if request.xattrName = "user.replicate.create" then .createReplicatedSpace path request.data
      else .setxattr path request.xattrName request.data request.size request.mode
  | .getxattr => .getxattr path request.xattrName request.size
  | .removexattr => .removexattr path request.xattrName

/-- The components of a path, innermost first. -/
def componentsOf (path : String) : PathName := ((path.splitOn "/").filter (· ≠ "")).reverse

/-- The calls that act on names and contents, as requests. That `doOpen` adds `O_RDWR` once more
makes no difference. -/
def ServerCall.toRequest : ServerCall → Option Request
  | .rename path newpath => some (.rename (componentsOf path) (componentsOf newpath))
  | .resizeFile path size => some (.truncate (componentsOf path) size.toNat)
  | .fdmOpen path flags => some (.open (componentsOf path) flags)
  | .fdmCreate path _ => some (.create (componentsOf path))
  | .createDirectory path => some (.mkdir (componentsOf path))
  | .remove path => some (.rmdir (componentsOf path))
  | .pread path size offset => some (.read (componentsOf path) offset.toNat size.toNat)
  | .pwrite path data size offset =>
      some (.write (componentsOf path) (data.take size.toNat) offset.toNat)
  | .fdmRemove path => some (.unlink (componentsOf path))
  | _ => none

end Gvds
