/-
Module: Gvds.Client.FuseMount
Layer: Client
Purpose: The calls of a mounted client on names and contents, from the FUSE call to its return value
  (client/gvds_fuse_impl.cc, io_proxy/proxy_op.cc): the path is mapped, the request goes to the IO
  proxy of the path, and its reply becomes the result. Beside it what a mount is for, as an abstract
  model: file systems used by path, without requests and without descriptors.
Imports: Gvds.Client.FuseCalls, Gvds.IoProxy.Dispatch, Gvds.IoProxy.SyncIo
Trusted boundary: as Gvds.Client.FuseCalls and Gvds.IoProxy.ProxyOp. The spaces have no replica
  centers; a call transfers less than 2^31 bytes. Times, permissions and extended attributes are not
  in the model of the proxies' files
Main exports: FileCall, FuseResult, Attempt, Mount.call, PlainMount.call, Mount.callAll,
  PlainMount.callAll
-/
import Gvds.Client.FuseCalls
import Gvds.IoProxy.Dispatch
import Gvds.IoProxy.SyncIo

namespace Gvds

variable {β : Type*}

/-! ### Calls -/

/-- The calls on names and contents, with the arguments that they look at. -/
inductive FileCall where
  | truncate (path : String) (size : BitVec 64)
  | rename (path newpath : String) (flags : BitVec 32)
  | open (path : String) (flags : BitVec 32)
  | create (path : String) (mode : BitVec 32)
  | mkdir (path : String) (mode : BitVec 32)
  | unlink (path : String)
  | rmdir (path : String)
  | read (path : String) (size offset : BitVec 64)
  | write (path : String) (buf : List UInt8) (size offset : BitVec 64)

/-- `gvdsfs_mkdir`, up to the request. -/
def ClientEnv.gvdsfsMkdir (env : ClientEnv) (path : String) (mode : BitVec 32) : ClientStep :=
  insideSpace ePerm path <| env.withIop eNoent path fun rpath =>
    .submit ((OpRequest.make .mkdir rpath).setMode mode)

/-- What comes back from a call: its return value, and for a read what is in `buf`. -/
structure FuseResult where
  retstat : Int
  buf : List UInt8
deriving DecidableEq

namespace FileCall

/-- What a call does first. -/
def run (env : ClientEnv) : FileCall → ClientStep
  | .truncate path size => env.gvdsfsTruncate path size
  | .rename path newpath flags => env.gvdsfsRename path newpath flags
  | .open path flags => env.gvdsfsOpen path flags
  | .create path mode => env.gvdsfsCreate path mode
  | .mkdir path mode => env.gvdsfsMkdir path mode
  | .unlink path => env.gvdsfsUnlink path
  | .rmdir path => env.gvdsfsRmdir path
  | .read path size offset => env.gvdsfsRead path size offset
  | .write path buf size offset => env.gvdsfsWrite path buf size offset

/-- The path whose IO proxy gets the request. -/
def path : FileCall → String
  | .truncate path _ => path
  | .rename path _ _ => path
  | .open path _ => path
  | .create path _ => path
  | .mkdir path _ => path
  | .unlink path => path
  | .rmdir path => path
  | .read path _ _ => path
  | .write path _ _ _ => path

end FileCall

/-- `reply.err_code()`. -/
def Reply.errCode : Reply → Int
  | .failed e => -e.number
  | .done err_code => err_code
  | .data bytes => bytes.length

/-- `reply.data()`. -/
def Reply.bytes : Reply → List UInt8
  | .failed _ => []
  | .done _ => []
  | .data bytes => bytes

/-- What a call makes of the reply. An open keeps the descriptor in `fi->fh`. -/
def FileCall.finish (c : FileCall) (reply : Reply) : FuseResult :=
  match c with
  | .open _ _ => if reply.errCode > 0 then ⟨0, []⟩ else ⟨reply.errCode, []⟩
  | .read _ _ _ =>
      if reply.errCode ≤ 0 then ⟨reply.errCode, []⟩
      else ⟨reply.errCode, reply.bytes.take reply.errCode.toNat⟩
  | _ => ⟨reply.errCode, []⟩

/-- How it goes with a request: it is answered, or it is lost, or its answer is. -/
inductive Delivery where
  | answered
  | lost
  | unheard
deriving DecidableEq

/-- A call, with what the client knows when it is made and how it goes with its request. -/
structure Attempt where
  env : ClientEnv
  call : FileCall
  delivery : Delivery

/-! ### The mount -/

/-- A call on the mount, by the IO proxies. There is no result where no proxy is named, or the
server takes the request for something else. -/
def Mount.call (s : String → IoProxy β) (a : Attempt) :
    Option ((String → IoProxy β) × FuseResult) :=
  match a.call.run a.env with
  | .done retstat => some (s, ⟨retstat, []⟩)
  | .submit request =>
      (a.env.getMapping a.call.path).1.bind fun iop =>
        (dispatch request).toRequest.map fun r =>
          let (t, reply) := (s iop).doOp noPeers r
          match a.delivery with
          | .answered => (Function.update s iop t, a.call.finish reply)
          | .lost => (s, ⟨-eNoent, []⟩)
          | .unheard => (Function.update s iop t, ⟨-eNoent, []⟩)

/-- Some calls on the mount, one after another. -/
def Mount.callAll (s : String → IoProxy β) :
    List Attempt → Option ((String → IoProxy β) × List FuseResult)
  | [] => some (s, [])
  | a :: as =>
      (call s a).bind fun r => (callAll r.1 as).map fun rest => (rest.1, r.2 :: rest.2)

/-! ### What it is for -/

namespace PlainMount

/-- A result that is an error number. -/
def fail (e : Errno) : FuseResult := ⟨-e.number, []⟩

/-- Go on with the file of a path. -/
def withFile (k : Kernel β) (p : PathName) (use : Nat → Kernel β × FuseResult) :
    Kernel β × FuseResult :=
  match k.tree.node p with
  | none => (k, fail (k.missing p))
  | some .dir => (k, fail .eisdir)
  | some (.file ino) => use ino

def openFile (flags : BitVec 32) (k : Kernel β) (p : PathName) : Kernel β × FuseResult :=
  withFile k p fun ino =>
    (if hasFlag flags oTrunc then k.setContent ino ByteFile.empty else k, ⟨0, []⟩)

/-- Up to `size` bytes from `offset` on. -/
def readFile (size offset : Nat) (k : Kernel β) (p : PathName) : Kernel β × FuseResult :=
  withFile k p fun ino =>
    if offset + size < 2 ^ 63 then
      let bytes := (k.content ino).read offset size
      (k, ⟨bytes.length, bytes⟩)
    else (k, fail .einval)

def writeFile (data : List UInt8) (offset : Nat) (k : Kernel β) (p : PathName) :
    Kernel β × FuseResult :=
  withFile k p fun ino =>
    if offset + data.length < 2 ^ 63 then
      (k.setContent ino ((k.content ino).write offset data), ⟨data.length, []⟩)
    else (k, fail .einval)

/-- A file is made unless it is there. Errors have no number. -/
def createFile (k : Kernel β) (p : PathName) : Kernel β × FuseResult :=
  match k.tree.node p, p with
  | some (.file _), _ => (k, ⟨0, []⟩)
  | none, x :: d => if k.tree.node d = some .dir then (k.makeFile x d, ⟨0, []⟩) else (k, ⟨-1, []⟩)
  | _, _ => (k, ⟨-1, []⟩)

/-- A system call by path, with what its errors are reported as. -/
def byPath (error : Errno → Int) (k : Kernel β) : Except Errno (Kernel β) → Kernel β × FuseResult
  | .ok k' => (k', ⟨0, []⟩)
  | .error e => (k, ⟨error e, []⟩)

/-- Whatever the length it asks for, a truncation empties the file. -/
def truncateFile (k : Kernel β) (p : PathName) : Kernel β × FuseResult :=
  byPath (-·.number) k (k.sysTruncate p 0)

/-- Removing a file fails with -1. -/
def removeFile (k : Kernel β) (p : PathName) : Kernel β × FuseResult :=
  byPath (fun _ => -1) k (k.sysUnlink p)

/-- A directory that is there is no error. -/
def makeDirectory (k : Kernel β) (p : PathName) : Kernel β × FuseResult :=
  byPath (-·.number) k (IoProxy.fsCreateDirectory k p)

/-- A file is removed as well, and what is missing is no error. -/
def removeDirectory (k : Kernel β) (p : PathName) : Kernel β × FuseResult :=
  byPath (-·.number) k (IoProxy.fsRemove k p)

def renameFile (q : PathName) (k : Kernel β) (p : PathName) : Kernel β × FuseResult :=
  byPath (-·.number) k (k.sysRename p q)

/-- Use the file system of an IO proxy, unless the request is lost. -/
def onProxy (delivery : Delivery) (k : String → Kernel β) (iop rpath : String)
    (use : Kernel β → PathName → Kernel β × FuseResult) : (String → Kernel β) × FuseResult :=
  let (k', r) := use (k iop) (componentsOf rpath)
  match delivery with
  | .answered => (Function.update k iop k', r)
  | .lost => (k, ⟨-eNoent, []⟩)
  | .unheard => (Function.update k iop k', ⟨-eNoent, []⟩)

/-- Use the file system of a path, or fail where there is none. -/
def onPath (a : Attempt) (k : String → Kernel β) (path : String)
    (use : Kernel β → PathName → Kernel β × FuseResult) : (String → Kernel β) × FuseResult :=
  match a.env.getMapping path with
  | (none, _) => (k, ⟨-eNoent, []⟩)
  | (some iop, rpath) => onProxy a.delivery k iop rpath use

/-- The path must be inside a space. -/
def inside (k : String → Kernel β) (path : String) (r : (String → Kernel β) × FuseResult) :
    (String → Kernel β) × FuseResult :=
  if (splitWithStl path).length ≤ 3 then (k, ⟨-ePerm, []⟩) else r

/-- A call on the file systems. -/
def call (k : String → Kernel β) (a : Attempt) : (String → Kernel β) × FuseResult :=
  match a.call with
  | .truncate path _ => onPath a k path truncateFile
  | .rename path newpath _ =>
      inside k path <|
        match a.env.getMapping path, a.env.getMapping newpath with
        | (some siop, srpath), (some diop, drpath) =>
            if siop ≠ diop then (k, ⟨-eNotsup, []⟩)
            else onProxy a.delivery k siop srpath (renameFile (componentsOf drpath))
        | _, _ => (k, ⟨-eNoent, []⟩)
  | .open path flags =>
      let zsRes := a.env.isZoneSpacePath path
      if zsRes < 0 then (k, ⟨zsRes, []⟩)
      else if zsRes < 2 then (k, ⟨-eNotsup, []⟩)
      else onPath a k path (openFile flags)
  | .create path _ => inside k path (onPath a k path createFile)
  | .mkdir path _ => inside k path (onPath a k path makeDirectory)
  | .unlink path => onPath a k path removeFile
  | .rmdir path => inside k path (onPath a k path removeDirectory)
  | .read path size offset => onPath a k path (readFile size.toNat offset.toNat)
  | .write path buf size offset => onPath a k path (writeFile (buf.take size.toNat) offset.toNat)

/-- Some calls, one after another. -/
def callAll (k : String → Kernel β) : List Attempt → (String → Kernel β) × List FuseResult
  | [] => (k, [])
  | a :: as =>
      let (k, r) := call k a
      let (k, rs) := callAll k as
      (k, r :: rs)

end PlainMount

end Gvds
