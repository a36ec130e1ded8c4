/-
Module: Gvds.Common.OpProto
Layer: Common
Purpose: The request message between client and IO proxy (common/pb/op.proto) with the accessors
  that protobuf generates: a field that was not set reads as zero or empty, and setting one member
  of the oneof clears the others. `id` and `extra`, which the requests of clients do not use, are
  left out.
Imports: Mathlib.Data.UInt
Trusted boundary: strings are UTF-8, as protobuf demands of string fields
Main exports: OpType, IOParam, OpRequest, Timespec
-/
import Mathlib.Data.UInt

namespace Gvds

/-- `OpType`, as far as clients send requests that act on names, contents and attributes. -/
inductive OpType where
  | rename
  | utimens
  | setxattr
  | getxattr
  | removexattr
  | chmod
  | truncate
  | open
  | read
  | write
  | create
  | mkdir
  | rmdir
  | unlink
deriving DecidableEq

/-- `struct timespec`. -/
structure Timespec where
  tv_sec : BitVec 64
  tv_nsec : BitVec 64
deriving DecidableEq

/-- `IOParam`. -/
structure IOParam where
  offset : BitVec 64
  size : BitVec 64
deriving DecidableEq

/-- The oneof of an `OpRequest`. -/
inductive AdditionalParam where
  | notSet
  | newpath (path : String)
  | xattr_name (name : String)
  | io_param (param : IOParam)
deriving DecidableEq

/-- `OpRequest`. -/
structure OpRequest where
  filepath : String
  type : OpType
  additional_param : AdditionalParam
  mode : BitVec 32
  size : BitVec 64
  data : List UInt8
deriving DecidableEq

namespace OpRequest

/-- A request with a type and a path, and nothing else set. -/
def make (type : OpType) (filepath : String) : OpRequest where
  filepath := filepath
  type := type
  additional_param := .notSet
  mode := 0#32
  size := 0#64
  data := []

/-- `request.newpath()`. -/
def newpath (r : OpRequest) : String :=
  match r.additional_param with
  | .newpath path => path
  | _ => ""

/-- `request.xattr_name()`. -/
def xattrName (r : OpRequest) : String :=
  match r.additional_param with
  | .xattr_name name => name
  | _ => ""

/-- `request.io_param()`. -/
def ioParam (r : OpRequest) : IOParam :=
  match r.additional_param with
  | .io_param param => param
  | _ => ⟨0#64, 0#64⟩

/-- `request.set_newpath(path)`. -/
def setNewpath (r : OpRequest) (path : String) : OpRequest :=
  { r with additional_param := .newpath path }

/-- `request.set_xattr_name(name)`. -/
def setXattrName (r : OpRequest) (name : String) : OpRequest :=
  { r with additional_param := .xattr_name name }

/-- `request.mutable_io_param()->set_size(size)`. -/
def setIoSize (r : OpRequest) (size : BitVec 64) : OpRequest :=
  { r with additional_param := .io_param { r.ioParam with size := size } }

/-- `request.mutable_io_param()->set_offset(offset)`. -/
def setIoOffset (r : OpRequest) (offset : BitVec 64) : OpRequest :=
  { r with additional_param := .io_param { r.ioParam with offset := offset } }

/-- `request.set_mode(mode)`. -/
def setMode (r : OpRequest) (mode : BitVec 32) : OpRequest := { r with mode := mode }

/-- `request.set_size(size)`. -/
def setSize (r : OpRequest) (size : BitVec 64) : OpRequest := { r with size := size }

/-- `request.set_data(ptr, size)`: the first `size` bytes of a buffer. -/
def setData (r : OpRequest) (buf : List UInt8) (size : BitVec 64) : OpRequest :=
  { r with data := buf.take size.toNat }

end OpRequest

end Gvds
