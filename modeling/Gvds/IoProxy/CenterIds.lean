/-
Module: Gvds.IoProxy.CenterIds
Layer: IoProxy
Purpose: The IDs of the centers of a replicated space on all their ways (io_proxy/replica_mgr.cc):
  from the text of a request and of the configuration into the characters of an attribute and of the
  field extra, and from these into the keys of ioproxys and the numbers of bitmaps.
Imports: Gvds.Lib.DecimalText, Gvds.IoProxy.ReplicaQueue
Trusted boundary: char is signed; setxattr stores the attribute as it is given, or fails. boost's
  split merges adjacent separators and keeps empty parts at the ends
Main exports: split, push_back, key, Refusal, Created, create_replicated_space, getxattr, peers,
  set_bitmap_id, update_index_id
-/
import Gvds.Lib.DecimalText
import Gvds.IoProxy.ReplicaQueue

namespace Gvds.CenterIds

open DecimalText (stoi)
open ReplicaQueue (toId)

/-- Whether a byte is one of `,/|`. -/
def isSeparator (b : UInt8) : Bool := b == 44 || b == 47 || b == 124

/-- The parts of a text after the part that has been read so far; `compress` says that the last byte
was a separator. -/
def splitFrom (part : List UInt8) (compress : Bool) : List UInt8 → List (List UInt8)
  | [] => [part]
  | b :: bs =>
      if isSeparator b then
        if compress then splitFrom part true bs else part :: splitFrom [] true bs
      else splitFrom (part ++ [b]) false bs

/-- `split(tmp, text, is_any_of(",/|"), token_compress_on)`. -/
def split (text : List UInt8) : List (List UInt8) := splitFrom [] false text

/-- `cids.push_back(id)`, and `mcid = id`: the lowest byte of an `int`. -/
def push_back (id : Int) : UInt8 := UInt8.ofInt id

/-- An `int` as a key of `ioproxys`. -/
def key (id : Int) : UInt32 := UInt32.ofInt id

/-- Why `create_replicated_space` does not make a space: a part of the text is no number, a center
is not known (`-ENXIO`), or the attribute cannot be set (`-EMLINK`). -/
inductive Refusal where
  | exception
  | unknownCenter
  | notSet
deriving DecidableEq

/-- What comes of `create_replicated_space`: the attribute, with the keys under which `ioproxys` is
asked for the centers that are sent to, if it makes a space. -/
inductive Created where
  | refused (e : Refusal)
  | created (cids : List UInt8) (sent : List UInt32)
deriving DecidableEq

/-- The loop that compresses the IDs. -/
def compressIds (ioproxys : UInt32 → Bool) (cids : List UInt8) :
    List (List UInt8) → Except Refusal (List UInt8)
  | [] => .ok cids
  | cid :: tmp =>
      match stoi cid with
      | none => .error .exception
      | some id =>
          if ioproxys (key id) then compressIds ioproxys (cids ++ [push_back id]) tmp
          else .error .unknownCenter

/-- `ReplicaMgr::create_replicated_space`; `set` is whether `setxattr` succeeds. -/
def create_replicated_space (mcid : UInt8) (ioproxys : UInt32 → Bool) (cids_str : List UInt8)
    (set : Bool) : Created :=
  match compressIds ioproxys [mcid] (split cids_str) with
  | .error e => .refused e
  | .ok cids => if set then .created cids (cids.tail.map toId) else .refused .notSet

/-- `getxattr` of the attribute into a buffer of 256 bytes. -/
def getxattr (stored : List UInt8) : Option (List UInt8) :=
  if stored.length ≤ 256 then some stored else none

/-- The keys under which `_flush` and `sync_filedata` ask `ioproxys` for the centers that they send
to. -/
def peers (mcid : UInt8) (cids : List UInt8) : List UInt32 :=
  (cids.map toId).filter fun id => id ≠ mcid.toUInt32

/-- The number of the bitmap that `_handle_create_replicated_space` sets: the first character of the
field extra, which is that of the sender. -/
def set_bitmap_id (extra : List UInt8) : Option Int := extra.head?.map fun c => c.toInt8.toInt

/-- The number of the bitmap that `_handle_file_index_update` changes, from the field extra that
`_flush` writes. -/
def update_index_id (extra : List UInt8) : Option Int := extra.head?.map fun c => (c.toNat : Int)

end Gvds.CenterIds
