/-
Module: Gvds.IoProxy.SpaceCreation
Layer: IoProxy
Purpose: How a replicated space is made (io_proxy/replica_mgr.cc): create_replicated_space sets the
  attribute of the local directory and then sends one request after the other to the centers of the
  list, where _handle_create_replicated_space makes a directory with the same attribute and runs
  through the entries. Neither the status of a call nor its reply is looked at.
Imports: Gvds.IoProxy.CenterIds, Gvds.IoProxy.SpaceScan, Mathlib.Logic.Function.Basic
Trusted boundary: as Gvds.IoProxy.CenterIds; nobody else changes the directories meanwhile. What
  happens to a request on its way and at its peer is input
Main exports: Directory, Centers, Contact, OpRequest, _handle_create_replicated_space, Submit,
  submitAll, create_replicated_space
-/
import Gvds.IoProxy.CenterIds
import Gvds.IoProxy.SpaceScan
import Mathlib.Logic.Function.Basic

namespace Gvds.SpaceCreation

open CenterIds (split compressIds)
open ReplicaQueue (toId)
open ProxyProcess (Attr)

/-- The directory that a center has for the space: its attribute, and the entries that have been
made in it. For the local center these are the entries that `_replicate_space_request` collects. -/
structure Directory where
  center_ids : Option (List UInt8)
  entries : List (PathName × Attr)

/-- The directories of the centers, by the keys that these have in `ioproxys`. -/
abbrev Centers := UInt32 → Option Directory

/-- What happens to one request: whether it arrives, the error of `mkdir` but for `EEXIST`, the
error of `setxattr` but for an attribute that is there already, how many rounds of the loop over the
entries the peer lives through, and whether its reply arrives. -/
structure Contact where
  arrives : Bool
  mkdir : Option Nat
  setxattr : Option Nat
  rounds : Nat
  replied : Bool

/-- A request to make a replica: `extra` with the IDs and `data` with the entries. -/
structure OpRequest where
  extra : List UInt8
  data : List (PathName × Attr)

/-- `ReplicaMgr::_handle_create_replicated_space`: the directory, and the error code of the reply
unless the peer's process has ended. `EEXIST` is 17. -/
def _handle_create_replicated_space (c : Contact) (request : OpRequest) (dir : Option Directory) :
    Option Directory × Option Int :=
  match c.mkdir with
  | some err => (dir, some (-err))
  | none =>
      let d := dir.getD ⟨none, []⟩
      if d.center_ids.isSome then (some d, some (-17))
      else
        match c.setxattr with
        | some err => (some d, some (-err))
        | none =>
            (some ⟨some request.extra, d.entries ++ request.data.take c.rounds⟩,
              if request.data.length ≤ c.rounds then some 0 else none)

/-- `oper->Submit(*request, reply)`: the peer's directory, and the error code of the reply where the
status is ok. -/
def Submit (c : Contact) (request : OpRequest) (dir : Option Directory) :
    Option Directory × Option Int :=
  if c.arrives then
    let (dir, reply) := _handle_create_replicated_space c request dir
    (dir, if c.replied then reply else none)
  else (dir, none)

/-- The loop over the centers. Where one is not known, its null node ends the process; status and
reply are for the log. -/
def submitAll (ioproxys : UInt32 → Bool) (request : OpRequest) :
    (Nat → Contact) → List UInt8 → Centers → Option Centers
  | _, [], w => some w
  | contacts, cid :: cids, w =>
      if ioproxys (toId cid) then
        let (dir, _) := Submit (contacts 0) request (w (toId cid))
        submitAll ioproxys request (fun i => contacts (i + 1)) cids
          (Function.update w (toId cid) dir)
      else none

/-- `ReplicaMgr::create_replicated_space`: its error code and the directories, unless an exception
leaves it or the process ends. `setxattr` is the error of the local `setxattr` but for a directory
that is not there, or has the attribute. `ENXIO` is 6, `EMLINK` is 31. -/
def create_replicated_space (mcid : UInt8) (ioproxys : UInt32 → Bool) (setxattr : Option Nat)
    (contacts : Nat → Contact) (w : Centers) (cids_str : List UInt8) : Option (Int × Centers) :=
  match compressIds ioproxys [mcid] (split cids_str) with
  | .error .exception => none
  | .error _ => some (-6, w)
  | .ok cids =>
      match w mcid.toUInt32 with
      | none => some (-31, w)
      | some d =>
          if d.center_ids.isSome || setxattr.isSome then some (-31, w)
          else
            let w := Function.update w mcid.toUInt32 (some { d with center_ids := some cids })
            (submitAll ioproxys ⟨cids, d.entries⟩ contacts cids.tail w).map fun w => (0, w)

end Gvds.SpaceCreation
