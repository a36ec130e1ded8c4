/-
Module: Gvds.Client.GraphMod
Layer: Client
Purpose: The IO proxies that a client knows (client/graph_mod.cc): the lists of the centers and how
  a refresh fills them, how a path leads to a proxy, and these calls beside each other, with the
  lock that they take and give back by hand.
Imports: Gvds.Client.ZoneMod, Gvds.Lib.SharedMutex, Gvds.Manager.IoProxyMgr
Trusted boundary: JSON is read back as it was written; the answer of a manager has its proxies in
  the order of their IDs. What a call does while it has the lock is one step, since nobody changes
  the maps beside it
Main exports: ClientGraph, put, fresh_ioproxy, get_mapping, set_force_mapping, Call, Graph, Action,
  step, run_fresh_ioproxy
-/
import Gvds.Client.ZoneMod
import Gvds.Lib.SharedMutex
import Gvds.Manager.IoProxyMgr

namespace Gvds.GraphMod

open IOProxyMgr (IOProxyNode Running)
open Manager (Bytes Space)
open ZoneMod (ClientZone locatePosition)

/-- `ClientGraph`: the proxies of each center, and the centers that users have chosen for spaces. -/
structure ClientGraph where
  ioproxy_list : String → Option (List IOProxyNode)
  force_map : String → Option String

/-! ### The calls alone -/

/-- The loop of `fresh_ioproxy` over the proxies of an answer: the list of the center is made, or
cleared if it is there, and the proxy is appended. -/
def put (ioproxy_list : String → Option (List IOProxyNode)) (iop : IOProxyNode) :
    String → Option (List IOProxyNode) :=
  let ioproxy_list := match ioproxy_list iop.cid with
    | none => Function.update ioproxy_list iop.cid (some [])
    | some _ => Function.update ioproxy_list iop.cid (some [])
  Function.update ioproxy_list iop.cid ((ioproxy_list iop.cid).map (· ++ [iop]))

/-- `ClientGraph::fresh_ioproxy`, with the answers of the managers; `none` is the empty text. -/
def fresh_ioproxy (ioproxy_list : String → Option (List IOProxyNode))
    (responses : List (Option (List IOProxyNode))) : String → Option (List IOProxyNode) :=
  responses.foldl (fun ioproxy_list response =>
    match response with
    | none => ioproxy_list
    | some ioproxy_list_tmp => ioproxy_list_tmp.foldl put ioproxy_list) ioproxy_list

/-- The center of a space: the one that a user has chosen, or its host center. -/
def ClientGraph.centerID (g : ClientGraph) (space : Space) : String :=
  (g.force_map space.spaceID).getD space.hostCenterID

/-- The loop of `get_mapping`: the first proxy that is running. -/
def runningProxy (iops : List IOProxyNode) : Option IOProxyNode :=
  iops.find? fun ioproxy => ioproxy.status = Running

/-- The path of a space at its center, with the remote path behind it. -/
def lpath (space : Space) (rpath : Bytes) : Bytes := space.spacePath.toUTF8.toList ++ rpath

/-- `ClientGraph::get_mapping`. -/
def get_mapping (g : ClientGraph) (zones : ClientZone) (path : Bytes) :
    Option (Option IOProxyNode × Bytes) :=
  match locatePosition zones path with
  | some (some _, some space, rpath) =>
      match g.ioproxy_list (g.centerID space) with
      | none => some (none, rpath)
      | some iops => some (runningProxy iops, lpath space rpath)
  | some (_, _, rpath) => some (none, rpath)
  | none => none

/-- The entry that `set_force_mapping` writes. -/
def ClientGraph.force (g : ClientGraph) (spaceID cid : String) : ClientGraph :=
  { g with force_map := Function.update g.force_map spaceID (some cid) }

/-- `ClientGraph::set_force_mapping`. -/
def set_force_mapping (g : ClientGraph) (zones : ClientZone) (path : Bytes) (cid : String) :
    Option (ClientGraph × Int) :=
  match locatePosition zones path with
  | some (some _, some space, _) => some (g.force space.spaceID cid, 0)
  | some _ => some (g, -1)
  | none => none

/-! ### The calls beside each other -/

/-- How far a call has come: `get_mapping` before `lock_shared`, before its lookup, and before
`unlock_shared`; `set_force_mapping` before `lock`, and with it; `fresh_ioproxy` before the answers
of so many managers, with an answer before `lock`, and with the lock. -/
inductive Call where
  | mapping (space : Space) (rpath : Bytes)
  | looking (space : Space) (rpath : Bytes)
  | leaving (iop : Option IOProxyNode) (lpath : Bytes)
  | forcing (spaceID cid : String)
  | forced (spaceID cid : String)
  | refreshing (endpoints : Nat)
  | storing (ioproxy_list_tmp : List IOProxyNode) (endpoints : Nat)
  | filling (ioproxy_list_tmp : List IOProxyNode) (endpoints : Nat)

/-- The graph with its lock and the calls in progress. -/
structure Graph where
  graph : ClientGraph
  graph_mutex : SharedMutex
  calls : List Call

/-- A graph that nobody uses. -/
def Graph.start (g : ClientGraph) : Graph := ⟨g, .unlocked, []⟩

/-- A call begins, or the one at a place goes on. The answer of a manager is for a call that waits
for it. -/
inductive Action where
  | get_mapping (zones : ClientZone) (path : Bytes)
  | set_force_mapping (zones : ClientZone) (path : Bytes) (cid : String)
  | fresh_ioproxy (endpoints : Nat)
  | advance (i : Nat) (response : Option (List IOProxyNode))

/-- The calls after the one at a place has gone on, or has returned. -/
def replace (calls : List Call) (i : Nat) : Option Call → List Call
  | none => calls.eraseIdx i
  | some c => calls.set i c

/-- A call goes on, where it does not wait for the lock: the maps and the lock behind it, and what
is left of the call. If there is no list for the center, `get_mapping` returns before
`unlock_shared`. -/
def Call.resume (g : ClientGraph) (m : SharedMutex) (response : Option (List IOProxyNode)) :
    Call → Option (ClientGraph × SharedMutex × Option Call)
  | .mapping space rpath => m.lock_shared.map fun m => (g, m, some (.looking space rpath))
  | .looking space rpath =>
      match g.ioproxy_list (g.centerID space) with
      | none => some (g, m, none)
      | some iops => some (g, m, some (.leaving (runningProxy iops) (lpath space rpath)))
  | .leaving _ _ => some (g, m.unlock_shared, none)
  | .forcing spaceID cid => m.lock.map fun m => (g, m, some (.forced spaceID cid))
  | .forced spaceID cid => some (g.force spaceID cid, m.unlock, none)
  | .refreshing 0 => some (g, m, none)
  | .refreshing (endpoints + 1) =>
      match response with
      | none => some (g, m, some (.refreshing endpoints))
      | some ioproxy_list_tmp => some (g, m, some (.storing ioproxy_list_tmp endpoints))
  | .storing ioproxy_list_tmp endpoints =>
      m.lock.map fun m => (g, m, some (.filling ioproxy_list_tmp endpoints))
  | .filling ioproxy_list_tmp endpoints =>
      some ({ g with ioproxy_list := ioproxy_list_tmp.foldl put g.ioproxy_list }, m.unlock,
        some (.refreshing endpoints))

/-- One step. A call for a path that leads to no space returns at once. -/
def step (s : Graph) : Action → Option Graph
  | .get_mapping zones path =>
      match locatePosition zones path with
      | some (some _, some space, rpath) => some { s with calls := s.calls ++ [.mapping space rpath] }
      | some _ => some s
      | none => none
  | .set_force_mapping zones path cid =>
      match locatePosition zones path with
      | some (some _, some space, _) =>
          some { s with calls := s.calls ++ [.forcing space.spaceID cid] }
      | some _ => some s
      | none => none
  | .fresh_ioproxy endpoints => some { s with calls := s.calls ++ [.refreshing endpoints] }
  | .advance i response =>
      match s.calls[i]? with
      | none => none
      | some c => (c.resume s.graph s.graph_mutex response).map fun next =>
          ⟨next.1, next.2.1, replace s.calls i next.2.2⟩

end Gvds.GraphMod
