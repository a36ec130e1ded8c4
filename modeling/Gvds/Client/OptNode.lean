/-
Module: Gvds.Client.OptNode
Layer: Client
Purpose: The managers that a client knows (client/OPTNode/opt_node.cc): the cached text of the
  center registry, the measurement of the centers, and the list of nodes that it writes, whose first
  one is the endpoint of all requests (Client::get_manager).
Imports: Gvds.Lib.Table, Gvds.Manager.Mconf, Gvds.Manager.ZoneServer, Mathlib.Data.List.Dedup
Trusted boundary: JSON is read back as it was written; std::sort gives some ordering by the
  measured times. The thread of SelectNode is the only one that writes
Main exports: CenterList, Text, SelectNode, SelectNode.begin, getCenterInformation, getmapIdName,
  Probe, subgetRTT_rest, getRTT, write_rtt, get_manager
-/
import Gvds.Lib.Table
import Gvds.Manager.Mconf
import Gvds.Manager.ZoneServer
import Mathlib.Data.List.Dedup

namespace Gvds.OptNode

open Manager (Bytes cstr)
open Mconf (CenterInfo)

/-- A valid list of centers: there is one, and their IDs are different. -/
structure CenterList where
  info : CenterInfo
  nonempty : info.centerID ≠ []
  nodup : info.centerID.Nodup

/-- `center_Information`, and what a request for it may return: nothing when it fails, the text
`fail` where the server has no registry, or a list. -/
inductive Text where
  | empty
  | fail
  | list (centers : CenterList)

/-- `CenterInfo::deserialize`: a text that is no JSON object leaves the default. -/
def Text.deserialize : Text → CenterInfo
  | .empty => .empty
  | .fail => .empty
  | .list centers => centers.info

/-- `struct_Node`. -/
structure struct_Node where
  location : String
  ip_addr : String
  port : String
  center_id : String
deriving DecidableEq

/-- `SelectNode`. -/
structure SelectNode where
  center_Information : Text
  buf_delay : List struct_Node

/-- The entries of a center; `operator[]` gives the empty text where there is none. -/
def nodeOf (mycenter : CenterInfo) (id center_id : String) : struct_Node where
  location := (mycenter.centerName id).getD ""
  ip_addr := (mycenter.centerIP id).getD ""
  port := (mycenter.centerPort id).getD ""
  center_id := center_id

/-- `SelectNode::getCenterInformation`: only where nothing is known does `fail` change nothing. -/
def getCenterInformation (s : SelectNode) (response : Text) : SelectNode :=
  match response, s.center_Information with
  | .fail, .empty => s
  | response, _ => { s with center_Information := response }

/-- `SelectNode::start`, with the response to its request. -/
def SelectNode.begin (response : Text) : SelectNode :=
  let s := getCenterInformation ⟨.empty, []⟩ response
  let mycenter := s.center_Information.deserialize
  { s with buf_delay := mycenter.centerID.map fun id => nodeOf mycenter id id }

/-- `SelectNode::getmapIdName`: the first center with the name. -/
def getmapIdName (mycenter : CenterInfo) (centerName : String) : String :=
  (mycenter.centerID.find? fun id => (mycenter.centerName id).getD "" = centerName).getD "fail"

/-- The names of the centers, in the order of their IDs. -/
def names (mycenter : CenterInfo) : List String :=
  mycenter.centerID.map fun id => (mycenter.centerName id).getD ""

/-- What becomes of a probe: how long the request takes, in microseconds, and whether the center
answers it. -/
structure Probe where
  elapsed : Nat
  answered : Bool

/-- `SelectNode::subgetRTT_rest`: how long the request took, whatever it returned. -/
def subgetRTT_rest (probe : Probe) : Nat := probe.elapsed

/-- `SelectNode::getRTT`: the time of each center stands under its name, that of a later center in
place of an earlier one's. `rtt` is what the measurements take, in microseconds. -/
def getRTT (s : SelectNode) (rtt : String → Nat) : Option (List (String × Nat)) :=
  match s.center_Information with
  | .empty => none
  | text =>
      let mycenter := text.deserialize
      let mymap := Table.fill (fun id => (mycenter.centerName id).getD "") mycenter.centerID
      some ((names mycenter).dedup.map fun name => (name, ((mymap name).map rtt).getD 0))

/-- `SelectNode::write_rtt`, with the response to the request that it makes where nothing is known.
The ID of the center is not written. -/
def write_rtt (s : SelectNode) (myvec : List (String × Nat)) (response : Text) : SelectNode :=
  match s.center_Information with
  | .empty => getCenterInformation s response
  | text =>
      let mycenter := text.deserialize
      { s with buf_delay := myvec.map fun p => nodeOf mycenter (getmapIdName mycenter p.1) "" }

/-- The measurement in the loop of `SelectNode::entry`: `myvec` is the outcome of the sort. -/
def measure (s : SelectNode) (rtt : String → Nat) (myvec : List (String × Nat)) (response : Text) :
    Option SelectNode :=
  match getRTT s rtt with
  | none => some s
  | some rankrtt =>
      if myvec.Perm rankrtt ∧ myvec.Pairwise (fun p q => p.2 ≤ q.2) then
        some (write_rtt s myvec response)
      else none

/-- `http://`. -/
def http : Bytes := [104, 116, 116, 112, 58, 47, 47]

/-- `Client::get_manager`: the buffer has room for 255 bytes. -/
def get_manager (s : SelectNode) : Bytes :=
  match s.buf_delay with
  | [] => []
  | center :: _ =>
      (http ++ cstr center.ip_addr.toUTF8.toList ++ [58] ++ cstr center.port.toUTF8.toList).take 255

end Gvds.OptNode
