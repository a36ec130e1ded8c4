/-
Module: Gvds.IoProxy.CenterNet
Layer: IoProxy
Purpose: The centers of a replicated space as a network. Clients send requests to any center; a
  center that has executed a request may put it on its replication queue; it sends what it takes off
  its queue to the other centers of the space, where it is executed like any request. Messages may
  arrive in any order, or not at all.
Imports: Gvds.IoProxy.ReplicaQueue
Trusted boundary: as Gvds.IoProxy.ReplicaQueue. The error code of an executed request and the
  centers that a center's copy of the space names are input
Main exports: CenterIds, Message, State, Act, step
-/
import Gvds.IoProxy.ReplicaQueue

namespace Gvds.CenterNet

open ReplicaQueue (handle_replica_async rewrite toId)

/-- A set of replicated centers, as the attribute of a space lists it. -/
structure CenterIds where
  ids : List UInt8
  nodup : ids.Nodup

/-- A request that `_flush` sends to a center. `root` is the number of the client request that
caused it, which is not in the source. -/
structure Message where
  dest : UInt8
  request : ReplicaQueue.OpRequest
  root : Nat
deriving DecidableEq

/-- The queues of the centers, the messages on their way, and the number of client requests. Not in
the source are `sent`, for each message so far the client request that caused it and its
destination, and `requeued`, the received messages that were put on the receiving center's queue. -/
structure State where
  queue : UInt8 → List (Nat × ReplicaQueue.OpRequest)
  net : List Message
  requests : Nat
  sent : List (Nat × UInt8)
  requeued : List Message

/-- The network before the first request. -/
def start : State where
  queue := fun _ => []
  net := []
  requests := 0
  sent := []
  requeued := []

/-- The centers that the inner loop of `_flush` sends to: not to the own one, and up to the first
that is not known, where the center crashes. -/
def destinations (ioproxys : UInt32 → Bool) (mcid : UInt8) : List UInt8 → List UInt8
  | [] => []
  | c :: cids =>
      if toId c = mcid.toUInt32 then destinations ioproxys mcid cids
      else if ioproxys (toId c) then c :: destinations ioproxys mcid cids
      else []

/-- What can happen next: a client has a request executed at a center, with an error code, where the
space names some centers; a center takes the next request off its queue; the `i`-th message is
executed at its destination. -/
inductive Act where
  | client (center : UInt8) (r : ReplicaQueue.OpRequest) (err_code : Int) (cids : Option CenterIds)
  | flush (center : UInt8)
  | deliver (i : Nat) (err_code : Int) (cids : Option CenterIds)

/-- Put a request on the queue of a center. -/
def push (s : State) (center : UInt8) (root : Nat) (r : ReplicaQueue.OpRequest) : State :=
  { s with queue := Function.update s.queue center (s.queue center ++ [(root, r)]) }

/-- The end of `do_op` for a client's request. -/
def client (s : State) (center : UInt8) (r : ReplicaQueue.OpRequest) (err_code : Int)
    (cids : Option CenterIds) : State :=
  let s' := { s with requests := s.requests + 1 }
  match handle_replica_async r err_code (cids.map CenterIds.ids) with
  | none => s'
  | some queued => push s' center s.requests queued

/-- One round of the outer loop in `_flush`. -/
def flush (ioproxys : UInt32 → Bool) (s : State) (center : UInt8) : Option State :=
  match s.queue center with
  | [] => none
  | (root, r) :: rest =>
      let s' := { s with queue := Function.update s.queue center rest }
      match rewrite center r with
      | none => some s'
      | some request =>
          let dests := destinations ioproxys center r.extra
          some { s' with
            net := s.net ++ dests.map fun dest => ⟨dest, request, root⟩
            sent := s.sent ++ dests.map fun dest => (root, dest) }

/-- The end of `do_op` for a peer's request. -/
def deliver (s : State) (i : Nat) (err_code : Int) (cids : Option CenterIds) : Option State :=
  match s.net[i]? with
  | none => none
  | some m =>
      let s' := { s with net := s.net.eraseIdx i }
      match handle_replica_async m.request err_code (cids.map CenterIds.ids) with
      | none => some s'
      | some queued =>
          some { push s' m.dest m.root queued with requeued := s.requeued ++ [m] }

/-- One step of the network. -/
def step (ioproxys : UInt32 → Bool) (s : State) : Act → Option State
  | .client center r err_code cids => some (client s center r err_code cids)
  | .flush center => flush ioproxys s center
  | .deliver i err_code cids => deliver s i err_code cids

end Gvds.CenterNet
