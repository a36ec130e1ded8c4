/-
Module: Gvds.IoProxy.SpaceWorkers
Layer: IoProxy
Purpose: The workers of one center on a replicated space, and the centers that replicate it. A
  worker executes a request (ProxyOP::do_op); in handle_replica_async it then looks at the outcome
  and at the centers of the space, and puts the request on the replication queue, each a step of its
  own. The peers execute what the flusher sends them in the order of the queue.
Imports: Gvds.IoProxy.ProxyOp, Gvds.IoProxy.ReplicaQueue
Trusted boundary: as Gvds.IoProxy.Kernel and Gvds.IoProxy.ReplicaQueue; whether the kernel accepts
  an extended attribute is input. Of the attributes only the list of the centers is kept. A worker
  that waits for room on the queue puts its request on it later
Main exports: SpaceOp, Config, State, Act, step
-/
import Gvds.IoProxy.ProxyOp
import Gvds.IoProxy.ReplicaQueue

namespace Gvds.SpaceWorkers

open ReplicaQueue (handle_replica_async rewrite)

/-- The requests that change the names, sizes or attributes of a space. -/
inductive SpaceOp where
  | create (path : PathName)
  | unlink (path : PathName)
  | mkdir (path : PathName)
  | rmdir (path : PathName)
  | rename (path newpath : PathName)
  | truncate (path : PathName) (size : Nat)
  | setxattr (path : PathName) (name : String) (data : List UInt8)
deriving DecidableEq

namespace SpaceOp

/-- The paths of a request; the first one is its `filepath`. -/
def paths : SpaceOp → List PathName
  | .create path => [path]
  | .unlink path => [path]
  | .mkdir path => [path]
  | .rmdir path => [path]
  | .rename path newpath => [path, newpath]
  | .truncate path _ => [path]
  | .setxattr path _ _ => [path]

/-- The `filepath` of a request. -/
def filepath : SpaceOp → PathName
  | .create path => path
  | .unlink path => path
  | .mkdir path => path
  | .rmdir path => path
  | .rename path _ => path
  | .truncate path _ => path
  | .setxattr path _ _ => path

/-- The type of a request. -/
def type : SpaceOp → ReplicaQueue.OpType
  | .create _ => .create
  | .unlink _ => .unlink
  | .mkdir _ => .mkdir
  | .rmdir _ => .rmdir
  | .rename _ _ => .rename
  | .truncate _ _ => .truncate
  | .setxattr _ _ _ => .setxattr

/-- What replication sees of a client's request. -/
def toOpRequest (op : SpaceOp) : ReplicaQueue.OpRequest where
  filepath := "/".intercalate op.filepath.reverse
  type := op.type
  extra := []
  xattr_name :=
    match op with
    | .setxattr _ name _ => name
    | _ => ""
  data := []

/-- The requests that `do_op` answers by calls on names and contents. -/
def toRequest : SpaceOp → Option Request
  | .create path => some (.create path)
  | .unlink path => some (.unlink path)
  | .mkdir path => some (.mkdir path)
  | .rmdir path => some (.rmdir path)
  | .rename path newpath => some (.rename path newpath)
  | .truncate path size => some (.truncate path size)
  | .setxattr _ _ _ => none

end SpaceOp

/-- A replicated space: its name, the centers that its attribute lists, and the center that accepts
client requests. -/
structure Config where
  space : String
  ids : List UInt8
  mcid : UInt8
  space_ne : space ≠ ""
  replicated : 2 ≤ ids.length

/-- Where a worker is in `handle_replica_async`: it has executed the request, with an error code; it
has made the entry for the queue. -/
inductive Stage where
  | executed (err_code : Int)
  | accepted (r : ReplicaQueue.OpRequest)
deriving DecidableEq

/-- A worker with its request. -/
structure Worker where
  op : SpaceOp
  stage : Stage
deriving DecidableEq

variable {β : Type*}

/-- The origin with the centers that the attribute of the space lists; its workers in the order in
which they executed their requests; all that was put on the queue so far; the peers, and how much of
the queue each of them has executed. -/
structure State (β : Type*) where
  origin : IoProxy β
  cids : Option (List UInt8)
  workers : List Worker
  queue : List (SpaceOp × ReplicaQueue.OpRequest)
  peer : UInt8 → IoProxy β
  applied : UInt8 → Nat

/-- What can happen next: a worker executes a request, where the kernel takes an extended attribute
or not; the `i`-th worker looks at the outcome; the `i`-th worker puts its request on the queue; a
peer executes the next request that the flusher sends it. -/
inductive Act where
  | execute (op : SpaceOp) (xattr : Bool)
  | check (i : Nat)
  | enqueue (i : Nat)
  | deliver (c : UInt8)

/-- The error code of a reply; of an error only its sign matters here. -/
def errCode : Reply → Int
  | .failed _ => -1
  | .done err_code => err_code
  | .data bytes => bytes.length

/-- All paths of a request lie in the space. -/
def InSpace (cfg : Config) (op : SpaceOp) : Prop := ∀ p ∈ op.paths, [cfg.space] <:+ p

instance (cfg : Config) (op : SpaceOp) : Decidable (InSpace cfg op) :=
  inferInstanceAs (Decidable (∀ p ∈ op.paths, [cfg.space] <:+ p))

/-- A worker has executed its request. -/
def addWorker (s : State β) (op : SpaceOp) (err_code : Int) : State β :=
  { s with workers := s.workers ++ [⟨op, .executed err_code⟩] }

/-- `OpType::setxattr` in `do_op`. `create_replicated_space` fails on a space that has centers. -/
def doSetxattr (cfg : Config) (s : State β) (path : PathName) (name : String) (data : List UInt8)
    (xattr : Bool) : Option (State β × Int) :=
  if name = "user.replicate.create" then if s.cids.isSome then some (s, -1) else none
  else if (s.origin.k.tree.node path).isSome && xattr then
    some ({ s with
      cids := if path = [cfg.space] ∧ name = "user.gvds.r.c" then some data else s.cids }, 0)
  else some (s, -1)

/-- `do_op` up to `handle_replica_async`. The attributes of the space go with its directory. -/
def execute (cfg : Config) (s : State β) (op : SpaceOp) (xattr : Bool) : Option (State β) :=
  match op with
  | .setxattr path name data =>
      (doSetxattr cfg s path name data xattr).map fun r => addWorker r.1 op r.2
  | _ =>
      op.toRequest.map fun request =>
        let r := s.origin.doOp noPeers request
        let cids := if r.1.k.tree.node [cfg.space] = some .dir then s.cids else none
        addWorker { s with origin := r.1, cids := cids } op (errCode r.2)

/-- `do_op` at a peer. It does not put a peer's request on its own queue, and names do not depend on
what attributes it sets. -/
def executeAtPeer (s : IoProxy β) (op : SpaceOp) : IoProxy β :=
  match op.toRequest with
  | some request => (s.doOp noPeers request).1
  | none => s

/-- The first part of `handle_replica_async`. -/
def check (s : State β) (i : Nat) (op : SpaceOp) (err_code : Int) : State β :=
  match handle_replica_async op.toOpRequest err_code s.cids with
  | none => { s with workers := s.workers.eraseIdx i }
  | some r => { s with workers := s.workers.set i ⟨op, .accepted r⟩ }

/-- The inner loop of `_flush` for one peer. -/
def deliver (cfg : Config) (s : State β) (c : UInt8) (op : SpaceOp) (r : ReplicaQueue.OpRequest) :
    State β :=
  let sent := (rewrite cfg.mcid r).isSome && decide (c ∈ r.extra) && decide (c ≠ cfg.mcid)
  { s with
    peer := Function.update s.peer c (if sent then executeAtPeer (s.peer c) op else s.peer c)
    applied := Function.update s.applied c (s.applied c + 1) }

/-- One step of the centers. -/
def step (cfg : Config) (s : State β) : Act → Option (State β)
  | .execute op xattr => if InSpace cfg op then execute cfg s op xattr else none
  | .check i =>
      match s.workers[i]? with
      | some ⟨op, .executed err_code⟩ => some (check s i op err_code)
      | _ => none
  | .enqueue i =>
      match s.workers[i]? with
      | some ⟨op, .accepted r⟩ =>
          some { s with workers := s.workers.eraseIdx i, queue := s.queue ++ [(op, r)] }
      | _ => none
  | .deliver c =>
      match s.queue[s.applied c]? with
      | some (op, r) => some (deliver cfg s c op r)
      | none => none

end Gvds.SpaceWorkers
