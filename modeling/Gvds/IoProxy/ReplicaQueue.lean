/-
Module: Gvds.IoProxy.ReplicaQueue
Layer: IoProxy
Purpose: The replication queue of a center (io_proxy/replica_mgr.cc): which requests
  handle_replica_async puts on the queue, how _flush rewrites them and whom it sends them to, and
  the threads of ReplicaMgr: callers of submit_replicated_request, the flusher thread, and stop.
Imports: Mathlib.Data.UInt, Mathlib.Tactic.Basic
Trusted boundary: `char` is signed, as on x86; a thread in pthread_cond_wait may wake up at any
  time. Of the fields of a request those that replication only passes on are left out. The index
  update and the other requests that the manager handles itself put nothing on the queue
Main exports: OpType, OpRequest, handle_replica_async, rewrite, State, Act, step
-/
import Mathlib.Data.UInt
import Mathlib.Tactic.Basic

namespace Gvds.ReplicaQueue

/-- `OpType` in full. A value that the enumeration does not name is kept by protobuf. -/
inductive OpType where
  | statfs
  | getattr
  | rename
  | access
  | utimens
  | lock
  | setxattr
  | getxattr
  | listxattr
  | removexattr
  | chmod
  | chown
  | truncate
  | open
  | read
  | write
  | flush
  | release
  | fsync
  | create
  | write_buf
  | read_buf
  | fallocate
  | flock
  | mkdir
  | rmdir
  | opendir
  | readdir
  | releasedir
  | fsyncdir
  | readlink
  | unlink
  | symlink
  | link
  | bmap
  | ioctl
  | poll
  | rep_init_space
  | rep_remove_space
  | rep_update_index
  | rep_sync_data
  | unknown (value : Int)
deriving DecidableEq

/-- The fields of `OpRequest` that replication reads or writes. -/
structure OpRequest where
  filepath : String
  type : OpType
  extra : List UInt8
  xattr_name : String
  data : List UInt8
deriving DecidableEq

/-! ### Which requests are queued -/

/-- The groups of cases in `handle_replica_async`: reads; changes, which a peer marks by a nonempty
`extra`; writes; what the manager handles itself; and the default. -/
inductive Route where
  | readOnly
  | change
  | write
  | handled
  | default
deriving DecidableEq

/-- The cases of the switch in `handle_replica_async`. -/
def route : OpType → Route
  | .getattr => .readOnly
  | .access => .readOnly
  | .getxattr => .readOnly
  | .listxattr => .readOnly
  | .read => .readOnly
  | .flush => .readOnly
  | .release => .readOnly
  | .fsync => .readOnly
  | .write_buf => .readOnly
  | .read_buf => .readOnly
  | .opendir => .readOnly
  | .releasedir => .readOnly
  | .readdir => .readOnly
  | .fsyncdir => .readOnly
  | .readlink => .readOnly
  | .bmap => .readOnly
  | .ioctl => .readOnly
  | .poll => .readOnly
  | .open => .change
  | .rename => .change
  | .utimens => .change
  | .lock => .change
  | .setxattr => .change
  | .removexattr => .change
  | .chmod => .change
  | .chown => .change
  | .truncate => .change
  | .create => .change
  | .fallocate => .change
  | .flock => .change
  | .mkdir => .change
  | .rmdir => .change
  | .unlink => .change
  | .symlink => .change
  | .link => .change
  | .write => .write
  | .rep_init_space => .handled
  | .rep_sync_data => .handled
  | .rep_update_index => .handled
  | .statfs => .default
  | .rep_remove_space => .default
  | .unknown _ => .default

/-- Parts 1.b to 2 of `handle_replica_async`: nothing after an error reply or in a space of one
center, else the request with the centers of its space. `cids` is what `getxattr` finds on the
space. -/
def enqueue (r : OpRequest) (err_code : Int) (cids : Option (List UInt8)) : Option OpRequest :=
  if err_code < 0 then none
  else
    cids.bind fun cids => if cids.length < 2 then none else some { r with extra := cids }

/-- `ReplicaMgr::handle_replica_async`: the request that is put on the queue, if one is. -/
def handle_replica_async (r : OpRequest) (err_code : Int) (cids : Option (List UInt8)) :
    Option OpRequest :=
  if r.filepath = "" then none
  else
    match route r.type with
    | .readOnly => none
    | .change => if r.extra.length ≠ 0 then none else enqueue r err_code cids
    | .write => enqueue { r with data := [] } err_code cids
    | .handled => none
    | .default => enqueue r err_code cids

/-! ### What is sent -/

/-- `request.xattr_name().substr(0, 9) == "user.gvds"`. -/
def ownAttribute (r : OpRequest) : Bool :=
  r.type = .setxattr ∧ r.xattr_name.toList.take 9 = "user.gvds".toList

/-- The head of the loop in `_flush`: a write becomes an index update, the manager's own attributes
are skipped, and the request says which center it is from. -/
def rewrite (mcid : UInt8) (r : OpRequest) : Option OpRequest :=
  if r.type = .write then some { r with type := .rep_update_index, extra := [mcid] }
  else if ownAttribute r then none
  else some { r with extra := [mcid] }

/-- `uint32_t id = cids[i]`: a `char` of 128 or more is negative. -/
def toId (c : UInt8) : UInt32 := if c < 128 then c.toUInt32 else c.toUInt32 + 0xFFFFFF00

/-- The own center and the centers whose IO proxy is known. -/
structure Config where
  mcid : UInt8
  ioproxys : UInt32 → Bool
  m_max_new : Nat

/-! ### The threads of ReplicaMgr -/

/-- A request on the queue, with its place in the order of all accepted requests. The number is not
in the source. -/
structure Item where
  index : Nat
  request : OpRequest
deriving DecidableEq

/-- Where the flusher thread is: at the head of the loop in `entry`; waiting on `m_cond_flusher`; in
`flush` before the swap; in `_flush` at the head of the loop with the rest of its local queue; in
`_flush` with a request and the rest of its centers. `final` tells the flush behind the loop from
those within. It is gone, or has crashed on a center that `ioproxys` does not have. -/
inductive Flusher where
  | loop
  | waiting
  | swapping (final : Bool)
  | sending (t : List Item) (final : Bool)
  | submitting (r : Item) (cids : List UInt8) (t : List Item) (final : Bool)
  | ended
  | crashed
deriving DecidableEq

/-- How a Submit RPC goes: it is answered; it fails and the peer has not seen it; it fails and the
peer has applied it. -/
inductive Outcome where
  | answered
  | lost
  | unanswered
deriving DecidableEq

/-- `ReplicaMgr` with its threads. `waiters` are the calls of `submit_replicated_request` that wait
for room. Not in the source are `accepted`, all requests pushed so far; `received`, what the center
with an id has applied; and `lost`, the requests and centers of failed RPCs that were not
applied. -/
structure State where
  m_stop : Bool
  waiters : List OpRequest
  m_new : List Item
  flusher : Flusher
  accepted : List OpRequest
  received : UInt32 → List Nat
  lost : List (Nat × UInt32)

/-- `ReplicaMgr::start`. -/
def start : State where
  m_stop := false
  waiters := []
  m_new := []
  flusher := .loop
  accepted := []
  received := fun _ => []
  lost := []

/-- The end of `submit_replicated_request`. -/
def push (s : State) (r : OpRequest) : State :=
  { s with m_new := s.m_new ++ [⟨s.accepted.length, r⟩], accepted := s.accepted ++ [r] }

/-- What can happen next: a thread calls `submit_replicated_request`; the `i`-th waiting one wakes
up; another thread calls `stop`; the flusher thread goes on, where an RPC of its step goes as
told. -/
inductive Act where
  | submit (r : OpRequest)
  | wakeUp (i : Nat)
  | stop
  | flush (o : Outcome)

/-- A Submit RPC for the request with number `k` to the center with an id. -/
def submitRpc (s : State) (k : Nat) (id : UInt32) (o : Outcome) : State :=
  if o = .lost then { s with lost := s.lost ++ [(k, id)] }
  else { s with received := Function.update s.received id (s.received id ++ [k]) }

/-- One step of the flusher thread. -/
def flush (cfg : Config) (s : State) (o : Outcome) : Option State :=
  match s.flusher with
  | .loop =>
      if s.m_stop then some { s with flusher := .swapping true }
      else if s.m_new = [] then some { s with flusher := .waiting }
      else some { s with flusher := .swapping false }
  | .waiting => some { s with flusher := .loop }
  | .swapping final => some { s with flusher := .sending s.m_new final, m_new := [] }
  | .sending [] final => some { s with flusher := if final then .ended else .loop }
  | .sending (r :: t) final =>
      if (rewrite cfg.mcid r.request).isNone then some { s with flusher := .sending t final }
      else some { s with flusher := .submitting r r.request.extra t final }
  | .submitting _ [] t final => some { s with flusher := .sending t final }
  | .submitting r (c :: cids) t final =>
      let next := { s with flusher := .submitting r cids t final }
      if toId c = cfg.mcid.toUInt32 then some next
      else if cfg.ioproxys (toId c) then some (submitRpc next r.index (toId c) o)
      else some { s with flusher := .crashed }
  | .ended => none
  | .crashed => none

/-- One step of the replica manager. -/
def step (cfg : Config) (s : State) : Act → Option State
  | .submit r =>
      if s.m_new.length > cfg.m_max_new then some { s with waiters := s.waiters ++ [r] }
      else some (push s r)
  | .wakeUp i =>
      s.waiters[i]?.bind fun r =>
        if s.m_new.length > cfg.m_max_new then none
        else some (push { s with waiters := s.waiters.eraseIdx i } r)
  | .stop => some { s with m_stop := true }
  | .flush o => flush cfg s o

end Gvds.ReplicaQueue
