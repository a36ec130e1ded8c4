/-
Module: Gvds.Client.QueueMarkers
Layer: Client
Purpose: block_on_last of the write-behind queue (client/queue.cc, client/client_worker.cc,
  block_on_op of msg/client_session.cc) with the threads of the queue and the UDT sessions of the
  workers: the marker with its callback goes through the merge of queue_buffer, the dispatcher and
  the workers like any other buffer, and the worker that gets it runs the callback.
Imports: Gvds.Client.QueueThreads, Gvds.Client.ClientSession
Trusted boundary: as Gvds.Client.QueueThreads and Gvds.Client.ClientSession; a session can always be
  opened; in TCP mode the reply to a write comes some time or never
Main exports: Marker, Stage, State, udt_channel, Act, step
-/
import Gvds.Client.QueueThreads
import Gvds.Client.ClientSession

namespace Gvds.QueueMarkers

open WriteBehind (Buffer QueueConfig)
open QueueThreads (Queued callsIn taken fakeBuffer)

/-- A call of `block_on_last` that has queued its marker: the node that its callback asks, how often
the callback was entered, and the values that the promise was given. `before` is not in the source:
it lists the calls of `gvdsfs_write` whose buffers were queued before. -/
structure Marker where
  iop : Nat
  before : List Nat
  callbacks : Nat
  values : List Bool

/-- Where a worker in `Processing` is: its write is on its way in TCP mode; it is in `write` or
`registe_handler` of a session, for the first or the second time; the callback of a marker has read
the ID in `block_on_op`; the callback waits for the future of a call; it has returned. -/
inductive Stage where
  | tcp
  | udt (session call : Nat) (retried : Bool)
  | asking (marker session : Nat) (id : Int)
  | blocked (marker session call : Nat)
  | called
deriving DecidableEq

/-- The marker whose callback the worker is in. -/
def Stage.marker? : Stage → Option Nat
  | .asking k _ _ => some k
  | .blocked k _ _ => some k
  | _ => none

/-- `ClientBufferQueue` with the stages of the workers in `Processing`, in the order of their
buffers, and `udt_clients`, the current session of each node. `blockers` are the calls of
`block_on_last` that have looked at `buf_onlink` and not queued their marker yet, with their node;
`markers` has the others under the number of their call of `queue_buffer`. Not in the source are
`atOnce`, what was queued before each call that returned `true` at once, the lists in `blockers`,
which are the same for these calls, and `completed`, the buffers whose worker has seen
`BufferComplete`. -/
structure State where
  queue : QueueThreads.State
  stages : List Stage
  sessions : Nat → ClientSession.World
  opened : Nat
  udt_clients : Nat → Option Nat
  blockers : List (Nat × List Nat)
  markers : Nat → Option Marker
  atOnce : List (List Nat)
  completed : List Queued

/-- `ClientBufferQueue::start`. -/
def start (cfg : QueueConfig) : State where
  queue := QueueThreads.start cfg
  stages := []
  sessions := fun _ => .start
  opened := 0
  udt_clients := fun _ => none
  blockers := []
  markers := fun _ => none
  atOnce := []
  completed := []

/-- The calls of `gvdsfs_write` whose buffers are queued. -/
def written (s : QueueThreads.State) : List Nat :=
  callsIn ((taken s).filter fun q => q.buffer.path ≠ "")

/-- `ClientRpc::udt_channel`: the session of the node, or a new one. -/
def udt_channel (s : State) (iop : Nat) (reconnect : Bool) : State × Nat :=
  let opens := ({ s with
    opened := s.opened + 1
    udt_clients := Function.update s.udt_clients iop (some s.opened) }, s.opened)
  match s.udt_clients iop with
  | none => opens
  | some n => if reconnect then opens else (s, n)

/-- The callback's promise gets a value, and the callback returns. -/
def setValue (s : State) (i k : Nat) (value : Bool) : State :=
  { s with
    markers := Function.update s.markers k
      ((s.markers k).map fun m => { m with values := m.values ++ [value] })
    stages := s.stages.set i .called }

/-- A worker enters `Processing`; its stage is appended to the others. -/
def enter (s : State) (stage : Stage) : State := { s with stages := s.stages ++ [stage] }

/-- The callback of a marker up to `block_on_op`, which is asked about the last request. -/
def callback (cfg : QueueConfig) (s : State) (k : Nat) (m : Marker) : State :=
  let s := { s with
    markers := Function.update s.markers k (some { m with callbacks := m.callbacks + 1 }) }
  if cfg.use_udt then
    let (s, n) := udt_channel s m.iop false
    enter s (.asking k n (ClientSession.int ((s.sessions n).session.seq_n + 2 ^ 64 - 1)))
  else enter s .called

/-- `Processing::Processing`. A merged fake buffer has the callback of the first marker. -/
def process (cfg : QueueConfig) (s : State) (q : Queued) (call : Nat) : State :=
  if q.buffer.path = "" then
    match q.calls.head? with
    | none => enter s .called
    | some k =>
        match s.markers k with
        | none => enter s .called
        | some m => callback cfg s k m
  else if cfg.use_udt then
    let (s, n) := udt_channel s q.buffer.dest false
    enter s (.udt n call false)
  else enter s .tcp

/-- What a worker does in a session. -/
inductive Call where
  | number (error_stat : Bool)
  | enter
  | send
  | register
deriving DecidableEq

/-- The step of the session that it is. -/
def Call.action (k : Nat) : Call → ClientSession.Action
  | .number error_stat => .number k error_stat
  | .enter => .enter k
  | .send => .send k
  | .register => .register k

/-- Whether `BufferComplete` can come. -/
def Stage.completes (s : State) : Stage → Bool
  | .tcp => true
  | .udt n k _ => (s.sessions n).called k ≠ 0
  | .asking _ _ _ => false
  | .blocked _ _ _ => false
  | .called => true

/-- What can happen next: a step of the queue's threads; a thread begins `block_on_last`, or the
`i`-th of them queues its marker; the `i`-th worker goes on in its session, or opens a new one
because the write was refused; a reply comes; the `i`-th worker goes on in `block_on_op`. -/
inductive Act where
  | queue (a : QueueThreads.Act)
  | blockOnLast (iop : Nat)
  | queueMarker (i : Nat)
  | session (i : Nat) (c : Call)
  | retry (i : Nat)
  | receive (n k : Nat)
  | lookup (i : Nat)
  | wake (i : Nat)

/-- A thread begins `block_on_last`. -/
def blockOnLast (s : State) (iop : Nat) : State :=
  if s.queue.buf_onlink = 0 then { s with atOnce := s.atOnce ++ [written s.queue] }
  else { s with blockers := s.blockers ++ [(iop, written s.queue)] }

/-- The rest of `block_on_last`. -/
def queueMarker (cfg : QueueConfig) (s : State) (i : Nat) : Option State :=
  s.blockers[i]?.map fun w =>
    { s with
      queue := QueueThreads.queue_buffer cfg s.queue fakeBuffer false
      blockers := s.blockers.eraseIdx i
      markers := Function.update s.markers s.queue.calls.length (some ⟨w.1, w.2, 0, []⟩) }

/-- A step of a worker in a session. A refused write is tried a second time before the handler is
registered. -/
def session (s : State) (i : Nat) (c : Call) : Option State :=
  match s.stages[i]? with
  | some (.udt n k retried) =>
      if c = .register ∧ (s.sessions n).stage k = .refused ∧ retried = false then none
      else
        (ClientSession.step (s.sessions n) (c.action k)).map fun w =>
          { s with sessions := Function.update s.sessions n w }
  | _ => none

/-- The second try. -/
def retry (s : State) (i : Nat) : Option State :=
  match s.stages[i]?, s.queue.processing[i]? with
  | some (.udt n k false), some q =>
      if (s.sessions n).stage k = .refused then
        let (s, n') := udt_channel s q.buffer.dest true
        some { s with stages := s.stages.set i (.udt n' k true) }
      else none
  | _, _ => none

/-- The table of futures in `block_on_op`: the request is not there any more, or its future is
waited for. -/
def lookup (s : State) (i : Nat) : Option State :=
  match s.stages[i]? with
  | some (.asking k n id) =>
      match (s.sessions n).session.futures id with
      | none => some (setValue s i k true)
      | some c => some { s with stages := s.stages.set i (.blocked k n c) }
  | _ => none

/-- The promise of a call is gone: it was set, or destroyed, which makes the future ready, too. -/
def Ready (w : ClientSession.World) (c : Nat) : Prop :=
  w.session.ready_promises (w.id c) ≠ some c

instance (w : ClientSession.World) (c : Nat) : Decidable (Ready w c) :=
  inferInstanceAs (Decidable (_ ≠ _))

/-- `wait_for` returns: the future is ready, or the ten seconds are over. -/
def wake (s : State) (i : Nat) : Option State :=
  match s.stages[i]? with
  | some (.blocked k n c) => some (setValue s i k (Ready (s.sessions n) c))
  | _ => none

/-- One step of the client. -/
def step (cfg : QueueConfig) (s : State) : Act → Option State
  | .queue .blockOnLast => none
  | .queue (.process i) =>
      s.queue.assigned[i]?.bind fun q =>
        (QueueThreads.step cfg s.queue (.process i)).map fun queue =>
          process cfg { s with queue := queue } q s.queue.begun.length
  | .queue (.complete i) =>
      if (s.stages[i]?.map (Stage.completes s)).getD false then
        s.queue.processing[i]?.bind fun q =>
          (QueueThreads.step cfg s.queue (.complete i)).map fun queue =>
            { s with
              queue := queue
              stages := s.stages.eraseIdx i
              completed := s.completed ++ [q] }
      else none
  | .queue a => (QueueThreads.step cfg s.queue a).map fun queue => { s with queue := queue }
  | .blockOnLast iop => some (blockOnLast s iop)
  | .queueMarker i => queueMarker cfg s i
  | .session i c => session s i c
  | .retry i => retry s i
  | .receive n k =>
      (ClientSession.step (s.sessions n) (.receive k)).map fun w =>
        { s with sessions := Function.update s.sessions n w }
  | .lookup i => lookup s i
  | .wake i => wake s i

end Gvds.QueueMarkers
