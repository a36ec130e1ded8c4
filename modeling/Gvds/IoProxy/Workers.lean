/-
Module: Gvds.IoProxy.Workers
Layer: IoProxy
Purpose: The workers of an IOProxy (io_proxy/io_worker.cc), the completion queue's thread
  (io_proxy/grpc_impl.cc), and the waiting line of OPs with its dispatcher (io_proxy/io_proxy.cc),
  as one step function. Schedulers are threads of their own; a constructor of a worker's state is
  several steps. A log keeps what happened to each call data and to the events.
Imports: Gvds.Lib.Machine, Mathlib.Logic.Function.Basic
Trusted boundary: gRPC: a RequestSubmit is answered with one request, its tag and that of a Finish
  are returned by Next once each. do_op returns, and runs its callback once, before or after that.
  Boost's fifo_scheduler hands out its events one at a time in the order in which they were queued;
  a state machine ignores an event for which its state has no reaction. Callers of queue_op block
Main exports: Status, Event, Stage, CallData, Record, Proxy, Proxy.start, Action, Proxy.step
-/
import Gvds.Lib.Machine
import Mathlib.Logic.Function.Basic

namespace Gvds.Workers

/-- `IOProxyWorker::Status`. -/
inductive Status where
  | waiting
  | processing
  | finished
deriving DecidableEq

/-- The states of a worker's state machine. -/
inductive MachineState where
  | waiting
  | processing
  | finished
deriving DecidableEq

/-- The events that schedulers queue. -/
inductive Event (Op : Type) where
  | initiate
  | opQueued (op : Option Op)
  | opComplete
  | opFinished

/-- How far a scheduler is in the constructor of a worker's next state: what it does next. -/
inductive Stage where
  | waitingStatus
  | waitingCall
  | waitingSubmit
  | processingStatus
  | processingOp
  | processingReturn
  | finishedStatus
  | finishedFinish
deriving DecidableEq

/-- `IOProxyWorker::CallData`. -/
structure CallData (W Req Rep : Type) where
  worker : W
  request : Option Req
  reply : Option Rep

/-- A worker: its status, the state of its machine once that is initiated, and `cur_call`. -/
structure Worker where
  status : Option Status
  state : Option MachineState
  cur_call : Option Nat

/-- What Next returns: a tag, with what it is returned for. -/
inductive Completion where
  | request (tag : Nat)
  | finish (tag : Nat)

/-- The tag of a completion. -/
def Completion.tag : Completion → Nat
  | .request tag => tag
  | .finish tag => tag

/-- What the completion queue's thread does next: look at the status of a tag's worker, or queue an
event. -/
inductive Entry (W Op : Type) where
  | look (tag : Nat)
  | queue (w : W) (e : Event Op)

/-- The records of the log. -/
inductive Record (W Op Req Rep : Type) where
  | received (tag : Nat) (request : Req)
  | delivered (completion : Completion)
  | processed (tag : Nat) (w : W) (request : Req)
  | replied (tag : Nat) (request : Req) (reply : Rep)
  | finish (tag : Nat) (reply : Rep)
  | replaced (tag : Nat)
  | discarded (w : W)
  | dangling (tag : Nat)

/-- An IOProxy with workers `W` on schedulers `S`. Call data are numbered in the order of their
creation; `complete` holds the OPs whose callbacks were run. -/
structure Proxy (W S Op Req Rep : Type) where
  worker : W → Worker
  call : Nat → Option (CallData W Req Rep)
  calls : Nat
  submitted : List Nat
  finishing : List Nat
  cq : List Completion
  entry : Option (Entry W Op)
  queue : S → List (W × Event Op)
  running : S → Option (W × Stage)
  callbacks : List (W × Nat)
  op_waiting_line : List Op
  batch : List Op
  dispatching : Option Op
  idle_list : List W
  complete : List Op
  log : List (Record W Op Req Rep)

/-- `m_max_op`. -/
def m_max_op : Nat := 1000

variable {W S Op Req Rep : Type} [DecidableEq W] [DecidableEq S]

namespace Proxy

/-- `IOProxy::start`: every worker is to be initiated by its scheduler. -/
def start (workers : List W) (scher : W → S) : Proxy W S Op Req Rep where
  worker := fun _ => { status := none, state := none, cur_call := none }
  call := fun _ => none
  calls := 0
  submitted := []
  finishing := []
  cq := []
  entry := none
  queue := fun s => (workers.filter fun w => scher w = s).map fun w => (w, .initiate)
  running := fun _ => none
  callbacks := []
  op_waiting_line := []
  batch := []
  dispatching := none
  idle_list := []
  complete := []
  log := []

/-- Change a worker. -/
def setWorker (p : Proxy W S Op Req Rep) (w : W) (worker : Worker) : Proxy W S Op Req Rep :=
  { p with worker := Function.update p.worker w worker }

/-- `queue_event`. -/
def queueEvent (p : Proxy W S Op Req Rep) (scher : W → S) (w : W) (e : Event Op) :
    Proxy W S Op Req Rep :=
  { p with queue := Function.update p.queue (scher w) (p.queue (scher w) ++ [(w, e)]) }

/-- The scheduler goes on with a stage, or is done with its event. -/
def goOn (p : Proxy W S Op Req Rep) (s : S) (next : Option (W × Stage)) : Proxy W S Op Req Rep :=
  { p with running := Function.update p.running s next }

/-- Add to the log. -/
def record (p : Proxy W S Op Req Rep) (r : Record W Op Req Rep) : Proxy W S Op Req Rep :=
  { p with log := p.log ++ [r] }

/-- The reaction of a state to an event: the state it transits to. -/
def react : Option MachineState → Event Op → Option MachineState
  | none, .initiate => some .waiting
  | some .waiting, .opQueued _ => some .processing
  | some .processing, .opComplete => some .finished
  | some .finished, .opFinished => some .waiting
  | _, _ => none

/-- The first stage of the constructor of a state. -/
def firstStage : MachineState → Stage
  | .waiting => .waitingStatus
  | .processing => .processingStatus
  | .finished => .finishedStatus

/-- `cur_call.reset`: the old call data is destroyed. -/
def resetCall (p : Proxy W S Op Req Rep) (w : W) : Proxy W S Op Req Rep :=
  let q : Proxy W S Op Req Rep :=
    match (p.worker w).cur_call with
    | none => p
    | some old => { p with call := Function.update p.call old none }.record (.replaced old)
  { q.setWorker w { q.worker w with cur_call := some q.calls } with
    call := Function.update q.call q.calls (some { worker := w, request := none, reply := none })
    calls := q.calls + 1 }

/-- `do_op` is called with the request of `cur_call`; its callback is still to come. -/
def doOp (p : Proxy W S Op Req Rep) (w : W) : Proxy W S Op Req Rep :=
  match (p.worker w).cur_call with
  | none => p
  | some tag =>
      match (p.call tag).bind CallData.request with
      | none => p.record (.dangling tag)
      | some request =>
          { p with callbacks := p.callbacks ++ [(w, tag)] }.record (.processed tag w request)

/-- `responder.Finish`, with the reply of `cur_call`. -/
def callFinish (p : Proxy W S Op Req Rep) (w : W) : Proxy W S Op Req Rep :=
  match (p.worker w).cur_call with
  | none => p
  | some tag =>
      match (p.call tag).bind CallData.reply with
      | none => p.record (.dangling tag)
      | some reply => { p with finishing := p.finishing ++ [tag] }.record (.finish tag reply)

/-- One step of a constructor: the first two and the last two lines of `Waiting::Waiting`, of
`Processing::Processing` and of `Finished::Finished`. -/
def advance (p : Proxy W S Op Req Rep) (s : S) (w : W) : Stage → Proxy W S Op Req Rep
  | .waitingStatus =>
      (p.setWorker w { p.worker w with status := some .waiting }).goOn s (some (w, .waitingCall))
  | .waitingCall => (p.resetCall w).goOn s (some (w, .waitingSubmit))
  | .waitingSubmit =>
      { p with submitted := p.submitted ++ (p.worker w).cur_call.toList }.goOn s none
  | .processingStatus =>
      (p.setWorker w { p.worker w with status := some .processing }).goOn s
        (some (w, .processingOp))
  | .processingOp => (p.doOp w).goOn s (some (w, .processingReturn))
  | .processingReturn => p.goOn s none
  | .finishedStatus =>
      (p.setWorker w { p.worker w with status := some .finished }).goOn s
        (some (w, .finishedFinish))
  | .finishedFinish => (p.callFinish w).goOn s none

/-- gRPC puts a request into a call data, and its tag into the completion queue. -/
def receive (p : Proxy W S Op Req Rep) (tag : Nat) (request : Req) : Proxy W S Op Req Rep :=
  let q : Proxy W S Op Req Rep :=
    { p with
      submitted := p.submitted.erase tag
      call := Function.update p.call tag
        ((p.call tag).map fun d => { d with request := some request })
      cq := p.cq ++ [.request tag] }
  q.record (.received tag request)

/-- `OpServerImpl::entry` looks at the status of the worker of a tag. -/
def lookAt (p : Proxy W S Op Req Rep) (tag : Nat) : Proxy W S Op Req Rep :=
  match p.call tag with
  | none => { p with entry := none }.record (.dangling tag)
  | some d =>
      match (p.worker d.worker).status with
      | some .waiting => { p with entry := some (.queue d.worker (.opQueued none)) }
      | some .finished => { p with entry := some (.queue d.worker .opFinished) }
      | _ => { p with entry := none }.record (.discarded d.worker)

/-- The callback of `do_op`: the reply is complete, and OpComplete is queued. -/
def callback (p : Proxy W S Op Req Rep) (scher : W → S) (w : W) (tag : Nat) (reply : Rep) :
    Proxy W S Op Req Rep :=
  let q := { p with callbacks := p.callbacks.erase (w, tag) }.queueEvent scher w .opComplete
  match p.call tag with
  | some ⟨worker, some request, _⟩ =>
      { q with call := Function.update q.call tag (some ⟨worker, some request, some reply⟩) }.record
        (.replied tag request reply)
  | _ => q.record (.dangling tag)

end Proxy

/-- What may happen next: a request arrives, a reply is sent, the queue's thread, a scheduler or a
callback goes on, an OP is queued, or the dispatcher goes on. -/
inductive Action (W S Op Req Rep : Type) where
  | arrive (tag : Nat) (request : Req)
  | sent (tag : Nat)
  | next
  | look
  | post
  | take (s : S)
  | advance (s : S)
  | callback (w : W) (tag : Nat) (reply : Rep)
  | queueOp (op : Op)
  | dispatch
  | pop
  | getIdleWorker

/-- Whether an action is one of the proxy, or comes from outside. -/
def Action.internal : Action W S Op Req Rep → Bool
  | .arrive _ _ => false
  | .queueOp _ => false
  | _ => true

/-- One step of an IOProxy before its shutdown. -/
def Proxy.step (scher : W → S) (p : Proxy W S Op Req Rep) :
    Action W S Op Req Rep → Option (Proxy W S Op Req Rep)
  | .arrive tag request =>
      if tag ∈ p.submitted then
        some (p.receive tag request)
      else none
  | .sent tag =>
      if tag ∈ p.finishing then
        some { p with finishing := p.finishing.erase tag, cq := p.cq ++ [.finish tag] }
      else none
  | .next =>
      match p.entry, p.cq with
      | none, k :: cq => some ({ p with entry := some (.look k.tag), cq := cq }.record (.delivered k))
      | _, _ => none
  | .look =>
      match p.entry with
      | some (.look tag) => some (p.lookAt tag)
      | _ => none
  | .post =>
      match p.entry with
      | some (.queue w e) => some ({ p with entry := none }.queueEvent scher w e)
      | _ => none
  | .take s =>
      match p.running s, p.queue s with
      | none, (w, e) :: rest =>
          let q := { p with queue := Function.update p.queue s rest }
          match Proxy.react (p.worker w).state e with
          | some state =>
              some ((q.setWorker w { q.worker w with state := some state }).goOn s
                (some (w, Proxy.firstStage state)))
          | none => some (q.record (.discarded w))
      | _, _ => none
  | .advance s =>
      match p.running s with
      | some (w, stage) => some (p.advance s w stage)
      | none => none
  | .callback w tag reply =>
      if (w, tag) ∈ p.callbacks then some (p.callback scher w tag reply) else none
  | .queueOp op =>
      if p.op_waiting_line.length ≤ m_max_op then
        some { p with op_waiting_line := p.op_waiting_line ++ [op] }
      else none
  | .dispatch =>
      match p.dispatching, p.batch, p.op_waiting_line with
      | none, [], op :: line => some { p with batch := op :: line, op_waiting_line := [] }
      | _, _, _ => none
  | .pop =>
      match p.dispatching, p.batch with
      | none, op :: batch => some { p with dispatching := some op, batch := batch }
      | _, _ => none
  | .getIdleWorker =>
      match p.dispatching, p.idle_list with
      | some op, w :: idle_list =>
          some ({ p with dispatching := none, idle_list := idle_list }.queueEvent scher w
            (.opQueued (some op)))
      | _, _ => none

end Gvds.Workers
