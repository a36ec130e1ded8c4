/-
Module: Gvds.Proofs.WorkerLifecycle
Layer: Proofs
Purpose: A worker of an IOProxy goes through one cycle of phases: it waits for a request, the
  queue's thread turns the tag into an event, do_op runs, the reply is finished, and the tag of the
  Finish brings it back. Whatever the threads' order, what the workers' threads, the lists of tags
  and the log hold is what these phases say. So each call data has one history, of which the log has
  a part.
Imports: Gvds.Lib.Holders, Gvds.IoProxy.Workers
Trusted boundary: as Gvds.IoProxy.Workers
Main exports: Phase, Follows, follows_start, follows_step, history_complete
-/
import Gvds.Lib.Holders
import Gvds.IoProxy.Workers

namespace Gvds.Workers

variable {W S Op Req Rep : Type}

/-! ### Phases -/

/-- The phases of a worker. `old` is a call data that is done. -/
inductive Phase (Req Rep : Type) where
  | initial
  | waitingStatus (old : Option (Nat × Req × Rep))
  | waitingCall (old : Option (Nat × Req × Rep))
  | waitingSubmit (c : Nat)
  | submitted (c : Nat)
  | arrived (c : Nat) (req : Req)
  | looked (c : Nat) (req : Req)
  | posting (c : Nat) (req : Req)
  | queued (c : Nat) (req : Req)
  | processingStatus (c : Nat) (req : Req)
  | processingOp (c : Nat) (req : Req)
  | working (c : Nat) (req : Req) (returned : Bool)
  | replied (c : Nat) (req : Req) (rep : Rep) (returned : Bool)
  | finishedStatus (c : Nat) (req : Req) (rep : Rep)
  | finishedFinish (c : Nat) (req : Req) (rep : Rep)
  | finishing (c : Nat) (req : Req) (rep : Rep)
  | sent (c : Nat) (req : Req) (rep : Rep)
  | finishLooked (c : Nat) (req : Req) (rep : Rep)
  | finishPosting (c : Nat) (req : Req) (rep : Rep)
  | finishQueued (c : Nat) (req : Req) (rep : Rep)

namespace Phase

/-- The call data, with the request and the reply in it. -/
def data : Phase Req Rep → Option (Nat × Option Req × Option Rep)
  | initial => none
  | waitingStatus old => old.map fun d => (d.1, some d.2.1, some d.2.2)
  | waitingCall old => old.map fun d => (d.1, some d.2.1, some d.2.2)
  | waitingSubmit c => some (c, none, none)
  | submitted c => some (c, none, none)
  | arrived c req => some (c, some req, none)
  | looked c req => some (c, some req, none)
  | posting c req => some (c, some req, none)
  | queued c req => some (c, some req, none)
  | processingStatus c req => some (c, some req, none)
  | processingOp c req => some (c, some req, none)
  | working c req _ => some (c, some req, none)
  | replied c req rep _ => some (c, some req, some rep)
  | finishedStatus c req rep => some (c, some req, some rep)
  | finishedFinish c req rep => some (c, some req, some rep)
  | finishing c req rep => some (c, some req, some rep)
  | sent c req rep => some (c, some req, some rep)
  | finishLooked c req rep => some (c, some req, some rep)
  | finishPosting c req rep => some (c, some req, some rep)
  | finishQueued c req rep => some (c, some req, some rep)

/-- `cur_call`. -/
def call (p : Phase Req Rep) : Option Nat := p.data.map Prod.fst

/-- The status of the worker. -/
def status : Phase Req Rep → Option Status
  | initial => none
  | waitingStatus old => old.map fun _ => .finished
  | waitingCall _ => some .waiting
  | waitingSubmit _ => some .waiting
  | submitted _ => some .waiting
  | arrived _ _ => some .waiting
  | looked _ _ => some .waiting
  | posting _ _ => some .waiting
  | queued _ _ => some .waiting
  | processingStatus _ _ => some .waiting
  | processingOp _ _ => some .processing
  | working _ _ _ => some .processing
  | replied _ _ _ _ => some .processing
  | finishedStatus _ _ _ => some .processing
  | finishedFinish _ _ _ => some .finished
  | finishing _ _ _ => some .finished
  | sent _ _ _ => some .finished
  | finishLooked _ _ _ => some .finished
  | finishPosting _ _ _ => some .finished
  | finishQueued _ _ _ => some .finished

/-- The state of the worker's machine. -/
def state : Phase Req Rep → Option MachineState
  | initial => none
  | waitingStatus _ => some .waiting
  | waitingCall _ => some .waiting
  | waitingSubmit _ => some .waiting
  | submitted _ => some .waiting
  | arrived _ _ => some .waiting
  | looked _ _ => some .waiting
  | posting _ _ => some .waiting
  | queued _ _ => some .waiting
  | processingStatus _ _ => some .processing
  | processingOp _ _ => some .processing
  | working _ _ _ => some .processing
  | replied _ _ _ _ => some .processing
  | finishedStatus _ _ _ => some .finished
  | finishedFinish _ _ _ => some .finished
  | finishing _ _ _ => some .finished
  | sent _ _ _ => some .finished
  | finishLooked _ _ _ => some .finished
  | finishPosting _ _ _ => some .finished
  | finishQueued _ _ _ => some .finished

/-- The worker. -/
def worker (p : Phase Req Rep) : Worker where
  status := p.status
  state := p.state
  cur_call := p.call

/-- What the scheduler is to do next for the worker. -/
def stage : Phase Req Rep → Option Stage
  | waitingStatus _ => some .waitingStatus
  | waitingCall _ => some .waitingCall
  | waitingSubmit _ => some .waitingSubmit
  | processingStatus _ _ => some .processingStatus
  | processingOp _ _ => some .processingOp
  | working _ _ returned => if returned then none else some .processingReturn
  | replied _ _ _ returned => if returned then none else some .processingReturn
  | finishedStatus _ _ _ => some .finishedStatus
  | finishedFinish _ _ _ => some .finishedFinish
  | _ => none

/-- The event that is queued for the worker. -/
def event : Phase Req Rep → Option (Event Op)
  | initial => some .initiate
  | queued _ _ => some (.opQueued none)
  | replied _ _ _ _ => some .opComplete
  | finishQueued _ _ _ => some .opFinished
  | _ => none

/-- The tag of a request that is to come. -/
def awaited : Phase Req Rep → Option Nat
  | submitted c => some c
  | _ => none

/-- The tag of a reply that is on its way. -/
def unsent : Phase Req Rep → Option Nat
  | finishing c _ _ => some c
  | _ => none

/-- The completion in the queue. -/
def completion : Phase Req Rep → Option Completion
  | arrived c _ => some (.request c)
  | sent c _ _ => some (.finish c)
  | _ => none

/-- What the queue's thread is to do for the worker. -/
def entry (w : W) : Phase Req Rep → Option (Entry W Op)
  | looked c _ => some (.look c)
  | posting _ _ => some (.queue w (.opQueued none))
  | finishLooked c _ _ => some (.look c)
  | finishPosting _ _ _ => some (.queue w .opFinished)
  | _ => none

/-- The callback that is still to run. -/
def callback (w : W) : Phase Req Rep → Option (W × Nat)
  | working c _ _ => some (w, c)
  | _ => none

/-- What happens to a call data up to the delivery of its request. -/
def delivered (c : Nat) (req : Req) : List (Record W Op Req Rep) :=
  [.received c req, .delivered (.request c)]

/-- What happens to a call data up to the delivery of its Finish event. -/
def served (w : W) (c : Nat) (req : Req) (rep : Rep) : List (Record W Op Req Rep) :=
  [.received c req, .delivered (.request c), .processed c w req, .replied c req rep,
    .finish c rep, .delivered (.finish c)]

/-- What has happened to the call data of the worker. -/
def history (w : W) : Phase Req Rep → List (Record W Op Req Rep)
  | initial => []
  | waitingStatus old => (old.map fun d => served w d.1 d.2.1 d.2.2).getD []
  | waitingCall old => (old.map fun d => served w d.1 d.2.1 d.2.2).getD []
  | waitingSubmit _ => []
  | submitted _ => []
  | arrived c req => [.received c req]
  | looked c req => delivered c req
  | posting c req => delivered c req
  | queued c req => delivered c req
  | processingStatus c req => delivered c req
  | processingOp c req => delivered c req
  | working c req _ => delivered c req ++ [.processed c w req]
  | replied c req rep _ => delivered c req ++ [.processed c w req, .replied c req rep]
  | finishedStatus c req rep => delivered c req ++ [.processed c w req, .replied c req rep]
  | finishedFinish c req rep => delivered c req ++ [.processed c w req, .replied c req rep]
  | finishing c req rep =>
      delivered c req ++ [.processed c w req, .replied c req rep, .finish c rep]
  | sent c req rep => delivered c req ++ [.processed c w req, .replied c req rep, .finish c rep]
  | finishLooked c req rep => served w c req rep
  | finishPosting c req rep => served w c req rep
  | finishQueued c req rep => served w c req rep

/-- How many steps of the proxy a worker in this phase has before it at most. -/
def rank : Phase Req Rep → Nat
  | submitted _ => 0
  | waitingSubmit _ => 1
  | waitingCall _ => 2
  | waitingStatus _ => 3
  | initial => 4
  | finishQueued _ _ _ => 4
  | finishPosting _ _ _ => 5
  | finishLooked _ _ _ => 6
  | sent _ _ _ => 7
  | finishing _ _ _ => 8
  | finishedFinish _ _ _ => 9
  | finishedStatus _ _ _ => 10
  | replied _ _ _ returned => if returned then 11 else 12
  | working _ _ returned => if returned then 13 else 14
  | processingOp _ _ => 15
  | processingStatus _ _ => 16
  | queued _ _ => 17
  | posting _ _ => 18
  | looked _ _ => 19
  | arrived _ _ => 20

/-! Where the steps of the proxy lead. -/

/-- The phase after Next has returned a worker's tag. -/
def next : Phase Req Rep → Phase Req Rep
  | arrived c req => looked c req
  | sent c req rep => finishLooked c req rep
  | x => x

/-- The phase after the queue's thread has looked at the status of a tag's worker. -/
def look : Phase Req Rep → Phase Req Rep
  | looked c req => posting c req
  | finishLooked c req rep => finishPosting c req rep
  | x => x

/-- The phase after the queue's thread has queued its event. -/
def post : Phase Req Rep → Phase Req Rep
  | posting c req => queued c req
  | finishPosting c req rep => finishQueued c req rep
  | x => x

/-- The phase after a scheduler has taken up the worker's event. -/
def take : Phase Req Rep → Phase Req Rep
  | initial => waitingStatus none
  | queued c req => processingStatus c req
  | replied c req rep _ => finishedStatus c req rep
  | finishQueued c req rep => waitingStatus (some (c, req, rep))
  | x => x

/-- The phase after a scheduler's step in a constructor; `calls` call data were there before. -/
def advance (calls : Nat) : Phase Req Rep → Phase Req Rep
  | waitingStatus old => waitingCall old
  | waitingCall _ => waitingSubmit calls
  | waitingSubmit c => submitted c
  | processingStatus c req => processingOp c req
  | processingOp c req => working c req false
  | working c req _ => working c req true
  | replied c req rep _ => replied c req rep true
  | finishedStatus c req rep => finishedFinish c req rep
  | finishedFinish c req rep => finishing c req rep
  | x => x

/-- The phase after the callback of do_op has run. -/
def reply (rep : Rep) : Phase Req Rep → Phase Req Rep
  | working c req returned => replied c req rep returned
  | x => x

theorem rank_next {x : Phase Req Rep} {k : Completion} (h : x.completion = some k) :
    x.next.rank < x.rank := by
  cases x <;> simp_all [completion, next, rank]

theorem rank_look {x : Phase Req Rep} {w : W} {c : Nat}
    (h : (x.entry w : Option (Entry W Op)) = some (.look c)) : x.look.rank < x.rank := by
  cases x <;> simp_all [entry, look, rank]

theorem rank_post {x : Phase Req Rep} {w v : W} {e : Event Op}
    (h : x.entry w = some (.queue v e)) : x.post.rank < x.rank := by
  cases x <;> simp_all [entry, post, rank]

theorem rank_take {x : Phase Req Rep} {e : Event Op} (h : x.event = some e) :
    x.take.rank < x.rank := by
  cases x <;> simp_all [event, take, rank]
  split <;> omega

theorem rank_advance {x : Phase Req Rep} {st : Stage} {calls : Nat}
    (h : x.stage = some st) : (x.advance calls).rank < x.rank := by
  cases x <;> simp_all [stage, advance, rank]

theorem rank_reply {x : Phase Req Rep} {w : W} {a : W × Nat} {rep : Rep}
    (h : x.callback w = some a) : (x.reply rep).rank < x.rank := by
  cases x <;> simp_all [callback, reply, rank]
  split <;> omega

/-! The phase of a worker from what it holds. -/

theorem eq_of_awaited {p : Phase Req Rep} {c : Nat} (h : p.awaited = some c) : p = submitted c := by
  cases p <;> simp_all [awaited]

theorem eq_of_unsent {p : Phase Req Rep} {c : Nat} (h : p.unsent = some c) :
    ∃ req rep, p = finishing c req rep := by
  cases p <;> simp_all [unsent]

theorem eq_of_completion {p : Phase Req Rep} {k : Completion} (h : p.completion = some k) :
    (∃ c req, k = .request c ∧ p = arrived c req) ∨
    ∃ c req rep, k = .finish c ∧ p = sent c req rep := by
  cases p <;> simp_all [completion]

theorem eq_of_look {p : Phase Req Rep} {w : W} {c : Nat}
    (h : (p.entry w : Option (Entry W Op)) = some (.look c)) :
    (∃ req, p = looked c req) ∨ ∃ req rep, p = finishLooked c req rep := by
  cases p <;> simp_all [entry]

theorem eq_of_queue {p : Phase Req Rep} {w v : W} {e : Event Op}
    (h : p.entry w = some (.queue v e)) :
    v = w ∧ ((∃ c req, e = .opQueued none ∧ p = posting c req) ∨
      ∃ c req rep, e = .opFinished ∧ p = finishPosting c req rep) := by
  cases p <;> simp_all [entry]

theorem eq_of_event {p : Phase Req Rep} {e : Event Op} (h : p.event = some e) :
    (e = .initiate ∧ p = initial) ∨ (∃ c req, e = .opQueued none ∧ p = queued c req) ∨
    (∃ c req rep returned, e = .opComplete ∧ p = replied c req rep returned) ∨
    ∃ c req rep, e = .opFinished ∧ p = finishQueued c req rep := by
  cases p <;> simp_all [event]

theorem eq_of_callback {p : Phase Req Rep} {w v : W} {c : Nat}
    (h : p.callback w = some (v, c)) : v = w ∧ ∃ req returned, p = working c req returned := by
  cases p <;> simp_all [callback]

end Phase

/-- The call data that a record is about. -/
def Record.about : Record W Op Req Rep → Option Nat
  | .received c _ => some c
  | .delivered k => some k.tag
  | .processed c _ _ => some c
  | .replied c _ _ => some c
  | .finish c _ => some c
  | .replaced c => some c
  | .dangling c => some c
  | .discarded _ => none

/-- The part of a log that is about one call data. -/
def historyOf (c : Nat) (log : List (Record W Op Req Rep)) : List (Record W Op Req Rep) :=
  log.filter fun r => r.about = some c

/-- A call data that is done and replaced. -/
def Complete (h : List (Record W Op Req Rep)) (c : Nat) : Prop :=
  ∃ w req rep, h = Phase.served w c req rep ++ [.replaced c]

variable [DecidableEq W] [DecidableEq S]

/-- The place of an event: the queue of the worker's scheduler. -/
def queuePlace (scher : W → S) (s : S) (w : W) (p : Phase Req Rep) : Option (W × Event Op) :=
  if scher w = s then p.event.map fun e => (w, e) else none

/-! ### What the phases say -/

/-- The threads and the queues of events. -/
structure Threads (scher : W → S) (ph : W → Phase Req Rep) (entry : Option (Entry W Op))
    (queue : S → List (W × Event Op)) (running : S → Option (W × Stage))
    (callbacks : List (W × Nat)) : Prop where
  entry : Holds (fun w x => x.entry w) ph entry.toList
  queue : ∀ s, Holds (queuePlace scher s) ph (queue s)
  running : ∀ s w stage, running s = some (w, stage) ↔ scher w = s ∧ (ph w).stage = some stage
  callbacks : Holds (fun w x => x.callback w) ph callbacks

/-- The tags that gRPC has. -/
structure Tags (ph : W → Phase Req Rep) (submitted finishing : List Nat) (cq : List Completion) :
    Prop where
  submitted : Holds (fun _ x => x.awaited) ph submitted
  finishing : Holds (fun _ x => x.unsent) ph finishing
  cq : Holds (fun _ x => x.completion) ph cq

/-- The workers and their call data. -/
structure Calls (ph : W → Phase Req Rep) (worker : W → Worker)
    (call : Nat → Option (CallData W Req Rep)) (calls : Nat) : Prop where
  worker : ∀ w, worker w = (ph w).worker
  call : ∀ w c req rep, (ph w).data = some (c, req, rep) →
    call c = some { worker := w, request := req, reply := rep }
  fresh : ∀ w c, (ph w).call = some c → c < calls
  distinct : ∀ w w' c, (ph w).call = some c → (ph w').call = some c → w = w'

/-- The log. -/
structure Logged (ph : W → Phase Req Rep) (calls : Nat) (log : List (Record W Op Req Rep)) :
    Prop where
  current : ∀ w c, (ph w).call = some c → historyOf c log = (ph w).history w
  past : ∀ c < calls, (∀ w, (ph w).call ≠ some c) → Complete (historyOf c log) c
  future : ∀ c, calls ≤ c → historyOf c log = []
  accepted : ∀ w, .discarded w ∉ log

/-- The proxy is in the phases `ph`; no worker was ever idle, and no OP of the waiting line was
done. -/
structure Follows (scher : W → S) (ph : W → Phase Req Rep) (p : Proxy W S Op Req Rep) : Prop where
  threads : Threads scher ph p.entry p.queue p.running p.callbacks
  tags : Tags ph p.submitted p.finishing p.cq
  calls : Calls ph p.worker p.call p.calls
  logged : Logged ph p.calls p.log
  idle : p.idle_list = [] ∧ p.complete = []

/-! ### One worker changes its phase -/

section Change

variable {scher : W → S} {ph : W → Phase Req Rep} {w : W} {p' : Phase Req Rep}
variable {entry : Option (Entry W Op)} {queue : S → List (W × Event Op)}
variable {running : S → Option (W × Stage)} {callbacks : List (W × Nat)}
variable {submitted finishing : List Nat} {cq : List Completion}
variable {worker : W → Worker} {call : Nat → Option (CallData W Req Rep)} {calls : Nat}
variable {log : List (Record W Op Req Rep)}

/-- The queues of events stay as they are. -/
theorem Threads.queue_keep (h : Threads scher ph entry queue running callbacks)
    (hevent : (p'.event : Option (Event Op)) = (ph w).event) (s : S) :
    Holds (queuePlace scher s) (Function.update ph w p') (queue s) :=
  (h.queue s).keep (by simp only [queuePlace, hevent])

/-- An event is queued for the worker. -/
theorem Threads.queue_push (h : Threads scher ph entry queue running callbacks) {e : Event Op}
    (hnone : ((ph w).event : Option (Event Op)) = none) (hsome : p'.event = some e) (s : S) :
    Holds (queuePlace scher s) (Function.update ph w p')
      (Function.update queue (scher w) (queue (scher w) ++ [(w, e)]) s) := by
  by_cases hs : scher w = s
  · subst hs
    rw [Function.update_self]
    refine (h.queue _).push ?_ ?_ ?_
    · simp [queuePlace, hnone]
    · simp [queuePlace, hsome]
    · intro v hv
      unfold queuePlace at hv
      split at hv
      · obtain ⟨e', he', heq⟩ := Option.map_eq_some_iff.mp hv
        obtain rfl : v = w := congrArg Prod.fst heq
        rw [hnone] at he'
        cases he'
      · cases hv
  · rw [Function.update_of_ne (Ne.symm hs)]
    exact (h.queue s).keep (by simp [queuePlace, hs])

/-- The event at the head is taken out. -/
theorem Threads.queue_pop (h : Threads scher ph entry queue running callbacks) {e : Event Op}
    {rest : List (W × Event Op)} (hqueue : queue (scher w) = (w, e) :: rest)
    (hsome : (ph w).event = some e) (hnone : (p'.event : Option (Event Op)) = none) (s : S) :
    Holds (queuePlace scher s) (Function.update ph w p')
      (Function.update queue (scher w) rest s) := by
  by_cases hs : scher w = s
  · subst hs
    rw [Function.update_self]
    exact (hqueue ▸ h.queue _).pop (by simp [queuePlace, hsome]) (by simp [queuePlace, hnone])
  · rw [Function.update_of_ne (Ne.symm hs)]
    exact (h.queue s).keep (by simp [queuePlace, hs])

/-- The schedulers go on as they were. -/
theorem Threads.running_keep (h : Threads scher ph entry queue running callbacks)
    (hstage : p'.stage = (ph w).stage) (s : S) (v : W) (stage : Stage) :
    running s = some (v, stage) ↔
      scher v = s ∧ (Function.update ph w p' v).stage = some stage := by
  rw [h.running]
  by_cases hv : v = w
  · subst hv
    rw [Function.update_self, hstage]
  · rw [Function.update_of_ne hv]

/-- The threads stay where they are. -/
theorem Threads.keep (h : Threads scher ph entry queue running callbacks)
    (hentry : (p'.entry w : Option (Entry W Op)) = (ph w).entry w)
    (hevent : (p'.event : Option (Event Op)) = (ph w).event) (hstage : p'.stage = (ph w).stage)
    (hcallback : p'.callback w = (ph w).callback w) :
    Threads scher (Function.update ph w p') entry queue running callbacks where
  entry := h.entry.keep hentry
  queue := h.queue_keep hevent
  running := h.running_keep hstage
  callbacks := h.callbacks.keep hcallback

/-- The worker's scheduler, which is free or busy with the worker, does what is next for it. -/
theorem Threads.running_move (h : Threads scher ph entry queue running callbacks)
    (hfree : ∀ v stage, running (scher w) = some (v, stage) → v = w) {next : Option (W × Stage)}
    (hnext : (p'.stage.map fun st => (w, st)) = next) (s : S) (v : W) (stage : Stage) :
    Function.update running (scher w) next s = some (v, stage) ↔
      scher v = s ∧ (Function.update ph w p' v).stage = some stage := by
  subst hnext
  by_cases hs : s = scher w
  · subst hs
    rw [Function.update_self, Option.map_eq_some_iff]
    by_cases hv : v = w
    · subst hv
      rw [Function.update_self]
      simp
    · rw [Function.update_of_ne hv, ← h.running]
      constructor
      · rintro ⟨st, hst, heq⟩
        exact absurd (congrArg Prod.fst heq).symm hv
      · intro hrun
        exact absurd (hfree v stage hrun) hv
  · rw [Function.update_of_ne hs, h.running]
    by_cases hv : v = w
    · subst hv
      simp [Ne.symm hs]
    · rw [Function.update_of_ne hv]

/-- The tags stay where they are. -/
theorem Tags.keep (h : Tags ph submitted finishing cq) (hawaited : p'.awaited = (ph w).awaited)
    (hunsent : p'.unsent = (ph w).unsent) (hcompletion : p'.completion = (ph w).completion) :
    Tags (Function.update ph w p') submitted finishing cq where
  submitted := h.submitted.keep hawaited
  finishing := h.finishing.keep hunsent
  cq := h.cq.keep hcompletion

/-- The call data stays as it is, the worker changes at most. -/
theorem Calls.setWorker (h : Calls ph worker call calls) (hdata : p'.data = (ph w).data) :
    Calls (Function.update ph w p') (Function.update worker w p'.worker) call calls := by
  have hall : ∀ v, (Function.update ph w p' v).data = (ph v).data := by
    intro v
    by_cases hv : v = w
    · subst hv
      rw [Function.update_self, hdata]
    · rw [Function.update_of_ne hv]
  constructor
  · intro v
    by_cases hv : v = w
    · subst hv
      rw [Function.update_self, Function.update_self]
    · rw [Function.update_of_ne hv, Function.update_of_ne hv, h.worker]
  · intro v c req rep hv
    exact h.call v c req rep (hall v ▸ hv)
  · intro v c hv
    exact h.fresh v c (by rwa [Phase.call, ← hall v])
  · intro v v' c hv hv'
    exact h.distinct v v' c (by rwa [Phase.call, ← hall v]) (by rwa [Phase.call, ← hall v'])

/-- Worker and call data stay as they are. -/
theorem Calls.keep (h : Calls ph worker call calls) (hworker : p'.worker = (ph w).worker)
    (hdata : p'.data = (ph w).data) : Calls (Function.update ph w p') worker call calls := by
  have hset := h.setWorker (w := w) hdata
  rwa [hworker, ← h.worker w, Function.update_eq_self] at hset

/-- A worker's call data is filled in. -/
theorem Calls.setCall (h : Calls ph worker call calls) {c : Nat} {req : Option Req}
    {rep : Option Rep} (hworker : p'.worker = (ph w).worker) (hcall : (ph w).call = some c)
    (hdata : p'.data = some (c, req, rep)) :
    Calls (Function.update ph w p') worker
      (Function.update call c (some { worker := w, request := req, reply := rep })) calls := by
  have hall : ∀ v, (Function.update ph w p' v).call = (ph v).call := by
    intro v
    by_cases hv : v = w
    · subst hv
      rw [Function.update_self, hcall, Phase.call, hdata]
      rfl
    · rw [Function.update_of_ne hv]
  constructor
  · intro v
    by_cases hv : v = w
    · subst hv
      rw [Function.update_self, hworker, h.worker]
    · rw [Function.update_of_ne hv, h.worker]
  · intro v c' req' rep' hv
    by_cases hvw : v = w
    · subst hvw
      rw [Function.update_self, hdata] at hv
      cases hv
      rw [Function.update_self]
    · rw [Function.update_of_ne hvw] at hv
      have hc : c' ≠ c := fun hc =>
        hvw (h.distinct v w c (by simp [Phase.call, hv, hc]) hcall)
      rw [Function.update_of_ne hc]
      exact h.call v c' req' rep' hv
  · intro v c' hv
    exact h.fresh v c' (hall v ▸ hv)
  · intro v v' c' hv hv'
    exact h.distinct v v' c' (hall v ▸ hv) (hall v' ▸ hv')

/-- The log says the same of the worker's call data. -/
theorem Logged.keep (h : Logged ph calls log) (hcall : p'.call = (ph w).call)
    (hhistory : (p'.history w : List (Record W Op Req Rep)) = (ph w).history w) :
    Logged (Function.update ph w p') calls log := by
  have hall : ∀ v, (Function.update ph w p' v).call = (ph v).call := by
    intro v
    by_cases hv : v = w
    · subst hv
      rw [Function.update_self, hcall]
    · rw [Function.update_of_ne hv]
  refine ⟨?_, ?_, h.future, h.accepted⟩
  · intro v c hv
    rw [h.current v c (hall v ▸ hv)]
    by_cases hvw : v = w
    · subst hvw
      rw [Function.update_self, hhistory]
    · rw [Function.update_of_ne hvw]
  · intro c hc hno
    exact h.past c hc fun v hv => hno v (by rw [hall v, hv])

omit [DecidableEq W] in
/-- A record goes to the history of the call data that it is about. -/
theorem historyOf_append (c c' : Nat) {r : Record W Op Req Rep} (hr : r.about = some c') :
    historyOf c (log ++ [r]) = if c' = c then historyOf c log ++ [r] else historyOf c log := by
  by_cases hc : c' = c <;> simp [historyOf, List.filter_append, hr, hc]

/-- A record about the worker's call data. -/
theorem Logged.record (h : Logged ph calls log) (hcalls : Calls ph worker call calls) {c : Nat}
    {r : Record W Op Req Rep} (hcall : (ph w).call = some c) (hcall' : p'.call = some c)
    (hr : r.about = some c)
    (hhistory : p'.history w = (ph w).history w ++ [r]) :
    Logged (Function.update ph w p') calls (log ++ [r]) := by
  have hall : ∀ v, (Function.update ph w p' v).call = (ph v).call := by
    intro v
    by_cases hv : v = w
    · subst hv
      rw [Function.update_self, hcall', hcall]
    · rw [Function.update_of_ne hv]
  constructor
  · intro v c' hv
    rw [historyOf_append c' c hr]
    by_cases hvw : v = w
    · subst hvw
      rw [Function.update_self] at hv ⊢
      obtain rfl : c = c' := Option.some.inj (hcall'.symm.trans hv)
      rw [if_pos rfl, h.current v c hcall, hhistory]
    · rw [Function.update_of_ne hvw] at hv ⊢
      have hc : c ≠ c' := fun hc => hvw (hcalls.distinct v w c (hc ▸ hv) hcall)
      rw [if_neg hc, h.current v c' hv]
  · intro c' hc' hno
    have hc : c ≠ c' := fun hc => hno w (by rw [hall w, hcall, hc])
    rw [historyOf_append c' c hr, if_neg hc]
    exact h.past c' hc' fun v hv => hno v (by rw [hall v, hv])
  · intro c' hc'
    have hc : c ≠ c' := fun hc => by
      have hlt := hcalls.fresh w c hcall
      omega
    rw [historyOf_append c' c hr, if_neg hc]
    exact h.future c' hc'
  · intro v hv
    rcases List.mem_append.mp hv with hv | hv
    · exact h.accepted v hv
    · obtain rfl := List.mem_singleton.mp hv
      cases hr

end Change

/-! ### A new call data -/

section Replace

variable {ph : W → Phase Req Rep} {w : W} {worker : W → Worker}
variable {call : Nat → Option (CallData W Req Rep)} {calls : Nat}
variable {log : List (Record W Op Req Rep)} {old : Option (Nat × Req × Rep)}

/-- In the new phases the other workers have the call data that they had, `w` has a new one. -/
theorem call_replace (v : W) : (Function.update ph w (.waitingSubmit calls) v).call =
    if v = w then some calls else (ph v).call := by
  by_cases hv : v = w
  · subst hv
    rw [Function.update_self, if_pos rfl]
    rfl
  · rw [Function.update_of_ne hv, if_neg hv]

/-- A worker gets a new call data in place of an old one. -/
theorem Calls.replace (h : Calls ph worker call calls) {call' : Nat → Option (CallData W Req Rep)}
    (hkeep : ∀ c, (ph w).call ≠ some c → c ≠ calls → call' c = call c)
    (hnew : call' calls = some { worker := w, request := none, reply := none })
    {x : Worker} (hx : x = (Phase.waitingSubmit calls : Phase Req Rep).worker) :
    Calls (Function.update ph w (.waitingSubmit calls)) (Function.update worker w x) call'
      (calls + 1) := by
  have hlt : ∀ v c, (ph v).call = some c → c ≠ calls := fun v c hv => by
    have hc := h.fresh v c hv
    omega
  constructor
  · intro v
    by_cases hv : v = w
    · subst hv
      rw [Function.update_self, Function.update_self, hx]
    · rw [Function.update_of_ne hv, Function.update_of_ne hv, h.worker]
  · intro v c req rep hv
    by_cases hvw : v = w
    · subst hvw
      rw [Function.update_self] at hv
      cases hv
      exact hnew
    · rw [Function.update_of_ne hvw] at hv
      have hcall : (ph v).call = some c := by simp [Phase.call, hv]
      rw [hkeep c (fun hc => hvw (h.distinct v w c hcall hc)) (hlt v c hcall)]
      exact h.call v c req rep hv
  · intro v c hv
    rw [call_replace] at hv
    split at hv
    · cases hv
      omega
    · have hc := h.fresh v c hv
      omega
  · intro v v' c hv hv'
    rw [call_replace] at hv hv'
    split at hv <;> split at hv'
    · rename_i hvw hvw'
      rw [hvw, hvw']
    · cases hv
      exact absurd rfl (hlt v' calls hv')
    · cases hv'
      exact absurd rfl (hlt v calls hv)
    · exact h.distinct v v' c hv hv'

/-- The history of a call data that is replaced is complete. -/
theorem Logged.replace (h : Logged ph calls log) (hcalls : Calls ph worker call calls)
    (hph : ph w = .waitingCall old) :
    Logged (Function.update ph w (.waitingSubmit calls)) (calls + 1)
      (log ++ (old.map fun d => .replaced d.1).toList) := by
  have hcall : (ph w).call = old.map Prod.fst := by
    rw [hph]
    cases old <;> rfl
  have hother : ∀ c, (ph w).call ≠ some c →
      historyOf c (log ++ (old.map fun d => .replaced d.1).toList) = historyOf c log := by
    intro c hc
    cases old with
    | none => rw [Option.map_none, Option.toList_none, List.append_nil]
    | some d =>
        rw [Option.map_some, Option.toList_some, historyOf_append c d.1 rfl, if_neg]
        rintro rfl
        exact hc hcall
  have hlt := hcalls.fresh
  constructor
  · intro v c hv
    rw [call_replace] at hv
    split at hv
    · rename_i hvw
      subst hvw
      cases hv
      rw [hother calls (fun hc => absurd (hlt v calls hc) (by omega)),
        h.future calls (Nat.le_refl calls), Function.update_self]
      rfl
    · rename_i hvw
      rw [hother c (fun hc => hvw (hcalls.distinct v w c hv hc)), h.current v c hv,
        Function.update_of_ne hvw]
  · intro c hc hno
    have hne : c ≠ calls := fun hne => hno w (by rw [call_replace, if_pos rfl, hne])
    by_cases hw : (ph w).call = some c
    · rw [hcall] at hw
      obtain ⟨⟨c', req, rep⟩, rfl, rfl⟩ := Option.map_eq_some_iff.mp hw
      refine ⟨w, req, rep, ?_⟩
      rw [Option.map_some, Option.toList_some, historyOf_append _ c' rfl, if_pos rfl,
        h.current w c' (by rw [hcall]; rfl), hph]
      rfl
    · rw [hother c hw]
      refine h.past c (by omega) fun v hv => ?_
      have hvw : v ≠ w := fun hvw => hw (hvw ▸ hv)
      exact hno v (by rw [call_replace, if_neg hvw, hv])
  · intro c hc
    rw [hother c (fun hw => absurd (hlt w c hw) (by omega))]
    exact h.future c (by omega)
  · intro v hv
    rcases List.mem_append.mp hv with hv | hv
    · exact h.accepted v hv
    · cases old <;> simp at hv

end Replace

/-! ### The steps -/

section Steps

variable {scher : W → S} {ph : W → Phase Req Rep} {p q : Proxy W S Op Req Rep}

omit [DecidableEq W] in
/-- A token that the place of another phase names is that of the worker's own call data. -/
theorem Calls.place_ne {worker : W → Worker} {call : Nat → Option (CallData W Req Rep)}
    {calls : Nat} (h : Calls ph worker call calls) {A : Type*} {place : W → Phase Req Rep → Option A}
    {w : W} {c : Nat} {a : A} (hcall : (ph w).call = some c) (hnone : place w (ph w) = none)
    (hplace : ∀ v x, place v x = some a → x.call = some c) (v : W) :
    place v (ph v) ≠ some a := by
  intro hv
  obtain rfl := h.distinct v w c (hplace v _ hv) hcall
  rw [hnone] at hv
  cases hv

/-- A request arrives. -/
theorem Follows.arrive (h : Follows scher ph p) {c : Nat} (hc : c ∈ p.submitted) (req : Req) :
    ∃ w, ph w = .submitted c ∧
      Follows scher (Function.update ph w (.arrived c req)) (p.receive c req) := by
  obtain ⟨w, hw⟩ := h.tags.submitted.holder hc
  have hph := Phase.eq_of_awaited hw
  have hdata : p.call c = some { worker := w, request := none, reply := none } :=
    h.calls.call w c none none (by rw [hph]; rfl)
  have hcall : (ph w).call = some c := by rw [hph]; rfl
  have hcallData : Function.update p.call c ((p.call c).map fun d => { d with request := some req })
      = Function.update p.call c (some { worker := w, request := some req, reply := none }) := by
    rw [hdata]
    rfl
  refine ⟨w, hph, ?_, ?_, ?_, ?_, h.idle⟩
  · exact h.threads.keep (by rw [hph]; rfl) (by rw [hph]; rfl) (by rw [hph]; rfl)
      (by rw [hph]; rfl)
  · exact {
      submitted := h.tags.submitted.erase (by rw [hph]; rfl) rfl
      finishing := h.tags.finishing.keep (by rw [hph]; rfl)
      cq := h.tags.cq.push (by rw [hph]; rfl) rfl
        (h.calls.place_ne hcall (by rw [hph]; rfl) fun v x hx => by
          rcases Phase.eq_of_completion hx with ⟨_, _, hk, rfl⟩ | ⟨_, _, _, hk, rfl⟩ <;> cases hk
          rfl) }
  · change Calls _ p.worker (Function.update p.call c ((p.call c).map fun d =>
      { d with request := some req })) p.calls
    rw [hcallData]
    exact h.calls.setCall (by rw [hph]; rfl) hcall rfl
  · exact h.logged.record h.calls hcall rfl rfl (by rw [hph]; rfl)

/-- A reply is sent. -/
theorem Follows.sent (h : Follows scher ph p) {c : Nat} (hc : c ∈ p.finishing) :
    ∃ w req rep, ph w = .finishing c req rep ∧
      Follows scher (Function.update ph w (.sent c req rep))
        { p with finishing := p.finishing.erase c, cq := p.cq ++ [.finish c] } := by
  obtain ⟨w, hw⟩ := h.tags.finishing.holder hc
  obtain ⟨req, rep, hph⟩ := Phase.eq_of_unsent hw
  have hcall : (ph w).call = some c := by rw [hph]; rfl
  refine ⟨w, req, rep, hph, ?_, ?_, ?_, ?_, h.idle⟩
  · exact h.threads.keep (by rw [hph]; rfl) (by rw [hph]; rfl) (by rw [hph]; rfl)
      (by rw [hph]; rfl)
  · exact {
      submitted := h.tags.submitted.keep (by rw [hph]; rfl)
      finishing := h.tags.finishing.erase (by rw [hph]; rfl) rfl
      cq := h.tags.cq.push (by rw [hph]; rfl) rfl
        (h.calls.place_ne hcall (by rw [hph]; rfl) fun v x hx => by
          rcases Phase.eq_of_completion hx with ⟨_, _, hk, rfl⟩ | ⟨_, _, _, hk, rfl⟩ <;> cases hk
          rfl) }
  · exact h.calls.keep (by rw [hph]; rfl) (by rw [hph]; rfl)
  · exact h.logged.keep (by rw [hph]; rfl) (by rw [hph]; rfl)

/-- Next returns a tag. -/
theorem Follows.next (h : Follows scher ph p) {k : Completion} {cq : List Completion}
    (hentry : p.entry = none) (hcq : p.cq = k :: cq) :
    ∃ w, (ph w).completion = some k ∧ Follows scher (Function.update ph w (ph w).next)
      ({ p with entry := some (.look k.tag), cq := cq }.record (.delivered k)) := by
  obtain ⟨w, hw⟩ := h.tags.cq.holder (hcq ▸ List.mem_cons_self)
  have hfree : ∀ v, (ph v).entry v ≠ some (.look k.tag : Entry W Op) := fun v hv => by
    have hmem := (h.threads.entry.mem _).mpr ⟨v, hv⟩
    rw [hentry] at hmem
    cases hmem
  have hcq' : Holds (fun _ x => x.completion) ph (k :: cq) := hcq ▸ h.tags.cq
  have hentry' : Holds (fun w x => x.entry w) ph ([] : List (Entry W Op)) := by
    have hholds := h.threads.entry
    rwa [hentry] at hholds
  refine ⟨w, hw, ?_⟩
  rcases Phase.eq_of_completion hw with ⟨c, req, rfl, hph⟩ | ⟨c, req, rep, rfl, hph⟩
  all_goals
    simp only [hph, Phase.next]
    refine ⟨?_, ?_, ?_, ?_, h.idle⟩
    · exact {
        entry := hentry'.push (by rw [hph]; rfl) rfl hfree
        queue := h.threads.queue_keep (by rw [hph]; rfl)
        running := h.threads.running_keep (by rw [hph]; rfl)
        callbacks := h.threads.callbacks.keep (by rw [hph]; rfl) }
    · exact {
        submitted := h.tags.submitted.keep (by rw [hph]; rfl)
        finishing := h.tags.finishing.keep (by rw [hph]; rfl)
        cq := hcq'.pop hw rfl }
    · exact h.calls.keep (by rw [hph]; rfl) (by rw [hph]; rfl)
    · exact h.logged.record h.calls (by rw [hph]; rfl) rfl rfl (by rw [hph]; rfl)

/-- The queue's thread looks at the status of a tag's worker, which says what the tag is for. -/
theorem Follows.look (h : Follows scher ph p) {c : Nat} (hentry : p.entry = some (.look c)) :
    ∃ w, ((ph w).entry w : Option (Entry W Op)) = some (.look c) ∧
      Follows scher (Function.update ph w (ph w).look) (p.lookAt c) := by
  have hholds : Holds (fun w x => x.entry w) ph [(.look c : Entry W Op)] := by
    have hholds := h.threads.entry
    rwa [hentry] at hholds
  obtain ⟨w, hw⟩ := hholds.holder (List.mem_singleton_self _)
  refine ⟨w, hw, ?_⟩
  rcases Phase.eq_of_look hw with ⟨req, hph⟩ | ⟨req, rep, hph⟩
  all_goals
    have hcall : p.call c = some { worker := w, request := some req, reply := _ } :=
      h.calls.call w c _ _ (by rw [hph]; rfl)
    have hstatus : (p.worker w).status = (ph w).status := by rw [h.calls.worker]; rfl
    rw [hph] at hstatus
    have hlook : p.lookAt c = { p with entry := (ph w).look.entry w } := by
      rw [hph]
      unfold Proxy.lookAt
      rw [hcall]
      simp only [hstatus]
      rfl
    rw [hlook, hph]
    refine ⟨?_, ?_, ?_, ?_, h.idle⟩
    · exact {
        entry := hholds.lone hw
        queue := h.threads.queue_keep (by rw [hph]; rfl)
        running := h.threads.running_keep (by rw [hph]; rfl)
        callbacks := h.threads.callbacks.keep (by rw [hph]; rfl) }
    · exact h.tags.keep (by rw [hph]; rfl) (by rw [hph]; rfl) (by rw [hph]; rfl)
    · exact h.calls.keep (by rw [hph]; rfl) (by rw [hph]; rfl)
    · exact h.logged.keep (by rw [hph]; rfl) (by rw [hph]; rfl)

/-- The queue's thread queues an event. -/
theorem Follows.post (h : Follows scher ph p) {w : W} {e : Event Op}
    (hentry : p.entry = some (.queue w e)) :
    (ph w).entry w = some (.queue w e) ∧ Follows scher (Function.update ph w (ph w).post)
      ({ p with entry := none }.queueEvent scher w e) := by
  have hholds : Holds (fun w x => x.entry w) ph [.queue w e] := by
    have hholds := h.threads.entry
    rwa [hentry] at hholds
  obtain ⟨v, hv⟩ := hholds.holder (List.mem_singleton_self _)
  obtain ⟨rfl, hphase⟩ := Phase.eq_of_queue hv
  refine ⟨hv, ?_⟩
  rcases hphase with ⟨c, req, rfl, hph⟩ | ⟨c, req, rep, rfl, hph⟩
  all_goals
    rw [hph]
    refine ⟨?_, ?_, ?_, ?_, h.idle⟩
    · exact {
        entry := hholds.lone hv
        queue := h.threads.queue_push (by rw [hph]; rfl) rfl
        running := h.threads.running_keep (by rw [hph]; rfl)
        callbacks := h.threads.callbacks.keep (by rw [hph]; rfl) }
    · exact h.tags.keep (by rw [hph]; rfl) (by rw [hph]; rfl) (by rw [hph]; rfl)
    · exact h.calls.keep (by rw [hph]; rfl) (by rw [hph]; rfl)
    · exact h.logged.keep (by rw [hph]; rfl) (by rw [hph]; rfl)

/-- A free scheduler takes up the event at the head of its queue. The state of the worker's machine
has a reaction to it. -/
theorem Follows.take (h : Follows scher ph p) {s : S} {w : W} {e : Event Op}
    {rest : List (W × Event Op)} (hfree : p.running s = none) (hqueue : p.queue s = (w, e) :: rest) :
    scher w = s ∧ (ph w).event = some e ∧ ∃ state, Proxy.react (p.worker w).state e = some state ∧
      Follows scher (Function.update ph w (ph w).take)
        ((({ p with queue := Function.update p.queue s rest } : Proxy W S Op Req Rep).setWorker w
          { p.worker w with state := some state }).goOn s (some (w, Proxy.firstStage state))) := by
  obtain ⟨v, hv⟩ := (h.threads.queue s).holder (hqueue ▸ List.mem_cons_self)
  unfold queuePlace at hv
  split at hv
  · rename_i hs
    obtain ⟨e', he', heq⟩ := Option.map_eq_some_iff.mp hv
    cases heq
    subst hs
    refine ⟨rfl, he', ?_⟩
    have hidle : ∀ v stage, p.running (scher w) = some (v, stage) → v = w := fun v stage hrun => by
      rw [hfree] at hrun
      cases hrun
    have hnostage : (ph w).stage = none := by
      rw [Option.eq_none_iff_forall_ne_some]
      intro stage hstage
      have hrun := (h.threads.running (scher w) w stage).mpr ⟨rfl, hstage⟩
      rw [hfree] at hrun
      cases hrun
    rw [h.calls.worker w]
    rcases Phase.eq_of_event he' with ⟨rfl, hph⟩ | ⟨c, req, rfl, hph⟩ |
      ⟨c, req, rep, returned, rfl, hph⟩ | ⟨c, req, rep, rfl, hph⟩
    all_goals
      rw [hph]
      refine ⟨_, rfl, ?_, ?_, ?_, ?_, h.idle⟩
      · exact {
          entry := h.threads.entry.keep (by rw [hph]; rfl)
          queue := h.threads.queue_pop hqueue he' rfl
          running := h.threads.running_move hidle rfl
          callbacks := h.threads.callbacks.keep (by rw [hph]; rfl) }
      · exact h.tags.keep (by rw [hph]; rfl) (by rw [hph]; rfl) (by rw [hph]; rfl)
      · exact h.calls.setWorker (by rw [hph]; rfl)
      · exact h.logged.keep (by rw [hph]; rfl) (by rw [hph]; rfl)
  · cases hv

/-- A step changes the threads only in that the worker's scheduler goes on. -/
theorem Threads.goOn (h : Threads scher ph p.entry p.queue p.running p.callbacks) {w : W}
    {x : Phase Req Rep} {stage : Stage} {next : Option (W × Stage)}
    (hrun : p.running (scher w) = some (w, stage))
    (hnext : (x.stage.map fun st => (w, st)) = next)
    (hentry : (x.entry w : Option (Entry W Op)) = (ph w).entry w)
    (hevent : (x.event : Option (Event Op)) = (ph w).event)
    (hcallback : x.callback w = (ph w).callback w) :
    Threads scher (Function.update ph w x) p.entry p.queue
      (Function.update p.running (scher w) next) p.callbacks where
  entry := h.entry.keep hentry
  queue := h.queue_keep hevent
  running := h.running_move (fun v stage' hv => by
    rw [hrun] at hv
    cases hv
    rfl) hnext
  callbacks := h.callbacks.keep hcallback

/-- A scheduler goes on, and its worker comes to a phase in which the queues, the tags, the call data
and the log are those of the phase before. -/
theorem Follows.goOn (h : Follows scher ph p) {w : W} {x y : Phase Req Rep} {stage : Stage}
    {next : Option (W × Stage)} {worker : W → Worker} (hph : ph w = y)
    (hrun : p.running (scher w) = some (w, stage))
    (hnext : (x.stage.map fun st => (w, st)) = next)
    (hworker : worker = Function.update p.worker w x.worker)
    (hentry : (x.entry w : Option (Entry W Op)) = y.entry w)
    (hevent : (x.event : Option (Event Op)) = y.event) (hcallback : x.callback w = y.callback w)
    (hawaited : x.awaited = y.awaited) (hunsent : x.unsent = y.unsent)
    (hcompletion : x.completion = y.completion) (hdata : x.data = y.data) (hcall : x.call = y.call)
    (hhistory : (x.history w : List (Record W Op Req Rep)) = y.history w) :
    Follows scher (Function.update ph w x) ({ p with worker := worker }.goOn (scher w) next) := by
  subst hph hworker
  exact {
    threads := h.threads.goOn hrun hnext hentry hevent hcallback
    tags := h.tags.keep hawaited hunsent hcompletion
    calls := h.calls.setWorker hdata
    logged := h.logged.keep hcall hhistory
    idle := h.idle }

omit [DecidableEq S] in
/-- What `cur_call.reset` changes. -/
theorem resetCall_eq (p : Proxy W S Op Req Rep) (w : W) :
    p.resetCall w =
      { p with
        worker := Function.update p.worker w { p.worker w with cur_call := some p.calls }
        call := Function.update (match (p.worker w).cur_call with
          | none => p.call
          | some old => Function.update p.call old none) p.calls
          (some { worker := w, request := none, reply := none })
        calls := p.calls + 1
        log := p.log ++ ((p.worker w).cur_call.map .replaced).toList } := by
  unfold Proxy.resetCall
  cases (p.worker w).cur_call with
  | none => simp [Proxy.setWorker]
  | some old => rfl

/-- `cur_call.reset` gives the worker new call data. -/
theorem Follows.resetCall (h : Follows scher ph p) {w : W} {old : Option (Nat × Req × Rep)}
    (hph : ph w = .waitingCall old) (hrun : p.running (scher w) = some (w, .waitingCall)) :
    Follows scher (Function.update ph w (.waitingSubmit p.calls))
      ((p.resetCall w).goOn (scher w) (some (w, .waitingSubmit))) := by
  have hcall : (ph w).call = old.map Prod.fst := by
    rw [hph]
    cases old <;> rfl
  have hworker := h.calls.worker w
  have hcur : (p.worker w).cur_call = old.map Prod.fst := by
    rw [hworker, ← hcall]
    rfl
  rw [resetCall_eq]
  refine ⟨?_, ?_, ?_, ?_, h.idle⟩
  · exact h.threads.goOn hrun rfl (by rw [hph]; rfl) (by rw [hph]; rfl) (by rw [hph]; rfl)
  · exact h.tags.keep (by rw [hph]; rfl) (by rw [hph]; rfl) (by rw [hph]; rfl)
  · refine h.calls.replace ?_ (Function.update_self _ _ _) (by rw [hworker, hph]; rfl)
    intro c hc hne
    rw [Function.update_of_ne hne, hcur]
    rw [hcall] at hc
    cases old with
    | none => rfl
    | some d => exact Function.update_of_ne (fun hcd => hc (by rw [hcd]; rfl)) _ _
  · have hreplace := h.logged.replace h.calls hph
    have hrecords : (old.map fun d => (.replaced d.1 : Record W Op Req Rep)) =
        (p.worker w).cur_call.map .replaced := by
      rw [hcur]
      cases old <;> rfl
    rw [hrecords] at hreplace
    exact hreplace

/-- A worker asks gRPC for its next request. -/
theorem Follows.submit (h : Follows scher ph p) {w : W} {c : Nat} (hph : ph w = .waitingSubmit c)
    (hrun : p.running (scher w) = some (w, .waitingSubmit)) :
    Follows scher (Function.update ph w (.submitted c))
      (p.advance (scher w) w .waitingSubmit) := by
  have hcall : (ph w).call = some c := by rw [hph]; rfl
  have hsubmit : p.advance (scher w) w .waitingSubmit =
      { p with submitted := p.submitted ++ [c] }.goOn (scher w) none := by
    unfold Proxy.advance
    rw [h.calls.worker w, hph]
    rfl
  rw [hsubmit]
  refine ⟨?_, ?_, ?_, ?_, h.idle⟩
  · exact h.threads.goOn hrun rfl (by rw [hph]; rfl) (by rw [hph]; rfl) (by rw [hph]; rfl)
  · exact {
      submitted := h.tags.submitted.push (by rw [hph]; rfl) rfl
        (h.calls.place_ne hcall (by rw [hph]; rfl) fun v x hx => by
          rw [Phase.eq_of_awaited hx]
          rfl)
      finishing := h.tags.finishing.keep (by rw [hph]; rfl)
      cq := h.tags.cq.keep (by rw [hph]; rfl) }
  · exact h.calls.keep (by rw [hph]; rfl) (by rw [hph]; rfl)
  · exact h.logged.keep (by rw [hph]; rfl) (by rw [hph]; rfl)

/-- A worker calls do_op on its request, which will run the callback. -/
theorem Follows.doOp (h : Follows scher ph p) {w : W} {c : Nat} {req : Req}
    (hph : ph w = .processingOp c req) (hrun : p.running (scher w) = some (w, .processingOp)) :
    Follows scher (Function.update ph w (.working c req false))
      ((p.doOp w).goOn (scher w) (some (w, .processingReturn))) := by
  have hdo : p.doOp w =
      { p with callbacks := p.callbacks ++ [(w, c)] }.record (.processed c w req) := by
    have hdata := h.calls.call w c (some req) none (by rw [hph]; rfl)
    unfold Proxy.doOp
    rw [h.calls.worker w, hph]
    simp only [Phase.worker, Phase.call, Phase.data, Option.map_some, hdata, Option.bind_some]
  rw [hdo]
  refine ⟨?_, ?_, ?_, ?_, h.idle⟩
  · exact {
      entry := h.threads.entry.keep (by rw [hph]; rfl)
      queue := h.threads.queue_keep (by rw [hph]; rfl)
      running := h.threads.running_move (fun v stage' hv => by
        rw [hrun] at hv
        cases hv
        rfl) rfl
      callbacks := h.threads.callbacks.push (by rw [hph]; rfl) rfl fun v hv => by
        obtain ⟨rfl, req', returned, hv⟩ := Phase.eq_of_callback hv
        rw [hph] at hv
        cases hv }
  · exact h.tags.keep (by rw [hph]; rfl) (by rw [hph]; rfl) (by rw [hph]; rfl)
  · exact h.calls.keep (by rw [hph]; rfl) (by rw [hph]; rfl)
  · exact h.logged.record h.calls (by rw [hph]; rfl) rfl rfl (by rw [hph]; rfl)

/-- A worker hands its reply to gRPC. -/
theorem Follows.callFinish (h : Follows scher ph p) {w : W} {c : Nat} {req : Req} {rep : Rep}
    (hph : ph w = .finishedFinish c req rep)
    (hrun : p.running (scher w) = some (w, .finishedFinish)) :
    Follows scher (Function.update ph w (.finishing c req rep))
      ((p.callFinish w).goOn (scher w) none) := by
  have hcall : (ph w).call = some c := by rw [hph]; rfl
  have hfinish : p.callFinish w =
      { p with finishing := p.finishing ++ [c] }.record (.finish c rep) := by
    have hdata := h.calls.call w c (some req) (some rep) (by rw [hph]; rfl)
    unfold Proxy.callFinish
    rw [h.calls.worker w, hph]
    simp only [Phase.worker, Phase.call, Phase.data, Option.map_some, hdata, Option.bind_some]
  rw [hfinish]
  refine ⟨?_, ?_, ?_, ?_, h.idle⟩
  · exact h.threads.goOn hrun rfl (by rw [hph]; rfl) (by rw [hph]; rfl) (by rw [hph]; rfl)
  · exact {
      submitted := h.tags.submitted.keep (by rw [hph]; rfl)
      finishing := h.tags.finishing.push (by rw [hph]; rfl) rfl
        (h.calls.place_ne hcall (by rw [hph]; rfl) fun v x hx => by
          obtain ⟨req', rep', rfl⟩ := Phase.eq_of_unsent hx
          rfl)
      cq := h.tags.cq.keep (by rw [hph]; rfl) }
  · exact h.calls.keep (by rw [hph]; rfl) (by rw [hph]; rfl)
  · exact h.logged.record h.calls hcall rfl rfl (by rw [hph]; rfl)

/-- A scheduler goes on in a constructor of the worker's state. -/
theorem Follows.advance (h : Follows scher ph p) {s : S} {w : W} {stage : Stage}
    (hrun : p.running s = some (w, stage)) :
    scher w = s ∧ (ph w).stage = some stage ∧
      Follows scher (Function.update ph w ((ph w).advance p.calls)) (p.advance s w stage) := by
  obtain ⟨rfl, hstage⟩ := (h.threads.running s w stage).mp hrun
  refine ⟨rfl, hstage, ?_⟩
  have hworker := h.calls.worker w
  cases hph : ph w <;> rw [hph] at hstage hworker
  case waitingStatus old =>
    cases hstage
    exact h.goOn hph hrun rfl (congrArg (Function.update p.worker w) (by rw [hworker]; rfl))
      rfl rfl rfl rfl rfl rfl rfl rfl rfl
  case waitingCall old =>
    cases hstage
    exact h.resetCall hph hrun
  case waitingSubmit c =>
    cases hstage
    exact h.submit hph hrun
  case processingStatus c req =>
    cases hstage
    exact h.goOn hph hrun rfl (congrArg (Function.update p.worker w) (by rw [hworker]; rfl))
      rfl rfl rfl rfl rfl rfl rfl rfl rfl
  case processingOp c req =>
    cases hstage
    exact h.doOp hph hrun
  case working c req returned =>
    cases returned <;> cases hstage
    exact h.goOn hph hrun rfl (Function.eq_update_self_iff.mpr hworker) rfl rfl rfl rfl rfl rfl rfl
      rfl rfl
  case replied c req rep returned =>
    cases returned <;> cases hstage
    exact h.goOn hph hrun rfl (Function.eq_update_self_iff.mpr hworker) rfl rfl rfl rfl rfl rfl rfl
      rfl rfl
  case finishedStatus c req rep =>
    cases hstage
    exact h.goOn hph hrun rfl (congrArg (Function.update p.worker w) (by rw [hworker]; rfl))
      rfl rfl rfl rfl rfl rfl rfl rfl rfl
  case finishedFinish c req rep =>
    cases hstage
    exact h.callFinish hph hrun
  all_goals cases hstage

/-- A callback of do_op runs. -/
theorem Follows.callback (h : Follows scher ph p) {w : W} {c : Nat} (hmem : (w, c) ∈ p.callbacks)
    (rep : Rep) :
    (ph w).callback w = some (w, c) ∧
      Follows scher (Function.update ph w ((ph w).reply rep)) (p.callback scher w c rep) := by
  obtain ⟨v, hv⟩ := h.threads.callbacks.holder hmem
  obtain ⟨rfl, req, returned, hph⟩ := Phase.eq_of_callback hv
  refine ⟨hv, ?_⟩
  have hdata := h.calls.call w c (some req) none (by rw [hph]; rfl)
  have hcallback : p.callback scher w c rep =
      ({ { p with callbacks := p.callbacks.erase (w, c) }.queueEvent scher w .opComplete with
          call := Function.update p.call c
            (some { worker := w, request := some req, reply := some rep }) } :
        Proxy W S Op Req Rep).record (.replied c req rep) := by
    unfold Proxy.callback
    rw [hdata]
    rfl
  rw [hcallback, hph]
  refine ⟨?_, ?_, ?_, ?_, h.idle⟩
  · exact {
      entry := h.threads.entry.keep (by rw [hph]; rfl)
      queue := h.threads.queue_push (by rw [hph]; rfl) rfl
      running := h.threads.running_keep (by rw [hph]; rfl)
      callbacks := h.threads.callbacks.erase hv rfl }
  · exact h.tags.keep (by rw [hph]; rfl) (by rw [hph]; rfl) (by rw [hph]; rfl)
  · exact h.calls.setCall (by rw [hph]; rfl) (by rw [hph]; rfl) rfl
  · exact h.logged.record h.calls (by rw [hph]; rfl) rfl rfl (by rw [hph]; rfl)

omit [DecidableEq W] in
/-- What the queue of OPs and its dispatcher do leaves the phases as they are. -/
theorem Follows.line (h : Follows scher ph p) (line batch : List Op) (dispatching : Option Op) :
    Follows scher ph
      { p with op_waiting_line := line, batch := batch, dispatching := dispatching } :=
  ⟨h.threads, h.tags, h.calls, h.logged, h.idle⟩

end Steps

/-! ### Runs -/

section Runs

variable {scher : W → S} {ph : W → Phase Req Rep} {p q : Proxy W S Op Req Rep}

/-- The work of the dispatcher that does not need an idle worker. -/
def Proxy.load (p : Proxy W S Op Req Rep) : Nat := 2 * p.op_waiting_line.length + p.batch.length

omit [DecidableEq W] [DecidableEq S] in
theorem lookAt_load (c : Nat) : (p.lookAt c).load = p.load := by
  unfold Proxy.lookAt
  repeat' split
  all_goals rfl

omit [DecidableEq S] in
theorem advance_load (s : S) (w : W) (stage : Stage) [DecidableEq S] :
    (p.advance s w stage).load = p.load := by
  cases stage
  case waitingCall =>
    change (p.resetCall w).load = p.load
    rw [resetCall_eq]
    rfl
  case processingOp =>
    change (p.doOp w).load = p.load
    unfold Proxy.doOp
    repeat' split
    all_goals rfl
  case finishedFinish =>
    change (p.callFinish w).load = p.load
    unfold Proxy.callFinish
    repeat' split
    all_goals rfl
  all_goals rfl

theorem callback_load (w : W) (c : Nat) (rep : Rep) :
    (p.callback scher w c rep).load = p.load := by
  unfold Proxy.callback
  dsimp only
  split <;> rfl

/-- The way from one state to the next: a worker moves on to a phase with less before it, or the
dispatcher has less to do. -/
def Nearer (ph : W → Phase Req Rep) (p : Proxy W S Op Req Rep) (ph' : W → Phase Req Rep)
    (q : Proxy W S Op Req Rep) : Prop :=
  (∃ w x, ph' = Function.update ph w x ∧ x.rank < (ph w).rank ∧ q.load = p.load) ∨
    ph' = ph ∧ q.load < p.load

omit [DecidableEq W] in
/-- A fresh proxy has its workers, each once, in their first phase. -/
theorem follows_start {workers : List W} (hnodup : workers.Nodup) (hall : ∀ w, w ∈ workers)
    (scher : W → S) :
    Follows scher (fun _ => .initial) (Proxy.start workers scher : Proxy W S Op Req Rep) where
  threads := {
    entry := .nil fun _ => rfl
    queue := fun s => {
      nodup := (hnodup.filter _).map fun v w h => congrArg Prod.fst h
      mem := fun a => by
        simp only [Proxy.start, List.mem_map, List.mem_filter, hall, true_and, decide_eq_true_eq,
          queuePlace]
        constructor
        · rintro ⟨w, hw, rfl⟩
          exact ⟨w, by rw [if_pos hw]; rfl⟩
        · rintro ⟨w, hw⟩
          split at hw
          · exact ⟨w, ‹_›, by simpa [Phase.event] using hw⟩
          · cases hw
      inj := fun v w a hv hw => by
        unfold queuePlace at hv hw
        split at hv <;> split at hw
        · obtain ⟨e, -, rfl⟩ := Option.map_eq_some_iff.mp hv
          obtain ⟨e', -, heq⟩ := Option.map_eq_some_iff.mp hw
          exact (congrArg Prod.fst heq).symm
        all_goals contradiction }
    running := fun s w stage => by simp [Proxy.start, Phase.stage]
    callbacks := .nil fun _ => rfl }
  tags := ⟨.nil fun _ => rfl, .nil fun _ => rfl, .nil fun _ => rfl⟩
  calls := {
    worker := fun _ => rfl
    call := fun w c req rep h => by cases h
    fresh := fun w c h => by cases h
    distinct := fun w w' c h => by cases h }
  logged := {
    current := fun w c h => by cases h
    past := fun c hc => absurd hc (Nat.not_lt_zero c)
    future := fun _ _ => rfl
    accepted := fun _ h => by cases h }
  idle := ⟨rfl, rfl⟩

/-- Every step keeps a proxy in phases; one of the proxy brings it nearer to its end. -/
theorem follows_step (h : Follows scher ph p) {a : Action W S Op Req Rep}
    (hstep : p.step scher a = some q) :
    ∃ ph', Follows scher ph' q ∧ (a.internal = true → Nearer ph p ph' q) := by
  cases a with
  | arrive tag request =>
      simp only [Proxy.step] at hstep
      split at hstep
      · rename_i hmem
        cases hstep
        obtain ⟨w, -, hnext⟩ := h.arrive hmem request
        exact ⟨_, hnext, fun hint => by cases hint⟩
      · cases hstep
  | sent tag =>
      simp only [Proxy.step] at hstep
      split at hstep
      · rename_i hmem
        cases hstep
        obtain ⟨w, req, rep, hph, hnext⟩ := h.sent hmem
        exact ⟨_, hnext, fun _ => .inl ⟨w, _, rfl, by rw [hph]; exact Nat.lt_succ_self 7, rfl⟩⟩
      · cases hstep
  | next =>
      simp only [Proxy.step] at hstep
      split at hstep
      · rename_i hentry hcq
        cases hstep
        obtain ⟨w, hw, hnext⟩ := h.next hentry hcq
        exact ⟨_, hnext, fun _ => .inl ⟨w, _, rfl, Phase.rank_next hw, rfl⟩⟩
      · cases hstep
  | look =>
      simp only [Proxy.step] at hstep
      split at hstep
      · rename_i hentry
        cases hstep
        obtain ⟨w, hw, hnext⟩ := h.look hentry
        exact ⟨_, hnext, fun _ => .inl ⟨w, _, rfl, Phase.rank_look hw, lookAt_load _⟩⟩
      · cases hstep
  | post =>
      simp only [Proxy.step] at hstep
      split at hstep
      · rename_i hentry
        cases hstep
        obtain ⟨hw, hnext⟩ := h.post hentry
        exact ⟨_, hnext, fun _ => .inl ⟨_, _, rfl, Phase.rank_post hw, rfl⟩⟩
      · cases hstep
  | take s =>
      simp only [Proxy.step] at hstep
      split at hstep
      · rename_i hfree hqueue
        obtain ⟨-, hevent, state, hreact, hnext⟩ := h.take hfree hqueue
        rw [hreact] at hstep
        cases hstep
        exact ⟨_, hnext, fun _ => .inl ⟨_, _, rfl, Phase.rank_take hevent, rfl⟩⟩
      · cases hstep
  | advance s =>
      simp only [Proxy.step] at hstep
      split at hstep
      · rename_i hrun
        cases hstep
        obtain ⟨-, hstage, hnext⟩ := h.advance hrun
        exact ⟨_, hnext, fun _ => .inl ⟨_, _, rfl, Phase.rank_advance hstage, advance_load _ _ _⟩⟩
      · cases hstep
  | callback w tag reply =>
      simp only [Proxy.step] at hstep
      split at hstep
      · rename_i hmem
        cases hstep
        obtain ⟨hw, hnext⟩ := h.callback hmem reply
        exact ⟨_, hnext, fun _ => .inl ⟨_, _, rfl, Phase.rank_reply hw, callback_load _ _ _⟩⟩
      · cases hstep
  | queueOp op =>
      simp only [Proxy.step] at hstep
      split at hstep
      · cases hstep
        exact ⟨ph, h.line _ _ _, fun hint => by cases hint⟩
      · cases hstep
  | dispatch =>
      simp only [Proxy.step] at hstep
      split at hstep
      · rename_i hbatch hline
        cases hstep
        refine ⟨ph, h.line _ _ _, fun _ => .inr ⟨rfl, ?_⟩⟩
        simp only [Proxy.load, hbatch, hline, List.length_cons, List.length_nil]
        omega
      · cases hstep
  | pop =>
      simp only [Proxy.step] at hstep
      split at hstep
      · rename_i hbatch
        cases hstep
        refine ⟨ph, h.line _ _ _, fun _ => .inr ⟨rfl, ?_⟩⟩
        simp only [Proxy.load, hbatch, List.length_cons]
        omega
      · cases hstep
  | getIdleWorker =>
      simp only [Proxy.step] at hstep
      split at hstep
      · rename_i hidle
        rw [h.idle.1] at hidle
        cases hidle
      · cases hstep

end Runs

end Gvds.Workers
