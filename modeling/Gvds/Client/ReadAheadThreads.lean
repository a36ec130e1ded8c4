/-
Module: Gvds.Client.ReadAheadThreads
Layer: Client
Purpose: The threads of the read-ahead (client/readahead.cc) step by step: set_task and
  fetch_sector_remote, called under the buffer's lock by set_task and without it by completion
  callbacks, the callbacks on the completion threads of the operators (msg/operator_client.hpp),
  clear_buf, and wait_sector. Between two steps any other thread may go on.
Imports: Gvds.Client.ReadAhead
Trusted boundary: a thread looks at the variables of one condition at once; an atomic increment, an
  assignment to an entry of ft_res_tab, and a section under a lock are one step each. The completion
  thread of an IO proxy's operator runs one callback after the other; a prefetch whose RPC fails
  ends the process (a null reply is dereferenced), as does a future_error in wait_sector; epochs
  and sector numbers fit their types
Main exports: Config, Buffer, Pc, Call, Stage, Request, ClearStage, Waiter, State, start, Act, step,
  Stepped, stepped_of_step, ClearStepped, clearStepped_of_clearStep
-/
import Gvds.Client.ReadAhead

namespace Gvds.ReadAheadThreads

open WriteBehind (FileName)
open ReadAhead (BufArea sectorSize)

/-- `client.onlink` and `client.readahead`, as in `ReadAheadConfig`. -/
structure Config where
  max_onlink : Nat
  readahead : Nat
  max_onlink_lt : max_onlink < 2 ^ 32
  readahead_lt : readahead < 2 ^ 14

/-- `BufArea` with the tables of waiting readers. A promise is named by the call of `wait_sector`
that made it. -/
structure Buffer extends BufArea where
  ft_waiting_tab : Nat → Option Nat
  prom_waiting_tab : Nat → Option Nat

/-- The default constructor. -/
def Buffer.init : Buffer where
  toBufArea := BufArea.init
  ft_waiting_tab := fun _ => none
  prom_waiting_tab := fun _ => none

/-- Replace the variables of a buffer and clear both tables. -/
def Buffer.reset (b : BufArea) : Buffer where
  toBufArea := b
  ft_waiting_tab := fun _ => none
  prom_waiting_tab := fun _ => none

/-- Where a thread is in `set_task`, before its lock, or in `fetch_sector_remote`: at its start; at
the two conditions of its loop; before `onlink++`, `cur_sec_nr++`, the look at the epoch,
`SubmitAsync` and the assignment to `ft_res_tab`; or out of it. The number `task` of the task in
which the sector number was taken is not in the source. -/
inductive Pc where
  | task (file : FileName) (sec_bg sec_max epoch : Nat)
  | enter
  | check (file : FileName)
  | bound (file : FileName)
  | reserve (file : FileName)
  | number (file : FileName)
  | stamp (file : FileName) (sec_nr task : Nat)
  | submit (file : FileName) (sec_nr task epoch : Nat)
  | store (file : FileName) (sec_nr k : Nat)
  | ended
deriving DecidableEq

/-- A call of `set_task` or `fetch_sector_remote` for a buffer, by a FUSE thread or by the callback
of a request. -/
structure Call where
  owner : Option Nat
  buf_idx : Fin 2
  pc : Pc
deriving DecidableEq

/-- How far a request is: submitted; its callback holds the future of request `k` and has released
the lock; it has copied a reply of `len` bytes; it has marked the sector; it has found room for
another request; it is done but for the call it made. `task` is the buffer's at the look at the
epoch. -/
inductive Stage where
  | sent
  | taken (k task : Nat)
  | copied (len task : Nat)
  | marked (len : Nat)
  | room
  | done
deriving DecidableEq

/-- A submitted request, with what its callback captures. The reply is `some none` if the IO proxy
answers with an error. -/
structure Request where
  buf_idx : Fin 2
  file : FileName
  sec_nr : Nat
  cur_epoch : Nat
  task : Nat
  reply : Option (Option ReadAhead.Reply)
  stage : Stage
deriving DecidableEq

/-- How far a call of `clear_buf` is: past the look at the path; it has taken the epoch, and has yet
to clear both buffers or the second one; returned. The epochs of the requests in flight when it took
its own are not in the source. -/
inductive ClearStage where
  | named
  | first (to_epoch : Nat) (inFlight : List Nat)
  | second (to_epoch : Nat) (inFlight : List Nat)
  | returned
deriving DecidableEq

/-- A call of `wait_sector`, with the promise whose future it holds. -/
structure Waiter where
  buf_idx : Fin 2
  sec_nr : Nat
  prom : Nat
  returned : Bool
deriving DecidableEq

/-- What a promise has come to. -/
inductive Outcome where
  | value (b : Bool)
  | broken
deriving DecidableEq

/-- The read-ahead with all calls made so far. `lock` names the call of `set_task` that holds a
buffer's mutex while it fetches. -/
structure State where
  bufs : Fin 2 → Buffer
  lock : Fin 2 → Option Nat
  calls : List Call
  requests : List Request
  clears : List ClearStage
  waiters : List Waiter
  outcome : Nat → Option Outcome

/-- The client before its first call. -/
def start : State where
  bufs := fun _ => .init
  lock := fun _ => none
  calls := []
  requests := []
  clears := []
  waiters := []
  outcome := fun _ => none

/-- Replace a buffer. -/
def State.setBuf (s : State) (i : Fin 2) (b : Buffer) : State :=
  { s with bufs := Function.update s.bufs i b }

/-- A call goes on. -/
def State.setPc (s : State) (c : Nat) (call : Call) (pc : Pc) : State :=
  { s with calls := s.calls.set c { call with pc := pc } }

/-- A callback goes on. -/
def State.setStage (s : State) (k : Nat) (r : Request) (stage : Stage) : State :=
  { s with requests := s.requests.set k { r with stage := stage } }

/-- A thread calls `set_task` or `fetch_sector_remote`. -/
def State.call (s : State) (call : Call) : State :=
  { s with calls := s.calls ++ [call] }

/-- The promise is in the table of the buffer. -/
def State.registered (s : State) (i : Fin 2) (p : Nat) : Bool :=
  (s.waiters[p]?).any fun w => w.buf_idx = i && (s.bufs i).prom_waiting_tab w.sec_nr = some p

/-- All promises in the table of a buffer get the value `false`. -/
def State.wakeAll (s : State) (i : Fin 2) : State :=
  { s with outcome := fun p => if s.registered i p then some (.value false) else s.outcome p }

/-- `++` on a 64 bit counter. -/
def incr (n : Nat) : Nat := if n = 18446744073709551615 then 0 else n + 1

/-- `--` on a 64 bit counter. -/
def decr (n : Nat) : Nat := if n = 0 then 18446744073709551615 else n - 1

/-! ### set_task and fetch_sector_remote -/

/-- `set_task` up to its lock; the epoch `-1` is `none`. -/
def setTask (s : State) (owner : Option Nat) (file : FileName) (i : Fin 2)
    (sec_bg sec_max : Nat) : Option Nat → State
  | none => s.call ⟨owner, i, .task file sec_bg sec_max ((s.bufs i).epoch + 1)⟩
  | some epoch =>
      if epoch < (s.bufs i).epoch then s
      else s.call ⟨owner, i, .task file sec_bg sec_max epoch⟩

/-- The task is there already. -/
def HasTask (b : Buffer) (file : FileName) (sec_bg : Nat) : Prop :=
  file.2 = b.file.2 ∧ sec_bg < b.sec_bg + b.max_sec ∧ b.sec_bg ≤ sec_bg

/-- A reader is in front of the last sector of the buffer. -/
def InUse (b : Buffer) (file : FileName) : Prop :=
  file.2 = b.file.2 ∧ b.cursor + 1 < b.sec_bg + b.max_sec

instance (b : Buffer) (file : FileName) (sec_bg : Nat) : Decidable (HasTask b file sec_bg) :=
  inferInstanceAs (Decidable (_ ∧ _ ∧ _))

instance (b : Buffer) (file : FileName) : Decidable (InUse b file) :=
  inferInstanceAs (Decidable (_ ∧ _))

/-- `set_task` behind its lock, up to the call of `fetch_sector_remote`. -/
def lockTask (s : State) (c : Nat) (call : Call) (file : FileName)
    (sec_bg sec_max epoch : Nat) : State :=
  let i := call.buf_idx
  let b := s.bufs i
  if HasTask b file sec_bg then s.setPc c call .ended
  else if InUse b file then
    let b' := { b with cursor := b.cursor + 1 }
    (if b.epoch < epoch then s.setBuf i b' else s).setPc c call .ended
  else
    let area := b.toBufArea.retask file sec_bg sec_max epoch
    { ((s.wakeAll i).setBuf i (.reset area)).setPc c call .enter with
      lock := Function.update s.lock i (some c) }

/-- The end of a call; `set_task` releases the lock. -/
def leave (s : State) (c : Nat) (call : Call) : State :=
  let i := call.buf_idx
  let lock := if s.lock i = some c then Function.update s.lock i none else s.lock
  { s.setPc c call .ended with lock := lock }

/-- One step of a call. -/
def callStep (cfg : Config) (s : State) (c : Nat) (call : Call) : Option State :=
  let i := call.buf_idx
  let b := s.bufs i
  match call.pc with
  | .task file sec_bg sec_max epoch =>
      if s.lock i = none then some (lockTask s c call file sec_bg sec_max epoch) else none
  | .enter => some (s.setPc c call (.check b.file))
  | .check file =>
      some (if b.onlink < cfg.max_onlink then s.setPc c call (.bound file) else leave s c call)
  | .bound file =>
      some (if b.cur_sec_nr < b.sec_bg + b.max_sec then s.setPc c call (.reserve file)
        else leave s c call)
  | .reserve file =>
      let b' := { b with onlink := incr b.onlink }
      some ((s.setBuf i b').setPc c call (.number file))
  | .number file =>
      let b' := { b with cur_sec_nr := b.cur_sec_nr + 1 }
      some ((s.setBuf i b').setPc c call (.stamp file b.cur_sec_nr b.task))
  | .stamp file sec_nr task => some (s.setPc c call (.submit file sec_nr task b.epoch))
  | .submit file sec_nr task epoch =>
      let r : Request := ⟨i, file, sec_nr, epoch, task, none, .sent⟩
      some { s.setPc c call (.store file sec_nr s.requests.length) with
        requests := s.requests ++ [r] }
  | .store file sec_nr k =>
      let b' := { b with ft_res_tab := Function.update b.ft_res_tab sec_nr (some k) }
      some ((s.setBuf i b').setPc c call (.check file))
  | .ended => none

/-! ### Completion callbacks -/

/-- A callback runs. -/
def Stage.running : Stage → Bool
  | .taken _ _ => true
  | .copied _ _ => true
  | .marked _ => true
  | .room => true
  | .sent => false
  | .done => false

/-- The callback of a request is in a call. -/
def State.calling (s : State) (k : Nat) : Bool :=
  s.calls.any fun call => call.owner = some k && call.pc ≠ .ended

/-- The completion thread for an IO proxy runs a callback. -/
def State.busy (s : State) (iop : Nat) : Bool :=
  (List.range s.requests.length).any fun k =>
    (s.requests[k]?).any fun r => r.file.1 = iop && (r.stage.running || s.calling k)

/-- The callback up to the release of the lock: check the epoch and move the future out. -/
def check (s : State) (k : Nat) (r : Request) : State :=
  let i := r.buf_idx
  let b := s.bufs i
  if b.epoch ≠ r.cur_epoch then s.setStage k r .done
  else
    let b' := { b with onlink := decr b.onlink }
    match b.ft_res_tab r.sec_nr with
    | none => (s.setBuf i b').setStage k r .done
    | some k' =>
        let b'' := { b' with ft_res_tab := Function.update b.ft_res_tab r.sec_nr none }
        (s.setBuf i b'').setStage k r (.taken k' b.task)

/-- The callback waits for the future it holds, not for long, and copies the reply, without the
lock. -/
def copy (s : State) (k : Nat) (r : Request) (k' task : Nat) : State :=
  let b := s.bufs r.buf_idx
  match (s.requests[k']?).bind Request.reply with
  | some (some rep) =>
      let b' := { b with toBufArea := b.toBufArea.receive r.sec_nr rep.bytes rep.time }
      (s.setBuf r.buf_idx b').setStage k r (.copied rep.bytes.length task)
  | _ => s.setStage k r .done

/-- The promise of a waiting reader gets the value `true`. -/
def State.wake (s : State) : Option Nat → State
  | none => s
  | some p => { s with outcome := Function.update s.outcome p (some (.value true)) }

/-- The callback marks its sector as buffered and wakes the readers, under the lock but without
another look at the epoch. -/
def mark (s : State) (k : Nat) (r : Request) (len : Nat) : State :=
  let i := r.buf_idx
  let b := s.bufs i
  let b' := { b with
    sec_bufferd := Function.update b.sec_bufferd r.sec_nr (some len)
    prom_waiting_tab := Function.update b.prom_waiting_tab r.sec_nr none }
  ((s.wake (b.prom_waiting_tab r.sec_nr)).setBuf i b').setStage k r (.marked len)

/-- The end of the callback: trigger the next fetch, in this buffer or in the other one. -/
def next (s : State) (k : Nat) (r : Request) : State :=
  let b := s.bufs r.buf_idx
  let other := r.buf_idx + 1
  let s := s.setStage k r .done
  if b.sec_bg + b.max_sec ≤ b.cur_sec_nr then
    if (s.bufs other).epoch ≤ r.cur_epoch then
      setTask s (some k) r.file other b.cur_sec_nr b.max_sec (some r.cur_epoch)
    else s.call ⟨some k, other, .enter⟩
  else s.call ⟨some k, r.buf_idx, .enter⟩

/-- One step of a callback. -/
def callbackStep (cfg : Config) (s : State) (k : Nat) (r : Request) : Option State :=
  match r.stage with
  | .sent =>
      if r.reply ≠ none ∧ s.busy r.file.1 = false ∧ s.lock r.buf_idx = none then
        some (check s k r)
      else none
  | .taken k' task => some (copy s k r k' task)
  | .copied len _ => if s.lock r.buf_idx = none then some (mark s k r len) else none
  | .marked len =>
      let room := 0 < len ∧ (s.bufs r.buf_idx).onlink < cfg.max_onlink
      some (s.setStage k r (if room then .room else .done))
  | .room => some (next s k r)
  | .done => none

/-! ### clear_buf and wait_sector -/

/-- The epochs of the requests in flight: those submitted or about to be, whose callback has not
looked at the epoch. -/
def inFlightEpochs (s : State) : List Nat :=
  (s.requests.filter fun r => r.stage = .sent).map Request.cur_epoch ++
    s.calls.filterMap fun call =>
      match call.pc with
      | .submit _ _ _ epoch => some epoch
      | _ => none

/-- The body of the loop in `clear_buf`. -/
def clear (s : State) (i : Fin 2) (to_epoch : Nat) : State :=
  (s.wakeAll i).setBuf i (.reset ((s.bufs i).toBufArea.clear to_epoch))

/-- One step of `clear_buf` behind the look at the path. -/
def clearStep (s : State) (n : Nat) : ClearStage → Option State
  | .named =>
      let b := s.bufs 0
      let b' := { b with epoch := b.epoch + 1 }
      some { s.setBuf 0 b' with clears := s.clears.set n (.first b.epoch (inFlightEpochs s)) }
  | .first to_epoch inFlight =>
      if s.lock 0 = none then
        some { clear s 0 to_epoch with clears := s.clears.set n (.second to_epoch inFlight) }
      else none
  | .second to_epoch _ =>
      if s.lock 1 = none then
        some { clear s 1 to_epoch with clears := s.clears.set n .returned }
      else none
  | .returned => none

/-- `wait_sector` up to its wait. -/
def wait (s : State) (i : Fin 2) (sec_nr : Nat) : State :=
  let b := s.bufs i
  let p := s.waiters.length
  match b.ft_waiting_tab sec_nr with
  | none =>
      let b' := { b with
        ft_waiting_tab := Function.update b.ft_waiting_tab sec_nr (some p)
        prom_waiting_tab := Function.update b.prom_waiting_tab sec_nr (some p) }
      { s.setBuf i b' with waiters := s.waiters ++ [⟨i, sec_nr, p, false⟩] }
  | some prom => { s with waiters := s.waiters ++ [⟨i, sec_nr, prom, false⟩] }

/-- `wait_sector` behind its wait, which ends when the promise has got its value or is destroyed, or
after one second. The promise of the call itself is destroyed with it. -/
def wakeUp (s : State) (p : Nat) (w : Waiter) : State :=
  let i := w.buf_idx
  let b := s.bufs i
  let outcome := Function.update s.outcome p (some ((s.outcome p).getD .broken))
  let s := { s with outcome := outcome, waiters := s.waiters.set p { w with returned := true } }
  match b.ft_waiting_tab w.sec_nr with
  | none => s
  | some _ =>
      let b' := { b with
        ft_waiting_tab := Function.update b.ft_waiting_tab w.sec_nr none
        prom_waiting_tab := Function.update b.prom_waiting_tab w.sec_nr none }
      s.setBuf i b'

/-! ### Steps -/

/-- What can happen next. A FUSE thread calls `set_task`; a call goes one step further; an IO proxy
answers a request; its callback goes one step further; a FUSE thread calls `clear_buf`, or goes one
step further in it; a FUSE thread calls `wait_sector`, or leaves it. -/
inductive Act where
  | setTask (file : FileName) (i : Fin 2) (sec_bg : Nat) (epoch : Option Nat)
  | call (c : Nat)
  | serve (k : Nat) (reply : Option ReadAhead.Reply)
  | callback (k : Nat)
  | clear (filepath : String)
  | clearStep (n : Nat)
  | wait (i : Fin 2) (sec_nr : Nat)
  | wakeUp (p : Nat)

/-- The IO proxy answers with no more bytes than asked for. -/
def serve (s : State) (k : Nat) (r : Request) (reply : Option ReadAhead.Reply) : Option State :=
  if r.reply = none ∧ ∀ rep ∈ reply, rep.bytes.length ≤ sectorSize then
    some { s with requests := s.requests.set k { r with reply := some reply } }
  else none

/-- One step of the read-ahead. -/
def step (cfg : Config) (s : State) : Act → Option State
  | .setTask file i sec_bg epoch => some (setTask s none file i sec_bg cfg.readahead epoch)
  | .call c => (s.calls[c]?).bind (callStep cfg s c)
  | .serve k reply => (s.requests[k]?).bind fun r => serve s k r reply
  | .callback k => (s.requests[k]?).bind (callbackStep cfg s k)
  | .clear filepath =>
      some { s with clears := s.clears ++
        [if filepath = (s.bufs 0).file.2 then .named else .returned] }
  | .clearStep n => (s.clears[n]?).bind (clearStep s n)
  | .wait i sec_nr => if s.lock i = none then some (wait s i sec_nr) else none
  | .wakeUp p => (s.waiters[p]?).bind fun w =>
      if w.returned = false ∧ s.lock w.buf_idx = none then some (wakeUp s p w) else none

/-! ### What a step does -/

/-- The steps of `clear_buf` by what they find and what they leave. -/
inductive ClearStepped (s : State) (n : Nat) : ClearStage → State → Prop where
  | named :
      ClearStepped s n .named
        { s.setBuf 0 { s.bufs 0 with epoch := (s.bufs 0).epoch + 1 } with
          clears := s.clears.set n (.first (s.bufs 0).epoch (inFlightEpochs s)) }
  | first (to_epoch : Nat) (inFlight : List Nat) (hfree : s.lock 0 = none) :
      ClearStepped s n (.first to_epoch inFlight)
        { clear s 0 to_epoch with clears := s.clears.set n (.second to_epoch inFlight) }
  | second (to_epoch : Nat) (inFlight : List Nat) (hfree : s.lock 1 = none) :
      ClearStepped s n (.second to_epoch inFlight)
        { clear s 1 to_epoch with clears := s.clears.set n .returned }

theorem clearStepped_of_clearStep {s t : State} {n : Nat} {stage : ClearStage}
    (hstep : clearStep s n stage = some t) : ClearStepped s n stage t := by
  cases stage with
  | named =>
      cases hstep
      exact .named
  | first to_epoch inFlight =>
      obtain ⟨hfree, heq⟩ := Option.ite_none_right_eq_some.mp hstep
      cases heq
      exact .first to_epoch inFlight hfree
  | second to_epoch inFlight =>
      obtain ⟨hfree, heq⟩ := Option.ite_none_right_eq_some.mp hstep
      cases heq
      exact .second to_epoch inFlight hfree
  | returned => cases hstep

/-- The steps of the read-ahead. Those of calls, callbacks and `clear_buf` go on by themselves. -/
inductive Stepped (cfg : Config) (s : State) : Act → State → Prop where
  | setTask (file : FileName) (i : Fin 2) (sec_bg : Nat) (epoch : Option Nat) :
      Stepped cfg s (.setTask file i sec_bg epoch)
        (setTask s none file i sec_bg cfg.readahead epoch)
  | call (c : Nat) (call : Call) (t : State) (hcall : s.calls[c]? = some call)
      (hstep : callStep cfg s c call = some t) : Stepped cfg s (.call c) t
  | serve (k : Nat) (reply : Option ReadAhead.Reply) (r : Request)
      (hr : s.requests[k]? = some r) (hnone : r.reply = none)
      (hlen : ∀ rep ∈ reply, rep.bytes.length ≤ sectorSize) :
      Stepped cfg s (.serve k reply)
        { s with requests := s.requests.set k { r with reply := some reply } }
  | callback (k : Nat) (r : Request) (t : State) (hr : s.requests[k]? = some r)
      (hstep : callbackStep cfg s k r = some t) : Stepped cfg s (.callback k) t
  | clear (filepath : String) :
      Stepped cfg s (.clear filepath)
        { s with clears := s.clears ++
          [if filepath = (s.bufs 0).file.2 then .named else .returned] }
  | clearStep (n : Nat) (stage : ClearStage) (t : State) (hstage : s.clears[n]? = some stage)
      (hstep : ClearStepped s n stage t) : Stepped cfg s (.clearStep n) t
  | wait (i : Fin 2) (sec_nr : Nat) (hfree : s.lock i = none) :
      Stepped cfg s (.wait i sec_nr) (wait s i sec_nr)
  | wakeUp (p : Nat) (w : Waiter) (hw : s.waiters[p]? = some w) (hwaits : w.returned = false)
      (hfree : s.lock w.buf_idx = none) : Stepped cfg s (.wakeUp p) (wakeUp s p w)

theorem stepped_of_step {cfg : Config} {s t : State} {a : Act} (hstep : step cfg s a = some t) :
    Stepped cfg s a t := by
  cases a with
  | setTask file i sec_bg epoch =>
      cases hstep
      exact .setTask file i sec_bg epoch
  | call c =>
      obtain ⟨call, hcall, hmore⟩ := Option.bind_eq_some_iff.mp hstep
      exact .call c call t hcall hmore
  | serve k reply =>
      obtain ⟨r, hr, hserve⟩ := Option.bind_eq_some_iff.mp hstep
      obtain ⟨⟨hnone, hlen⟩, heq⟩ := Option.ite_none_right_eq_some.mp hserve
      cases heq
      exact .serve k reply r hr hnone hlen
  | callback k =>
      obtain ⟨r, hr, hmore⟩ := Option.bind_eq_some_iff.mp hstep
      exact .callback k r t hr hmore
  | clear filepath =>
      cases hstep
      exact .clear filepath
  | clearStep n =>
      obtain ⟨stage, hstage, hmore⟩ := Option.bind_eq_some_iff.mp hstep
      exact .clearStep n stage t hstage (clearStepped_of_clearStep hmore)
  | wait i sec_nr =>
      obtain ⟨hfree, heq⟩ := Option.ite_none_right_eq_some.mp hstep
      cases heq
      exact .wait i sec_nr hfree
  | wakeUp p =>
      obtain ⟨w, hw, hmore⟩ := Option.bind_eq_some_iff.mp hstep
      obtain ⟨⟨hwaits, hfree⟩, heq⟩ := Option.ite_none_right_eq_some.mp hmore
      cases heq
      exact .wakeUp p w hw hwaits hfree

end Gvds.ReadAheadThreads
