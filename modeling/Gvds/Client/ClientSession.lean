/-
Module: Gvds.Client.ClientSession
Layer: Client
Purpose: The session of a client with the data port of an IO proxy (msg/client_session.cc): the
  tables of promises, futures and handlers by request ID, the critical sections that change them,
  and the calls of write and registe_handler by which client workers send (client_worker.cc).
Imports: Mathlib.Logic.Function.Basic
Trusted boundary: UDT brings each reply whole, if at all; a proxy may reply more than once. The
  table keys are ints, into which the 64 bit IDs are converted
Main exports: ClientSession, enter, registe_handler, Effect, do_read, Stage, World, Action, step,
  Stepped, stepped_of_step
-/
import Mathlib.Logic.Function.Basic

namespace Gvds.ClientSession

/-- `ClientSession`. A promise or future is named by the call that made it, a handler by the call
that registers it. -/
structure ClientSession where
  seq_n : Nat
  futures : Int → Option Nat
  ready_promises : Int → Option Nat
  auto_handler : Int → Bool
  handlers : Int → Option Nat

/-- A 64 bit ID as an int. -/
def int (id : Nat) : Int := Int.bmod id 4294967296

/-- `ECONNRESET`. -/
def ECONNRESET : Int := 104

/-- The critical section of `ClientSession::write`. -/
def enter (s : ClientSession) (id : Int) (k : Nat) : ClientSession :=
  { s with futures := Function.update s.futures id (some k)
           ready_promises := Function.update s.ready_promises id (some k) }

/-- `ClientSession::registe_handler`: `insert` leaves a handler that is there. -/
def registe_handler (s : ClientSession) (id : Int) (k : Nat) : ClientSession :=
  { s with auto_handler := Function.update s.auto_handler id true
           handlers := Function.update s.handlers id (some ((s.handlers id).getD k)) }

/-- What comes of a reply: it is taken for a duplicate; it is done with, and the handler of a call
runs if there is one; or it is put into the promise of a call. -/
inductive Effect where
  | duplicated
  | handled (f : Option Nat)
  | value (k : Nat)
deriving DecidableEq

/-- The critical section of `ClientSession::do_read`, for a reply. -/
def do_read (s : ClientSession) (id : Int) : ClientSession × Effect :=
  match s.ready_promises id with
  | none => (s, .duplicated)
  | some k =>
      let s := { s with ready_promises := Function.update s.ready_promises id none }
      if s.auto_handler id then
        ({ s with futures := Function.update s.futures id none }, .handled (s.handlers id))
      else (s, .value k)

/-! ### Calls -/

/-- How far a call of `write` and `registe_handler` has come: `write` returns the error at once, or
takes a number, enters its promise, and hands the request to the writer. -/
inductive Stage where
  | start
  | numbered
  | entered
  | written
  | refused
  | registered
deriving DecidableEq

/-- The session with all calls that are made on it: their IDs, whether the request is on the wire,
whether a reply has been received, whether the promise has got it, and how often the handler has
run. -/
structure World where
  session : ClientSession
  stage : Nat → Stage
  id : Nat → Int
  sent : Nat → Bool
  replied : Nat → Bool
  ready : Nat → Bool
  called : Nat → Nat

/-- The steps of the callers and of the reader thread. -/
inductive Action where
  | number (k : Nat) (error_stat : Bool)
  | enter (k : Nat)
  | send (k : Nat)
  | register (k : Nat)
  | receive (k : Nat)

/-- A new session. -/
def World.start : World where
  session := ⟨0, fun _ => none, fun _ => none, fun _ => false, fun _ => none⟩
  stage := fun _ => .start
  id := fun _ => 0
  sent := fun _ => false
  replied := fun _ => false
  ready := fun _ => false
  called := fun _ => 0

/-- What a reply does to the calls. -/
def World.apply (w : World) : Effect → World
  | .duplicated => w
  | .handled none => w
  | .handled (some f) => { w with called := Function.update w.called f (w.called f + 1) }
  | .value k => { w with ready := Function.update w.ready k true }

/-- One step. -/
def step (w : World) : Action → Option World
  | .number k error_stat =>
      if w.stage k = .start then
        if error_stat then
          some { w with stage := Function.update w.stage k .refused
                        id := Function.update w.id k (-ECONNRESET) }
        else
          some { w with session := { w.session with seq_n := w.session.seq_n + 1 }
                        stage := Function.update w.stage k .numbered
                        id := Function.update w.id k (int w.session.seq_n) }
      else none
  | .enter k =>
      if w.stage k = .numbered then
        some { w with session := ClientSession.enter w.session (w.id k) k
                      stage := Function.update w.stage k .entered }
      else none
  | .send k =>
      if w.stage k = .entered then
        some { w with stage := Function.update w.stage k .written
                      sent := Function.update w.sent k true }
      else none
  | .register k =>
      if w.stage k = .written ∨ w.stage k = .refused then
        some { w with session := registe_handler w.session (w.id k) k
                      stage := Function.update w.stage k .registered }
      else none
  | .receive k =>
      if w.sent k then
        let r := do_read w.session (w.id k)
        some ({ w with session := r.1, replied := Function.update w.replied k true }.apply r.2)
      else none

/-! ### What a step does -/

/-- The steps by what they find and what they leave. -/
inductive Stepped (w : World) : Action → World → Prop where
  | refused (k : Nat) (hbefore : w.stage k = .start) :
      Stepped w (.number k true)
        { w with stage := Function.update w.stage k .refused
                 id := Function.update w.id k (-ECONNRESET) }
  | numbered (k : Nat) (hbefore : w.stage k = .start) :
      Stepped w (.number k false)
        { w with session := { w.session with seq_n := w.session.seq_n + 1 }
                 stage := Function.update w.stage k .numbered
                 id := Function.update w.id k (int w.session.seq_n) }
  | entered (k : Nat) (hbefore : w.stage k = .numbered) :
      Stepped w (.enter k)
        { w with session := enter w.session (w.id k) k
                 stage := Function.update w.stage k .entered }
  | written (k : Nat) (hbefore : w.stage k = .entered) :
      Stepped w (.send k)
        { w with stage := Function.update w.stage k .written
                 sent := Function.update w.sent k true }
  | registered (k : Nat) (hbefore : w.stage k = .written ∨ w.stage k = .refused) :
      Stepped w (.register k)
        { w with session := registe_handler w.session (w.id k) k
                 stage := Function.update w.stage k .registered }
  | received (k : Nat) (hsent : w.sent k = true) :
      Stepped w (.receive k)
        ({ w with session := (do_read w.session (w.id k)).1
                  replied := Function.update w.replied k true }.apply
          (do_read w.session (w.id k)).2)

theorem stepped_of_step {w w' : World} {a : Action} (hstep : step w a = some w') :
    Stepped w a w' := by
  cases a with
  | number k error_stat =>
      cases error_stat <;> obtain ⟨hbefore, heq⟩ := Option.ite_none_right_eq_some.mp hstep
      · cases heq
        exact .numbered k hbefore
      · cases heq
        exact .refused k hbefore
  | enter k =>
      obtain ⟨hbefore, heq⟩ := Option.ite_none_right_eq_some.mp hstep
      cases heq
      exact .entered k hbefore
  | send k =>
      obtain ⟨hbefore, heq⟩ := Option.ite_none_right_eq_some.mp hstep
      cases heq
      exact .written k hbefore
  | register k =>
      obtain ⟨hbefore, heq⟩ := Option.ite_none_right_eq_some.mp hstep
      cases heq
      exact .registered k hbefore
  | receive k =>
      obtain ⟨hsent, heq⟩ := Option.ite_none_right_eq_some.mp hstep
      cases heq
      exact .received k hsent

end Gvds.ClientSession
