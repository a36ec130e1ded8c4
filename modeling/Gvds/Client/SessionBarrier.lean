/-
Module: Gvds.Client.SessionBarrier
Layer: Client
Purpose: The calls that wait on a client session (msg/client_session.cc): any number of calls of
  block_on_op with its default argument, by threads of their own, beside the writers, the readers
  that take futures with wait_op, and the thread that receives the replies; and what the callers in
  client/msg_mod.cc make of the int that write returns.
Imports: Gvds.Client.ClientSession
Trusted boundary: as Gvds.Client.ClientSession. A shared future is ready when its promise has got a
  value or is destroyed; wait_for answers ready if that comes before its ten seconds are over
Main exports: Barrier, Session, newest, settle, Act, stepBarriers, write_data, read_data
-/
import Gvds.Client.ClientSession

namespace Gvds.ClientSession

/-- `ETIMEDOUT`. -/
def ETIMEDOUT : Int := 110

/-- How far a call of `block_on_op` has come: it has read `seq_n`; it waits on the future of a call
of `write`; it has returned. `before` are the calls that had handed over their request when it
began; they are not in the source. -/
inductive Barrier where
  | start
  | began (id : Int) (before : Nat → Bool)
  | waiting (k : Nat) (before : Nat → Bool)
  | returned (code : Int) (before : Nat → Bool)

/-- A session with the calls of `block_on_op`. `settled` are the promises that have got a value or
are destroyed. -/
structure Session where
  world : World
  settled : Nat → Bool
  barriers : Nat → Barrier

/-- A new session. -/
def Session.start : Session where
  world := World.start
  settled := fun _ => false
  barriers := fun _ => .start

/-- The ID that `block_on_op` looks for: the last number that was taken, as an int. -/
def newest (s : ClientSession) : Int := Int.bmod ((s.seq_n : Int) - 1) 4294967296

/-- A wait on the promise of a call of `write` ends. -/
def Barrier.settle (k : Nat) : Barrier → Barrier
  | .waiting k' before => if k' = k then .returned 0 before else .waiting k' before
  | .start => .start
  | .began id before => .began id before
  | .returned code before => .returned code before

/-- The promise of a call gets its value or is destroyed. -/
def settle (s : Session) : Option Nat → Session
  | none => s
  | some k =>
      { s with
        settled := Function.update s.settled k true
        barriers := fun b => (s.barriers b).settle k }

/-- The promise that leaves the table: `do_read` takes the one of a reply out, and `write` assigns
its own over one with the same ID. -/
def leaving (w : World) : Action → Option Nat
  | .receive k => w.session.ready_promises (w.id k)
  | .enter k => w.session.ready_promises (w.id k)
  | .number _ _ => none
  | .send _ => none
  | .register _ => none

/-- The critical section of `block_on_op`: it returns if the future is not there or is ready. -/
def look (s : Session) (id : Int) (before : Nat → Bool) : Barrier :=
  match s.world.session.futures id with
  | none => .returned 0 before
  | some k => if s.settled k then .returned 0 before else .waiting k before

/-- The steps: those of the writers and of the reader thread; a thread takes a future with
`wait_op`; an ID is handled by `auto_handle`; a call of `block_on_op` reads `seq_n`, looks for the
future, or has waited for ten seconds. -/
inductive Act where
  | session (a : Action)
  | waitOp (id : Int)
  | autoHandle (id : Int)
  | begin (b : Nat)
  | look (b : Nat)
  | timeOut (b : Nat)

/-- One step. -/
def stepBarriers (s : Session) : Act → Option Session
  | .session a => (step s.world a).map fun world =>
      settle { s with world := world } (leaving s.world a)
  | .waitOp id =>
      some { s with world := { s.world with session := { s.world.session with
        futures := Function.update s.world.session.futures id none } } }
  | .autoHandle id =>
      some { s with world := { s.world with session := { s.world.session with
        auto_handler := Function.update s.world.session.auto_handler id true } } }
  | .begin b =>
      match s.barriers b with
      | .start => some { s with
          barriers := Function.update s.barriers b
            (.began (newest s.world.session) s.world.sent) }
      | _ => none
  | .look b =>
      match s.barriers b with
      | .began id before => some { s with
          barriers := Function.update s.barriers b (look s id before) }
      | _ => none
  | .timeOut b =>
      match s.barriers b with
      | .waiting _ before => some { s with
          barriers := Function.update s.barriers b (.returned (-ETIMEDOUT) before) }
      | _ => none

/-! ### The callers of write -/

/-- `ClientRpc::write_data`, and `write_data_async` as well: the ID that is waited for or handled,
where `write` returns `id`, and on a new session `again`. Without one it is `-ECONNREFUSED`. -/
def write_data (id again : Int) : Option Int :=
  let id := if id = -ECONNRESET then again else id
  if id < 0 then none else some id

/-- `ClientRpc::read_data`: it takes a new session after any negative ID. -/
def read_data (id again : Int) : Option Int :=
  let id := if id < 0 then again else id
  if id < 0 then none else some id

end Gvds.ClientSession
