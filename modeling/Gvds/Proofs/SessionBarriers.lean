/-
Module: Gvds.Proofs.SessionBarriers
Layer: Proofs
Purpose: block_on_op as a barrier, over all interleavings of writers, replies and waiting threads.
  A call that returns 0 follows the replies to all requests written before it, in those runs where
  the one reply it waits for is the last of them.
Imports: Gvds.Lib.Machine, Gvds.Client.SessionBarrier, Gvds.Proofs.Callbacks
Trusted boundary: as Gvds.Client.SessionBarrier
Main exports: Barriers, Outstanding, Waits, stepBarriers_iff, block_on_op_waits_iff,
  reply_out_of_order_passes
-/
import Gvds.Lib.Machine
import Gvds.Client.SessionBarrier
import Gvds.Proofs.Callbacks

namespace Gvds.ClientSession

/-- Every call of `block_on_op` that has returned 0 follows the replies to all requests that were
written before it. -/
def Barriers (s : Session) : Prop :=
  ∀ b before, s.barriers b = .returned 0 before → ∀ k, before k = true → s.world.replied k = true

/-- One of some requests has got no reply. -/
def Outstanding (w : World) (before : Nat → Bool) : Prop :=
  ∃ k, before k = true ∧ w.replied k = false

/-- What a step needs. As long as a request written before a call of `block_on_op` is outstanding:
the call finds the future of the newest request, not ready yet; the reply that it then waits for is
not received, unless nothing else is outstanding; and no request takes the ID of that one. -/
def Waits (s : Session) : Act → Prop
  | .look b => ∀ id before, s.barriers b = .began id before → Outstanding s.world before →
      ∃ k, s.world.session.futures id = some k ∧ s.settled k = false
  | .session (.receive k) => s.world.sent k = true → ∀ b k' before,
      s.world.session.ready_promises (s.world.id k) = some k' →
      s.barriers b = .waiting k' before →
      ∀ j, before j = true → s.world.replied j = false → j = k
  | .session (.enter k) => s.world.stage k = .numbered → ∀ b k' before,
      s.world.session.ready_promises (s.world.id k) = some k' →
      s.barriers b = .waiting k' before → ¬ Outstanding s.world before
  | _ => True

/-- Nothing is outstanding iff all of it has got its reply. -/
theorem not_outstanding_iff (w : World) (before : Nat → Bool) :
    ¬ Outstanding w before ↔ ∀ k, before k = true → w.replied k = true := by
  simp [Outstanding]

/-- A call has returned 0 after a promise has left the table iff it had before or it waits on
that promise. -/
theorem settle_eq_returned_iff (k : Nat) (x : Barrier) (before : Nat → Bool) :
    x.settle k = .returned 0 before ↔ x = .returned 0 before ∨ x = .waiting k before := by
  cases x with
  | waiting k' before' =>
      by_cases hk : k' = k
      · simp [Barrier.settle, hk]
      · simp [Barrier.settle, hk]
  | _ => simp [Barrier.settle]

/-- What a promise that leaves the table means for the barriers. -/
theorem barriers_settle_iff (s : Session) (k : Option Nat) :
    Barriers (settle s k) ↔ Barriers s ∧
      ∀ b k' before, k = some k' → s.barriers b = .waiting k' before →
        ¬ Outstanding s.world before := by
  cases k with
  | none => simp [settle]
  | some k =>
      simp only [Barriers, settle, settle_eq_returned_iff, not_outstanding_iff]
      constructor
      · intro h
        refine ⟨fun b before hb => h b before (.inl hb), fun b k' before hk hb => ?_⟩
        cases hk
        exact h b before (.inr hb)
      · rintro ⟨hbefore, hnew⟩ b before (hb | hb)
        · exact hbefore b before hb
        · exact hnew b k before rfl hb

/-- No reply is lost. -/
theorem replied_mono {w w' : World} {a : Action} (hstep : step w a = some w') {k : Nat}
    (hk : w.replied k = true) : w'.replied k = true := by
  by_cases hreceive : ∃ j, a = .receive j
  · obtain ⟨j, rfl⟩ := hreceive
    obtain ⟨-, -, -, -, -, hreplied, -⟩ := receive_spec hstep
    rw [hreplied, Function.update_apply]
    split
    · rfl
    · exact hk
  · rw [(caller_spec hstep fun j heq => hreceive ⟨j, heq⟩).1]
    exact hk

/-- What a barrier asks for stays so when the world goes on. -/
theorem Barriers.world {s : Session} (h : Barriers s) {w : World}
    (hmono : ∀ k, s.world.replied k = true → w.replied k = true) :
    Barriers { s with world := w } :=
  fun b before hb k hk => hmono k (h b before hb k hk)

/-- A call of `block_on_op` that goes on. -/
theorem barriers_update_iff {s : Session} (h : Barriers s) (b : Nat) (x : Barrier) :
    Barriers { s with barriers := Function.update s.barriers b x } ↔
      ∀ before, x = .returned 0 before → ¬ Outstanding s.world before := by
  simp only [Barriers, not_outstanding_iff]
  constructor
  · intro hall before hx
    exact hall b before (by rw [Function.update_self]; exact hx)
  · intro hnew b' before hb'
    by_cases hb : b' = b
    · subst hb
      rw [Function.update_self] at hb'
      exact hnew before hb'
    · rw [Function.update_of_ne hb] at hb'
      exact h b' before hb'

/-- What the call finds. -/
theorem look_eq_returned_iff (s : Session) (id : Int) (before before' : Nat → Bool) :
    look s id before = .returned 0 before' ↔ before = before' ∧
      ¬ ∃ k, s.world.session.futures id = some k ∧ s.settled k = false := by
  unfold look
  cases s.world.session.futures id with
  | none => simp
  | some k => cases hsettled : s.settled k <;> simp [hsettled]

theorem session_iff {s t : Session} {a : Action} (h : Barriers s)
    (hstep : stepBarriers s (.session a) = some t) : Barriers t ↔ Waits s (.session a) := by
  simp only [stepBarriers, Option.map_eq_some_iff] at hstep
  obtain ⟨w, hworld, rfl⟩ := hstep
  rw [barriers_settle_iff, and_iff_right (h.world fun _ => replied_mono hworld)]
  cases a with
  | receive k =>
      obtain ⟨hsent, -, -, -, -, hreplied, -⟩ := receive_spec hworld
      simp only [Waits, leaving, not_outstanding_iff, hreplied, hsent, forall_true_left,
        Function.update_apply]
      refine forall₃_congr fun b k' before => imp_congr_right fun _ => imp_congr_right fun _ =>
        forall₂_congr fun j _ => ?_
      by_cases hj : j = k <;> simp [hj]
  | enter k =>
      have hreplied := (caller_spec hworld fun j heq => by cases heq).1
      cases stepped_of_step hworld with
      | entered _ hbefore => simp [Waits, leaving, hbefore, not_outstanding_iff]
  | number k error_stat => simp [leaving, Waits]
  | send k => simp [leaving, Waits]
  | register k => simp [leaving, Waits]

/-- A step leads to a state in which the barriers are right iff it meets the condition. -/
theorem stepBarriers_iff {s t : Session} {a : Act} (h : Barriers s)
    (hstep : stepBarriers s a = some t) : Barriers t ↔ Waits s a := by
  cases a with
  | session a => exact session_iff h hstep
  | waitOp id =>
      cases hstep
      exact iff_of_true (h.world fun _ hk => hk) trivial
  | autoHandle id =>
      cases hstep
      exact iff_of_true (h.world fun _ hk => hk) trivial
  | begin b =>
      simp only [stepBarriers] at hstep
      split at hstep <;> cases hstep
      refine iff_of_true ((barriers_update_iff h b _).mpr fun before heq => ?_) trivial
      cases heq
  | look b =>
      simp only [stepBarriers] at hstep
      split at hstep <;> cases hstep
      rename_i id before hb
      rw [barriers_update_iff h, Waits]
      simp only [look_eq_returned_iff]
      constructor
      · intro hnew id' before' hb' hout
        rw [hb] at hb'
        cases hb'
        by_contra hnone
        exact hnew before ⟨rfl, hnone⟩ hout
      · rintro hwaits before' ⟨rfl, hnone⟩ hout
        exact hnone (hwaits id before hb hout)
  | timeOut b =>
      simp only [stepBarriers] at hstep
      split at hstep <;> cases hstep
      refine iff_of_true ((barriers_update_iff h b _).mpr fun before heq => ?_) trivial
      cases heq

/-- For every number of writers and of waiting threads, every interleaving, and every order of the
replies: each call of `block_on_op` that returns 0 follows the replies to all requests written
before it, iff every step of the run meets the condition. -/
theorem block_on_op_waits_iff (acts : List Act) :
    Machine.Always stepBarriers Barriers Session.start acts ↔
      Machine.Guarded stepBarriers Waits Session.start acts := by
  have hinv : ∀ (s : Session) (a : Act) (t : Session), True → stepBarriers s a = some t → True :=
    fun _ _ _ h _ => h
  refine Machine.always_iff_guarded hinv
    (fun _ _ _ _ h hstep => stepBarriers_iff h hstep) (fun s a hnone => ?_) trivial
    fun b before hb => by cases hb
  cases a with
  | session a =>
      simp only [stepBarriers, Option.map_eq_none_iff] at hnone
      cases a with
      | receive k =>
          intro hsent
          simp only [step, if_pos hsent] at hnone
          cases hnone
      | enter k =>
          intro hstage
          simp only [step, if_pos hstage] at hnone
          cases hnone
      | _ => trivial
  | look b =>
      intro id before hb
      simp [stepBarriers, hb] at hnone
  | _ => trivial

/-- Two requests are written and their handlers registered; the second one is answered first, and
`block_on_op` is called. -/
def secondAnswered : List Act :=
  [.session (.number 0 false), .session (.enter 0), .session (.send 0), .session (.register 0),
    .session (.number 1 false), .session (.enter 1), .session (.send 1), .session (.register 1),
    .session (.receive 1), .begin 0, .look 0]

/-- The first call of `block_on_op` has returned 0 while the first request is outstanding. -/
def passed (s : Session) : Bool :=
  match s.barriers 0 with
  | .returned 0 before => before 0 && !s.world.replied 0
  | _ => false

/-- `block_on_op` returns 0 at once, with the first request outstanding. -/
theorem reply_out_of_order_passes :
    ¬ ∀ acts, Machine.Always stepBarriers Barriers Session.start acts := by
  intro hall
  have hpassed : (Machine.run stepBarriers Session.start secondAnswered).any passed = true := by
    decide +kernel
  obtain ⟨t, hrun, ht⟩ := (Option.any_eq_true _ _).mp hpassed
  have hright := (hall secondAnswered).last hrun
  unfold passed at ht
  split at ht
  · rename_i before hb
    rw [Bool.and_eq_true] at ht
    have hreplied := hright 0 before hb 0 ht.1
    simp [hreplied] at ht
  · cases ht

end Gvds.ClientSession
