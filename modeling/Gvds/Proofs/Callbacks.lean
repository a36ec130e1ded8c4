/-
Module: Gvds.Proofs.Callbacks
Layer: Proofs
Purpose: The handlers of a client session over all interleavings of calls and replies. Every handler
  that is registered and whose reply is received runs once, unless a reply is received before its
  handler is registered, or finds the handler of another call under its ID.
Imports: Gvds.Lib.Machine, Gvds.Client.ClientSession
Trusted boundary: as Gvds.Client.ClientSession
Main exports: RunsOnce, Timely, step_runsOnce, handlers_run_once
-/
import Gvds.Lib.Machine
import Gvds.Client.ClientSession

namespace Gvds.ClientSession

/-- No handler runs twice, and one that is registered and whose reply is received has run, so that
its worker leaves `Processing`. -/
def RunsOnce (w : World) : Prop :=
  ∀ k, w.called k ≤ 1 ∧ (w.stage k = .registered → w.replied k = true → w.called k = 1)

/-- The handler that a reply to the call runs. -/
def runs (w : World) (k : Nat) : Option Nat :=
  match (do_read w.session (w.id k)).2 with
  | .handled f => f
  | _ => none

/-- A handler is registered before its reply is received. A reply runs no handler that has run, and
if its own call is registered, that one's, unless it has run. -/
def Timely (w : World) : Action → Prop
  | .register k => w.stage k = .written ∨ w.stage k = .refused → w.replied k = false
  | .receive k =>
      w.sent k = true → (∀ f, runs w k = some f → w.called f = 0) ∧
        (w.stage k = .registered → runs w k = some k ∨ w.called k = 1)
  | _ => True

/-- The handlers in the table are registered, and only such have run. -/
structure Listed (w : World) : Prop where
  handlers : ∀ id f, w.session.handlers id = some f → w.stage f = .registered
  called : ∀ f, w.called f ≠ 0 → w.stage f = .registered

/-! ### One step -/

/-- The handler that runs is in the table. -/
theorem handlers_of_runs {w : World} {k f : Nat} (h : runs w k = some f) :
    w.session.handlers (w.id k) = some f := by
  unfold runs do_read at h
  cases hpromise : w.session.ready_promises (w.id k) with
  | none => simp [hpromise] at h
  | some j =>
      rw [hpromise] at h
      dsimp only at h
      by_cases hauto : w.session.auto_handler (w.id k) = true
      · rw [if_pos hauto] at h
        exact h
      · rw [if_neg hauto] at h
        cases h

/-- What a reply leaves of a session and of the calls. -/
theorem receive_spec {w w' : World} {k : Nat} (hstep : step w (.receive k) = some w') :
    w.sent k = true ∧ w'.session = (do_read w.session (w.id k)).1 ∧ w'.stage = w.stage ∧
      w'.id = w.id ∧ w'.sent = w.sent ∧ w'.replied = Function.update w.replied k true ∧
      ∀ j, w'.called j = if runs w k = some j then w.called j + 1 else w.called j := by
  cases stepped_of_step hstep with
  | received _ hsent =>
      refine ⟨hsent, ?_⟩
      unfold runs
      cases (do_read w.session (w.id k)).2 with
      | duplicated => exact ⟨rfl, rfl, rfl, rfl, rfl, fun j => (if_neg (by simp)).symm⟩
      | value i => exact ⟨rfl, rfl, rfl, rfl, rfl, fun j => (if_neg (by simp)).symm⟩
      | handled f =>
          cases f with
          | none => exact ⟨rfl, rfl, rfl, rfl, rfl, fun j => (if_neg (by simp)).symm⟩
          | some f =>
              refine ⟨rfl, rfl, rfl, rfl, rfl, fun j => ?_⟩
              by_cases hj : f = j
              · subst hj
                simp [World.apply]
              · simp [World.apply, hj, Function.update_of_ne (Ne.symm hj)]

/-- What the steps of a caller leave of the calls. -/
theorem caller_spec {w w' : World} {a : Action} (hstep : step w a = some w')
    (ha : ∀ k, a ≠ .receive k) :
    w'.replied = w.replied ∧ w'.called = w.called ∧
      (∀ j, w.stage j = .registered → w'.stage j = .registered) ∧
      ((∃ k, a = .register k) ∨ w'.session.handlers = w.session.handlers ∧
        ∀ j, w'.stage j = .registered → w.stage j = .registered) := by
  have hkeep : ∀ (k : Nat) (st : Stage), w.stage k ≠ .registered →
      ∀ j, w.stage j = .registered → Function.update w.stage k st j = .registered := by
    intro k st hk j hj
    have hne : j ≠ k := by
      rintro rfl
      exact hk hj
    rw [Function.update_of_ne hne]
    exact hj
  have hback : ∀ (k : Nat) (st : Stage), st ≠ .registered →
      ∀ j, Function.update w.stage k st j = .registered → w.stage j = .registered := by
    intro k st hst j hj
    by_cases hjk : j = k
    · subst hjk
      rw [Function.update_self] at hj
      exact absurd hj hst
    · rwa [Function.update_of_ne hjk] at hj
  cases stepped_of_step hstep with
  | refused k hbefore =>
      exact ⟨rfl, rfl, hkeep k _ (by simp [hbefore]), .inr ⟨rfl, hback k _ (by decide)⟩⟩
  | numbered k hbefore =>
      exact ⟨rfl, rfl, hkeep k _ (by simp [hbefore]), .inr ⟨rfl, hback k _ (by decide)⟩⟩
  | entered k hbefore =>
      exact ⟨rfl, rfl, hkeep k _ (by simp [hbefore]), .inr ⟨rfl, hback k _ (by decide)⟩⟩
  | written k hbefore =>
      exact ⟨rfl, rfl, hkeep k _ (by simp [hbefore]), .inr ⟨rfl, hback k _ (by decide)⟩⟩
  | registered k hbefore =>
      refine ⟨rfl, rfl, hkeep k _ ?_, .inl ⟨k, rfl⟩⟩
      rcases hbefore with hbefore | hbefore <;> simp [hbefore]
  | received k _ => exact absurd rfl (ha k)

/-- A call that is registered. -/
theorem register_spec {w w' : World} {k : Nat} (hstep : step w (.register k) = some w') :
    (w.stage k = .written ∨ w.stage k = .refused) ∧
      w'.session = registe_handler w.session (w.id k) k ∧
      w'.stage = Function.update w.stage k .registered ∧ w'.id = w.id ∧ w'.sent = w.sent := by
  cases stepped_of_step hstep with
  | registered _ hbefore => exact ⟨hbefore, rfl, rfl, rfl, rfl⟩

/-- A reply leaves the handlers in the table. -/
theorem do_read_handlers (s : ClientSession) (id : Int) :
    (do_read s id).1.handlers = s.handlers := by
  unfold do_read
  cases s.ready_promises id with
  | none => rfl
  | some j =>
      dsimp only
      split <;> rfl

/-- Only registered handlers run. -/
theorem Listed.step {w w' : World} {a : Action} (h : Listed w)
    (hstep : ClientSession.step w a = some w') : Listed w' := by
  by_cases hreceive : ∃ k, a = .receive k
  · obtain ⟨k, rfl⟩ := hreceive
    obtain ⟨-, hsession, hstage, -, -, -, hcalled⟩ := receive_spec hstep
    constructor
    · intro id f hf
      rw [hsession, do_read_handlers] at hf
      rw [hstage]
      exact h.handlers id f hf
    · intro f hf
      rw [hstage]
      rw [hcalled] at hf
      split at hf
      · rename_i hruns
        exact h.handlers _ f (handlers_of_runs hruns)
      · exact h.called f hf
  · have hcaller := caller_spec hstep fun k heq => hreceive ⟨k, heq⟩
    obtain ⟨-, hcalled, hkeep, ⟨k, rfl⟩ | ⟨hhandlers, -⟩⟩ := hcaller
    · obtain ⟨-, hsession, hstage, -⟩ := register_spec hstep
      constructor
      · intro id f hf
        rw [hsession] at hf
        simp only [registe_handler] at hf
        by_cases hid : id = w.id k
        · subst hid
          rw [Function.update_self] at hf
          cases hold : w.session.handlers (w.id k) with
          | none =>
              rw [hold, Option.getD_none, Option.some_inj] at hf
              rw [← hf, hstage, Function.update_self]
          | some g =>
              rw [hold, Option.getD_some, Option.some_inj] at hf
              rw [← hf]
              exact hkeep g (h.handlers _ g hold)
        · rw [Function.update_of_ne hid] at hf
          exact hkeep f (h.handlers id f hf)
      · intro f hf
        rw [hcalled] at hf
        exact hkeep f (h.called f hf)
    · constructor
      · intro id f hf
        rw [hhandlers] at hf
        exact hkeep f (h.handlers id f hf)
      · intro f hf
        rw [hcalled] at hf
        exact hkeep f (h.called f hf)

/-- A step leads to a world in which every handler has run as it should iff it is in time. -/
theorem step_runsOnce {w w' : World} {a : Action} (hlisted : Listed w) (h : RunsOnce w)
    (hstep : step w a = some w') : RunsOnce w' ↔ Timely w a := by
  by_cases hreceive : ∃ k, a = .receive k
  · obtain ⟨k, rfl⟩ := hreceive
    obtain ⟨hsent, -, hstage, -, -, hreplied, hcalled⟩ := receive_spec hstep
    constructor
    · intro h' _
      constructor
      · intro f hf
        have hle := (h' f).1
        rw [hcalled, if_pos hf] at hle
        omega
      · intro hreg
        have hone := (h' k).2 (by rw [hstage, hreg]) (by rw [hreplied, Function.update_self])
        rw [hcalled] at hone
        split at hone
        · rename_i hruns
          exact .inl hruns
        · exact .inr hone
    · intro htimely
      obtain ⟨hfresh, hown⟩ := htimely hsent
      intro j
      rw [hcalled, hstage, hreplied]
      by_cases hruns : runs w k = some j
      · rw [if_pos hruns, hfresh j hruns]
        exact ⟨Nat.le_refl _, fun _ _ => rfl⟩
      · rw [if_neg hruns]
        refine ⟨(h j).1, fun hreg hj => ?_⟩
        by_cases hjk : j = k
        · subst hjk
          exact (hown hreg).resolve_left hruns
        · rw [Function.update_of_ne hjk] at hj
          exact (h j).2 hreg hj
  · obtain ⟨hreplied, hcalled, -, hcases⟩ := caller_spec hstep fun k heq => hreceive ⟨k, heq⟩
    cases a with
    | register k =>
        obtain ⟨hbefore, -, hstage, -⟩ := register_spec hstep
        have hnot : w.stage k ≠ .registered := by rcases hbefore with hst | hst <;> simp [hst]
        constructor
        · intro h' _
          cases hrep : w.replied k with
          | false => rfl
          | true =>
              have hone := (h' k).2 (by rw [hstage, Function.update_self]) (by rw [hreplied, hrep])
              rw [hcalled] at hone
              exact absurd (hlisted.called k (by rw [hone]; exact Nat.one_ne_zero)) hnot
        · intro htimely j
          rw [hcalled, hstage, hreplied]
          refine ⟨(h j).1, fun hreg hj => ?_⟩
          by_cases hjk : j = k
          · subst hjk
            rw [htimely hbefore] at hj
            cases hj
          · rw [Function.update_of_ne hjk] at hreg
            exact (h j).2 hreg hj
    | receive k => exact absurd ⟨k, rfl⟩ hreceive
    | _ =>
        obtain ⟨k, hk⟩ | ⟨-, hback⟩ := hcases
        · cases hk
        · refine ⟨fun _ => trivial, fun _ j => ?_⟩
          rw [hcalled, hreplied]
          exact ⟨(h j).1, fun hreg => (h j).2 (hback j hreg)⟩

/-! ### Runs -/

/-- **Every handler runs exactly once** if its reply is received, along a run iff all its steps are
in time. -/
theorem handlers_run_once (as : List Action) :
    Machine.Always step RunsOnce World.start as ↔ Machine.Guarded step Timely World.start as := by
  have hinv : ∀ w a w', Listed w → step w a = some w' → Listed w' :=
    fun _ _ _ h hstep => h.step hstep
  refine Machine.always_iff_guarded hinv
    (fun _ _ _ hlisted h hstep => step_runsOnce hlisted h hstep) (fun w a hnone => ?_)
    ⟨fun id f hf => (by cases hf), fun f hf => absurd rfl hf⟩
    fun k => ⟨Nat.zero_le _, fun hreg => (by cases hreg)⟩
  cases a with
  | register k =>
      intro hbefore
      simp only [step, if_pos hbefore] at hnone
      cases hnone
  | receive k =>
      intro hsent
      simp only [step, if_pos hsent] at hnone
      cases hnone
  | _ => trivial

/-- The world in which one call has taken its number. -/
def numberedOnce : World :=
  { World.start with
    session := { World.start.session with seq_n := 1 }
    stage := Function.update World.start.stage 0 .numbered
    id := Function.update World.start.id 0 (int 0) }

/-- A reply is received before its handler is registered, which then never runs. -/
theorem early_reply_loses_handler :
    ¬ ∀ as : List Action, Machine.Always step RunsOnce World.start as := by
  intro hall
  have h₁ := (hall [.number 0 false, .enter 0, .send 0, .receive 0, .register 0]).2 numberedOnce rfl
  have h₂ := h₁.2 _ rfl
  have h₃ := h₂.2 _ rfl
  have h₄ := h₃.2 _ rfl
  have h₅ := h₄.2 _ rfl
  have hone := (h₅ 0).2 rfl rfl
  cases hone

end Gvds.ClientSession
