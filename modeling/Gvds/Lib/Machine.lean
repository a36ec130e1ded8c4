/-
Module: Gvds.Lib.Machine
Layer: Lib
Purpose: Finite runs of a partial step function, runs whose steps all meet a guard, and the
  invariant and simulation rules for them. A step function `σ → α → Option σ` refuses an action that
  is not enabled; the action resolves whatever the scheduler, the network or the client decides.
Imports: Mathlib.Tactic.Basic
Trusted boundary: none
Main exports: Machine.run, Machine.Guarded, Machine.run_invariant, Machine.run_preserves,
  Machine.Always, Machine.always_of_preserves, Machine.always_iff_guarded,
  Machine.always_and_guarded_iff, Machine.run_simulation
-/
import Mathlib.Tactic.Basic

namespace Machine

variable {σ α : Type*}

/-- Execute a list of actions from left to right; an action that is not enabled stops the run. -/
def run (step : σ → α → Option σ) : σ → List α → Option σ
  | s, [] => some s
  | s, a :: as => (step s a).bind fun t => run step t as

/-- Every step of the run from `s` along the listed actions starts in a state that meets `ok`. -/
def Guarded (step : σ → α → Option σ) (ok : σ → α → Prop) : σ → List α → Prop
  | _, [] => True
  | s, a :: as => ok s a ∧ ∀ t, step s a = some t → Guarded step ok t as

/-- A run along a nonempty list takes the first step and goes on from there. -/
theorem run_cons_eq_some {step : σ → α → Option σ} {s u : σ} {a : α} {as : List α} :
    run step s (a :: as) = some u ↔ ∃ t, step s a = some t ∧ run step t as = some u := by
  simp [run, Option.bind_eq_some_iff]

/-- Runs compose: a run along `as ++ bs` is a run along `as` followed by one along `bs`. -/
theorem run_append (step : σ → α → Option σ) (s : σ) (as bs : List α) :
    run step s (as ++ bs) = (run step s as).bind fun t => run step t bs := by
  induction as generalizing s with
  | nil => rfl
  | cons a as ih =>
      cases hstep : step s a with
      | none => simp [run, hstep]
      | some t => simp [run, hstep, ih]

/-- The invariant rule: what holds at the start and is kept by every guarded step holds at the end
of every guarded run, hence in every state it passes through. -/
theorem run_invariant {step : σ → α → Option σ} {ok : σ → α → Prop} {Inv : σ → Prop}
    (hstep : ∀ s a t, Inv s → ok s a → step s a = some t → Inv t)
    {s t : σ} {as : List α} (hs : Inv s) (hguard : Guarded step ok s as)
    (hrun : run step s as = some t) : Inv t := by
  induction as generalizing s with
  | nil =>
      cases hrun
      exact hs
  | cons a as ih =>
      obtain ⟨u, hu, hrest⟩ := run_cons_eq_some.mp hrun
      exact ih (hstep s a u hs hguard.1 hu) (hguard.2 u hu) hrest

/-- The invariant rule for runs of any steps. -/
theorem run_preserves {step : σ → α → Option σ} {Inv : σ → Prop}
    (hstep : ∀ s a t, Inv s → step s a = some t → Inv t) {s t : σ} {as : List α} (hs : Inv s)
    (hrun : run step s as = some t) : Inv t := by
  induction as generalizing s with
  | nil =>
      cases hrun
      exact hs
  | cons a as ih =>
      obtain ⟨u, hu, hrest⟩ := run_cons_eq_some.mp hrun
      exact ih (hstep s a u hs hu) hrest

/-- A run comes to its end iff each of its steps meets what it takes to be enabled. -/
theorem isSome_run_iff {step : σ → α → Option σ} {ok : σ → α → Prop}
    (hstep : ∀ s a, (step s a).isSome = true ↔ ok s a) {s : σ} {as : List α} :
    (run step s as).isSome = true ↔ Guarded step ok s as := by
  induction as generalizing s with
  | nil => simp [run, Guarded]
  | cons a as ih =>
      have ha := hstep s a
      cases hnext : step s a with
      | none => simpa [run, Guarded, hnext] using ha
      | some t =>
          rw [hnext] at ha
          simp [run, Guarded, hnext, ← ha, ih]

/-- A guarded run may be put together from two. -/
theorem Guarded.append {step : σ → α → Option σ} {ok : σ → α → Prop} {s : σ} {as bs : List α}
    (h : Guarded step ok s as)
    (hnext : ∀ t, run step s as = some t → Guarded step ok t bs) :
    Guarded step ok s (as ++ bs) := by
  induction as generalizing s with
  | nil => exact hnext s rfl
  | cons a as ih =>
      exact ⟨h.1, fun t ht =>
        ih (h.2 t ht) fun u hu => hnext u (run_cons_eq_some.mpr ⟨t, ht, hu⟩)⟩

/-- The last step of a guarded run meets the guard. -/
theorem Guarded.last {step : σ → α → Option σ} {ok : σ → α → Prop} {s t : σ} {as : List α} {a : α}
    (h : Guarded step ok s (as ++ [a])) (hrun : run step s as = some t) : ok t a := by
  induction as generalizing s with
  | nil =>
      cases hrun
      exact h.1
  | cons b as ih =>
      obtain ⟨u, hu, hrest⟩ := run_cons_eq_some.mp hrun
      exact ih (h.2 u hu) hrest

/-- A guard may be replaced along a run by one that follows from it in the states of an
invariant. -/
theorem Guarded.of_invariant {step : σ → α → Option σ} {ok ok' : σ → α → Prop} {Inv : σ → Prop}
    (hstep : ∀ s a t, Inv s → ok s a → step s a = some t → Inv t)
    (himp : ∀ s a, Inv s → ok s a → ok' s a) {s : σ} {as : List α} (hs : Inv s)
    (h : Guarded step ok s as) : Guarded step ok' s as := by
  induction as generalizing s with
  | nil => trivial
  | cons a as ih =>
      exact ⟨himp s a hs h.1, fun t ht => ih (hstep s a t hs h.1 ht) (h.2 t ht)⟩

/-- A guard may be replaced by a weaker one. -/
theorem Guarded.mono {step : σ → α → Option σ} {ok ok' : σ → α → Prop}
    (himp : ∀ s a, ok s a → ok' s a) {s : σ} {as : List α} (h : Guarded step ok s as) :
    Guarded step ok' s as := by
  induction as generalizing s with
  | nil => trivial
  | cons a as ih => exact ⟨himp s a h.1, fun t ht => ih (h.2 t ht)⟩

/-- A guard on the actions alone is met by every run along such actions. -/
theorem Guarded.of_forall {step : σ → α → Option σ} {p : α → Prop} {s : σ} {as : List α}
    (h : ∀ a ∈ as, p a) : Guarded step (fun _ a => p a) s as := by
  induction as generalizing s with
  | nil => trivial
  | cons a as ih => exact ⟨h a (by simp), fun t _ => ih fun b hb => h b (by simp [hb])⟩

/-- Every state of the run from `s` along the listed actions has the property `P`. -/
def Always (step : σ → α → Option σ) (P : σ → Prop) : σ → List α → Prop
  | s, [] => P s
  | s, a :: as => P s ∧ ∀ t, step s a = some t → Always step P t as

/-- A property holds in every state of a run iff the run is guarded, if from a state that has it a
step leads to one that has it iff the guard is met. `Inv` is what holds in any case. -/
theorem always_iff_guarded {step : σ → α → Option σ} {P Inv : σ → Prop} {ok : σ → α → Prop}
    (hinv : ∀ s a t, Inv s → step s a = some t → Inv t)
    (hstep : ∀ s a t, Inv s → P s → step s a = some t → (P t ↔ ok s a))
    (henabled : ∀ s a, step s a = none → ok s a) {s : σ} {as : List α} (hs : Inv s) (hp : P s) :
    Always step P s as ↔ Guarded step ok s as := by
  induction as generalizing s with
  | nil => exact ⟨fun _ => trivial, fun _ => hp⟩
  | cons a as ih =>
      cases hnext : step s a with
      | none => simp [Always, Guarded, hnext, hp, henabled s a hnext]
      | some t =>
          simp only [Always, Guarded, hnext, Option.some.injEq, forall_eq', hp, true_and]
          rw [← hstep s a t hs hp hnext]
          constructor
          · intro halways
            have hpt : P t := by
              cases as with
              | nil => exact halways
              | cons b bs => exact halways.1
            exact ⟨hpt, (ih (hinv s a t hs hnext) hpt).mp halways⟩
          · rintro ⟨hpt, hguard⟩
            exact (ih (hinv s a t hs hnext) hpt).mpr hguard

/-- A property of all states of a run and one of all its steps hold iff the run is guarded, if from a
state that has the one a step has the other and leads to such a state iff the guard is met. -/
theorem always_and_guarded_iff {step : σ → α → Option σ} {P Inv : σ → Prop}
    {Q ok : σ → α → Prop} (hinv : ∀ s a t, Inv s → step s a = some t → Inv t)
    (hstep : ∀ s a t, Inv s → P s → step s a = some t → (P t ∧ Q s a ↔ ok s a))
    (henabled : ∀ s a, Inv s → P s → step s a = none → (Q s a ↔ ok s a)) {s : σ} {as : List α}
    (hs : Inv s) (hp : P s) :
    Always step P s as ∧ Guarded step Q s as ↔ Guarded step ok s as := by
  induction as generalizing s with
  | nil => exact ⟨fun _ => trivial, fun _ => ⟨hp, trivial⟩⟩
  | cons a as ih =>
      cases hnext : step s a with
      | none => simp [Always, Guarded, hnext, hp, henabled s a hs hp hnext]
      | some t =>
          simp only [Always, Guarded, hnext, Option.some.injEq, forall_eq', hp, true_and]
          rw [← hstep s a t hs hp hnext]
          constructor
          · rintro ⟨halways, hq, hguard⟩
            have hpt : P t := by
              cases as with
              | nil => exact halways
              | cons b bs => exact halways.1
            exact ⟨⟨hpt, hq⟩, (ih (hinv s a t hs hnext) hpt).mp ⟨halways, hguard⟩⟩
          · rintro ⟨⟨hpt, hq⟩, hguard⟩
            obtain ⟨halways, hrest⟩ := (ih (hinv s a t hs hnext) hpt).mpr hguard
            exact ⟨halways, hq, hrest⟩

/-- What follows from an invariant of the guarded steps holds in every state of a guarded run. -/
theorem Guarded.always {step : σ → α → Option σ} {ok : σ → α → Prop} {P Inv : σ → Prop}
    (hstep : ∀ s a t, Inv s → ok s a → step s a = some t → Inv t) (himp : ∀ s, Inv s → P s) {s : σ}
    {as : List α} (hs : Inv s) (h : Guarded step ok s as) : Always step P s as := by
  induction as generalizing s with
  | nil => exact himp s hs
  | cons a as ih => exact ⟨himp s hs, fun t ht => ih (hstep s a t hs h.1 ht) (h.2 t ht)⟩

/-- What follows from an invariant of all steps holds in every state of a run. -/
theorem always_of_preserves {step : σ → α → Option σ} {P Inv : σ → Prop}
    (hstep : ∀ s a t, Inv s → step s a = some t → Inv t) (himp : ∀ s, Inv s → P s) {s : σ}
    {as : List α} (hs : Inv s) : Always step P s as := by
  induction as generalizing s with
  | nil => exact himp s hs
  | cons a as ih => exact ⟨himp s hs, fun t ht => ih (hstep s a t hs ht)⟩

/-- A property of every state of a run is one of its last state. -/
theorem Always.last {step : σ → α → Option σ} {P : σ → Prop} {s t : σ} {as : List α}
    (h : Always step P s as) (hrun : run step s as = some t) : P t := by
  induction as generalizing s with
  | nil =>
      cases hrun
      exact h
  | cons a as ih =>
      obtain ⟨u, hu, hrest⟩ := run_cons_eq_some.mp hrun
      exact ih (h.2 u hu) hrest

/-- Whether the steps of a run meet a guard can be computed if the guard can. -/
instance Guarded.decidable {step : σ → α → Option σ} {ok : σ → α → Prop}
    [∀ s a, Decidable (ok s a)] : (s : σ) → (as : List α) → Decidable (Guarded step ok s as)
  | _, [] => .isTrue trivial
  | s, a :: as =>
      match h : step s a with
      | none => decidable_of_iff (ok s a) (by simp [Guarded, h])
      | some t =>
          let _ : Decidable (Guarded step ok t as) := Guarded.decidable t as
          decidable_of_iff (ok s a ∧ Guarded step ok t as) (by simp [Guarded, h])

/-- The simulation rule: if an abstract total machine follows every guarded concrete step, it
follows every guarded run. -/
theorem run_simulation {τ : Type*} {step : σ → α → Option σ} {ok : σ → α → Prop}
    {astep : τ → α → τ} {Sim : τ → σ → Prop}
    (hstep : ∀ x s a t, Sim x s → ok s a → step s a = some t → Sim (astep x a) t)
    {x : τ} {s t : σ} {as : List α} (hs : Sim x s) (hguard : Guarded step ok s as)
    (hrun : run step s as = some t) : Sim (as.foldl astep x) t := by
  induction as generalizing x s with
  | nil =>
      cases hrun
      exact hs
  | cons a as ih =>
      obtain ⟨u, hu, hrest⟩ := run_cons_eq_some.mp hrun
      exact ih (hstep x s a u hs hguard.1 hu) (hguard.2 u hu) hrest

end Machine
