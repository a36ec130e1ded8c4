/-
Module: Gvds.Lib.Program
Layer: Lib
Purpose: Programs that work through calls to a server. A program is the tree of its calls with what
  it does on each answer; a handler that gives the answers runs it alone. The operations of a
  program may be programs themselves. A server keeps a store of cells: a call reads the store and
  changes one cell at most. It may also fail calls by a given pattern.
Imports: Mathlib.Logic.Function.Basic, Mathlib.Tactic.Basic
Trusted boundary: none
Main exports: Program, Program.perform, Program.run, Program.run_bind, Program.All,
  Program.Returns, Program.all_bind_iff, Program.expand, Program.Along, Program.along_iff, Server,
  Server.exec, Server.execFaulty, Server.exec_eq_execFaulty, Server.exec_keeps
-/
import Mathlib.Logic.Function.Basic
import Mathlib.Tactic.Basic

/-- A program that makes calls of `C` and ends with a value. -/
inductive Program (C : Type → Type) (α : Type) : Type 1 where
  | done (a : α)
  | call {β : Type} (c : C β) (next : β → Program C α)

namespace Program

variable {C : Type → Type} {α β γ : Type} {σ : Type*}

/-- Go on with a second program. -/
def bind : Program C α → (α → Program C β) → Program C β
  | .done a, f => f a
  | .call c next, f => .call c fun b => bind (next b) f

instance : Monad (Program C) where
  pure := .done
  bind := Program.bind

/-- Make one call. -/
def perform (c : C α) : Program C α := .call c .done

/-- Run a program, with a handler that answers its calls and changes a state. -/
def run (handle : ∀ {β : Type}, C β → σ → β × σ) : Program C α → σ → α × σ
  | .done a, s => (a, s)
  | .call c next, s => run handle (next (handle c s).1) (handle c s).2

variable {handle : ∀ {β : Type}, C β → σ → β × σ}

/-- A composed program runs the second part where the first one ends. -/
@[simp] theorem run_bind (p : Program C α) (f : α → Program C β) (s : σ) :
    run handle (p >>= f) s = run handle (f (run handle p s).1) (run handle p s).2 := by
  change run handle (p.bind f) s = _
  induction p generalizing s with
  | done a => rfl
  | call c next ih => exact ih (handle c s).1 (handle c s).2

/-- A choice between programs. -/
theorem run_ite (P : Prop) [Decidable P] (p q : Program C α) (s : σ) :
    run handle (if P then p else q) s = if P then run handle p s else run handle q s := by
  split <;> rfl

/-- All calls that a program can make, whatever it is answered, have a property. -/
def All (P : ∀ β : Type, C β → Prop) : Program C α → Prop
  | .done _ => True
  | .call c next => P _ c ∧ ∀ b, All P (next b)

section All

variable {P : ∀ β : Type, C β → Prop}

@[simp] theorem all_pure (a : α) : All P (pure a : Program C α) := trivial

@[simp] theorem all_perform {c : C α} : All P (perform c : Program C α) ↔ P α c :=
  ⟨fun h => h.1, fun h => ⟨h, fun _ => trivial⟩⟩

theorem All.bind {p : Program C α} {f : α → Program C β} (hp : All P p) (hf : ∀ a, All P (f a)) :
    All P (p >>= f) := by
  change All P (p.bind f)
  induction p with
  | done a => exact hf a
  | call c next ih => exact ⟨hp.1, fun b => ih b (hp.2 b)⟩

theorem All.ite {Q : Prop} [Decidable Q] {p q : Program C α} (hp : All P p) (hq : All P q) :
    All P (if Q then p else q) := by
  split
  · exact hp
  · exact hq

/-- A property of calls may be weakened. -/
theorem All.mono {Q : ∀ β : Type, C β → Prop} {p : Program C α} (h : All P p)
    (hPQ : ∀ β c, P β c → Q β c) : All Q p := by
  induction p with
  | done a => trivial
  | call c next ih => exact ⟨hPQ _ c h.1, fun b => ih b (h.2 b)⟩

/-- A family of properties that all calls have. -/
theorem all_forall_iff {ι : Sort*} {Q : ι → ∀ β : Type, C β → Prop} {p : Program C α} :
    All (fun β c => ∀ i, Q i β c) p ↔ ∀ i, All (Q i) p := by
  constructor
  · intro h i
    exact h.mono fun β c hc => hc i
  · intro h
    induction p with
    | done a => trivial
    | call c next ih => exact ⟨fun i => (h i).1, fun b => ih b fun i => (h i).2 b⟩

end All

/-- Some answers lead the program to the value. -/
def Returns (p : Program C α) (a : α) : Prop :=
  match p with
  | .done b => b = a
  | .call _ next => ∃ b, Returns (next b) a

section Returns

@[simp] theorem returns_pure {a b : α} : Returns (pure a : Program C α) b ↔ a = b := Iff.rfl

@[simp] theorem returns_perform (c : C α) (a : α) : Returns (perform c) a := ⟨a, rfl⟩

@[simp] theorem returns_bind {p : Program C α} {f : α → Program C β} {b : β} :
    Returns (p >>= f) b ↔ ∃ a, Returns p a ∧ Returns (f a) b := by
  change Returns (p.bind f) b ↔ _
  induction p with
  | done a =>
      constructor
      · intro h
        exact ⟨a, rfl, h⟩
      · rintro ⟨a', rfl, h⟩
        exact h
  | call c next ih =>
      constructor
      · rintro ⟨x, hx⟩
        obtain ⟨a, ha, hb⟩ := (ih x).mp hx
        exact ⟨a, ⟨x, ha⟩, hb⟩
      · rintro ⟨a, ⟨x, ha⟩, hb⟩
        exact ⟨x, (ih x).mpr ⟨a, ha, hb⟩⟩

/-- The calls of a composed program: those of the first part, and those of the second part on each
value that the first part can have. -/
theorem all_bind_iff {P : ∀ β : Type, C β → Prop} {p : Program C α} {f : α → Program C β} :
    All P (p >>= f) ↔ All P p ∧ ∀ a, Returns p a → All P (f a) := by
  change All P (p.bind f) ↔ _
  induction p with
  | done a =>
      constructor
      · intro h
        refine ⟨trivial, ?_⟩
        rintro a' rfl
        exact h
      · rintro ⟨_, h⟩
        exact h a rfl
  | call c next ih =>
      constructor
      · rintro ⟨hc, hnext⟩
        refine ⟨⟨hc, fun x => ((ih x).mp (hnext x)).1⟩, ?_⟩
        rintro a ⟨x, hx⟩
        exact ((ih x).mp (hnext x)).2 a hx
      · rintro ⟨⟨hc, hnext⟩, hf⟩
        exact ⟨hc, fun x => (ih x).mpr ⟨hnext x, fun a ha => hf a ⟨x, ha⟩⟩⟩

end Returns

/-! ### Programs of programs -/

section Expand

variable {D : Type → Type} (f : ∀ {β : Type}, D β → Program C β)

/-- Put a program of calls in the place of each operation. -/
def expand : Program D α → Program C α
  | .done a => .done a
  | .call d next => bind (f d) fun b => expand (next b)

theorem bind_assoc (p : Program C α) (g : α → Program C β) (h : β → Program C γ) :
    (p >>= g) >>= h = p >>= fun a => g a >>= h := by
  change (p.bind g).bind h = p.bind fun a => (g a).bind h
  induction p with
  | done a => rfl
  | call c next ih => exact congrArg (Program.call c) (funext ih)

theorem bind_done (p : Program C α) : p.bind .done = p := by
  induction p with
  | done a => rfl
  | call c next ih => exact congrArg (Program.call c) (funext ih)

@[simp] theorem expand_pure (a : α) : expand f (pure a) = pure a := rfl

@[simp] theorem expand_perform (d : D α) : expand f (perform d) = f d := bind_done (f d)

@[simp] theorem expand_bind (p : Program D α) (g : α → Program D β) :
    expand f (p >>= g) = expand f p >>= fun a => expand f (g a) := by
  change expand f (p.bind g) = _
  induction p with
  | done a => rfl
  | call d next ih =>
      have hnext : (fun b => expand f ((next b).bind g)) =
          fun b => expand f (next b) >>= fun a => expand f (g a) := funext ih
      change (f d >>= fun b => expand f ((next b).bind g)) = _
      rw [hnext, ← bind_assoc]
      rfl

@[simp] theorem expand_ite (P : Prop) [Decidable P] (p q : Program D α) :
    expand f (if P then p else q) = if P then expand f p else expand f q := by
  split <;> rfl

/-- Running the programs of the operations is running the expanded program. -/
theorem run_expand (handle : ∀ {β : Type}, C β → σ → β × σ) (p : Program D α) (s : σ) :
    run handle (expand f p) s = run (fun {_} d s => run handle (f d) s) p s := by
  induction p generalizing s with
  | done a => rfl
  | call d next ih =>
      change run handle (f d >>= fun b => expand f (next b)) s = _
      rw [run_bind, ih]
      rfl

end Expand

/-- Along a run, every call has a property in the state in which it is made. -/
def Along (handle : ∀ {β : Type}, C β → σ → β × σ) (P : ∀ β : Type, C β → σ → Prop) :
    Program C α → σ → Prop
  | .done _, _ => True
  | .call c next, s => P _ c s ∧ Along handle P (next (handle c s).1) (handle c s).2

/-- Two properties of calls hold along the same runs, if they are the same in the states of an
invariant that the one of them keeps. -/
theorem along_iff {A : ∀ β : Type, C β → Prop} {P Q : ∀ β : Type, C β → σ → Prop} {Inv : σ → Prop}
    (hsame : ∀ β (c : C β) s, A β c → Inv s → (P β c s ↔ Q β c s))
    (hkeep : ∀ β (c : C β) s, A β c → Inv s → P β c s → Inv (handle c s).2)
    {p : Program C α} (hp : p.All A) {s : σ} (hs : Inv s) :
    Along handle P p s ↔ Along handle Q p s := by
  induction p generalizing s with
  | done a => exact Iff.rfl
  | call c next ih =>
      constructor
      · rintro ⟨hc, hrest⟩
        exact ⟨(hsame _ c s hp.1 hs).mp hc,
          (ih _ (hp.2 _) (hkeep _ c s hp.1 hs hc)).mp hrest⟩
      · rintro ⟨hc, hrest⟩
        have hpc := (hsame _ c s hp.1 hs).mpr hc
        exact ⟨hpc, (ih _ (hp.2 _) (hkeep _ c s hp.1 hs hpc)).mpr hrest⟩

end Program

/-- A server over cells `ν k`: what it answers, which cell a call changes and how, and what a call
that fails returns. -/
structure Server (C : Type → Type) (κ : Type) (ν : κ → Type) where
  answer : ∀ {β : Type}, C β → (∀ k, ν k) → β
  write : ∀ {β : Type}, C β → Option ((k : κ) × (ν k → ν k))
  failed : ∀ {β : Type}, C β → β

namespace Server

variable {C : Type → Type} {κ : Type} [DecidableEq κ] {ν : κ → Type} {α β : Type}

/-- The store after a call. -/
def after (srv : Server C κ ν) (c : C β) (s : ∀ k, ν k) : ∀ k, ν k :=
  match srv.write c with
  | none => s
  | some ⟨k, f⟩ => Function.update s k (f (s k))

/-- A call that succeeds. -/
def handle (srv : Server C κ ν) {β : Type} (c : C β) (s : ∀ k, ν k) : β × (∀ k, ν k) :=
  (srv.answer c s, srv.after c s)

/-- Run a program alone, with all calls succeeding. -/
def exec (srv : Server C κ ν) (p : Program C α) (s : ∀ k, ν k) : α × (∀ k, ν k) :=
  p.run srv.handle s

/-- The call with number `n` fails if `fails n`; then it changes nothing. -/
def handleFaulty (srv : Server C κ ν) (fails : Nat → Bool) {β : Type} (c : C β)
    (s : (∀ k, ν k) × Nat) : β × (∀ k, ν k) × Nat :=
  if fails s.2 then (srv.failed c, s.1, s.2 + 1) else (srv.answer c s.1, srv.after c s.1, s.2 + 1)

/-- Run a program alone, from call number `n` on, with the calls failing that `fails` says. -/
def execFaulty (srv : Server C κ ν) (fails : Nat → Bool) (p : Program C α)
    (s : (∀ k, ν k) × Nat) : α × (∀ k, ν k) × Nat :=
  p.run (srv.handleFaulty fails) s

@[simp] theorem exec_pure (srv : Server C κ ν) (a : α) (s : ∀ k, ν k) :
    srv.exec (pure a) s = (a, s) := rfl

@[simp] theorem exec_perform (srv : Server C κ ν) (c : C α) (s : ∀ k, ν k) :
    srv.exec (.perform c) s = (srv.answer c s, srv.after c s) := rfl

@[simp] theorem exec_bind (srv : Server C κ ν) (p : Program C α) (f : α → Program C β)
    (s : ∀ k, ν k) : srv.exec (p >>= f) s = srv.exec (f (srv.exec p s).1) (srv.exec p s).2 :=
  Program.run_bind p f s

/-- What every call of a program keeps, the program keeps. -/
theorem exec_keeps (srv : Server C κ ν) {P : ∀ β : Type, C β → Prop} {Inv : (∀ k, ν k) → Prop}
    (hkeep : ∀ β (c : C β) s, P β c → Inv s → Inv (srv.after c s)) {p : Program C α}
    (hp : p.All P) {s : ∀ k, ν k} (hs : Inv s) : Inv (srv.exec p s).2 := by
  induction p generalizing s with
  | done a => exact hs
  | call c next ih => exact ih (srv.answer c s) (hp.2 _) (hkeep _ c s hp.1 hs)

/-- A program whose calls write nothing leaves the store as it is. -/
theorem exec_of_reads (srv : Server C κ ν) {p : Program C α}
    (hp : p.All fun _ c => srv.write c = none) (s : ∀ k, ν k) : (srv.exec p s).2 = s := by
  have hkeep : ∀ β (c : C β) s', srv.write c = none → s' = s → srv.after c s' = s := by
    intro β c s' hc hs
    simp only [after, hc, hs]
  exact srv.exec_keeps hkeep hp rfl

/-- A choice between programs. -/
theorem exec_ite (srv : Server C κ ν) (P : Prop) [Decidable P] (p q : Program C α)
    (s : ∀ k, ν k) : srv.exec (if P then p else q) s = if P then srv.exec p s else srv.exec q s :=
  Program.run_ite P p q s

@[simp] theorem execFaulty_pure (srv : Server C κ ν) (fails : Nat → Bool) (a : α)
    (s : (∀ k, ν k) × Nat) : srv.execFaulty fails (pure a) s = (a, s) := rfl

@[simp] theorem execFaulty_bind (srv : Server C κ ν) (fails : Nat → Bool) (p : Program C α)
    (f : α → Program C β) (s : (∀ k, ν k) × Nat) :
    srv.execFaulty fails (p >>= f) s =
      srv.execFaulty fails (f (srv.execFaulty fails p s).1) (srv.execFaulty fails p s).2 :=
  Program.run_bind p f s

/-- A call that may fail. -/
theorem execFaulty_perform (srv : Server C κ ν) (fails : Nat → Bool) (c : C α) (s : ∀ k, ν k)
    (n : Nat) : srv.execFaulty fails (.perform c) (s, n) =
      if fails n then (srv.failed c, s, n + 1) else (srv.answer c s, srv.after c s, n + 1) := rfl

/-- The pattern without a failing call. -/
def noFails : Nat → Bool := fun _ => false

@[simp] theorem noFails_apply (n : Nat) : noFails n = false := rfl

/-- If no call fails, all succeed. -/
theorem execFaulty_noFails (srv : Server C κ ν) (p : Program C α) (s : ∀ k, ν k) (n : Nat) :
    ∃ n', srv.execFaulty noFails p (s, n) = ((srv.exec p s).1, (srv.exec p s).2, n') := by
  induction p generalizing s n with
  | done a => exact ⟨n, rfl⟩
  | call c next ih => exact ih (srv.answer c s) (srv.after c s) (n + 1)

/-- The store after a run without failing calls. -/
theorem exec_eq_execFaulty (srv : Server C κ ν) (p : Program C α) (s : ∀ k, ν k) :
    (srv.exec p s).2 = (srv.execFaulty noFails p (s, 0)).2.1 := by
  obtain ⟨n', hexec⟩ := srv.execFaulty_noFails p s 0
  rw [hexec]

@[simp] theorem execFaulty_map (srv : Server C κ ν) (fails : Nat → Bool) (f : α → β)
    (p : Program C α) (s : (∀ k, ν k) × Nat) :
    srv.execFaulty fails (f <$> p) s =
      (f (srv.execFaulty fails p s).1, (srv.execFaulty fails p s).2) :=
  srv.execFaulty_bind fails p (fun a => pure (f a)) s

end Server
