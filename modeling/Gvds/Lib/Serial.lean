/-
Module: Gvds.Lib.Serial
Layer: Lib
Purpose: Processes that work on one server, one call at a time. A run in which calls that do not
  commute come in the order of their processes does what the processes do one after another in that
  order.
Imports: Gvds.Lib.Program, Mathlib.Data.List.Permutation
Trusted boundary: none
Main exports: Server.Commute, CallEvent, Interleaves, Precedes, CallsInOrder, EachOnce, sequential,
  Interleaves.serialize, Interleaves.serializable
-/
import Gvds.Lib.Program
import Mathlib.Data.List.Permutation

variable {C : Type → Type} {κ : Type} [DecidableEq κ] {ν : κ → Type} {ι α : Type}

/-! ### Calls that commute -/

namespace Server

variable {β γ : Type}

/-- Two calls commute if neither order of them is told from the other, by an answer or by the
store. -/
def Commute (srv : Server C κ ν) (c : C β) (c' : C γ) : Prop :=
  ∀ s, srv.answer c (srv.after c' s) = srv.answer c s ∧
    srv.answer c' (srv.after c s) = srv.answer c' s ∧
    srv.after c (srv.after c' s) = srv.after c' (srv.after c s)

end Server

/-! ### Runs -/

/-- A call that a process makes. -/
structure CallEvent (C : Type → Type) (ι : Type) where
  process : ι
  result : Type
  call : C result

/-- What the processes have still to do, with the store. -/
abbrev Pool (C : Type → Type) (κ : Type) (ν : κ → Type) (ι α : Type) : Type 1 :=
  (ι → Program C α) × (∀ k, ν k)

/-- `i` comes before `j` in the order. -/
def Precedes (order : List ι) (i j : ι) : Prop := [i, j].Sublist order

/-- Of two calls of different processes that do not commute, the first one's process comes first. -/
def CallsInOrder (srv : Server C κ ν) (order : List ι) (events : List (CallEvent C ι)) : Prop :=
  events.Pairwise fun e e' =>
    e.process = e'.process ∨ srv.Commute e.call e'.call ∨ Precedes order e.process e'.process

instance [DecidableEq ι] (order : List ι) (i j : ι) : Decidable (Precedes order i j) :=
  inferInstanceAs (Decidable ([i, j].Sublist order))

/-- Calls are in order where the processes themselves are. -/
theorem callsInOrder_of_processes {srv : Server C κ ν} {order : List ι}
    {events : List (CallEvent C ι)}
    (h : (events.map CallEvent.process).Pairwise fun i j => i = j ∨ Precedes order i j) :
    CallsInOrder srv order events :=
  (List.pairwise_map.1 h).imp fun hij => hij.imp_right .inr

/-- The order has each process once. -/
def EachOnce (order : List ι) : Prop := order.Nodup ∧ ∀ i, i ∈ order

/-- The store after the processes have run one after another. -/
def sequential (srv : Server C κ ν) (procs : ι → Program C α) (order : List ι) (s : ∀ k, ν k) :
    ∀ k, ν k := order.foldl (fun s i => (srv.exec (procs i) s).2) s

@[simp] theorem sequential_nil (srv : Server C κ ν) (procs : ι → Program C α) (s : ∀ k, ν k) :
    sequential srv procs [] s = s := rfl

@[simp] theorem sequential_cons (srv : Server C κ ν) (procs : ι → Program C α) (i : ι)
    (order : List ι) (s : ∀ k, ν k) :
    sequential srv procs (i :: order) s = sequential srv procs order (srv.exec (procs i) s).2 := rfl

theorem sequential_append (srv : Server C κ ν) (procs : ι → Program C α) (order order' : List ι)
    (s : ∀ k, ν k) :
    sequential srv procs (order ++ order') s =
      sequential srv procs order' (sequential srv procs order s) := List.foldl_append

/-- Processes that do not run are of no account. -/
theorem sequential_congr {srv : Server C κ ν} {procs procs' : ι → Program C α} {order : List ι}
    (hprocs : ∀ i ∈ order, procs i = procs' i) (s : ∀ k, ν k) :
    sequential srv procs order s = sequential srv procs' order s := by
  induction order generalizing s with
  | nil => rfl
  | cons i order ih =>
      rw [sequential_cons, sequential_cons, hprocs i List.mem_cons_self,
        ih fun j hj => hprocs j (List.mem_cons_of_mem i hj)]

variable [DecidableEq ι]

/-- The processes make the calls of a list, each the next one of its process. -/
inductive Interleaves (srv : Server C κ ν) :
    Pool C κ ν ι α → List (CallEvent C ι) → Pool C κ ν ι α → Prop where
  | nil (p : Pool C κ ν ι α) : Interleaves srv p [] p
  | cons {procs : ι → Program C α} {s : ∀ k, ν k} {i : ι} {β : Type} {c : C β}
      {next : β → Program C α} {events : List (CallEvent C ι)} {q : Pool C κ ν ι α}
      (hcall : procs i = .call c next)
      (hrest : Interleaves srv (Function.update procs i (next (srv.answer c s)), srv.after c s)
        events q) :
      Interleaves srv (procs, s) (⟨i, β, c⟩ :: events) q

namespace Interleaves

variable {srv : Server C κ ν} {p q : Pool C κ ν ι α}

/-! ### Reordering -/

/-- Two calls next to each other may change places if they commute. -/
theorem swap {i j : ι} {β γ : Type} {c : C β} {d : C γ} {events : List (CallEvent C ι)}
    (hij : i ≠ j)
    (hcommute : srv.Commute c d) (h : Interleaves srv p (⟨i, β, c⟩ :: ⟨j, γ, d⟩ :: events) q) :
    Interleaves srv p (⟨j, γ, d⟩ :: ⟨i, β, c⟩ :: events) q := by
  cases h with
  | @cons procs s _ _ _ next _ _ hcall hrest =>
      cases hrest with
      | @cons _ _ _ _ _ next' _ _ hcall' hrest' =>
          rw [Function.update_of_ne hij.symm] at hcall'
          obtain ⟨hanswer, hanswer', hafter⟩ := hcommute s
          have hstill : Function.update procs j (next' (srv.answer d s)) i = .call c next := by
            rw [Function.update_of_ne hij]
            exact hcall
          refine .cons hcall' (.cons hstill ?_)
          rw [Function.update_comm hij] at hrest'
          rw [hanswer, hafter]
          rwa [hanswer'] at hrest'

/-- A call moves behind calls of other processes with which it commutes. -/
theorem bubble {e : CallEvent C ι} {moved events : List (CallEvent C ι)}
    (hmoved : ∀ e' ∈ moved, e.process ≠ e'.process ∧ srv.Commute e.call e'.call)
    (h : Interleaves srv p (e :: (moved ++ events)) q) :
    Interleaves srv p (moved ++ e :: events) q := by
  induction moved generalizing p with
  | nil => exact h
  | cons e' moved ih =>
      obtain ⟨hne, hcommute⟩ := hmoved e' List.mem_cons_self
      cases h.swap hne hcommute with
      | cons hcall hrest =>
          exact .cons hcall (ih (fun d hd => hmoved d (List.mem_cons_of_mem e' hd)) hrest)

/-- All calls of a process move to the front, if each commutes with the calls of others before
it. -/
theorem front {i : ι} {events : List (CallEvent C ι)}
    (hfirst : events.Pairwise fun e e' =>
      e'.process = i → e.process = i ∨ srv.Commute e.call e'.call)
    (h : Interleaves srv p events q) :
    Interleaves srv p
      (events.filter (fun e => e.process = i) ++ events.filter fun e => e.process ≠ i) q := by
  induction h with
  | nil p => exact .nil p
  | @cons procs s j β c next events q hcall hrest ih =>
      obtain ⟨hhead, htail⟩ := List.pairwise_cons.1 hfirst
      have hrest' := Interleaves.cons hcall (ih htail)
      by_cases hj : j = i
      · simpa [List.filter_cons, hj] using hrest'
      · have hmoved : ∀ e' ∈ events.filter fun e => e.process = i,
            j ≠ e'.process ∧ srv.Commute c e'.call := by
          intro e' he'
          obtain ⟨hmem, hprocess⟩ := List.mem_filter.1 he'
          have hprocess' : e'.process = i := of_decide_eq_true hprocess
          exact ⟨fun heq => hj (heq.trans hprocess'),
            (hhead e' hmem hprocess').resolve_left hj⟩
        simpa [List.filter_cons, hj] using bubble hmoved hrest'

/-! ### Runs of one process and of the others -/

/-- A run of two parts passes through a pool between them. -/
theorem split {events events' : List (CallEvent C ι)}
    (h : Interleaves srv p (events ++ events') q) :
    ∃ m, Interleaves srv p events m ∧ Interleaves srv m events' q := by
  induction events generalizing p with
  | nil => exact ⟨p, .nil p, h⟩
  | cons e events ih =>
      cases h with
      | cons hcall hrest =>
          obtain ⟨m, hm, hm'⟩ := ih hrest
          exact ⟨m, .cons hcall hm, hm'⟩

/-- A process that makes no call stays where it is. -/
theorem idle {i : ι} {events : List (CallEvent C ι)} (h : Interleaves srv p events q)
    (hidle : ∀ e ∈ events, e.process ≠ i) : q.1 i = p.1 i := by
  induction h with
  | nil p => rfl
  | @cons procs s j β c next events q hcall hrest ih =>
      rw [ih fun e he => hidle e (List.mem_cons_of_mem _ he)]
      exact Function.update_of_ne (hidle _ List.mem_cons_self).symm _ _

/-- A process that makes all calls runs as it would alone. -/
theorem solo {i : ι} {events : List (CallEvent C ι)} (h : Interleaves srv p events q)
    (hsolo : ∀ e ∈ events, e.process = i) {a : α} (hdone : q.1 i = .done a) :
    srv.exec (p.1 i) p.2 = (a, q.2) := by
  induction h with
  | nil p => rw [hdone]; rfl
  | @cons procs s j β c next events q hcall hrest ih =>
      obtain rfl : j = i := hsolo _ List.mem_cons_self
      have hexec := ih (fun e he => hsolo e (List.mem_cons_of_mem _ he)) hdone
      simp only [Function.update_self] at hexec
      change srv.exec (procs j) s = _
      rw [hcall]
      exact hexec

/-! ### Serializability -/

/-- A run to the end whose calls are in order leaves the store of the sequential execution, and each
process ends as it does there, after those before it. -/
theorem serialize {order : List ι} {events : List (CallEvent C ι)} (h : Interleaves srv p events q)
    (horder : CallsInOrder srv order events) (hnodup : order.Nodup)
    (hevents : ∀ e ∈ events, e.process ∈ order) (hdone : ∀ i ∈ order, ∃ a, q.1 i = .done a) :
    q.2 = sequential srv p.1 order p.2 ∧
      ∀ earlier i later, order = earlier ++ i :: later →
        q.1 i = .done (srv.exec (p.1 i) (sequential srv p.1 earlier p.2)).1 := by
  induction order generalizing p events with
  | nil =>
      obtain rfl : events = [] := List.eq_nil_iff_forall_not_mem.2 fun e he =>
        List.not_mem_nil (hevents e he)
      cases h with
      | nil => exact ⟨rfl, fun earlier i later heq => absurd heq (by simp)⟩
  | cons i order ih =>
      obtain ⟨hi, hnodup'⟩ := List.nodup_cons.1 hnodup
      -- no process comes before `i`, so its calls commute with all calls of others before them
      have hfirst : events.Pairwise fun e e' =>
          e'.process = i → e.process = i ∨ srv.Commute e.call e'.call := by
        refine horder.imp fun {e e'} hpair hprocess => ?_
        rcases hpair with heq | hcommute | hprecedes
        · exact .inl (heq.trans hprocess)
        · exact .inr hcommute
        · rw [hprocess] at hprecedes
          cases hprecedes with
          | cons _ hsub => exact absurd (hsub.subset (by simp)) hi
          | cons_cons _ hsub => exact .inl rfl
      obtain ⟨m, hown, hothers⟩ := split (front hfirst h)
      have hidle : ∀ e ∈ events.filter fun e => e.process ≠ i, e.process ≠ i := fun e he =>
        of_decide_eq_true (List.mem_filter.1 he).2
      have hsolo : ∀ e ∈ events.filter fun e => e.process = i, e.process = i := fun e he =>
        of_decide_eq_true (List.mem_filter.1 he).2
      obtain ⟨a, ha⟩ := hdone i List.mem_cons_self
      have hexec := solo hown hsolo ((idle hothers hidle).symm.trans ha)
      have hsame : ∀ j ∈ order, m.1 j = p.1 j := fun j hj =>
        idle hown fun e he heq => hi ((hsolo e he).symm.trans heq ▸ hj)
      have horder' : CallsInOrder srv order (events.filter fun e => e.process ≠ i) := by
        refine List.Pairwise.imp_of_mem (fun {e e'} he he' hpair => ?_)
          (horder.sublist List.filter_sublist)
        refine hpair.imp_right (.imp_right fun hprecedes => ?_)
        cases hprecedes with
        | cons _ hsub => exact hsub
        | cons_cons _ hsub => exact absurd rfl (hidle e he)
      have hevents' : ∀ e ∈ events.filter fun e => e.process ≠ i, e.process ∈ order := fun e he =>
        (List.mem_cons.1 (hevents e (List.mem_filter.1 he).1)).resolve_left (hidle e he)
      obtain ⟨hstore, hresults⟩ := ih hothers horder' hnodup' hevents' fun j hj =>
        hdone j (List.mem_cons_of_mem i hj)
      have hm : m.2 = (srv.exec (p.1 i) p.2).2 := by rw [hexec]
      refine ⟨?_, fun earlier j later heq => ?_⟩
      · rw [hstore, sequential_cons, sequential_congr hsame, hm]
      · cases earlier with
        | nil =>
            obtain ⟨rfl, -⟩ := List.cons.inj heq
            rw [ha, sequential_nil, hexec]
        | cons k earlier =>
            obtain ⟨rfl, htail⟩ := List.cons.inj heq
            have hearlier : ∀ k ∈ earlier, m.1 k = p.1 k := fun k hk =>
              hsame k (htail ▸ List.mem_append_left _ hk)
            have hj : j ∈ order := htail ▸ List.mem_append_right _ List.mem_cons_self
            rw [hresults earlier j later htail, hsame j hj, sequential_cons,
              sequential_congr hearlier, hm]

end Interleaves
