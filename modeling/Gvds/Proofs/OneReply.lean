/-
Module: Gvds.Proofs.OneReply
Layer: Proofs
Purpose: One reply per RPC: every call data goes through its history in order, no event is thrown
  away, and the steps of the proxy alone come to an end, where every request that was received has
  been answered. OPs that are queued are not served: no worker is ever idle to the dispatcher.
Imports: Gvds.Proofs.WorkerLifecycle, Mathlib.Algebra.BigOperators.Group.Finset.Basic,
  Mathlib.Algebra.Order.BigOperators.Group.Finset
Trusted boundary: as Gvds.IoProxy.Workers
Main exports: OneReply, Quiet, one_reply_per_rpc, queued_op_is_stuck
-/
import Gvds.Proofs.WorkerLifecycle
import Mathlib.Algebra.BigOperators.Group.Finset.Basic
import Mathlib.Algebra.Order.BigOperators.Group.Finset

namespace Gvds.Workers

variable {W S Op Req Rep : Type} [DecidableEq W] [DecidableEq S]

/-! ### The proxy alone comes to an end -/

/-- The steps of the proxy that lie before it at most. -/
def remaining [Fintype W] (ph : W → Phase Req Rep) (p : Proxy W S Op Req Rep) : Nat :=
  (∑ w, (ph w).rank) + p.load

variable {scher : W → S} {ph : W → Phase Req Rep} {p q : Proxy W S Op Req Rep}

omit [DecidableEq S] in
/-- A worker whose phase moves on has less before it. -/
theorem remaining_update [Fintype W] {w : W} {x : Phase Req Rep} (hrank : x.rank < (ph w).rank)
    (hload : q.load = p.load) : remaining (Function.update ph w x) q < remaining ph p := by
  have hsum : (∑ v, (Function.update ph w x v).rank) < ∑ v, (ph v).rank := by
    refine Finset.sum_lt_sum (fun v _ => ?_) ⟨w, Finset.mem_univ w, by simpa using hrank⟩
    by_cases hv : v = w
    · subst hv
      simpa using hrank.le
    · rw [Function.update_of_ne hv]
  unfold remaining
  omega

omit [DecidableEq S] in
/-- A step of the proxy alone leaves fewer. -/
theorem Nearer.remaining_lt [Fintype W] {ph' : W → Phase Req Rep} (h : Nearer ph p ph' q) :
    remaining ph' q < remaining ph p := by
  rcases h with ⟨w, x, rfl, hrank, hload⟩ | ⟨rfl, hload⟩
  · exact remaining_update hrank hload
  · unfold remaining
    omega

/-- A run of the proxy alone is no longer than what remains. -/
theorem length_le_remaining [Fintype W] (h : Follows scher ph p)
    {acts : List (Action W S Op Req Rep)} (hint : ∀ a ∈ acts, a.internal = true)
    (hrun : Machine.run (Proxy.step scher) p acts = some q) : acts.length ≤ remaining ph p := by
  induction acts generalizing ph p with
  | nil => exact Nat.zero_le _
  | cons a acts ih =>
      obtain ⟨t, ht, hrest⟩ := Machine.run_cons_eq_some.mp hrun
      obtain ⟨ph', h', hnearer⟩ := follows_step h ht
      have hlt := (hnearer (hint a List.mem_cons_self)).remaining_lt
      have hle := ih h' (fun b hb => hint b (List.mem_cons_of_mem a hb)) hrest
      rw [List.length_cons]
      omega

/-- No step of the proxy alone is possible. -/
def Quiet (scher : W → S) (p : Proxy W S Op Req Rep) : Prop :=
  ∀ a : Action W S Op Req Rep, a.internal = true → p.step scher a = none

/-- A worker with a stage or an event before it is not at rest. -/
theorem Follows.busy (h : Follows scher ph p) (hquiet : Quiet scher p) (w : W) :
    (ph w).stage = none ∧ ((ph w).event : Option (Event Op)) = none := by
  have hfree : p.running (scher w) = none := by
    cases hrun : p.running (scher w) with
    | none => rfl
    | some v =>
        have hstep := hquiet (.advance (scher w)) rfl
        simp [Proxy.step, hrun] at hstep
  constructor
  · rw [Option.eq_none_iff_forall_ne_some]
    intro stage hstage
    have hrun := (h.threads.running (scher w) w stage).mpr ⟨rfl, hstage⟩
    rw [hfree] at hrun
    cases hrun
  · rw [Option.eq_none_iff_forall_ne_some]
    intro e he
    have hmem := ((h.threads.queue (scher w)).mem (w, e)).mpr
      ⟨w, by rw [queuePlace, if_pos rfl, he]; rfl⟩
    cases hqueue : p.queue (scher w) with
    | nil =>
        rw [hqueue] at hmem
        cases hmem
    | cons a rest =>
        obtain ⟨-, -, state, hreact, -⟩ := h.take hfree hqueue
        have hstep := hquiet (.take (scher w)) rfl
        simp [Proxy.step, hfree, hqueue, hreact] at hstep

/-- A worker whose tag gRPC or the queue's thread has is not at rest, unless it waits for a
request. -/
theorem Follows.at_rest [Inhabited Rep] (h : Follows scher ph p) (hquiet : Quiet scher p) (w : W) :
    ∃ c, ph w = .submitted c := by
  obtain ⟨hstage, hevent⟩ := h.busy hquiet w
  have hentry : p.entry = none := by
    cases hentry : p.entry with
    | none => rfl
    | some x =>
        cases x with
        | look c =>
            have hstep := hquiet .look rfl
            simp [Proxy.step, hentry] at hstep
        | queue v e =>
            have hstep := hquiet .post rfl
            simp [Proxy.step, hentry] at hstep
  have hcq : p.cq = [] := by
    cases hcq : p.cq with
    | nil => rfl
    | cons k cq =>
        have hstep := hquiet .next rfl
        simp [Proxy.step, hentry, hcq] at hstep
  have hnoentry : ((ph w).entry w : Option (Entry W Op)) = none := by
    rw [Option.eq_none_iff_forall_ne_some]
    intro x hx
    have hmem := (h.threads.entry.mem x).mpr ⟨w, hx⟩
    rw [hentry] at hmem
    cases hmem
  have hnocompletion : (ph w).completion = none := by
    rw [Option.eq_none_iff_forall_ne_some]
    intro k hk
    have hmem := (h.tags.cq.mem k).mpr ⟨w, hk⟩
    rw [hcq] at hmem
    cases hmem
  have hnounsent : (ph w).unsent = none := by
    rw [Option.eq_none_iff_forall_ne_some]
    intro c hc
    have hmem := (h.tags.finishing.mem c).mpr ⟨w, hc⟩
    have hstep := hquiet (.sent c) rfl
    simp [Proxy.step, hmem] at hstep
  have hnocallback : (ph w).callback w = none := by
    rw [Option.eq_none_iff_forall_ne_some]
    intro a ha
    have hmem := (h.threads.callbacks.mem a).mpr ⟨w, ha⟩
    have hstep := hquiet (.callback a.1 a.2 default) rfl
    simp [Proxy.step, hmem] at hstep
  cases hph : ph w <;> rw [hph] at hstage hevent hnoentry hnocompletion hnounsent hnocallback
  case submitted c => exact ⟨c, rfl⟩
  all_goals first
    | (cases hstage; done)
    | (cases hevent; done)
    | (cases hnoentry; done)
    | (cases hnocompletion; done)
    | (cases hnounsent; done)
    | cases hnocallback

/-! ### One reply per RPC -/

/-- No event is thrown away, and what the log says of a call data is a part of one history: a
request is received and its tag delivered; one worker runs do_op on that request, which yields a
reply; Finish is called with it; its tag is delivered; then the call data is replaced. -/
structure OneReply (log : List (Record W Op Req Rep)) : Prop where
  accepted : ∀ w, .discarded w ∉ log
  ordered : ∀ r ∈ log, ∀ c, r.about = some c → ∃ w req rep,
    historyOf c log <+: Phase.served w c req rep ++ [.replaced c]

omit [DecidableEq W] in
/-- What has happened to a worker's call data is a part of its history. -/
theorem Phase.history_prefix [Inhabited Req] [Inhabited Rep] {x : Phase Req Rep} {c : Nat} (w : W)
    (hcall : x.call = some c) : ∃ req rep,
    (x.history w : List (Record W Op Req Rep)) <+: Phase.served w c req rep ++ [.replaced c] := by
  cases x with
  | initial => cases hcall
  | waitingStatus old =>
      cases old with
      | none => cases hcall
      | some d =>
          cases hcall
          exact ⟨d.2.1, d.2.2, List.prefix_append _ _⟩
  | waitingCall old =>
      cases old with
      | none => cases hcall
      | some d =>
          cases hcall
          exact ⟨d.2.1, d.2.2, List.prefix_append _ _⟩
  | waitingSubmit c => exact ⟨default, default, List.nil_prefix⟩
  | submitted c => exact ⟨default, default, List.nil_prefix⟩
  | arrived c req =>
      cases hcall
      exact ⟨req, default, _, rfl⟩
  | looked c req =>
      cases hcall
      exact ⟨req, default, _, rfl⟩
  | posting c req =>
      cases hcall
      exact ⟨req, default, _, rfl⟩
  | queued c req =>
      cases hcall
      exact ⟨req, default, _, rfl⟩
  | processingStatus c req =>
      cases hcall
      exact ⟨req, default, _, rfl⟩
  | processingOp c req =>
      cases hcall
      exact ⟨req, default, _, rfl⟩
  | working c req returned =>
      cases hcall
      exact ⟨req, default, _, rfl⟩
  | replied c req rep returned =>
      cases hcall
      exact ⟨req, rep, _, rfl⟩
  | finishedStatus c req rep =>
      cases hcall
      exact ⟨req, rep, _, rfl⟩
  | finishedFinish c req rep =>
      cases hcall
      exact ⟨req, rep, _, rfl⟩
  | finishing c req rep =>
      cases hcall
      exact ⟨req, rep, _, rfl⟩
  | sent c req rep =>
      cases hcall
      exact ⟨req, rep, _, rfl⟩
  | finishLooked c req rep =>
      cases hcall
      exact ⟨req, rep, _, rfl⟩
  | finishPosting c req rep =>
      cases hcall
      exact ⟨req, rep, _, rfl⟩
  | finishQueued c req rep =>
      cases hcall
      exact ⟨req, rep, _, rfl⟩

omit [DecidableEq W] in
/-- What the phases say of the log. -/
theorem Follows.oneReply [Inhabited Req] [Inhabited Rep] (h : Follows scher ph p) :
    OneReply p.log := by
  refine ⟨h.logged.accepted, ?_⟩
  intro r hr c hc
  have hmem : r ∈ historyOf c p.log := List.mem_filter.mpr ⟨hr, by simpa using hc⟩
  by_cases hcur : ∃ w, (ph w).call = some c
  · obtain ⟨w, hw⟩ := hcur
    rw [h.logged.current w c hw]
    exact ⟨w, Phase.history_prefix w hw⟩
  · by_cases hlt : c < p.calls
    · obtain ⟨w, req, rep, heq⟩ := h.logged.past c hlt fun w hw => hcur ⟨w, hw⟩
      exact ⟨w, req, rep, by rw [heq]⟩
    · rw [h.logged.future c (Nat.le_of_not_lt hlt)] at hmem
      cases hmem

/-- At rest every request that was received has been answered, and its call data replaced. -/
theorem Follows.answered [Inhabited Rep] (h : Follows scher ph p) (hquiet : Quiet scher p)
    {c : Nat} {req : Req} (hr : .received c req ∈ p.log) :
    ∃ w rep, historyOf c p.log = Phase.served w c req rep ++ [.replaced c] := by
  have hmem : .received c req ∈ historyOf c p.log :=
    List.mem_filter.mpr ⟨hr, by simp [Record.about]⟩
  have hlt : c < p.calls := by
    by_contra hge
    rw [h.logged.future c (Nat.le_of_not_lt hge)] at hmem
    cases hmem
  have hno : ∀ w, (ph w).call ≠ some c := by
    intro w hw
    obtain ⟨c', hph⟩ := h.at_rest hquiet w
    rw [h.logged.current w c hw, hph] at hmem
    cases hmem
  obtain ⟨w, req', rep, heq⟩ := h.logged.past c hlt hno
  have hreq : req' = req := by
    rw [heq] at hmem
    simpa [Phase.served, eq_comm] using hmem
  exact ⟨w, rep, hreq ▸ heq⟩

/-- A state that is reached from the start is in phases. -/
theorem follows_run {workers : List W} (hnodup : workers.Nodup) (hall : ∀ w, w ∈ workers)
    {acts : List (Action W S Op Req Rep)}
    (hrun : Machine.run (Proxy.step scher) (Proxy.start workers scher) acts = some p) :
    ∃ ph, Follows scher ph p :=
  have hkept : ∀ (s : Proxy W S Op Req Rep) a t, (∃ ph, Follows scher ph s) →
      s.step scher a = some t → ∃ ph, Follows scher ph t := by
    rintro s a t ⟨ph, h⟩ hstep
    obtain ⟨ph', h', -⟩ := follows_step h hstep
    exact ⟨ph', h'⟩
  Machine.run_preserves hkept ⟨_, follows_start hnodup hall scher⟩ hrun

/-- **One reply per RPC.** In every state that an IOProxy reaches, whatever the order in which its
threads, gRPC and the clients go on, the log has one reply for each RPC at most, of the worker that
processed it and computed from its request, and no event is thrown away. The steps that the proxy
takes without new input are bounded in number; where none is left, every request received has its
reply. -/
theorem one_reply_per_rpc [Fintype W] [Inhabited Req] [Inhabited Rep] {workers : List W}
    (hnodup : workers.Nodup) (hall : ∀ w, w ∈ workers) (acts : List (Action W S Op Req Rep))
    (hrun : Machine.run (Proxy.step scher) (Proxy.start workers scher) acts = some p) :
    OneReply p.log ∧
    (Quiet scher p → ∀ c req, .received c req ∈ p.log →
      ∃ w rep, historyOf c p.log = Phase.served w c req rep ++ [.replaced c]) ∧
    ∃ bound, ∀ (more : List (Action W S Op Req Rep)) (q : Proxy W S Op Req Rep),
      (∀ a ∈ more, a.internal = true) → Machine.run (Proxy.step scher) p more = some q →
        more.length ≤ bound := by
  obtain ⟨ph, h⟩ := follows_run hnodup hall hrun
  exact ⟨h.oneReply, fun hquiet c req hr => h.answered hquiet hr, remaining ph p,
    fun more q hint hmore => length_le_remaining h hint hmore⟩

/-! ### A run with one worker -/

/-- One worker on one scheduler answers the request 7 by 9. -/
def oneRequest : List (Action Unit Unit Nat Nat Nat) :=
  [.take (), .advance (), .advance (), .advance (), .arrive 0 7, .next, .look, .post, .take (),
    .advance (), .advance (), .callback () 0 9, .advance (), .take (), .advance (), .advance (),
    .sent 0, .next, .look, .post, .take (), .advance (), .advance (), .advance ()]

theorem oneRequest_runs :
    (Machine.run (Proxy.step fun _ => ()) (Proxy.start [()] fun _ => ()) oneRequest).isSome = true :=
  rfl

/-- The state after it. -/
def oneRequestDone : Proxy Unit Unit Nat Nat Nat :=
  (Machine.run (Proxy.step fun _ => ()) (Proxy.start [()] fun _ => ()) oneRequest).get
    oneRequest_runs

theorem one_reply_per_rpc_oneRequest :
    historyOf 0 oneRequestDone.log = Phase.served () 0 7 9 ++ [.replaced 0] ∧
      OneReply oneRequestDone.log :=
  ⟨rfl, (one_reply_per_rpc (by decide) (by decide) oneRequest
    (Option.some_get _).symm).1⟩

/-! ### OPs that are queued -/

/-- An OP is in the waiting line or in the dispatcher's batch. -/
def Proxy.Queued (p : Proxy W S Op Req Rep) : Prop := p.op_waiting_line ≠ [] ∨ p.batch ≠ []

/-- Some worker is in the state Waiting. -/
def Proxy.SomeWaiting (p : Proxy W S Op Req Rep) : Prop :=
  ∃ w, (p.worker w).state = some .waiting

/-- If an OP is queued and a worker waits, the dispatcher finds a worker for its next OP. -/
def Proxy.Dispatches (p : Proxy W S Op Req Rep) : Prop :=
  p.Queued → p.SomeWaiting → p.idle_list ≠ []

/-- **Queued OPs are stuck.** In no state that an IOProxy reaches with an OP queued and a worker
waiting can the dispatcher go on to hand the OP to a worker, and no OP has ever had its callbacks
run: a worker that comes to wait puts itself on the completion queue and not on the list of idle
workers. -/
theorem queued_op_is_stuck {workers : List W} (hnodup : workers.Nodup) (hall : ∀ w, w ∈ workers)
    (acts : List (Action W S Op Req Rep))
    (hrun : Machine.run (Proxy.step scher) (Proxy.start workers scher) acts = some p)
    (hqueued : p.Queued) (hwaiting : p.SomeWaiting) :
    ¬ p.Dispatches ∧ p.step scher .getIdleWorker = none ∧ p.complete = [] := by
  obtain ⟨ph, h⟩ := follows_run hnodup hall hrun
  refine ⟨fun hcan => hcan hqueued hwaiting h.idle.1, ?_, h.idle.2⟩
  cases hstep : p.step scher .getIdleWorker with
  | none => rfl
  | some q =>
      simp only [Proxy.step] at hstep
      split at hstep
      · rename_i hidle
        rw [h.idle.1] at hidle
        cases hidle
      · cases hstep

/-- One worker comes to wait, and the OP 5 is queued. -/
def oneOp : List (Action Unit Unit Nat Nat Nat) :=
  [.take (), .advance (), .advance (), .advance (), .queueOp 5]

theorem oneOp_runs :
    (Machine.run (Proxy.step fun _ => ()) (Proxy.start [()] fun _ => ()) oneOp).isSome = true :=
  rfl

/-- The state after it. -/
def oneOpQueued : Proxy Unit Unit Nat Nat Nat :=
  (Machine.run (Proxy.step fun _ => ()) (Proxy.start [()] fun _ => ()) oneOp).get oneOp_runs

theorem queued_op_is_stuck_oneOp :
    ¬ oneOpQueued.Dispatches ∧ oneOpQueued.step (fun _ => ()) .getIdleWorker = none ∧
      oneOpQueued.complete = [] :=
  queued_op_is_stuck (by decide) (by decide) oneOp (Option.some_get _).symm
    (.inl (List.cons_ne_nil 5 [])) ⟨(), rfl⟩

/-- Not every OP that is queued while a worker waits can be dispatched. -/
theorem queued_op_not_dispatched :
    ¬ ∀ (acts : List (Action Unit Unit Nat Nat Nat)) (p : Proxy Unit Unit Nat Nat Nat),
      Machine.run (Proxy.step fun _ => ()) (Proxy.start [()] fun _ => ()) acts = some p →
      p.Dispatches := by
  intro hall
  exact hall oneOp oneOpQueued (Option.some_get _).symm (.inl (List.cons_ne_nil 5 [])) ⟨(), rfl⟩ rfl

end Gvds.Workers
