/-
Module: Gvds.Proofs.QueueBarrier
Layer: Proofs
Purpose: block_on_last as a barrier, over all runs of the queue. Each marker's callback runs once,
  its promise gets one value, and true means that every write queued before the call was completed,
  iff no write waits in the line when a call returns at once, no marker is merged, left behind by
  the dispatcher or run in TCP mode, and block_on_op returns 0 only when the writes queued before
  have left their workers; the code sees to none of these.
Imports: Gvds.Proofs.QueuePlaces
Trusted boundary: as Gvds.Client.QueueMarkers
Main exports: Barrier, Apart, barrier_step_iff, block_on_last_is_barrier_iff
-/
import Gvds.Proofs.QueuePlaces

namespace Gvds.QueueMarkers

open WriteBehind (Buffer QueueConfig)
open QueueThreads (Queued Dispatcher.batch callsIn taken fakeBuffer mem_callsIn)
open scoped List

/-! ### The barrier -/

/-- The callback ran and the promise has one value. -/
def Settled (m : Marker) : Prop := m.callbacks = 1 ∧ m.values.length = 1

/-- The callback is still to run, since a worker will get the buffer with it; or it runs, and will
give the promise its value. -/
def Due (s : State) (k : Nat) (m : Marker) : Prop :=
  m.values = [] ∧
    (m.callbacks = 0 ∧ (∃ q ∈ coming s.queue, q.buffer.path = "" ∧ q.calls.head? = some k) ∨
      m.callbacks = 1 ∧ ∃ st ∈ s.stages, st.marker? = some k)

/-- The workers have completed the buffers of these calls. -/
def Completed (s : State) (calls : List Nat) : Prop := ∀ c ∈ calls, c ∈ callsIn s.completed

/-- `block_on_last` is a barrier: the callback of each marker has run once and the promise has got
one value, or both are still to come; and a call that got `true`, from the callback or at once, has
all writes that were queued before it completed. -/
structure Barrier (s : State) : Prop where
  once : ∀ k m, s.markers k = some m → Settled m ∨ Due s k m
  after : ∀ k m, s.markers k = some m → true ∈ m.values → Completed s m.before
  atOnce : ∀ before ∈ s.atOnce, Completed s before

/-- A callback stays due while a worker still gets its buffer, or stays in it. -/
theorem Due.mono {s t : State} {k : Nat} {m : Marker} (h : Due s k m)
    (hcoming : ∀ q ∈ coming s.queue, q.buffer.path = "" → q.calls.head? = some k →
      q ∈ coming t.queue)
    (hstages : ∀ st ∈ s.stages, st.marker? = some k → ∃ st' ∈ t.stages, st'.marker? = some k) :
    Due t k m := by
  obtain ⟨hvalues, ⟨hcallbacks, q, hq, hfake, hhead⟩ | ⟨hcallbacks, st, hst, hk⟩⟩ := h
  · exact ⟨hvalues, .inl ⟨hcallbacks, q, hcoming q hq hfake hhead, hfake, hhead⟩⟩
  · exact ⟨hvalues, .inr ⟨hcallbacks, hstages st hst hk⟩⟩

/-- No write that was queued before the marker is with a worker. -/
def Done (s : State) (k : Nat) : Prop :=
  ∀ m, s.markers k = some m → ∀ c ∈ m.before, c ∉ callsIn (s.queue.assigned ++ s.queue.processing)

/-- The condition under which it is one: when a call returns at once, no write is in the line or in
the dispatcher's local queue; a marker is queued while the dispatcher runs, and not behind another
one; a worker gets it in UDT mode; the dispatcher leaves none behind; and when `block_on_op` returns
0, no write that was queued before is with a worker. -/
def Apart (cfg : QueueConfig) (s : State) : Act → Prop
  | .blockOnLast _ => s.queue.buf_onlink = 0 →
      ∀ q ∈ s.queue.dispatcher.batch ++ s.queue.buf_waiting_line, q.buffer.path = ""
  | .queueMarker i => i < s.blockers.length → s.queue.dispatcher ≠ .ended ∧
      ∀ last, s.queue.buf_waiting_line.getLast? = some last → ¬ last.buffer.Merges fakeBuffer
  | .queue .dispatch => s.queue.dispatcher = .loop → s.queue.m_stop = true →
      ∀ q ∈ s.queue.buf_waiting_line, q.buffer.path ≠ ""
  | .queue (.process i) => ∀ q, s.queue.assigned[i]? = some q → q.buffer.path = "" →
      cfg.use_udt = true
  | .lookup i => ∀ k n id, s.stages[i]? = some (.asking k n id) →
      (s.sessions n).session.futures id = none → Done s k
  | .wake i => ∀ k n c, s.stages[i]? = some (.blocked k n c) → Ready (s.sessions n) c → Done s k
  | _ => True

theorem barrier_start (cfg : QueueConfig) : Barrier (start cfg) where
  once := by
    intro k m hm
    cases hm
  after := by
    intro k m hm
    cases hm
  atOnce := by
    intro before hbefore
    cases hbefore

theorem Barrier.aside {s t : State} (h : Barrier s) (hst : Aside s t) : Barrier t := by
  obtain ⟨hq, hs, -, hm, ha, hc⟩ := hst
  constructor
  · intro k m hk
    simp only [Due, hq, hs]
    exact h.once k m (hm ▸ hk)
  · intro k m hk
    simp only [Completed, hc]
    exact h.after k m (hm ▸ hk)
  · simp only [Completed, hc, ha]
    exact h.atOnce

/-- A dispatcher that goes on, or is gone already, keeps what is due. -/
theorem Barrier.moves {s : State} (h : Barrier s) {queue : QueueThreads.State}
    (hmoves : Moves s.queue queue)
    (hend : queue.dispatcher = .ended → s.queue.dispatcher = .ended) :
    Barrier { s with queue := queue } := by
  refine ⟨fun k m hm => (h.once k m hm).imp_right fun hdue => ?_, h.after, h.atOnce⟩
  refine hdue.mono (fun q hq hfake _ => ?_) fun st hst hk => ⟨st, hst, hk⟩
  unfold coming at hq ⊢
  by_cases hs : s.queue.dispatcher = .ended
  · obtain ⟨ht, hassigned⟩ := hmoves.ended hs
    rw [if_pos hs] at hq
    rw [if_pos ht, hassigned]
    exact hq
  · rw [if_neg hs] at hq
    rw [if_neg fun ht => hs (hend ht)]
    exact hmoves.kept q hq hfake

/-- The dispatcher may end if no marker waits in the line. -/
theorem barrier_ended_iff {s : State} (h : Placed s) (hp : Barrier s)
    (hloop : s.queue.dispatcher = .loop) :
    Barrier { s with queue := { s.queue with dispatcher := .ended } } ↔
      ∀ q ∈ s.queue.buf_waiting_line, q.buffer.path ≠ "" := by
  have hcoming : coming s.queue = s.queue.assigned ++ s.queue.buf_waiting_line := by
    simp [coming, unbegun, hloop, Dispatcher.batch]
  constructor
  · intro hp' q hq hfake
    have hmem : q ∈ unbegun s.queue := by simp [unbegun, hq]
    obtain ⟨k, m, hhead, hm, hcallbacks, hvalues⟩ := h.head_marker hmem hfake
    rcases hp'.once k m hm with ⟨-, hone⟩ | ⟨-, ⟨-, q', hq', -, hhead'⟩ | ⟨hone, -⟩⟩
    · rw [hvalues] at hone
      cases hone
    · -- the marker is in the line, so no worker has it
      have hnodup : (callsIn s.queue.assigned ++ callsIn s.queue.buf_waiting_line).Nodup := by
        have hall := h.nodup.of_append_left
        simpa [unbegun, hloop, Dispatcher.batch] using hall
      have hassigned : q' ∈ s.queue.assigned := by simpa [coming] using hq'
      exact (List.disjoint_of_nodup_append hnodup)
        (mem_callsIn.mpr ⟨q', hassigned, List.mem_of_mem_head? hhead'⟩)
        (mem_callsIn.mpr ⟨q, hq, List.mem_of_mem_head? hhead⟩)
    · rw [hcallbacks] at hone
      cases hone
  · intro hreal
    refine ⟨fun k m hm => (hp.once k m hm).imp_right fun hdue => ?_, hp.after, hp.atOnce⟩
    refine hdue.mono (fun q hq hfake _ => ?_) fun st hst hk => ⟨st, hst, hk⟩
    rw [hcoming, List.mem_append] at hq
    have hassigned : q ∈ s.queue.assigned := hq.resolve_right fun hline => hreal q hline hfake
    simpa [coming] using hassigned

/-- A worker may enter `Processing` with a write, or in UDT mode. -/
theorem barrier_begins_iff {cfg : QueueConfig} {s t : State} {q : Queued} {st : Stage}
    (h : Placed s) (hp : Barrier s) (hb : Begins cfg s t q st) :
    Barrier t ↔ (q.buffer.path = "" → cfg.use_udt = true) := by
  have hcoming : ∀ q', q' ∈ coming s.queue → q' = q ∨ q' ∈ coming t.queue := by
    intro q' hq'
    unfold coming at hq' ⊢
    rw [hb.dispatcher]
    split at hq'
    next hended =>
      rw [if_pos hended]
      exact List.mem_cons.mp (hb.assigned.mem_iff.mp hq')
    next hrunning =>
      rw [if_neg hrunning]
      exact List.mem_cons.mp (hb.perm.mem_iff.mp hq')
  constructor
  · intro hp' hfake
    obtain ⟨k, m₀, hhead, -⟩ := h.head_marker hb.mem hfake
    obtain ⟨m, hm, hcallbacks, hvalues⟩ := hb.entered h hfake hhead
    rcases hp'.once k m hm with ⟨-, hone⟩ | ⟨-, ⟨hzero, -⟩ | ⟨-, st', hst', hk⟩⟩
    · rw [hvalues] at hone
      cases hone
    · rw [hcallbacks] at hzero
      cases hzero
    · rw [hb.stages, List.mem_append, List.mem_singleton] at hst'
      rcases hst' with hold | rfl
      · obtain ⟨j, hj⟩ := List.mem_iff_getElem?.mp hold
        obtain ⟨⟨q', hq', hkq⟩, -⟩ := h.entered j st' k hj hk
        exact absurd (mem_callsIn.mpr ⟨q', List.mem_of_getElem? hq', hkq⟩)
          (hb.not_processing h (List.mem_of_mem_head? hhead))
      · rcases hb.marker with ⟨hreal, -, -⟩ | ⟨k', m', -, -, -, -, hst⟩
        · exact absurd hfake hreal
        · rw [hk] at hst
          by_contra hudt
          rw [if_neg hudt] at hst
          cases hst
  · intro hudt
    refine ⟨fun k m hm => ?_, fun k m hm htrue => ?_, ?_⟩
    · by_cases hthis : q.buffer.path = "" ∧ q.calls.head? = some k
      · -- the marker that the worker has got
        obtain ⟨m', hm', hcallbacks, hvalues⟩ := hb.entered h hthis.1 hthis.2
        rw [hm] at hm'
        cases hm'
        refine .inr ⟨hvalues, .inr ⟨hcallbacks, st, ?_, ?_⟩⟩
        · rw [hb.stages]
          exact List.mem_append_right _ (List.mem_singleton_self st)
        · rcases hb.marker with ⟨hreal, -, -⟩ | ⟨k', m'', -, hhead, -, -, hst⟩
          · exact absurd hthis.1 hreal
          · rw [hst, if_pos (hudt hthis.1), ← hhead, hthis.2]
      · have hsame : t.markers k = s.markers k := by
          rcases hb.marker with ⟨-, hmarkers, -⟩ | ⟨k', m', hfake, hhead, -, -, -⟩
          · rw [hmarkers]
          · exact hb.markers_of_ne fun hk => hthis ⟨hfake, hk⟩
        rw [hsame] at hm
        refine (hp.once k m hm).imp_right fun hdue => ?_
        refine hdue.mono (fun q' hq' hfake hhead => ?_) fun st' hst' hk => ⟨st', ?_, hk⟩
        · rcases hcoming q' hq' with rfl | hcomes
          · exact absurd ⟨hfake, hhead⟩ hthis
          · exact hcomes
        · rw [hb.stages]
          exact List.mem_append_left _ hst'
    · obtain ⟨m₀, hm₀, hbefore, hvalues⟩ := hb.before_eq hm
      rw [hbefore, Completed, hb.completed]
      exact hp.after k m₀ hm₀ (hvalues ▸ htrue)
    · rw [hb.atOnce]
      simp only [Completed, hb.completed]
      exact hp.atOnce

/-- A worker that completes its buffer is in no callback. -/
theorem Barrier.complete {cfg : QueueConfig} {s t : State} (hp : Barrier s) {i : Nat}
    (hstep : step cfg s (.queue (.complete i)) = some t) : Barrier t := by
  simp only [step] at hstep
  split at hstep
  next hcompletes =>
    obtain ⟨q, -, hnext⟩ := Option.bind_eq_some_iff.mp hstep
    obtain ⟨queue, hstepped, rfl⟩ := Option.map_eq_some_iff.mp hnext
    obtain ⟨q', -, rfl⟩ := Option.map_eq_some_iff.mp hstepped
    have hmore : ∀ calls, Completed s calls → ∀ c ∈ calls, c ∈ callsIn (s.completed ++ [q]) := by
      intro calls hdone c hc
      rw [QueueThreads.callsIn_append]
      exact List.mem_append_left _ (hdone c hc)
    refine ⟨fun k m hm => ?_, fun k m hm htrue => hmore _ (hp.after k m hm htrue),
      fun before hbefore => hmore _ (hp.atOnce before hbefore)⟩
    refine (hp.once k m hm).imp_right fun hdue => ?_
    refine hdue.mono (fun _ hq _ _ => hq) fun st hst hk => ⟨st, ?_, hk⟩
    obtain ⟨j, hj⟩ := List.mem_iff_getElem?.mp hst
    refine List.mem_eraseIdx_iff_getElem?.mpr ⟨j, ?_, hj⟩
    rintro rfl
    rw [hj] at hcompletes
    cases st with
    | tcp => cases hk
    | udt n c retried => cases hk
    | asking k' n id => cases hcompletes
    | blocked k' n c => cases hcompletes
    | called => cases hk
  next => cases hstep

/-- A worker goes on in the callback it was in, or in none. -/
theorem Barrier.setStage {s : State} (hp : Barrier s) {i : Nat} {st st' : Stage}
    (hi : s.stages[i]? = some st) (hst' : st'.marker? = st.marker?) :
    Barrier { s with stages := s.stages.set i st' } := by
  refine ⟨fun k m hm => (hp.once k m hm).imp_right fun hdue => ?_, hp.after, hp.atOnce⟩
  refine hdue.mono (fun _ hq _ _ => hq) fun st₀ hst₀ hk => ?_
  obtain ⟨j, hj⟩ := List.mem_iff_getElem?.mp hst₀
  by_cases hij : i = j
  · subst hij
    rw [hi] at hj
    cases hj
    refine ⟨st', ?_, hst'.trans hk⟩
    exact List.mem_of_getElem? (List.getElem?_set_self (List.getElem?_eq_some_iff.mp hi).1)
  · exact ⟨st₀, List.mem_of_getElem? ((List.getElem?_set_ne hij).trans hj), hk⟩

/-- While a worker has the marker, the writes before it are completed iff no worker has one. -/
theorem Placed.completed_iff_done {s : State} (h : Placed s) {k : Nat} {m : Marker}
    (hm : s.markers k = some m) (hworker : k ∈ callsIn s.queue.processing) :
    Completed s m.before ↔ Done s k := by
  constructor
  · intro hcompleted m' hm' c hc hwith
    rw [hm] at hm'
    cases hm'
    have hnodup := h.nodup
    rw [QueueThreads.callsIn_append, List.mem_append] at hwith
    rcases hwith with hassigned | hprocessing
    · refine (List.disjoint_of_nodup_append hnodup) ?_ (List.mem_append_right _ (hcompleted c hc))
      rw [unbegun, QueueThreads.callsIn_append]
      exact List.mem_append_left _ hassigned
    · exact (List.disjoint_of_nodup_append hnodup.of_append_right) hprocessing (hcompleted c hc)
  · intro hdone c hc
    exact (h.handed_before hm hworker hc).resolve_left (hdone m hm c hc)

/-- The promise may get `true` when no write that was queued before is with a worker. -/
theorem barrier_setValue_iff {s : State} (h : Placed s) (hp : Barrier s) {i k : Nat} {st : Stage}
    (hi : s.stages[i]? = some st) (hk : st.marker? = some k) (value : Bool) :
    Barrier (setValue s i k value) ↔ (value = true → Done s k) := by
  obtain ⟨⟨q, hq, hkq⟩, m, hm, hcallbacks, hvalues⟩ := h.entered i st k hi hk
  have hworker : k ∈ callsIn s.queue.processing :=
    mem_callsIn.mpr ⟨q, List.mem_of_getElem? hq, hkq⟩
  have hnew : (setValue s i k value).markers k = some { m with values := [value] } := by
    simp only [setValue, Function.update_self, hm, Option.map_some, hvalues, List.nil_append]
  have hold : ∀ {k'}, k' ≠ k → (setValue s i k value).markers k' = s.markers k' := by
    intro k' hne
    simp only [setValue, Function.update_of_ne hne]
  have hdone : Completed s m.before ↔ Done s k := h.completed_iff_done hm hworker
  constructor
  · rintro hp' rfl
    exact hdone.mp (hp'.after k { m with values := [true] } hnew (List.mem_singleton_self true))
  · intro htrue
    refine ⟨fun k' m' hm' => ?_, fun k' m' hm' hvalue => ?_, hp.atOnce⟩
    · by_cases hne : k' = k
      · subst hne
        rw [hnew] at hm'
        cases hm'
        exact .inl ⟨hcallbacks, rfl⟩
      · rw [hold hne] at hm'
        refine (hp.once k' m' hm').imp_right fun hdue => ?_
        refine hdue.mono (fun _ hq _ _ => hq) fun st' hst' hk' => ?_
        obtain ⟨j, hj⟩ := List.mem_iff_getElem?.mp hst'
        have hij : i ≠ j := by
          rintro rfl
          rw [hi] at hj
          cases hj
          rw [hk] at hk'
          exact hne (Option.some.inj hk').symm
        exact ⟨st', List.mem_of_getElem? ((List.getElem?_set_ne hij).trans hj), hk'⟩
    · by_cases hne : k' = k
      · subst hne
        rw [hnew] at hm'
        cases hm'
        exact hdone.mpr (htrue (List.mem_singleton.mp hvalue).symm)
      · rw [hold hne] at hm'
        exact hp.after k' m' hm' hvalue

/-- A marker may be queued while the dispatcher runs, and not into another one. -/
theorem barrier_queueMarker_iff {cfg : QueueConfig} {s t : State} (h : Placed s) (hp : Barrier s)
    {i : Nat} (hstep : queueMarker cfg s i = some t) :
    Barrier t ↔ s.queue.dispatcher ≠ .ended ∧
      ∀ last, s.queue.buf_waiting_line.getLast? = some last → ¬ last.buffer.Merges fakeBuffer := by
  obtain ⟨w, -, rfl⟩ := Option.map_eq_some_iff.mp hstep
  obtain ⟨front, back, q, hmarks⟩ := marks_queue_buffer cfg s.queue
  have hlined := hmarks.lined
  have hfresh : ∀ q' ∈ unbegun s.queue, s.queue.calls.length ∉ q'.calls := fun q' hq' hk =>
    h.fresh (h.mem_queued.mpr (.inl (mem_callsIn.mpr ⟨q', hq', hk⟩)))
  have hback : ∀ q' ∈ back, q' ∈ unbegun s.queue := by
    intro q' hq'
    simp [unbegun, hmarks.line_eq, hq']
  constructor
  · intro hp'
    rcases hp'.once s.queue.calls.length _ (Function.update_self ..) with ⟨hone, -⟩ |
      ⟨-, ⟨-, q', hq', -, hhead⟩ | ⟨hone, -⟩⟩
    · cases hone
    · have hk := List.mem_of_mem_head? hhead
      have hrunning : s.queue.dispatcher ≠ .ended := by
        intro hended
        simp only [coming, hlined.dispatcher, hended, if_true, hlined.assigned] at hq'
        exact hfresh q' (List.mem_append_left _ hq') hk
      refine ⟨hrunning, fun last hlast hmerges => ?_⟩
      simp only [coming, hlined.dispatcher, if_neg hrunning] at hq'
      rcases hmarks.mem_unbegun hq' with rfl | hold
      · -- the buffer has the callback of an earlier marker
        have hne := hmarks.merged.mpr ⟨last, hlast, hmerges⟩
        obtain ⟨q₀, rest, rfl⟩ := List.exists_cons_of_ne_nil hne
        have hq₀ : q₀ ∈ unbegun s.queue := hback q₀ List.mem_cons_self
        obtain ⟨c, calls, hcalls⟩ := List.exists_cons_of_ne_nil (h.nonempty q₀ hq₀)
        rw [hmarks.calls_eq, QueueThreads.callsIn_cons, hcalls] at hhead
        obtain rfl : c = s.queue.calls.length := Option.some.inj hhead
        exact hfresh q₀ hq₀ (by rw [hcalls]; exact List.mem_cons_self)
      · exact hfresh q' hold hk
    · cases hone
  · rintro ⟨hrunning, hnone⟩
    have hempty : back = [] := by
      by_contra hne
      obtain ⟨last, hlast, hmerges⟩ := hmarks.merged.mp hne
      exact hnone last hlast hmerges
    subst hempty
    have hkept : ∀ q', q' ∈ coming s.queue →
        q' ∈ coming (QueueThreads.queue_buffer cfg s.queue fakeBuffer false) := by
      intro q' hq'
      simp only [coming, unbegun, hlined.dispatcher, if_neg hrunning, hlined.assigned,
        hlined.line_eq, hmarks.line_eq, List.append_nil, List.mem_append] at hq' ⊢
      exact hq'.imp_right (Or.imp_right .inl)
    refine ⟨fun k m hm => ?_, fun k m hm htrue => ?_, hp.atOnce⟩
    · dsimp only at hm
      rcases eq_or_ne k s.queue.calls.length with rfl | hne
      · rw [Function.update_self] at hm
        cases hm
        refine .inr ⟨rfl, .inl ⟨rfl, q, ?_, hmarks.path_eq, ?_⟩⟩
        · simp only [coming, unbegun, hlined.dispatcher, if_neg hrunning, hlined.line_eq,
            List.mem_append, List.mem_singleton, or_true]
        · rw [hmarks.calls_eq]
          rfl
      · rw [Function.update_of_ne hne] at hm
        refine (hp.once k m hm).imp_right fun hdue => ?_
        exact hdue.mono (fun q' hq' _ _ => hkept q' hq') fun st hst hk => ⟨st, hst, hk⟩
    · dsimp only at hm
      rcases eq_or_ne k s.queue.calls.length with rfl | hne
      · rw [Function.update_self] at hm
        cases hm
        cases htrue
      · rw [Function.update_of_ne hne] at hm
        exact hp.after k m hm htrue

/-- A call may return at once if no write is left behind the workers. -/
theorem barrier_blockOnLast_iff {s : State} (h : Placed s) (hp : Barrier s) (iop : Nat) :
    Barrier (blockOnLast s iop) ↔ (s.queue.buf_onlink = 0 →
      ∀ q ∈ s.queue.dispatcher.batch ++ s.queue.buf_waiting_line, q.buffer.path = "") := by
  unfold blockOnLast
  by_cases hidle : s.queue.buf_onlink = 0
  · rw [if_pos hidle]
    have hnone : s.queue.assigned = [] ∧ s.queue.processing = [] := by
      have honlink := h.onlink
      rw [hidle] at honlink
      constructor
      · apply List.eq_nil_of_length_eq_zero
        omega
      · apply List.eq_nil_of_length_eq_zero
        omega
    constructor
    · intro hp' _ q hq
      by_contra hreal
      have hmem : q ∈ unbegun s.queue := List.mem_append_right _ hq
      obtain ⟨c, calls, hcalls⟩ := List.exists_cons_of_ne_nil (h.nonempty q hmem)
      have hc : c ∈ q.calls := by
        rw [hcalls]
        exact List.mem_cons_self
      have hwritten : c ∈ written s.queue := by
        refine mem_callsIn.mpr ⟨q, List.mem_filter.mpr ⟨?_, decide_eq_true hreal⟩, hc⟩
        exact List.mem_append_right _ hq
      have hcompleted := hp'.atOnce (written s.queue)
        (List.mem_append_right _ (List.mem_singleton_self _)) c hwritten
      exact (List.disjoint_of_nodup_append h.nodup) (mem_callsIn.mpr ⟨q, hmem, hc⟩)
        (List.mem_append_right _ hcompleted)
    · intro hfakes
      refine ⟨hp.once, hp.after, fun before hbefore => ?_⟩
      rcases List.mem_append.mp hbefore with hold | hnew
      · exact hp.atOnce before hold
      · rw [List.mem_singleton.mp hnew]
        intro c hc
        obtain ⟨q, hq, hcq⟩ := mem_callsIn.mp hc
        obtain ⟨hq, hreal⟩ := List.mem_filter.mp hq
        have hplace := h.perm.mem_iff.mp hq
        rw [unbegun, hnone.1, hnone.2, List.nil_append, List.nil_append, List.mem_append] at hplace
        rcases hplace with hwaits | hdone
        · exact absurd (hfakes hidle q hwaits) (of_decide_eq_true hreal)
        · exact mem_callsIn.mpr ⟨q, hdone, hcq⟩
  · rw [if_neg hidle]
    exact ⟨fun _ hzero => absurd hzero hidle, fun _ => ⟨hp.once, hp.after, hp.atOnce⟩⟩

/-- A step of the queue's threads that begins and completes nothing. -/
theorem barrier_moved_iff {cfg : QueueConfig} {s : State} (h : Placed s) (hp : Barrier s)
    {a : QueueThreads.Act}
    (ha : (∃ c, a = .write c) ∨ (∃ i, a = .wakeUp i) ∨ a = .stop ∨ a = .dispatch)
    {queue : QueueThreads.State} (hstep : QueueThreads.step cfg s.queue a = some queue) :
    Barrier { s with queue := queue } ↔ Apart cfg s (.queue a) := by
  have hmoves := h.moves_of_step ha hstep
  by_cases hend : queue.dispatcher = .ended → s.queue.dispatcher = .ended
  · have hbarrier : Barrier { s with queue := queue } := hp.moves hmoves hend
    refine ⟨fun _ => ?_, fun _ => hbarrier⟩
    rcases ha with ⟨c, rfl⟩ | ⟨i, rfl⟩ | rfl | rfl
    · trivial
    · trivial
    · trivial
    · intro hloop hstop
      have hended : queue.dispatcher = .ended := by
        simp only [QueueThreads.step, QueueThreads.dispatch, hloop, hstop, if_true] at hstep
        rw [← Option.some.inj hstep]
      rw [hend hended] at hloop
      cases hloop
  · obtain ⟨hended, hrunning⟩ := Classical.not_imp.mp hend
    rcases ha with ⟨c, rfl⟩ | ⟨i, rfl⟩ | rfl | rfl
    · cases hstep
      rcases queue_buffer_cases cfg s.queue c.toBuffer true with ⟨-, hlined, -⟩ | ⟨hlined, -⟩ |
        ⟨last, -, -, hlined, -⟩
      · exact absurd (hlined.dispatcher ▸ hended) hrunning
      · exact absurd (hlined.dispatcher ▸ hended) hrunning
      · exact absurd (hlined.dispatcher ▸ hended) hrunning
    · obtain ⟨w, -, hwake⟩ := Option.bind_eq_some_iff.mp hstep
      split at hwake
      next => cases hwake
      next =>
        cases hwake
        have hlined : Lined s.queue (QueueThreads.push { s.queue with
            waiters := s.queue.waiters.eraseIdx i } w.2 w.1)
            (s.queue.buf_waiting_line ++ [⟨w.2, [w.1]⟩]) := by
          apply Lined.accept
          exact ⟨rfl, rfl, rfl, rfl, rfl, rfl, rfl⟩
        exact absurd (hlined.dispatcher ▸ hended) hrunning
    · cases hstep
      exact absurd hended hrunning
    · obtain ⟨hloop, hstop, rfl⟩ := QueueThreads.dispatch_ended hstep hended
      rw [barrier_ended_iff h hp hloop]
      exact ⟨fun hreal _ _ => hreal, fun hreal => hreal hloop hstop⟩

/-- From a state with the barrier, a step leads to one with it iff it meets the condition. -/
theorem barrier_step_iff {cfg : QueueConfig} {s t : State} {a : Act} (h : Placed s)
    (hp : Barrier s) (hstep : step cfg s a = some t) : Barrier t ↔ Apart cfg s a := by
  cases a with
  | queue a =>
      have hmoved : (∃ c, a = .write c) ∨ (∃ i, a = .wakeUp i) ∨ a = .stop ∨ a = .dispatch →
          (QueueThreads.step cfg s.queue a).map (fun queue => { s with queue := queue }) = some t →
          (Barrier t ↔ Apart cfg s (.queue a)) := by
        intro ha hmap
        obtain ⟨queue, hqueue, rfl⟩ := Option.map_eq_some_iff.mp hmap
        exact barrier_moved_iff h hp ha hqueue
      cases a with
      | write c => exact hmoved (.inl ⟨c, rfl⟩) hstep
      | blockOnLast => cases hstep
      | wakeUp i => exact hmoved (.inr (.inl ⟨i, rfl⟩)) hstep
      | stop => exact hmoved (.inr (.inr (.inl rfl))) hstep
      | dispatch => exact hmoved (.inr (.inr (.inr rfl))) hstep
      | process i =>
          obtain ⟨q, st, hi, hbegins⟩ := begins_of_step h hstep
          rw [barrier_begins_iff h hp hbegins]
          constructor
          · intro hudt q' hi' hfake
            rw [hi] at hi'
            cases hi'
            exact hudt hfake
          · exact fun hapart => hapart q hi
      | complete i => exact iff_of_true (hp.complete hstep) trivial
  | blockOnLast iop =>
      cases hstep
      exact barrier_blockOnLast_iff h hp iop
  | queueMarker i =>
      rw [barrier_queueMarker_iff h hp hstep]
      obtain ⟨w, hw, -⟩ := Option.map_eq_some_iff.mp hstep
      exact ⟨fun hfine _ => hfine, fun hfine => hfine (List.getElem?_eq_some_iff.mp hw).1⟩
  | session i c => exact iff_of_true (hp.aside (aside_session hstep)) trivial
  | retry i =>
      refine iff_of_true ?_ trivial
      simp only [step, retry] at hstep
      split at hstep
      next n k q hi hq =>
        split at hstep
        next =>
          cases hstep
          have haside := aside_udt_channel s q.buffer.dest true
          have hi' : (udt_channel s q.buffer.dest true).1.stages[i]? = some (.udt n k false) := by
            rw [haside.stages]
            exact hi
          exact (hp.aside haside).setStage hi' rfl
        next => cases hstep
      next => cases hstep
  | receive n k =>
      obtain ⟨w, -, rfl⟩ := Option.map_eq_some_iff.mp hstep
      exact iff_of_true (hp.aside ⟨rfl, rfl, rfl, rfl, rfl, rfl⟩) trivial
  | lookup i =>
      simp only [step, lookup] at hstep
      split at hstep
      next k n id hi =>
        split at hstep
        next hnone =>
          cases hstep
          rw [barrier_setValue_iff h hp hi rfl]
          constructor
          · intro hdone k' n' id' hi' _
            rw [hi] at hi'
            cases hi'
            exact hdone rfl
          · exact fun hapart _ => hapart k n id hi hnone
        next c hsome =>
          cases hstep
          refine iff_of_true (hp.setStage hi rfl) fun k' n' id' hi' hnone => ?_
          rw [hi] at hi'
          cases hi'
          rw [hsome] at hnone
          cases hnone
      next => cases hstep
  | wake i =>
      simp only [step, wake] at hstep
      split at hstep
      next k n c hi =>
        cases hstep
        rw [barrier_setValue_iff h hp hi rfl]
        constructor
        · intro hdone k' n' c' hi' hready
          rw [hi] at hi'
          cases hi'
          exact hdone (decide_eq_true hready)
        · exact fun hapart hready => hapart k n c hi (of_decide_eq_true hready)
      next => cases hstep

/-- What cannot happen needs no condition. -/
theorem apart_of_disabled {cfg : QueueConfig} {s : State} {a : Act} (hstep : step cfg s a = none) :
    Apart cfg s a := by
  cases a with
  | queue a =>
      cases a with
      | write c | blockOnLast | wakeUp i | stop | complete i => trivial
      | dispatch =>
          intro hloop hstop
          simp only [step, QueueThreads.step, QueueThreads.dispatch, hloop, hstop, if_true,
            Option.map_some] at hstep
          cases hstep
      | process i =>
          intro q hi
          simp only [step, hi, QueueThreads.step, Option.map_some, Option.bind_some] at hstep
          cases hstep
  | blockOnLast iop => cases hstep
  | queueMarker i =>
      intro hlt
      simp only [step, queueMarker, List.getElem?_eq_getElem hlt, Option.map_some] at hstep
      cases hstep
  | session i c | retry i | receive n k => trivial
  | lookup i =>
      intro k n id hi hnone
      simp only [step, lookup, hi, hnone] at hstep
      cases hstep
  | wake i =>
      intro k n c hi
      simp only [step, wake, hi] at hstep
      cases hstep

/-- In every run of the queue, over all interleavings of writers, callers of `block_on_last`, the
dispatcher, the workers and the sessions, `block_on_last` is a barrier in every state iff every step
meets the condition. -/
theorem block_on_last_is_barrier_iff (cfg : QueueConfig) (acts : List Act) :
    Machine.Always (step cfg) Barrier (start cfg) acts ↔
      Machine.Guarded (step cfg) (Apart cfg) (start cfg) acts :=
  Machine.always_iff_guarded (fun _ _ _ => placed_step) (fun _ _ _ => barrier_step_iff)
    (fun _ _ => apart_of_disabled) (placed_start cfg) (barrier_start cfg)

/-- A write is with a worker; two calls of `block_on_last` directly after one another queue their
markers; a worker gets them and is done. -/
private def twoMarkers : List Act :=
  [.queue (.write (WriteBehind.byteCall 0 1 WriteBehind.firstByte_lt)), .queue .dispatch,
    .queue .dispatch, .queue .dispatch, .queue .dispatch, .blockOnLast 0, .blockOnLast 0,
    .queueMarker 0, .queueMarker 0, .queue .dispatch, .queue .dispatch, .queue .dispatch,
    .queue (.process 1), .queue (.complete 0)]

/-- In TCP mode the callback of the first marker gives its promise no value; the second marker was
merged into the first, and its callback never runs. -/
theorem markers_never_answer :
    ∃ t, Machine.run (step WriteBehind.defaultConfig) (start WriteBehind.defaultConfig) twoMarkers
        = some t ∧
      t.markers 1 = some ⟨0, [0], 1, []⟩ ∧ t.markers 2 = some ⟨0, [0], 0, []⟩ ∧
      coming t.queue = t.queue.assigned ∧ t.stages = [] ∧ ¬ Barrier t := by
  refine ⟨_, rfl, rfl, rfl, rfl, rfl, fun h => ?_⟩
  rcases h.once 1 _ rfl with ⟨-, hone⟩ | ⟨-, ⟨hzero, -⟩ | ⟨-, st, hst, -⟩⟩
  · cases hone
  · cases hzero
  · cases hst

end Gvds.QueueMarkers
