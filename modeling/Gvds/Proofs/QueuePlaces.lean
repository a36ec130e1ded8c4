/-
Module: Gvds.Proofs.QueuePlaces
Layer: Proofs
Purpose: Where the markers of block_on_last are in the queue. Every buffer is with no worker yet, in
  Processing, or completed; a marker's callback is entered by the worker that gets its buffer, and
  by no other one; and what was queued before a call stays ahead of its marker through merges, swaps
  and the hand-over to workers.
Imports: Gvds.Lib.IndexedList, Gvds.Lib.Machine, Gvds.Client.QueueMarkers, Gvds.Proofs.QueueShutdown
Trusted boundary: as Gvds.Client.QueueMarkers
Main exports: Moves, Begins, Placed, placed_step, Placed.handed_before
-/
import Gvds.Lib.IndexedList
import Gvds.Lib.Machine
import Gvds.Client.QueueMarkers
import Gvds.Proofs.QueueShutdown

namespace Gvds.QueueMarkers

open WriteBehind (Buffer QueueConfig)
open QueueThreads (Queued Dispatcher.batch callsIn taken fakeBuffer Tracked mem_callsIn)
open scoped List

/-! ### Steps of the queue that begin and complete nothing -/

/-- The buffers that no worker has begun with. -/
def unbegun (s : QueueThreads.State) : List Queued :=
  s.assigned ++ (s.dispatcher.batch ++ s.buf_waiting_line)

/-- The buffers that some worker will begin with. -/
def coming (s : QueueThreads.State) : List Queued :=
  if s.dispatcher = .ended then s.assigned else unbegun s

/-- The queue has another waiting line, and the rest is the same as far as the places of buffers
go. -/
structure Lined (s t : QueueThreads.State) (line : List Queued) : Prop where
  line_eq : t.buf_waiting_line = line
  dispatcher : t.dispatcher = s.dispatcher
  assigned : t.assigned = s.assigned
  processing : t.processing = s.processing
  buf_onlink : t.buf_onlink = s.buf_onlink
  handed : t.handed = s.handed
  begun : t.begun = s.begun

/-- Which calls are noted as accepted does not matter. -/
theorem Lined.accept {s t : QueueThreads.State} {line : List Queued} (h : Lined s t line)
    (b : Buffer) (call : Nat) : Lined s (QueueThreads.accept t b call) line := by
  unfold QueueThreads.accept
  split
  · exact h
  · exact ⟨h.line_eq, h.dispatcher, h.assigned, h.processing, h.buf_onlink, h.handed, h.begun⟩

/-- `queue_buffer` waits, or pushes the buffer, or merges it into the last one. -/
theorem queue_buffer_cases (cfg : QueueConfig) (s : QueueThreads.State) (b : Buffer)
    (block : Bool) :
    let t := QueueThreads.queue_buffer cfg s b block
    (block = true ∧ Lined s t s.buf_waiting_line ∧
        t.waiters = s.waiters ++ [(s.calls.length, b)]) ∨
      (Lined s t (s.buf_waiting_line ++ [⟨b, [s.calls.length]⟩]) ∧ t.waiters = s.waiters ∧
        ∀ last, s.buf_waiting_line.getLast? = some last → ¬ last.buffer.Merges b) ∨
      ∃ last, s.buf_waiting_line.getLast? = some last ∧ last.buffer.Merges b ∧
        Lined s t (s.buf_waiting_line.dropLast ++
          [⟨last.buffer.append b.buf, last.calls ++ [s.calls.length]⟩]) ∧
        t.waiters = s.waiters := by
  have haccept : ∀ (u : QueueThreads.State) (call : Nat),
      (QueueThreads.accept u b call).waiters = u.waiters := by
    intro u call
    unfold QueueThreads.accept
    split <;> rfl
  have hlater : (∀ last, s.buf_waiting_line.getLast? = some last → ¬ last.buffer.Merges b) →
      let t := QueueThreads.waitOrPush cfg { s with calls := s.calls ++ [b] } b s.calls.length block
      (block = true ∧ Lined s t s.buf_waiting_line ∧
          t.waiters = s.waiters ++ [(s.calls.length, b)]) ∨
        (Lined s t (s.buf_waiting_line ++ [⟨b, [s.calls.length]⟩]) ∧ t.waiters = s.waiters ∧
          ∀ last, s.buf_waiting_line.getLast? = some last → ¬ last.buffer.Merges b) := by
    intro hnone
    dsimp only
    unfold QueueThreads.waitOrPush
    split
    next hfull => exact .inl ⟨hfull.2, ⟨rfl, rfl, rfl, rfl, rfl, rfl, rfl⟩, rfl⟩
    next =>
      refine .inr ⟨?_, haccept _ _, hnone⟩
      apply Lined.accept
      exact ⟨rfl, rfl, rfl, rfl, rfl, rfl, rfl⟩
  dsimp only
  unfold QueueThreads.queue_buffer
  dsimp only
  cases hlast : s.buf_waiting_line.getLast? with
  | none =>
      have hwait := hlater fun last hlast' => by
        rw [hlast] at hlast'
        cases hlast'
      simp only [hlast] at hwait
      exact hwait.imp_right .inl
  | some last =>
      dsimp only
      split
      next hmerges =>
        refine .inr (.inr ⟨last, rfl, hmerges, ?_, haccept _ _⟩)
        apply Lined.accept
        exact ⟨rfl, rfl, rfl, rfl, rfl, rfl, rfl⟩
      next hmerges =>
        have hwait := hlater fun last' hlast' => by
          rw [hlast] at hlast'
          cases hlast'
          exact hmerges
        simp only [hlast] at hwait
        exact hwait.imp_right .inl

/-- What the steps do that begin and complete nothing: the calls that are queued stay in order, new
buffers are writes, and no marker goes away. -/
structure Moves (s t : QueueThreads.State) : Prop where
  processing : t.processing = s.processing
  begun : t.begun = s.begun
  onlink : s.buf_onlink = s.assigned.length + s.processing.length →
    t.buf_onlink = t.assigned.length + t.processing.length
  queued : callsIn (taken s) <+: callsIn (taken t)
  waiters : ∀ w ∈ t.waiters, w ∈ s.waiters ∨ w.2.path ≠ ""
  new : ∀ q ∈ unbegun t, q ∈ unbegun s ∨ q.calls ≠ [] ∧ q.buffer.path ≠ ""
  kept : ∀ q ∈ unbegun s, q.buffer.path = "" → q ∈ unbegun t
  ended : s.dispatcher = .ended → t.dispatcher = .ended ∧ t.assigned = s.assigned

/-- A step that leaves the dispatcher alone and changes the end of the line. -/
theorem Lined.moves {s t : QueueThreads.State} {front back back' : List Queued}
    (h : Lined s t (front ++ back')) (hline : s.buf_waiting_line = front ++ back)
    (hcalls : callsIn back <+: callsIn back')
    (hwaiters : ∀ w ∈ t.waiters, w ∈ s.waiters ∨ w.2.path ≠ "")
    (hback : ∀ q ∈ back, q.buffer.path ≠ "")
    (hback' : ∀ q ∈ back', q.calls ≠ [] ∧ q.buffer.path ≠ "") : Moves s t where
  processing := h.processing
  begun := h.begun
  onlink := by
    rw [h.buf_onlink, h.assigned, h.processing]
    exact id
  queued := by
    simp only [taken, h.handed, h.dispatcher, h.line_eq, hline, QueueThreads.callsIn_append,
      ← List.append_assoc]
    exact (List.prefix_append_right_inj _).mpr hcalls
  waiters := hwaiters
  new := by
    intro q hq
    simp only [unbegun, h.assigned, h.dispatcher, h.line_eq, hline, List.mem_append] at hq ⊢
    rcases hq with hassigned | hbatch | hfront | hlast
    · exact .inl (.inl hassigned)
    · exact .inl (.inr (.inl hbatch))
    · exact .inl (.inr (.inr (.inl hfront)))
    · exact .inr (hback' q hlast)
  kept := by
    intro q hq hfake
    simp only [unbegun, h.assigned, h.dispatcher, h.line_eq, hline, List.mem_append] at hq ⊢
    rcases hq with hassigned | hbatch | hfront | hlast
    · exact .inl hassigned
    · exact .inr (.inl hbatch)
    · exact .inr (.inr (.inl hfront))
    · exact absurd hfake (hback q hlast)
  ended := by
    rw [h.dispatcher]
    exact fun hended => ⟨hended, h.assigned⟩

/-- `queue_buffer` for a write. -/
theorem moves_queue_buffer (cfg : QueueConfig) (s : QueueThreads.State) {b : Buffer}
    (hb : b.path ≠ "") (block : Bool) : Moves s (QueueThreads.queue_buffer cfg s b block) := by
  have hkept : ∀ w ∈ s.waiters, w ∈ s.waiters ∨ w.2.path ≠ "" := fun _ => .inl
  rcases queue_buffer_cases cfg s b block with ⟨-, hlined, hw⟩ | ⟨hlined, hw, -⟩ |
    ⟨last, hlast, hmerges, hlined, hw⟩
  · rw [← List.append_nil s.buf_waiting_line] at hlined
    refine hlined.moves (List.append_nil _).symm List.prefix_rfl ?_ (by simp) (by simp)
    rw [hw]
    intro w hmem
    rcases List.mem_append.mp hmem with hold | hnew
    · exact .inl hold
    · rw [List.mem_singleton.mp hnew]
      exact .inr hb
  · refine hlined.moves (List.append_nil _).symm (List.nil_prefix) (hw ▸ hkept) (by simp) ?_
    simp [hb]
  · have hpath : last.buffer.path ≠ "" := by
      rw [hmerges.1]
      exact hb
    refine hlined.moves (List.dropLast_append_getLast? last hlast).symm ?_ (hw ▸ hkept) ?_ ?_
    · simp
    · simp [hpath]
    · simp [Buffer.append, hpath]

/-- The dispatcher only moves buffers. -/
theorem moves_dispatch {s t : QueueThreads.State} (hstep : QueueThreads.dispatch s = some t) :
    Moves s t := by
  have hsame : ∀ {d : QueueThreads.Dispatcher}, s.dispatcher ≠ .ended →
      d.batch = s.dispatcher.batch →
      Moves s { s with dispatcher := d } := by
    intro d hrunning hbatch
    have htaken : taken { s with dispatcher := d } = taken s := by simp only [taken, hbatch]
    have hunbegun : unbegun { s with dispatcher := d } = unbegun s := by simp only [unbegun, hbatch]
    exact ⟨rfl, rfl, id, htaken ▸ List.prefix_rfl, fun _ => .inl, fun _ hq => .inl (hunbegun ▸ hq),
      fun _ hq _ => hunbegun ▸ hq, fun hended => absurd hended hrunning⟩
  unfold QueueThreads.dispatch at hstep
  cases hd : s.dispatcher with
  | loop =>
      rw [hd] at hstep
      dsimp only at hstep
      split at hstep
      · cases hstep
        exact hsame (by simp [hd]) (by rw [hd]; rfl)
      · split at hstep
        · cases hstep
          exact hsame (by simp [hd]) (by rw [hd]; rfl)
        · cases hstep
          exact hsame (by simp [hd]) (by rw [hd]; rfl)
  | waiting =>
      rw [hd] at hstep
      cases hstep
      exact hsame (by simp [hd]) (by rw [hd]; rfl)
  | swapping =>
      rw [hd] at hstep
      cases hstep
      refine ⟨rfl, rfl, id, ?_, fun _ => .inl, fun q hq => .inl ?_, fun q hq _ => ?_, ?_⟩
      · simp [taken, hd, Dispatcher.batch]
      · simpa [unbegun, hd, Dispatcher.batch] using hq
      · simpa [unbegun, hd, Dispatcher.batch] using hq
      · intro hended
        rw [hd] at hended
        cases hended
  | ended =>
      rw [hd] at hstep
      cases hstep
  | dispatching batch =>
      have hended : ∀ {p : Prop}, s.dispatcher = .ended → p := by
        intro p hended
        rw [hd] at hended
        cases hended
      cases batch with
      | nil =>
          rw [hd] at hstep
          cases hstep
          exact hsame (fun h => hended h) (by rw [hd]; rfl)
      | cons q batch =>
          rw [hd] at hstep
          dsimp only at hstep
          split at hstep
          · cases hstep
          · cases hstep
            refine ⟨rfl, rfl, fun hcount => ?_, ?_, fun _ => .inl, fun q' hq' => .inl ?_,
              fun q' hq' _ => ?_, hended⟩
            · dsimp only
              rw [hcount, List.length_append, List.length_singleton]
              push_cast
              omega
            · simp [taken, hd, Dispatcher.batch]
            · simpa [unbegun, hd, Dispatcher.batch] using hq'
            · simpa [unbegun, hd, Dispatcher.batch] using hq'

/-- A waiting call that wakes up is a write. -/
theorem moves_wakeUp {s : QueueThreads.State} {i : Nat} {w : Nat × Buffer}
    (hw : s.waiters[i]? = some w) (hreal : ∀ w ∈ s.waiters, w.2.path ≠ "") :
    Moves s (QueueThreads.push { s with waiters := s.waiters.eraseIdx i } w.2 w.1) := by
  have hlined : Lined s (QueueThreads.push { s with waiters := s.waiters.eraseIdx i } w.2 w.1)
      (s.buf_waiting_line ++ [⟨w.2, [w.1]⟩]) := by
    apply Lined.accept
    exact ⟨rfl, rfl, rfl, rfl, rfl, rfl, rfl⟩
  refine hlined.moves (List.append_nil _).symm List.nil_prefix ?_ (by simp) ?_
  · intro w' hw'
    have hwaiters : (QueueThreads.push { s with waiters := s.waiters.eraseIdx i } w.2 w.1).waiters
        = s.waiters.eraseIdx i := by
      unfold QueueThreads.push QueueThreads.accept
      split <;> rfl
    rw [hwaiters] at hw'
    exact .inl (List.mem_of_mem_eraseIdx hw')
  · simp [hreal w (List.mem_of_getElem? hw)]

/-- What the rest of `block_on_last` does to the queue: the marker goes behind the line, or into the
buffers `back` at its end, which are markers, too. -/
structure Marks (s t : QueueThreads.State) (front back : List Queued) (q : Queued) : Prop where
  lined : Lined s t (front ++ [q])
  line_eq : s.buf_waiting_line = front ++ back
  calls_eq : q.calls = callsIn back ++ [s.calls.length]
  path_eq : q.buffer.path = ""
  fakes : ∀ q' ∈ back, q'.buffer.path = ""
  merged : back ≠ [] ↔
    ∃ last, s.buf_waiting_line.getLast? = some last ∧ last.buffer.Merges fakeBuffer
  waiters : t.waiters = s.waiters

theorem marks_queue_buffer (cfg : QueueConfig) (s : QueueThreads.State) :
    ∃ front back q, Marks s (QueueThreads.queue_buffer cfg s fakeBuffer false) front back q := by
  rcases queue_buffer_cases cfg s fakeBuffer false with ⟨hblock, -⟩ | ⟨hlined, hw, hnone⟩ |
    ⟨last, hlast, hmerges, hlined, hw⟩
  · cases hblock
  · refine ⟨s.buf_waiting_line, [], _, hlined, (List.append_nil _).symm, rfl, rfl, by simp, ?_, hw⟩
    constructor
    · exact fun hne => absurd rfl hne
    · rintro ⟨last, hlast, hmerges⟩
      exact absurd hmerges (hnone last hlast)
  · have hpath : last.buffer.path = "" := hmerges.1
    refine ⟨s.buf_waiting_line.dropLast, [last], _, hlined,
      (List.dropLast_append_getLast? last hlast).symm, by simp, hpath, by simp [hpath], ?_, hw⟩
    constructor
    · exact fun _ => ⟨last, hlast, hmerges⟩
    · exact fun _ => List.cons_ne_nil _ _

theorem Marks.queued {s t : QueueThreads.State} {front back : List Queued} {q : Queued}
    (h : Marks s t front back q) : callsIn (taken t) = callsIn (taken s) ++ [s.calls.length] := by
  simp only [taken, h.lined.handed, h.lined.dispatcher, h.lined.line_eq, h.line_eq,
    QueueThreads.callsIn_append, QueueThreads.callsIn_singleton, h.calls_eq, List.append_assoc]

theorem Marks.mem_unbegun {s t : QueueThreads.State} {front back : List Queued} {q q' : Queued}
    (h : Marks s t front back q) (hq : q' ∈ unbegun t) : q' = q ∨ q' ∈ unbegun s := by
  simp only [unbegun, h.lined.assigned, h.lined.dispatcher, h.lined.line_eq, h.line_eq,
    List.mem_append, List.mem_singleton] at hq ⊢
  rcases hq with hassigned | hbatch | hfront | hlast
  · exact .inr (.inl hassigned)
  · exact .inr (.inr (.inl hbatch))
  · exact .inr (.inr (.inr (.inl hfront)))
  · exact .inl hlast

/-! ### Where the markers are -/

/-- Every buffer is with no worker yet, in `Processing`, or completed. The callback of a marker that
no worker has begun with was not entered; a worker in a callback has its marker, which has no value
yet. What was queued before a call is before its marker. -/
structure Placed (s : State) : Prop where
  tracked : Tracked s.queue
  begun : s.queue.begun ~ s.queue.processing ++ s.completed
  onlink : s.queue.buf_onlink = s.queue.assigned.length + s.queue.processing.length
  waiters : ∀ w ∈ s.queue.waiters, w.2.path ≠ ""
  nonempty : ∀ q ∈ unbegun s.queue, q.calls ≠ []
  waiting : ∀ q ∈ unbegun s.queue, q.buffer.path = "" → ∀ k ∈ q.calls,
    ∃ m, s.markers k = some m ∧ m.callbacks = 0 ∧ m.values = []
  length : s.stages.length = s.queue.processing.length
  entered : ∀ (i : Nat) (st : Stage) (k : Nat), s.stages[i]? = some st → st.marker? = some k →
    (∃ q : Queued, s.queue.processing[i]? = some q ∧ k ∈ q.calls) ∧
      ∃ m, s.markers k = some m ∧ m.callbacks = 1 ∧ m.values = []
  behind : ∀ k m, s.markers k = some m →
    ∃ pre, m.before ⊆ pre ∧ pre ++ [k] <+: callsIn (taken s.queue)
  ahead : ∀ w ∈ s.blockers, ∃ pre, w.2 ⊆ pre ∧ pre <+: callsIn (taken s.queue)

theorem placed_start (cfg : QueueConfig) : Placed (start cfg) := by
  have htracked := QueueThreads.tracked_start cfg
  constructor <;> simp_all [start, QueueThreads.start, unbegun, Dispatcher.batch]

theorem Placed.perm {s : State} (h : Placed s) :
    taken s.queue ~ unbegun s.queue ++ (s.queue.processing ++ s.completed) := by
  calc taken s.queue
      ~ s.queue.assigned ++ s.queue.begun ++ (s.queue.dispatcher.batch ++ s.queue.buf_waiting_line) :=
        h.tracked.given.append_right _
    _ = s.queue.assigned ++
          (s.queue.begun ++ (s.queue.dispatcher.batch ++ s.queue.buf_waiting_line)) :=
        List.append_assoc ..
    _ ~ s.queue.assigned ++
          (s.queue.dispatcher.batch ++ s.queue.buf_waiting_line ++ s.queue.begun) :=
        List.perm_append_comm.append_left _
    _ = unbegun s.queue ++ s.queue.begun := (List.append_assoc ..).symm
    _ ~ unbegun s.queue ++ (s.queue.processing ++ s.completed) := h.begun.append_left _

/-- Each call is in one place. -/
theorem Placed.nodup {s : State} (h : Placed s) :
    (callsIn (unbegun s.queue) ++ (callsIn s.queue.processing ++ callsIn s.completed)).Nodup := by
  have hperm := (h.perm.flatMap_right Queued.calls).nodup_iff.mp h.tracked.once.of_append_left
  rw [← QueueThreads.callsIn_append, ← QueueThreads.callsIn_append]
  exact hperm

theorem Placed.mem_queued {s : State} (h : Placed s) {c : Nat} :
    c ∈ callsIn (taken s.queue) ↔ c ∈ callsIn (unbegun s.queue) ∨
      c ∈ callsIn s.queue.processing ∨ c ∈ callsIn s.completed := by
  rw [← List.mem_append, ← List.mem_append, ← QueueThreads.callsIn_append,
    ← QueueThreads.callsIn_append]
  exact (h.perm.flatMap_right Queued.calls).mem_iff

/-- The number of the next call is new. -/
theorem Placed.fresh {s : State} (h : Placed s) :
    s.queue.calls.length ∉ callsIn (taken s.queue) :=
  fun hmem => Nat.lt_irrefl _ (h.tracked.lt_length (List.mem_append_left _ hmem))

/-- Two workers do not share a call. -/
theorem Placed.same_worker {s : State} (h : Placed s) {i j k : Nat} {q q' : Queued}
    (hi : s.queue.processing[i]? = some q) (hj : s.queue.processing[j]? = some q')
    (hk : k ∈ q.calls) (hk' : k ∈ q'.calls) : i = j := by
  have hnodup : (callsIn s.queue.processing).Nodup := h.nodup.of_append_right.of_append_left
  obtain ⟨hlt, rfl⟩ := List.getElem?_eq_some_iff.mp hi
  obtain ⟨hlt', rfl⟩ := List.getElem?_eq_some_iff.mp hj
  by_contra hne
  have hpairwise := (List.nodup_flatMap.mp hnodup).2
  rcases Nat.lt_or_gt_of_ne hne with hij | hji
  · exact List.pairwise_iff_getElem.mp hpairwise i j hlt hlt' hij hk hk'
  · exact List.pairwise_iff_getElem.mp hpairwise j i hlt' hlt hji hk' hk

/-! ### One step keeps the markers in place -/

/-- The sessions do not matter. -/
structure Aside (s t : State) : Prop where
  queue : t.queue = s.queue
  stages : t.stages = s.stages
  blockers : t.blockers = s.blockers
  markers : t.markers = s.markers
  atOnce : t.atOnce = s.atOnce
  completed : t.completed = s.completed

theorem aside_udt_channel (s : State) (iop : Nat) (reconnect : Bool) :
    Aside s (udt_channel s iop reconnect).1 := by
  unfold udt_channel
  dsimp only
  split
  · exact ⟨rfl, rfl, rfl, rfl, rfl, rfl⟩
  · split
    · exact ⟨rfl, rfl, rfl, rfl, rfl, rfl⟩
    · exact ⟨rfl, rfl, rfl, rfl, rfl, rfl⟩

theorem Placed.aside {s t : State} (h : Placed s) (hst : Aside s t) : Placed t := by
  obtain ⟨hq, hs, hb, hm, -, hc⟩ := hst
  constructor
  · exact hq ▸ h.tracked
  · rw [hq, hc]
    exact h.begun
  · exact hq ▸ h.onlink
  · exact hq ▸ h.waiters
  · exact hq ▸ h.nonempty
  · rw [hq, hm]
    exact h.waiting
  · rw [hs, hq]
    exact h.length
  · rw [hs, hq, hm]
    exact h.entered
  · rw [hm, hq]
    exact h.behind
  · rw [hb, hq]
    exact h.ahead

/-- A step of the queue that begins and completes nothing. -/
theorem Placed.moves {s : State} (h : Placed s) {queue : QueueThreads.State}
    (hmoves : Moves s.queue queue) (htracked : Tracked queue) :
    Placed { s with queue := queue } where
  tracked := htracked
  begun := by
    rw [hmoves.begun, hmoves.processing]
    exact h.begun
  onlink := hmoves.onlink h.onlink
  waiters := by
    intro w hw
    exact (hmoves.waiters w hw).elim (h.waiters w) id
  nonempty := by
    intro q hq
    exact (hmoves.new q hq).elim (h.nonempty q) And.left
  waiting := by
    intro q hq hfake
    rcases hmoves.new q hq with hold | ⟨-, hreal⟩
    · exact h.waiting q hold hfake
    · exact absurd hfake hreal
  length := hmoves.processing ▸ h.length
  entered := by
    rw [hmoves.processing]
    exact h.entered
  behind := by
    intro k m hm
    obtain ⟨pre, hbefore, hprefix⟩ := h.behind k m hm
    exact ⟨pre, hbefore, hprefix.trans hmoves.queued⟩
  ahead := by
    intro w hw
    obtain ⟨pre, hbefore, hprefix⟩ := h.ahead w hw
    exact ⟨pre, hbefore, hprefix.trans hmoves.queued⟩

theorem Placed.blockOnLast {s : State} (h : Placed s) (iop : Nat) :
    Placed (blockOnLast s iop) := by
  unfold QueueMarkers.blockOnLast
  split
  · exact ⟨h.tracked, h.begun, h.onlink, h.waiters, h.nonempty, h.waiting, h.length, h.entered,
      h.behind, h.ahead⟩
  · refine ⟨h.tracked, h.begun, h.onlink, h.waiters, h.nonempty, h.waiting, h.length, h.entered,
      h.behind, fun w hw => ?_⟩
    rcases List.mem_append.mp hw with hold | hnew
    · exact h.ahead w hold
    · rw [List.mem_singleton.mp hnew]
      refine ⟨callsIn (taken s.queue), ?_, List.prefix_rfl⟩
      intro c hc
      obtain ⟨q, hq, hcq⟩ := mem_callsIn.mp hc
      exact mem_callsIn.mpr ⟨q, (List.mem_filter.mp hq).1, hcq⟩

theorem Placed.queueMarker {cfg : QueueConfig} {s t : State} (h : Placed s) {i : Nat}
    (hstep : queueMarker cfg s i = some t) : Placed t := by
  obtain ⟨w, hw, rfl⟩ := Option.map_eq_some_iff.mp hstep
  obtain ⟨front, back, q, hmarks⟩ := marks_queue_buffer cfg s.queue
  have hlined := hmarks.lined
  have hne : ∀ k, k ∈ callsIn (taken s.queue) → k ≠ s.queue.calls.length := by
    rintro k hk rfl
    exact h.fresh hk
  constructor
  · exact h.tracked.queue_buffer fun _ => rfl
  · rw [hlined.begun, hlined.processing]
    exact h.begun
  · rw [hlined.buf_onlink, hlined.assigned, hlined.processing]
    exact h.onlink
  · rw [hmarks.waiters]
    exact h.waiters
  · intro q' hq'
    rcases hmarks.mem_unbegun hq' with rfl | hold
    · simp [hmarks.calls_eq]
    · exact h.nonempty q' hold
  · intro q' hq' hfake k hk
    dsimp only
    by_cases hnew : k = s.queue.calls.length
    · rw [hnew, Function.update_self]
      exact ⟨_, rfl, rfl, rfl⟩
    · rw [Function.update_of_ne hnew]
      rcases hmarks.mem_unbegun hq' with rfl | hold
      · rw [hmarks.calls_eq, List.mem_append, List.mem_singleton] at hk
        obtain ⟨q₀, hq₀, hk₀⟩ := mem_callsIn.mp (hk.resolve_right hnew)
        refine h.waiting q₀ ?_ (hmarks.fakes q₀ hq₀) k hk₀
        simp [unbegun, hmarks.line_eq, hq₀]
      · exact h.waiting q' hold hfake k hk
  · rw [hlined.processing]
    exact h.length
  · intro j st k hj hst
    dsimp only at hj ⊢
    obtain ⟨⟨q', hq', hk⟩, hmarker⟩ := h.entered j st k hj hst
    rw [hlined.processing]
    have hplace : k ∈ callsIn (taken s.queue) :=
      h.mem_queued.mpr (.inr (.inl (mem_callsIn.mpr ⟨q', List.mem_of_getElem? hq', hk⟩)))
    rw [Function.update_of_ne (hne k hplace)]
    exact ⟨⟨q', hq', hk⟩, hmarker⟩
  · intro k m hm
    dsimp only at hm ⊢
    rw [hmarks.queued]
    rcases eq_or_ne k s.queue.calls.length with rfl | hold
    · rw [Function.update_self] at hm
      cases hm
      obtain ⟨pre, hbefore, hprefix⟩ := h.ahead w (List.mem_of_getElem? hw)
      exact ⟨callsIn (taken s.queue), List.Subset.trans hbefore hprefix.subset, List.prefix_rfl⟩
    · rw [Function.update_of_ne hold] at hm
      obtain ⟨pre, hbefore, hprefix⟩ := h.behind k m hm
      exact ⟨pre, hbefore, hprefix.trans (List.prefix_append _ _)⟩
  · intro w' hw'
    dsimp only at hw' ⊢
    rw [hmarks.queued]
    obtain ⟨pre, hbefore, hprefix⟩ := h.ahead w' (List.mem_of_mem_eraseIdx hw')
    exact ⟨pre, hbefore, hprefix.trans (List.prefix_append _ _)⟩

/-- What a worker does that enters `Processing`: a write goes on its way; a marker's callback is
entered, and asks the session in UDT mode. -/
structure Enters (cfg : QueueConfig) (s t : State) (q : Queued) (st : Stage) : Prop where
  queue : t.queue = s.queue
  stages : t.stages = s.stages ++ [st]
  blockers : t.blockers = s.blockers
  atOnce : t.atOnce = s.atOnce
  completed : t.completed = s.completed
  marker : q.buffer.path ≠ "" ∧ t.markers = s.markers ∧ st.marker? = none ∨
    ∃ k m, q.buffer.path = "" ∧ q.calls.head? = some k ∧ s.markers k = some m ∧
      t.markers = Function.update s.markers k (some { m with callbacks := m.callbacks + 1 }) ∧
      st.marker? = if cfg.use_udt then some k else none

/-- The callback of marker `k` is entered. -/
def countCallback (s : State) (k : Nat) (m : Marker) : State :=
  { s with markers := Function.update s.markers k (some { m with callbacks := m.callbacks + 1 }) }

theorem enters_marker {cfg : QueueConfig} {s u : State} {q : Queued} {st : Stage} {k : Nat}
    {m : Marker} (haside : Aside (countCallback s k m) u) (hfake : q.buffer.path = "")
    (hhead : q.calls.head? = some k) (hm : s.markers k = some m)
    (hst : st.marker? = if cfg.use_udt then some k else none) :
    Enters cfg s (enter u st) q st where
  queue := haside.queue
  stages := congrArg (· ++ [st]) haside.stages
  blockers := haside.blockers
  atOnce := haside.atOnce
  completed := haside.completed
  marker := .inr ⟨k, m, hfake, hhead, hm, haside.markers, hst⟩

theorem enters_write {cfg : QueueConfig} {s u : State} {q : Queued} {st : Stage}
    (haside : Aside s u) (hreal : q.buffer.path ≠ "") (hst : st.marker? = none) :
    Enters cfg s (enter u st) q st where
  queue := haside.queue
  stages := congrArg (· ++ [st]) haside.stages
  blockers := haside.blockers
  atOnce := haside.atOnce
  completed := haside.completed
  marker := .inl ⟨hreal, haside.markers, hst⟩

theorem Aside.refl (s : State) : Aside s s := ⟨rfl, rfl, rfl, rfl, rfl, rfl⟩

theorem enters_process (cfg : QueueConfig) (s : State) {q : Queued} (call : Nat)
    (hmarker : q.buffer.path = "" → ∃ k m, q.calls.head? = some k ∧ s.markers k = some m) :
    ∃ st, Enters cfg s (process cfg s q call) q st := by
  unfold process
  by_cases hfake : q.buffer.path = ""
  · obtain ⟨k, m, hhead, hm⟩ := hmarker hfake
    simp only [hfake, hhead, hm, if_true]
    unfold callback
    by_cases hudt : cfg.use_udt = true
    · simp only [hudt, if_true]
      exact ⟨_, enters_marker (aside_udt_channel (countCallback s k m) _ _) hfake hhead hm
        (if_pos hudt).symm⟩
    · simp only [hudt]
      exact ⟨_, enters_marker (.refl (countCallback s k m)) hfake hhead hm (if_neg hudt).symm⟩
  · simp only [hfake, if_false]
    by_cases hudt : cfg.use_udt = true
    · simp only [hudt, if_true]
      exact ⟨_, enters_write (aside_udt_channel s _ _) hfake rfl⟩
    · simp only [hudt]
      exact ⟨_, enters_write (.refl s) hfake rfl⟩

theorem Placed.head_marker {s : State} (h : Placed s) {q : Queued} (hq : q ∈ unbegun s.queue)
    (hfake : q.buffer.path = "") :
    ∃ k m, q.calls.head? = some k ∧ s.markers k = some m ∧ m.callbacks = 0 ∧ m.values = [] := by
  cases hcalls : q.calls with
  | nil => exact absurd hcalls (h.nonempty q hq)
  | cons k rest =>
      obtain ⟨m, hm⟩ := h.waiting q hq hfake k (by rw [hcalls]; exact List.mem_cons_self)
      exact ⟨k, m, rfl, hm⟩

/-- The step of a worker that enters `Processing`, seen from the buffers. -/
structure Begins (cfg : QueueConfig) (s t : State) (q : Queued) (st : Stage) : Prop where
  tracked : Tracked t.queue
  perm : unbegun s.queue ~ q :: unbegun t.queue
  dispatcher : t.queue.dispatcher = s.queue.dispatcher
  line : t.queue.buf_waiting_line = s.queue.buf_waiting_line
  assigned : s.queue.assigned ~ q :: t.queue.assigned
  taken_eq : taken t.queue = taken s.queue
  processing : t.queue.processing = s.queue.processing ++ [q]
  begun : t.queue.begun = s.queue.begun ++ [q]
  buf_onlink : t.queue.buf_onlink = s.queue.buf_onlink
  waiters : t.queue.waiters = s.queue.waiters
  stages : t.stages = s.stages ++ [st]
  blockers : t.blockers = s.blockers
  atOnce : t.atOnce = s.atOnce
  completed : t.completed = s.completed
  marker : q.buffer.path ≠ "" ∧ t.markers = s.markers ∧ st.marker? = none ∨
    ∃ k m, q.buffer.path = "" ∧ q.calls.head? = some k ∧ s.markers k = some m ∧
      t.markers = Function.update s.markers k (some { m with callbacks := m.callbacks + 1 }) ∧
      st.marker? = if cfg.use_udt then some k else none

theorem begins_of_step {cfg : QueueConfig} {s t : State} (h : Placed s) {i : Nat}
    (hstep : step cfg s (.queue (.process i)) = some t) :
    ∃ q st, s.queue.assigned[i]? = some q ∧ Begins cfg s t q st := by
  obtain ⟨q, hi, hnext⟩ := Option.bind_eq_some_iff.mp hstep
  obtain ⟨queue, hstepped, rfl⟩ := Option.map_eq_some_iff.mp hnext
  have htracked : Tracked queue := QueueThreads.tracked_step h.tracked hstepped
  obtain ⟨q', hi', hqueue⟩ := Option.map_eq_some_iff.mp hstepped
  rw [hi] at hi'
  cases hi'
  have hassigned : s.queue.assigned ~ q :: s.queue.assigned.eraseIdx i := by
    obtain ⟨hlt, rfl⟩ := List.getElem?_eq_some_iff.mp hi
    exact (List.getElem_cons_eraseIdx_perm hlt).symm
  have hmem : q ∈ unbegun s.queue := List.mem_append_left _ (List.mem_of_getElem? hi)
  obtain ⟨st, henters⟩ := enters_process cfg { s with queue := queue } s.queue.begun.length
    fun hfake => by
      obtain ⟨k, m, hhead, hm, -⟩ := h.head_marker hmem hfake
      exact ⟨k, m, hhead, hm⟩
  refine ⟨q, st, hi, ?_⟩
  generalize process cfg { s with queue := queue } q s.queue.begun.length = t at henters ⊢
  obtain ⟨hq, hstages, hblockers, hatOnce, hcompleted, hmarker⟩ := henters
  subst hqueue
  dsimp only at hq hstages hblockers hatOnce hcompleted hmarker
  constructor
  · exact hq ▸ htracked
  · rw [hq]
    exact hassigned.append_right _
  · rw [hq]
  · rw [hq]
  · rw [hq]
    exact hassigned
  · rw [hq]
    rfl
  · rw [hq]
  · rw [hq]
  · rw [hq]
  · rw [hq]
  · exact hstages
  · exact hblockers
  · exact hatOnce
  · exact hcompleted
  · exact hmarker

namespace Begins

variable {cfg : QueueConfig} {s t : State} {q : Queued} {st : Stage}

theorem mem (hb : Begins cfg s t q st) : q ∈ unbegun s.queue :=
  hb.perm.mem_iff.mpr List.mem_cons_self

theorem mem_of_mem (hb : Begins cfg s t q st) {q' : Queued} (hq' : q' ∈ unbegun t.queue) :
    q' ∈ unbegun s.queue :=
  hb.perm.mem_iff.mpr (List.mem_cons_of_mem q hq')

/-- The calls of the buffer are in no other one that waits. -/
theorem not_unbegun (hb : Begins cfg s t q st) (h : Placed s) {k : Nat} (hk : k ∈ q.calls) :
    k ∉ callsIn (unbegun t.queue) := by
  have hnodup := (hb.perm.flatMap_right Queued.calls).nodup_iff.mp h.nodup.of_append_left
  rw [List.flatMap_cons] at hnodup
  exact fun hother => (List.disjoint_of_nodup_append hnodup) hk hother

/-- The calls of the buffer are with no other worker. -/
theorem not_processing (hb : Begins cfg s t q st) (h : Placed s) {k : Nat} (hk : k ∈ q.calls) :
    k ∉ callsIn s.queue.processing := fun hworker =>
  (List.disjoint_of_nodup_append h.nodup) (mem_callsIn.mpr ⟨q, hb.mem, hk⟩)
    (List.mem_append_left _ hworker)

/-- The markers of other calls are as they were. -/
theorem markers_of_ne (hb : Begins cfg s t q st) {k : Nat} (hk : q.calls.head? ≠ some k) :
    t.markers k = s.markers k := by
  rcases hb.marker with ⟨-, hmarkers, -⟩ | ⟨k', m, -, hhead, -, hmarkers, -⟩
  · rw [hmarkers]
  · rw [hmarkers, Function.update_of_ne]
    rintro rfl
    exact hk hhead

theorem markers_of_not_mem (hb : Begins cfg s t q st) {k : Nat} (hk : k ∉ q.calls) :
    t.markers k = s.markers k :=
  hb.markers_of_ne fun hhead => hk (List.mem_of_mem_head? hhead)

/-- A marker keeps what was queued before it, and its values. -/
theorem before_eq (hb : Begins cfg s t q st) {k : Nat} {m : Marker} (hm : t.markers k = some m) :
    ∃ m₀, s.markers k = some m₀ ∧ m.before = m₀.before ∧ m.values = m₀.values := by
  rcases hb.marker with ⟨-, hmarkers, -⟩ | ⟨k', m', -, -, hm', hmarkers, -⟩
  · rw [hmarkers] at hm
    exact ⟨m, hm, rfl, rfl⟩
  · rw [hmarkers] at hm
    rcases eq_or_ne k k' with rfl | hk
    · rw [Function.update_self, Option.some.injEq] at hm
      exact ⟨m', hm', by rw [← hm], by rw [← hm]⟩
    · rw [Function.update_of_ne hk] at hm
      exact ⟨m, hm, rfl, rfl⟩

/-- The marker whose callback was entered. -/
theorem entered (hb : Begins cfg s t q st) (h : Placed s) {k : Nat} (hfake : q.buffer.path = "")
    (hk : q.calls.head? = some k) :
    ∃ m, t.markers k = some m ∧ m.callbacks = 1 ∧ m.values = [] := by
  obtain ⟨m, hm, hcallbacks, hvalues⟩ := h.waiting q hb.mem hfake k (List.mem_of_mem_head? hk)
  rcases hb.marker with ⟨hreal, -, -⟩ | ⟨k', m', -, hhead, hm', hmarkers, -⟩
  · exact absurd hfake hreal
  · rw [hk] at hhead
    cases hhead
    rw [hm] at hm'
    cases hm'
    refine ⟨{ m with callbacks := m.callbacks + 1 }, ?_, ?_, hvalues⟩
    · rw [hmarkers, Function.update_self]
    · rw [hcallbacks]

theorem marker?_eq (hb : Begins cfg s t q st) {k : Nat} (hk : st.marker? = some k) :
    q.buffer.path = "" ∧ q.calls.head? = some k := by
  rcases hb.marker with ⟨-, -, hnone⟩ | ⟨k', m', hfake, hhead, -, -, hst⟩
  · rw [hnone] at hk
    cases hk
  · rw [hst] at hk
    split at hk
    · cases hk
      exact ⟨hfake, hhead⟩
    · cases hk

end Begins

theorem Placed.begins {cfg : QueueConfig} {s t : State} {q : Queued} {st : Stage} (h : Placed s)
    (hb : Begins cfg s t q st) : Placed t where
  tracked := hb.tracked
  begun := by
    rw [hb.begun, hb.processing, hb.completed]
    calc s.queue.begun ++ [q] ~ s.queue.processing ++ s.completed ++ [q] := h.begun.append_right _
      _ = s.queue.processing ++ (s.completed ++ [q]) := List.append_assoc ..
      _ ~ s.queue.processing ++ ([q] ++ s.completed) := List.perm_append_comm.append_left _
      _ = s.queue.processing ++ [q] ++ s.completed := (List.append_assoc ..).symm
  onlink := by
    have hlength := hb.assigned.length_eq
    rw [List.length_cons] at hlength
    rw [hb.buf_onlink, h.onlink, hb.processing, List.length_append, List.length_singleton, hlength]
    push_cast
    omega
  waiters := by
    rw [hb.waiters]
    exact h.waiters
  nonempty := fun q' hq' => h.nonempty q' (hb.mem_of_mem hq')
  waiting := by
    intro q' hq' hfake k hk
    have hout : k ∉ q.calls := fun hkq => hb.not_unbegun h hkq (mem_callsIn.mpr ⟨q', hq', hk⟩)
    rw [hb.markers_of_not_mem hout]
    exact h.waiting q' (hb.mem_of_mem hq') hfake k hk
  length := by
    simp only [hb.stages, hb.processing, List.length_append, List.length_singleton, h.length]
  entered := by
    intro j st' k hj hst
    rw [hb.stages] at hj
    rw [hb.processing]
    rcases IndexedList.getElem?_concat_cases hj with hold | ⟨rfl, rfl⟩
    · obtain ⟨⟨q', hq', hk⟩, hmarker⟩ := h.entered j st' k hold hst
      have hout : k ∉ q.calls := fun hkq =>
        hb.not_processing h hkq (mem_callsIn.mpr ⟨q', List.mem_of_getElem? hq', hk⟩)
      rw [hb.markers_of_not_mem hout]
      refine ⟨⟨q', ?_, hk⟩, hmarker⟩
      rw [List.getElem?_append_left (List.getElem?_eq_some_iff.mp hq').1]
      exact hq'
    · obtain ⟨hfake, hhead⟩ := hb.marker?_eq hst
      rw [h.length]
      exact ⟨⟨q, List.getElem?_concat_length, List.mem_of_mem_head? hhead⟩,
        hb.entered h hfake hhead⟩
  behind := by
    intro k m hm
    obtain ⟨m₀, hm₀, hsame, -⟩ := hb.before_eq hm
    rw [hsame, hb.taken_eq]
    exact h.behind k m₀ hm₀
  ahead := by
    rw [hb.blockers, hb.taken_eq]
    exact h.ahead

theorem Placed.complete {cfg : QueueConfig} {s t : State} (h : Placed s) {i : Nat}
    (hstep : step cfg s (.queue (.complete i)) = some t) : Placed t := by
  simp only [step] at hstep
  split at hstep
  next =>
    obtain ⟨q, hi, hnext⟩ := Option.bind_eq_some_iff.mp hstep
    obtain ⟨queue, hstepped, rfl⟩ := Option.map_eq_some_iff.mp hnext
    have htracked : Tracked queue := QueueThreads.tracked_step h.tracked hstepped
    obtain ⟨q', hi', rfl⟩ := Option.map_eq_some_iff.mp hstepped
    rw [hi] at hi'
    cases hi'
    obtain ⟨hlt, hget⟩ := List.getElem?_eq_some_iff.mp hi
    have hperm : s.queue.processing ~ q :: s.queue.processing.eraseIdx i := by
      rw [← hget]
      exact (List.getElem_cons_eraseIdx_perm hlt).symm
    constructor
    · exact htracked
    · calc s.queue.begun ~ s.queue.processing ++ s.completed := h.begun
        _ ~ q :: s.queue.processing.eraseIdx i ++ s.completed := hperm.append_right _
        _ ~ s.queue.processing.eraseIdx i ++ q :: s.completed := List.perm_middle.symm
        _ ~ s.queue.processing.eraseIdx i ++ (s.completed ++ [q]) :=
          (List.perm_append_singleton q s.completed).symm.append_left _
    · dsimp only
      rw [h.onlink, hperm.length_eq, List.length_cons]
      push_cast
      omega
    · exact h.waiters
    · exact h.nonempty
    · exact h.waiting
    · simp only [List.length_eraseIdx, h.length]
    · intro j st k hj hst
      dsimp only at hj ⊢
      rw [List.getElem?_eraseIdx] at hj ⊢
      split at hj
      next hlt' =>
        rw [if_pos hlt']
        exact h.entered j st k hj hst
      next hge =>
        rw [if_neg hge]
        exact h.entered (j + 1) st k hj hst
    · exact h.behind
    · exact h.ahead
  next => cases hstep

/-- A worker goes on, in the callback it was in or in none. -/
theorem Placed.setStage {s : State} (h : Placed s) {i : Nat} {st st' : Stage}
    (hi : s.stages[i]? = some st) (hst' : ∀ k, st'.marker? = some k → st.marker? = some k) :
    Placed { s with stages := s.stages.set i st' } where
  tracked := h.tracked
  begun := h.begun
  onlink := h.onlink
  waiters := h.waiters
  nonempty := h.nonempty
  waiting := h.waiting
  length := by
    dsimp only
    rw [List.length_set, h.length]
  entered := by
    intro j st₀ k hj hst
    dsimp only at hj ⊢
    by_cases hij : i = j
    · subst hij
      rw [List.getElem?_set_self (List.getElem?_eq_some_iff.mp hi).1] at hj
      cases hj
      exact h.entered i st k hi (hst' k hst)
    · rw [List.getElem?_set_ne hij] at hj
      exact h.entered j st₀ k hj hst
  behind := h.behind
  ahead := h.ahead

theorem Placed.setValue {s : State} (h : Placed s) {i k : Nat} {st : Stage}
    (hi : s.stages[i]? = some st) (hk : st.marker? = some k) (value : Bool) :
    Placed (setValue s i k value) := by
  obtain ⟨⟨q, hq, hkq⟩, m, hm, -, -⟩ := h.entered i st k hi hk
  have hworker : k ∈ callsIn s.queue.processing :=
    mem_callsIn.mpr ⟨q, List.mem_of_getElem? hq, hkq⟩
  have hstaged : Placed { s with stages := s.stages.set i .called } :=
    h.setStage hi fun k' hk' => by cases hk'
  refine ⟨h.tracked, h.begun, h.onlink, h.waiters, h.nonempty, ?_, hstaged.length, ?_, ?_, h.ahead⟩
  · intro q' hq' hfake k' hk'
    have hne : k' ≠ k := by
      rintro rfl
      exact (List.disjoint_of_nodup_append h.nodup) (mem_callsIn.mpr ⟨q', hq', hk'⟩)
        (List.mem_append_left _ hworker)
    simp only [QueueMarkers.setValue, Function.update_of_ne hne]
    exact h.waiting q' hq' hfake k' hk'
  · intro j st' k' hj hst
    have hij : i ≠ j := by
      rintro rfl
      simp only [QueueMarkers.setValue] at hj
      rw [List.getElem?_set_self (List.getElem?_eq_some_iff.mp hi).1] at hj
      cases hj
      cases hst
    simp only [QueueMarkers.setValue, List.getElem?_set_ne hij] at hj
    obtain ⟨⟨q', hq', hk'⟩, hmarker⟩ := h.entered j st' k' hj hst
    have hne : k' ≠ k := by
      rintro rfl
      exact hij (h.same_worker hq hq' hkq hk')
    simp only [QueueMarkers.setValue, Function.update_of_ne hne]
    exact ⟨⟨q', hq', hk'⟩, hmarker⟩
  · intro k' m' hm'
    simp only [QueueMarkers.setValue] at hm'
    rcases eq_or_ne k' k with rfl | hne
    · rw [Function.update_self, hm, Option.map_some, Option.some.injEq] at hm'
      rw [← hm']
      exact h.behind k' m hm
    · rw [Function.update_of_ne hne] at hm'
      exact h.behind k' m' hm'

theorem Placed.retry {s t : State} (h : Placed s) {i : Nat} (hstep : retry s i = some t) :
    Placed t := by
  unfold QueueMarkers.retry at hstep
  split at hstep
  next n k q hi hq =>
    split at hstep
    next =>
      cases hstep
      have haside := aside_udt_channel s q.buffer.dest true
      refine (h.aside haside).setStage (by rw [haside.stages]; exact hi) fun k' hk' => ?_
      cases hk'
    next => cases hstep
  next => cases hstep

theorem Placed.lookup {s t : State} (h : Placed s) {i : Nat} (hstep : lookup s i = some t) :
    Placed t := by
  unfold QueueMarkers.lookup at hstep
  split at hstep
  next k n id hi =>
    split at hstep
    next =>
      cases hstep
      exact h.setValue hi rfl true
    next c _ =>
      cases hstep
      exact h.setStage hi fun k' hk' => hk'
  next => cases hstep

theorem Placed.wake {s t : State} (h : Placed s) {i : Nat} (hstep : wake s i = some t) :
    Placed t := by
  unfold QueueMarkers.wake at hstep
  split at hstep
  next k n c hi =>
    cases hstep
    exact h.setValue hi rfl _
  next => cases hstep

theorem aside_session {s t : State} {i : Nat} {c : Call} (hstep : session s i c = some t) :
    Aside s t := by
  unfold session at hstep
  split at hstep
  next =>
    split at hstep
    next => cases hstep
    next =>
      obtain ⟨w, -, rfl⟩ := Option.map_eq_some_iff.mp hstep
      exact ⟨rfl, rfl, rfl, rfl, rfl, rfl⟩
  next => cases hstep

/-- The steps of the queue's threads that begin and complete nothing. -/
theorem Placed.moves_of_step {cfg : QueueConfig} {s : State} (h : Placed s)
    {a : QueueThreads.Act} (ha : (∃ c, a = .write c) ∨ (∃ i, a = .wakeUp i) ∨ a = .stop ∨ a = .dispatch)
    {queue : QueueThreads.State} (hstep : QueueThreads.step cfg s.queue a = some queue) :
    Moves s.queue queue := by
  rcases ha with ⟨c, rfl⟩ | ⟨i, rfl⟩ | rfl | rfl
  · cases hstep
    exact moves_queue_buffer cfg s.queue c.rpath_ne true
  · obtain ⟨w, hw, hwake⟩ := Option.bind_eq_some_iff.mp hstep
    split at hwake
    next => cases hwake
    next =>
      cases hwake
      exact moves_wakeUp hw h.waiters
  · cases hstep
    exact ⟨rfl, rfl, id, List.prefix_rfl, fun _ => .inl, fun _ => .inl, fun _ hq _ => hq,
      fun hended => ⟨hended, rfl⟩⟩
  · exact moves_dispatch hstep

/-- Every step keeps the markers in place. -/
theorem placed_step {cfg : QueueConfig} {s t : State} {a : Act} (h : Placed s)
    (hstep : step cfg s a = some t) : Placed t := by
  cases a with
  | queue a =>
      have hmoved : (∃ c, a = .write c) ∨ (∃ i, a = .wakeUp i) ∨ a = .stop ∨ a = .dispatch →
          (QueueThreads.step cfg s.queue a).map (fun queue => { s with queue := queue }) = some t →
          Placed t := by
        intro ha hmap
        obtain ⟨queue, hqueue, rfl⟩ := Option.map_eq_some_iff.mp hmap
        exact h.moves (h.moves_of_step ha hqueue) (QueueThreads.tracked_step h.tracked hqueue)
      cases a with
      | write c => exact hmoved (.inl ⟨c, rfl⟩) hstep
      | blockOnLast => cases hstep
      | wakeUp i => exact hmoved (.inr (.inl ⟨i, rfl⟩)) hstep
      | stop => exact hmoved (.inr (.inr (.inl rfl))) hstep
      | dispatch => exact hmoved (.inr (.inr (.inr rfl))) hstep
      | process i =>
          obtain ⟨q, st, -, hbegins⟩ := begins_of_step h hstep
          exact h.begins hbegins
      | complete i => exact h.complete hstep
  | blockOnLast iop =>
      cases hstep
      exact h.blockOnLast iop
  | queueMarker i => exact h.queueMarker hstep
  | session i c => exact h.aside (aside_session hstep)
  | retry i => exact h.retry hstep
  | receive n k =>
      obtain ⟨w, -, rfl⟩ := Option.map_eq_some_iff.mp hstep
      exact h.aside ⟨rfl, rfl, rfl, rfl, rfl, rfl⟩
  | lookup i => exact h.lookup hstep
  | wake i => exact h.wake hstep

/-! ### Behind the writes -/

/-- What comes before an element of the first list is in the first list. -/
theorem subset_of_prefix {α : Type*} {pre xs ys : List α} {x : α} (hnodup : (xs ++ ys).Nodup)
    (hfront : pre ++ [x] <+: xs ++ ys) (hx : x ∈ xs) : pre ⊆ xs := by
  obtain ⟨rest, heq⟩ := hfront
  rw [List.append_assoc] at heq
  rcases List.append_eq_append_iff.mp heq with ⟨mid, rfl, -⟩ | ⟨mid, rfl, rfl⟩
  · exact fun a ha => List.mem_append_left _ ha
  · exact absurd (List.mem_append_right mid List.mem_cons_self)
      ((List.disjoint_of_nodup_append hnodup) hx)

/-- The writes that were queued before a marker which a worker has begun with are with a worker, or
completed. -/
theorem Placed.handed_before {s : State} (h : Placed s) {k : Nat} {m : Marker}
    (hm : s.markers k = some m) (hk : k ∈ callsIn s.queue.processing) {c : Nat}
    (hc : c ∈ m.before) :
    c ∈ callsIn (s.queue.assigned ++ s.queue.processing) ∨ c ∈ callsIn s.completed := by
  obtain ⟨pre, hbefore, hprefix⟩ := h.behind k m hm
  have hgiven : s.queue.handed ~ s.queue.assigned ++ (s.queue.processing ++ s.completed) :=
    h.tracked.given.trans (h.begun.append_left _)
  have hhanded : ∀ {x}, x ∈ callsIn s.queue.handed ↔ x ∈ callsIn s.queue.assigned ∨
      x ∈ callsIn s.queue.processing ∨ x ∈ callsIn s.completed := by
    intro x
    rw [← List.mem_append, ← List.mem_append, ← QueueThreads.callsIn_append,
      ← QueueThreads.callsIn_append]
    exact (hgiven.flatMap_right Queued.calls).mem_iff
  have hnodup := h.tracked.once.of_append_left
  rw [taken, QueueThreads.callsIn_append] at hnodup hprefix
  have hsubset := subset_of_prefix hnodup hprefix (hhanded.mpr (.inr (.inl hk)))
  rw [QueueThreads.callsIn_append, List.mem_append, or_assoc]
  exact hhanded.mp (hsubset (hbefore hc))

end Gvds.QueueMarkers
