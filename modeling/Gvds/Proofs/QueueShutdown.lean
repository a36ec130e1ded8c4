/-
Module: Gvds.Proofs.QueueShutdown
Layer: Proofs
Purpose: Where the calls of the write-behind queue are. Every call is in one place only, and its
  bytes are in the buffer that carries its number, through merges, swaps and the hand-over to
  workers. So when the dispatcher thread leaves, the accepted calls have been submitted exactly if
  none was left in the waiting line or with a worker that has not begun; the dispatcher does not see
  to either.
Imports: Gvds.Lib.Machine, Gvds.Client.QueueThreads, Gvds.Proofs.WriteBehind
Trusted boundary: as Gvds.Client.QueueThreads
Main exports: Tracked, tracked_step, AllSubmitted, Emptied, all_submitted_iff,
  stopped_queue_loses_write
-/
import Gvds.Lib.Machine
import Gvds.Client.QueueThreads
import Gvds.Proofs.WriteBehind

namespace Gvds.QueueThreads

open WriteBehind (Buffer QueueConfig WriteCall)
open scoped List

/-! ### Places -/

@[simp] theorem callsIn_nil : callsIn [] = [] := rfl

@[simp] theorem callsIn_append (qs qs' : List Queued) :
    callsIn (qs ++ qs') = callsIn qs ++ callsIn qs' := List.flatMap_append

@[simp] theorem callsIn_singleton (q : Queued) : callsIn [q] = q.calls := List.flatMap_singleton _ _

@[simp] theorem callsIn_cons (q : Queued) (qs : List Queued) :
    callsIn (q :: qs) = q.calls ++ callsIn qs := List.flatMap_cons

theorem mem_callsIn {qs : List Queued} {k : Nat} :
    k ∈ callsIn qs ↔ ∃ q ∈ qs, k ∈ q.calls := List.mem_flatMap

/-- A buffer holds the bytes of a call at the call's offset. -/
def Carries (q b : Buffer) : Prop :=
  q.path = b.path ∧
    ∃ front back, q.buf = front ++ (b.buf ++ back) ∧ q.offset + front.length = b.offset

/-- A buffer carries its own bytes. -/
theorem Carries.refl (b : Buffer) : Carries b b := ⟨rfl, [], [], by simp, rfl⟩

/-- A merge keeps what the buffer carried. -/
theorem Carries.append {q b : Buffer} (h : Carries q b) (data : List UInt8) :
    Carries (q.append data) b := by
  obtain ⟨hpath, front, back, hbuf, hoffset⟩ := h
  refine ⟨hpath, front, back ++ data, ?_, hoffset⟩
  simp only [Buffer.append, hbuf, List.append_assoc]

/-- A merge adds the bytes of the call at its offset. -/
theorem carries_merged {q b : Buffer} (h : q.Merges b) : Carries (q.append b.buf) b :=
  ⟨h.1, q.buf, [], by simp [Buffer.append], h.2.2⟩

/-! ### The invariant -/

/-- Every call is in one place; its buffer carries its bytes; what was handed out is with a worker
that has not begun, or was begun; what was accepted was taken, and has bytes. -/
structure Tracked (s : State) : Prop where
  once : (callsIn (taken s) ++ s.waiters.map Prod.fst).Nodup
  carried : ∀ q ∈ taken s, ∀ k ∈ q.calls, ∃ b, s.calls[k]? = some b ∧ Carries q.buffer b
  waiting : ∀ w ∈ s.waiters, s.calls[w.1]? = some w.2
  given : s.handed.Perm (s.assigned ++ s.begun)
  taken_of_accepted : ∀ k ∈ s.accepted, k ∈ callsIn (taken s)
  bytes_of_accepted : ∀ k ∈ s.accepted, ∀ b, s.calls[k]? = some b → b.buf ≠ []
  fake_empty : ∀ b ∈ s.calls, b.path = "" → b.buf = []

theorem tracked_start (cfg : QueueConfig) : Tracked (start cfg) := by
  constructor <;> simp [start, taken, Dispatcher.batch]

/-- The steps behind `queue_buffer` move buffers between the places. -/
theorem Tracked.of_taken_eq {s t : State} (h : Tracked s) (htaken : taken t = taken s)
    (hwaiters : t.waiters = s.waiters) (hcalls : t.calls = s.calls)
    (haccepted : t.accepted = s.accepted) (hgiven : t.handed.Perm (t.assigned ++ t.begun)) :
    Tracked t where
  once := by
    rw [htaken, hwaiters]
    exact h.once
  carried := by
    rw [htaken, hcalls]
    exact h.carried
  waiting := by
    rw [hwaiters, hcalls]
    exact h.waiting
  given := hgiven
  taken_of_accepted := by
    rw [haccepted, htaken]
    exact h.taken_of_accepted
  bytes_of_accepted := by
    rw [haccepted, hcalls]
    exact h.bytes_of_accepted
  fake_empty := by
    rw [hcalls]
    exact h.fake_empty

/-- A call that was taken may be counted as accepted. -/
theorem Tracked.accept {s : State} {b : Buffer} {call : Nat} (h : Tracked s)
    (htaken : call ∈ callsIn (taken s)) (hcall : s.calls[call]? = some b) :
    Tracked (accept s b call) := by
  unfold QueueThreads.accept
  split
  · exact h
  · next hbytes =>
      have hne : b.buf ≠ [] := by
        intro hnil
        simp [hnil] at hbytes
      refine { h with taken_of_accepted := fun k hk => ?_, bytes_of_accepted := fun k hk c hc => ?_ }
      · rcases List.mem_append.mp hk with hold | hnew
        · exact h.taken_of_accepted k hold
        · rw [List.mem_singleton.mp hnew]
          exact htaken
      · rcases List.mem_append.mp hk with hold | hnew
        · exact h.bytes_of_accepted k hold c hc
        · rw [List.mem_singleton.mp hnew, hcall] at hc
          cases hc
          exact hne

/-- A call that was taken, or waits, has a number below the next one. -/
theorem Tracked.lt_length {s : State} (h : Tracked s) {k : Nat}
    (hk : k ∈ callsIn (taken s) ++ s.waiters.map Prod.fst) : k < s.calls.length := by
  rcases List.mem_append.mp hk with htaken | hwaits
  · obtain ⟨q, hq, hkq⟩ := mem_callsIn.mp htaken
    obtain ⟨b, hb, -⟩ := h.carried q hq k hkq
    exact (List.getElem?_eq_some_iff.mp hb).1
  · obtain ⟨w, hw, rfl⟩ := List.mem_map.mp hwaits
    exact (List.getElem?_eq_some_iff.mp (h.waiting w hw)).1

/-- A new call gets a number. -/
theorem Tracked.newCall {s : State} (h : Tracked s) {b : Buffer}
    (hfake : b.path = "" → b.buf = []) :
    Tracked { s with calls := s.calls ++ [b] } where
  once := h.once
  carried := fun q hq k hk => by
    obtain ⟨c, hc, hcarries⟩ := h.carried q hq k hk
    exact ⟨c, List.getElem?_append_left (List.getElem?_eq_some_iff.mp hc).1 ▸ hc, hcarries⟩
  waiting := fun w hw => by
    have hc := h.waiting w hw
    exact List.getElem?_append_left (List.getElem?_eq_some_iff.mp hc).1 ▸ hc
  given := h.given
  taken_of_accepted := h.taken_of_accepted
  bytes_of_accepted := fun k hk c hc => by
    have hlt := h.lt_length (List.mem_append_left _ (h.taken_of_accepted k hk))
    rw [List.getElem?_append_left hlt] at hc
    exact h.bytes_of_accepted k hk c hc
  fake_empty := fun c hc hpath => by
    rcases List.mem_append.mp hc with hold | hnew
    · exact h.fake_empty c hold hpath
    · rw [List.mem_singleton.mp hnew] at hpath ⊢
      exact hfake hpath

/-- A call that is nowhere yet is pushed. -/
theorem Tracked.push {s : State} (h : Tracked s) {b : Buffer} {call : Nat}
    (hcall : s.calls[call]? = some b)
    (hnew : call ∉ callsIn (taken s) ++ s.waiters.map Prod.fst) : Tracked (push s b call) := by
  have htaken : taken { s with
      buf_waiting_line := s.buf_waiting_line ++ [⟨b, [call]⟩]
      buf_inqueue := s.buf_inqueue + b.buf.length } = taken s ++ [⟨b, [call]⟩] := by
    simp only [taken, List.append_assoc]
  refine Tracked.accept (b := b) ?_ ?_ hcall
  · refine { h with once := ?_, carried := ?_, taken_of_accepted := ?_ }
    · rw [htaken, callsIn_append, callsIn_singleton, List.append_assoc, List.singleton_append,
        List.nodup_middle, List.nodup_cons]
      exact ⟨hnew, h.once⟩
    · rw [htaken]
      intro q hq k hk
      rcases List.mem_append.mp hq with hold | hlast
      · exact h.carried q hold k hk
      · rw [List.mem_singleton.mp hlast] at hk ⊢
        rw [List.mem_singleton.mp hk]
        exact ⟨b, hcall, Carries.refl b⟩
    · rw [htaken, callsIn_append]
      exact fun k hk => List.mem_append_left _ (h.taken_of_accepted k hk)
  · rw [htaken, callsIn_append]
    exact List.mem_append_right _ (List.mem_singleton_self call)

/-- A call that is nowhere yet is merged into the last waiting buffer. -/
theorem Tracked.merge {s : State} (h : Tracked s) {last : Queued} {b : Buffer} {call : Nat}
    (hlast : s.buf_waiting_line.getLast? = some last) (hmerges : last.buffer.Merges b)
    (hcall : s.calls[call]? = some b)
    (hnew : call ∉ callsIn (taken s) ++ s.waiters.map Prod.fst) :
    Tracked (merge s last b call) := by
  obtain ⟨front, hfront⟩ : ∃ front, front =
      s.handed ++ (s.dispatcher.batch ++ s.buf_waiting_line.dropLast) := ⟨_, rfl⟩
  have hold : taken s = front ++ [last] := by
    rw [hfront, taken, ← List.dropLast_append_getLast? last hlast]
    simp only [List.append_assoc, List.dropLast_concat]
  have htaken : taken { s with
      buf_waiting_line := s.buf_waiting_line.dropLast ++
        [⟨last.buffer.append b.buf, last.calls ++ [call]⟩]
      buf_inqueue := s.buf_inqueue + b.buf.length } =
      front ++ [⟨last.buffer.append b.buf, last.calls ++ [call]⟩] := by
    simp only [taken, hfront, List.append_assoc]
  have hcalls : callsIn (front ++ [⟨last.buffer.append b.buf, last.calls ++ [call]⟩]) =
      callsIn (taken s) ++ [call] := by
    simp only [hold, callsIn_append, callsIn_singleton, List.append_assoc]
  refine Tracked.accept (b := b) ?_ ?_ hcall
  · refine { h with once := ?_, carried := ?_, taken_of_accepted := ?_ }
    · rw [htaken, hcalls, List.append_assoc, List.singleton_append, List.nodup_middle,
        List.nodup_cons]
      exact ⟨hnew, h.once⟩
    · rw [htaken]
      have hcarried := h.carried
      rw [hold] at hcarried
      intro q hq k hk
      rcases List.mem_append.mp hq with hkept | hmerged
      · exact hcarried q (List.mem_append_left _ hkept) k hk
      · rw [List.mem_singleton.mp hmerged] at hk ⊢
        rcases List.mem_append.mp hk with hearlier | hthis
        · obtain ⟨c, hc, hcarries⟩ :=
            hcarried last (List.mem_append_right _ (List.mem_singleton_self last)) k hearlier
          exact ⟨c, hc, hcarries.append b.buf⟩
        · rw [List.mem_singleton.mp hthis]
          exact ⟨b, hcall, carries_merged hmerges⟩
    · rw [htaken, hcalls]
      exact fun k hk => List.mem_append_left _ (h.taken_of_accepted k hk)
  · rw [htaken, hcalls]
    exact List.mem_append_right _ (List.mem_singleton_self call)

/-- A call that is nowhere yet waits for room. -/
theorem Tracked.wait {s : State} (h : Tracked s) {b : Buffer} {call : Nat}
    (hcall : s.calls[call]? = some b)
    (hnew : call ∉ callsIn (taken s) ++ s.waiters.map Prod.fst) :
    Tracked { s with waiters := s.waiters ++ [(call, b)] } := by
  refine { h with once := ?_, waiting := fun w hw => ?_ }
  · rw [List.map_append, ← List.append_assoc, List.map_singleton]
    exact (List.nodup_append_comm.mp (List.nodup_cons.mpr ⟨hnew, h.once⟩ :
      ([call] ++ (callsIn (taken s) ++ s.waiters.map Prod.fst)).Nodup))
  · rcases List.mem_append.mp hw with hold | hlast
    · exact h.waiting w hold
    · rw [List.mem_singleton.mp hlast]
      exact hcall

/-- `queue_buffer` keeps the calls in place. -/
theorem Tracked.queue_buffer {cfg : QueueConfig} {s : State} (h : Tracked s) {b : Buffer}
    {block : Bool} (hfake : b.path = "" → b.buf = []) :
    Tracked (queue_buffer cfg s b block) := by
  have hcalled := h.newCall hfake
  have hcall : (s.calls ++ [b])[s.calls.length]? = some b := List.getElem?_concat_length
  have hnew : s.calls.length ∉ callsIn (taken s) ++ s.waiters.map Prod.fst :=
    fun hmem => Nat.lt_irrefl _ (h.lt_length hmem)
  have hlater : Tracked (waitOrPush cfg { s with calls := s.calls ++ [b] } b s.calls.length block) := by
    unfold waitOrPush
    split
    · exact hcalled.wait hcall hnew
    · exact hcalled.push hcall hnew
  unfold QueueThreads.queue_buffer
  dsimp only
  cases hlast : s.buf_waiting_line.getLast? with
  | none => exact hlater
  | some last =>
      dsimp only
      split
      · next hmerges => exact hcalled.merge hlast hmerges hcall hnew
      · exact hlater

/-- A waiting call that wakes up is in no other place. -/
theorem Tracked.wakeUp {s : State} (h : Tracked s) {i : Nat} {call : Nat} {b : Buffer}
    (hi : s.waiters[i]? = some (call, b)) :
    Tracked (QueueThreads.push { s with waiters := s.waiters.eraseIdx i } b call) := by
  obtain ⟨hlt, hget⟩ := List.getElem?_eq_some_iff.mp hi
  have hperm : s.waiters.Perm ((call, b) :: s.waiters.eraseIdx i) := by
    rw [← hget]
    exact (List.getElem_cons_eraseIdx_perm hlt).symm
  have honce : (callsIn (taken s) ++ call :: (s.waiters.eraseIdx i).map Prod.fst).Nodup :=
    ((hperm.map Prod.fst).append_left (callsIn (taken s))).nodup_iff.mp h.once
  rw [List.nodup_middle, List.nodup_cons] at honce
  refine Tracked.push ?_ (h.waiting _ (List.mem_of_getElem? hi)) honce.1
  exact { h with
    once := honce.2
    waiting := fun w hw => h.waiting w (List.mem_of_mem_eraseIdx hw) }

/-- Every step keeps the calls in place. -/
theorem tracked_step {cfg : QueueConfig} {s t : State} {a : Act} (h : Tracked s)
    (hstep : step cfg s a = some t) : Tracked t := by
  cases a with
  | write c =>
      cases hstep
      exact h.queue_buffer fun hpath => absurd hpath c.rpath_ne
  | blockOnLast =>
      simp only [step] at hstep
      split at hstep
      · cases hstep
        exact h
      · cases hstep
        exact h.queue_buffer fun _ => rfl
  | wakeUp i =>
      obtain ⟨⟨call, b⟩, hi, hwake⟩ := Option.bind_eq_some_iff.mp hstep
      dsimp only at hwake
      split at hwake
      · cases hwake
      · cases hwake
        exact h.wakeUp hi
  | stop =>
      cases hstep
      exact h.of_taken_eq rfl rfl rfl rfl h.given
  | dispatch =>
      simp only [step, dispatch] at hstep
      split at hstep
      next hloop =>
        split at hstep
        · cases hstep
          exact h.of_taken_eq (by simp [taken, hloop, Dispatcher.batch]) rfl rfl rfl h.given
        · split at hstep
          · cases hstep
            exact h.of_taken_eq (by simp [taken, hloop, Dispatcher.batch]) rfl rfl rfl h.given
          · cases hstep
            exact h.of_taken_eq (by simp [taken, hloop, Dispatcher.batch]) rfl rfl rfl h.given
      next hwaiting =>
        cases hstep
        exact h.of_taken_eq (by simp [taken, hwaiting, Dispatcher.batch]) rfl rfl rfl h.given
      next hswapping =>
        cases hstep
        exact h.of_taken_eq (by simp [taken, hswapping, Dispatcher.batch]) rfl rfl rfl h.given
      next hempty =>
        cases hstep
        exact h.of_taken_eq (by simp [taken, hempty, Dispatcher.batch]) rfl rfl rfl h.given
      next q rest hbatch =>
        split at hstep
        · cases hstep
        · cases hstep
          refine h.of_taken_eq (by simp [taken, hbatch, Dispatcher.batch]) rfl rfl rfl ?_
          calc s.handed ++ [q] ~ q :: s.handed := List.perm_append_singleton q s.handed
            _ ~ q :: (s.assigned ++ s.begun) := h.given.cons q
            _ ~ s.assigned ++ q :: s.begun := List.perm_middle.symm
            _ = s.assigned ++ [q] ++ s.begun := by simp
      next => cases hstep
  | process i =>
      obtain ⟨q, hi, rfl⟩ := Option.map_eq_some_iff.mp hstep
      obtain ⟨hlt, rfl⟩ := List.getElem?_eq_some_iff.mp hi
      refine h.of_taken_eq rfl rfl rfl rfl ?_
      calc s.handed ~ s.assigned ++ s.begun := h.given
        _ ~ (s.assigned[i] :: s.assigned.eraseIdx i) ++ s.begun :=
          (List.getElem_cons_eraseIdx_perm hlt).symm.append_right s.begun
        _ ~ s.assigned.eraseIdx i ++ s.assigned[i] :: s.begun := List.perm_middle.symm
        _ ~ s.assigned.eraseIdx i ++ (s.begun ++ [s.assigned[i]]) :=
          (List.perm_append_singleton _ _).symm.append_left _
  | complete i =>
      obtain ⟨q, hi, rfl⟩ := Option.map_eq_some_iff.mp hstep
      exact h.of_taken_eq rfl rfl rfl rfl h.given

/-- Every reachable state is tracked. -/
theorem tracked_run {cfg : QueueConfig} {acts : List Act} {s : State}
    (hrun : Machine.run (step cfg) (start cfg) acts = some s) : Tracked s :=
  Machine.run_preserves (fun _ _ _ h hstep => tracked_step h hstep) (tracked_start cfg) hrun

/-! ### What has become of an accepted call -/

/-- A call was handed to one worker and submitted once, in a buffer that holds its bytes. -/
structure Survived (s : State) (k : Nat) : Prop where
  handed_once : (callsIn s.handed).count k = 1
  submitted_once : (callsIn (submitted s)).count k = 1
  carried : ∀ q ∈ submitted s, k ∈ q.calls → ∃ b, s.calls[k]? = some b ∧ Carries q.buffer b

/-- Every call with bytes that was accepted before the queue was stopped has survived. -/
def AllSubmitted (s : State) : Prop := ∀ k ∈ s.accepted, Survived s k

/-- No accepted call is left in the waiting line, or with a worker that has not begun. -/
def Emptied (s : State) : Prop :=
  ∀ k ∈ s.accepted, k ∉ callsIn s.buf_waiting_line ∧ k ∉ callsIn s.assigned

/-- An accepted call is in one taken buffer, and there once. -/
theorem Tracked.count_taken {s : State} (h : Tracked s) {k : Nat} (hk : k ∈ s.accepted) :
    (callsIn (taken s)).count k = 1 :=
  List.count_eq_one_of_mem h.once.of_append_left (h.taken_of_accepted k hk)

/-- What was handed out is with a worker that has not begun, or was begun. -/
theorem Tracked.count_handed {s : State} (h : Tracked s) (k : Nat) :
    (callsIn s.handed).count k = (callsIn s.assigned).count k + (callsIn s.begun).count k := by
  rw [← List.count_append, ← callsIn_append]
  exact (h.given.flatMap_right Queued.calls).count_eq k

/-- No accepted call is in a fake buffer. -/
theorem Tracked.path_ne {s : State} (h : Tracked s) {q : Queued} {k : Nat} (hq : q ∈ taken s)
    (hk : k ∈ s.accepted) (hkq : k ∈ q.calls) : q.buffer.path ≠ "" := by
  intro hpath
  obtain ⟨b, hb, hcarries⟩ := h.carried q hq k hkq
  refine h.bytes_of_accepted k hk b hb (h.fake_empty b (List.mem_of_getElem? hb) ?_)
  rw [← hcarries.1, hpath]

/-- Leaving out buffers without the call does not change how often the call occurs. -/
theorem count_callsIn_filter {qs : List Queued} {p : Queued → Bool} {k : Nat}
    (h : ∀ q ∈ qs, k ∈ q.calls → p q = true) :
    (callsIn (qs.filter p)).count k = (callsIn qs).count k := by
  induction qs with
  | nil => rfl
  | cons q qs ih =>
      have hrest := ih fun q' hq' => h q' (List.mem_cons_of_mem q hq')
      rw [callsIn_cons, List.count_append, ← hrest]
      by_cases hp : p q = true
      · rw [List.filter_cons_of_pos hp, callsIn_cons, List.count_append]
      · have hnone : k ∉ q.calls := fun hk => hp (h q List.mem_cons_self hk)
        rw [List.filter_cons_of_neg hp, List.count_eq_zero_of_not_mem hnone, Nat.zero_add]

/-- Every begun buffer was handed out. -/
theorem Tracked.taken_of_begun {s : State} (h : Tracked s) {q : Queued} (hq : q ∈ s.begun) :
    q ∈ taken s :=
  List.mem_append_left _ (h.given.mem_iff.mpr (List.mem_append_right _ hq))

/-- An accepted call was submitted as often as it was begun. -/
theorem Tracked.count_submitted {s : State} (h : Tracked s) {k : Nat} (hk : k ∈ s.accepted) :
    (callsIn (submitted s)).count k = (callsIn s.begun).count k :=
  count_callsIn_filter fun _ hq hkq =>
    decide_eq_true (h.path_ne (h.taken_of_begun hq) hk hkq)

/-- While the dispatcher has no batch, the accepted calls have survived exactly if none is in the
line or with a worker that has not begun. -/
theorem Tracked.allSubmitted_iff {s : State} (h : Tracked s) (hbatch : s.dispatcher.batch = []) :
    AllSubmitted s ↔ Emptied s := by
  have hplaces : ∀ k ∈ s.accepted, (callsIn s.assigned).count k + (callsIn s.begun).count k +
      (callsIn s.buf_waiting_line).count k = 1 := by
    intro k hk
    rw [← h.count_handed k, ← h.count_taken hk, taken, hbatch, List.nil_append, callsIn_append,
      List.count_append]
  constructor
  · intro hall k hk
    have hone := hplaces k hk
    have hsubmitted := (hall k hk).submitted_once
    rw [h.count_submitted hk] at hsubmitted
    rw [← List.count_eq_zero, ← List.count_eq_zero]
    omega
  · intro hemptied k hk
    have hone := hplaces k hk
    obtain ⟨hline, hassigned⟩ := hemptied k hk
    rw [← List.count_eq_zero] at hline hassigned
    refine ⟨?_, ?_, fun q hq hkq => ?_⟩
    · rw [h.count_handed]
      omega
    · rw [h.count_submitted hk]
      omega
    · exact h.carried q (h.taken_of_begun (List.mem_filter.mp hq).1) k hkq

/-- The dispatcher thread ends only from the head of its loop, in a stopped queue, and changes
nothing else. -/
theorem dispatch_ended {s t : State} (hstep : dispatch s = some t)
    (hended : t.dispatcher = .ended) :
    s.dispatcher = .loop ∧ s.m_stop = true ∧ t = { s with dispatcher := .ended } := by
  unfold dispatch at hstep
  split at hstep
  next hloop =>
    split at hstep
    · next hstop =>
        cases hstep
        exact ⟨hloop, hstop, rfl⟩
    · split at hstep
      · cases hstep
        cases hended
      · cases hstep
        cases hended
  next => cases hstep; cases hended
  next => cases hstep; cases hended
  next => cases hstep; cases hended
  next =>
    split at hstep
    · cases hstep
    · cases hstep
      cases hended
  next => cases hstep

/-- In every run up to the end of the dispatcher thread, the calls with bytes that were accepted
before `stop` have each been handed to one worker and submitted once exactly if the dispatcher left
an empty line, as far as they go, and workers that had all begun. -/
theorem all_submitted_iff {cfg : QueueConfig} {acts : List Act} {s t : State}
    (hrun : Machine.run (step cfg) (start cfg) acts = some s)
    (hstep : step cfg s .dispatch = some t) (hended : t.dispatcher = .ended) :
    AllSubmitted t ↔ Emptied s := by
  have htracked : Tracked t := tracked_step (tracked_run hrun) hstep
  obtain ⟨-, -, rfl⟩ := dispatch_ended hstep hended
  exact htracked.allSubmitted_iff rfl

/-- A call is submitted while the queue runs, and then the queue is stopped. -/
def submittedThenStopped : List Act :=
  [.write (WriteBehind.byteCall 0 1 WriteBehind.firstByte_lt), .dispatch, .dispatch, .dispatch,
    .process 0, .stop, .dispatch]

/-- The dispatcher leaves nothing behind. -/
theorem all_submitted_of_drained :
    ∃ s t, Machine.run (step WriteBehind.defaultConfig) (start WriteBehind.defaultConfig)
        submittedThenStopped = some s ∧ step WriteBehind.defaultConfig s .dispatch = some t ∧
      t.dispatcher = .ended ∧ t.accepted = [0] ∧ AllSubmitted t := by
  have hruns : (Machine.run (step WriteBehind.defaultConfig) (start WriteBehind.defaultConfig)
      submittedThenStopped).map (fun s => (s.dispatcher, s.m_stop, s.accepted,
        s.buf_waiting_line, s.assigned)) = some (.loop, true, [0], [], []) := by
    decide
  obtain ⟨s, hrun, hend⟩ := Option.map_eq_some_iff.mp hruns
  simp only [Prod.mk.injEq] at hend
  obtain ⟨hloop, hstop, haccepted, hline, hassigned⟩ := hend
  have hstep : step WriteBehind.defaultConfig s .dispatch =
      some { s with dispatcher := .ended } := by
    simp only [step, dispatch, hloop, hstop, if_true]
  refine ⟨s, _, hrun, hstep, rfl, haccepted, (all_submitted_iff hrun hstep rfl).mpr fun k _ => ?_⟩
  rw [hline, hassigned]
  exact ⟨List.not_mem_nil, List.not_mem_nil⟩

/-- A call is accepted, the queue is stopped, and the dispatcher thread leaves: the buffer stays in
the line. -/
theorem stopped_queue_loses_write :
    ∃ t, Machine.run (step WriteBehind.defaultConfig) (start WriteBehind.defaultConfig)
        [.write (WriteBehind.byteCall 0 1 WriteBehind.firstByte_lt), .stop, .dispatch] = some t ∧
      t.dispatcher = .ended ∧ ¬ AllSubmitted t := by
  refine ⟨_, rfl, rfl, fun hall => ?_⟩
  exact absurd (hall 0 (by decide)).handed_once (by decide)

end Gvds.QueueThreads
