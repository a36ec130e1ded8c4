/-
Module: Gvds.Proofs.QueueAccounting
Layer: Proofs
Purpose: The counters of the write-behind queue over all runs of its threads. The bytes, the buffers
  handed out and the loads of the channels are counted right iff only requests on channel 0 are
  completed: UDT mode loses the size, and the channel that is given back is always the first one,
  also for a buffer that took none.
Imports: Gvds.Lib.Machine, Gvds.Client.QueueChannels, Gvds.Proofs.QueueShutdown
Trusted boundary: as Gvds.Client.QueueChannels
Main exports: pending, Balanced, Settles, queue_step_spec, step_balanced, counters_stay_balanced
-/
import Gvds.Lib.Machine
import Gvds.Client.QueueChannels
import Gvds.Proofs.QueueShutdown

namespace Gvds.QueueChannels

open WriteBehind (Buffer repliedSize)
open QueueThreads (Queued Dispatcher.batch)
open scoped List

/-! ### What is counted -/

/-- The buffers that are accepted and not completed: they wait, are in the dispatcher's local queue,
or are with a worker. -/
def pending (s : QueueThreads.State) : List Queued :=
  s.buf_waiting_line ++ (s.dispatcher.batch ++ (s.assigned ++ s.processing))

/-- The bytes in some buffers. -/
def bytes (qs : List Queued) : Nat := (qs.map fun q => q.buffer.buf.length).sum

/-- The counters are what they count. When everything is completed all are zero, and a call that
waits for room may go on. -/
structure Balanced (cfg : Config) (s : State) : Prop where
  buf_inqueue : s.queue.buf_inqueue = bytes (pending s.queue)
  buf_onlink : s.queue.buf_onlink = s.queue.assigned.length + s.queue.processing.length
  channel_loads : ∀ ch < cfg.multi_channel, s.channel_loads ch = s.stages.count (.inFlight ch)
  completed : pending s.queue = [] → s.queue.buf_inqueue = 0 ∧ s.queue.buf_onlink = 0 ∧
    (∀ ch < cfg.multi_channel, s.channel_loads ch = 0) ∧
      (s.queue.waiters = [] ∨ s.queue.buf_inqueue ≤ cfg.m_max_buf)

/-- Only a request on channel 0 is completed. And unless the queue has room for nothing, which a
negative `client.max_queue` would mean, no call begins to wait while nothing is pending, nor does
one still wait when the last buffer is completed. -/
def Settles (cfg : Config) (s : State) : Act → Prop
  | .queue (.write _) => pending s.queue = [] → 0 ≤ cfg.m_max_buf
  | .queue (.complete i) =>
      (step cfg s (.queue (.complete i))).isSome = true →
        s.stages[i]? = some (.inFlight 0) ∧
          ((pending s.queue).length = 1 → s.queue.waiters ≠ [] → 0 ≤ cfg.m_max_buf)
  | _ => True

/-- Every buffer in `Processing` has a stage; there is no channel in UDT mode. -/
structure Staged (cfg : Config) (s : State) : Prop where
  length : s.stages.length = s.queue.processing.length
  udt : cfg.use_udt = true → ∀ st ∈ s.stages, st = .noChannel

theorem bytes_append (qs qs' : List Queued) : bytes (qs ++ qs') = bytes qs + bytes qs' := by
  simp [bytes]

theorem bytes_perm {qs qs' : List Queued} (h : qs ~ qs') : bytes qs = bytes qs' :=
  (h.map _).sum_nat

/-- The bytes and the buffers that the counters do not account for. -/
def imbalance (s : QueueThreads.State) : Int × Int :=
  (s.buf_inqueue - bytes (pending s), s.buf_onlink - (s.assigned.length + s.processing.length))

/-! ### Steps of the queue -/

/-- What a call does that is taken: its bytes are counted, and something is pending. -/
structure Takes (s s' : QueueThreads.State) : Prop where
  imbalance : imbalance s' = imbalance s
  processing : s'.processing = s.processing
  waiters : s'.waiters = s.waiters
  pending : pending s' ≠ []

/-- Which calls are noted as accepted does not matter. -/
theorem Takes.accept {s s' : QueueThreads.State} (h : Takes s s') (b : Buffer) (call : Nat) :
    Takes s (QueueThreads.accept s' b call) := by
  unfold QueueThreads.accept
  split
  · exact h
  · exact ⟨h.imbalance, h.processing, h.waiters, h.pending⟩

/-- A buffer at the end of the waiting line is counted. -/
theorem takes_push (s : QueueThreads.State) (b : Buffer) (call : Nat) :
    Takes s (QueueThreads.push s b call) := by
  unfold QueueThreads.push
  refine Takes.accept (s := s) ?_ b call
  refine ⟨?_, rfl, rfl, ?_⟩
  · simp only [imbalance, pending, bytes_append, Prod.mk.injEq, and_true]
    have hone : bytes [⟨b, [call]⟩] = b.buf.length := by simp [bytes]
    rw [hone]
    push_cast
    omega
  · simp [pending]

/-- The bytes that are merged into the last buffer are counted. -/
theorem takes_merge {s : QueueThreads.State} {last : Queued}
    (hlast : s.buf_waiting_line.getLast? = some last) (b : Buffer) (call : Nat) :
    Takes s (QueueThreads.merge s last b call) := by
  unfold QueueThreads.merge
  have hne : pending { s with
      buf_waiting_line := s.buf_waiting_line.dropLast ++
        [⟨last.buffer.append b.buf, last.calls ++ [call]⟩]
      buf_inqueue := s.buf_inqueue + b.buf.length } ≠ [] := by simp [pending]
  refine Takes.accept (s := s) ?_ b call
  refine ⟨?_, rfl, rfl, hne⟩
  have hline : s.buf_waiting_line = s.buf_waiting_line.dropLast ++ [last] :=
    (List.dropLast_append_getLast? last hlast).symm
  have hbytes : bytes s.buf_waiting_line =
      bytes s.buf_waiting_line.dropLast + last.buffer.buf.length := by
    conv_lhs => rw [hline]
    simp [bytes]
  have hone : bytes [⟨last.buffer.append b.buf, last.calls ++ [call]⟩] =
      last.buffer.buf.length + b.buf.length := by
    simp [bytes, Buffer.append]
  simp only [imbalance, pending, bytes_append, Prod.mk.injEq, and_true, hbytes, hone]
  push_cast
  omega

/-- `queue_buffer` takes a call, or lets it wait because there is no room. -/
theorem queue_buffer_spec (cfg : WriteBehind.QueueConfig) (s : QueueThreads.State) (b : Buffer)
    (block : Bool) :
    Takes s (QueueThreads.queue_buffer cfg s b block) ∧
        (block = true → pending s = [] → s.buf_inqueue ≤ cfg.m_max_buf) ∨
      block = true ∧ s.buf_inqueue > cfg.m_max_buf ∧
        QueueThreads.queue_buffer cfg s b block =
          { s with calls := s.calls ++ [b], waiters := s.waiters ++ [(s.calls.length, b)] } := by
  have hcalls : ∀ {t}, Takes { s with calls := s.calls ++ [b] } t → Takes s t :=
    fun h => ⟨h.imbalance, h.processing, h.waiters, h.pending⟩
  have hwait : ∀ s₁ : QueueThreads.State, s₁ = { s with calls := s.calls ++ [b] } →
      Takes s (QueueThreads.waitOrPush cfg s₁ b s.calls.length block) ∧
          (block = true → pending s = [] → s.buf_inqueue ≤ cfg.m_max_buf) ∨
        block = true ∧ s.buf_inqueue > cfg.m_max_buf ∧
          QueueThreads.waitOrPush cfg s₁ b s.calls.length block =
            { s with calls := s.calls ++ [b], waiters := s.waiters ++ [(s.calls.length, b)] } := by
    rintro s₁ rfl
    unfold QueueThreads.waitOrPush
    split
    · rename_i hfull
      exact .inr ⟨hfull.2, hfull.1, rfl⟩
    · rename_i hroom
      refine .inl ⟨hcalls (takes_push _ b _), fun hblock _ => ?_⟩
      exact Int.not_lt.mp fun hfull => hroom ⟨hfull, hblock⟩
  unfold QueueThreads.queue_buffer
  dsimp only
  split
  · rename_i last hlast
    split
    · have htakes := takes_merge (s := { s with calls := s.calls ++ [b] }) hlast b s.calls.length
      refine .inl ⟨hcalls htakes, fun _ hnil => ?_⟩
      have hline : s.buf_waiting_line = [] := (List.append_eq_nil_iff.mp hnil).1
      simp [hline] at hlast
    · exact hwait _ rfl
  · exact hwait _ rfl

/-- The dispatcher moves buffers, and counts those that it hands out. -/
theorem dispatch_spec {s s' : QueueThreads.State} (h : QueueThreads.dispatch s = some s') :
    pending s' ~ pending s ∧ s'.buf_inqueue = s.buf_inqueue ∧ s'.waiters = s.waiters ∧
      s'.processing = s.processing ∧
      s'.buf_onlink - s'.assigned.length = s.buf_onlink - s.assigned.length := by
  unfold QueueThreads.dispatch at h
  cases hd : s.dispatcher with
  | loop =>
      rw [hd] at h
      dsimp only at h
      split at h
      · cases h
        simp [pending, hd, Dispatcher.batch]
      · split at h
        · cases h
          simp [pending, hd, Dispatcher.batch]
        · cases h
          simp [pending, hd, Dispatcher.batch]
  | waiting =>
      rw [hd] at h
      cases h
      simp [pending, hd, Dispatcher.batch]
  | swapping =>
      rw [hd] at h
      cases h
      simp [pending, hd, Dispatcher.batch]
  | ended =>
      rw [hd] at h
      cases h
  | dispatching t =>
      cases t with
      | nil =>
          rw [hd] at h
          cases h
          simp [pending, hd, Dispatcher.batch]
      | cons q t =>
          rw [hd] at h
          dsimp only at h
          split at h
          · cases h
          · cases h
            have hmove : t ++ ((s.assigned ++ [q]) ++ s.processing) ~
                q :: t ++ (s.assigned ++ s.processing) := by
              rw [List.append_assoc, ← List.append_assoc t, List.singleton_append, List.cons_append,
                ← List.append_assoc t]
              exact List.perm_middle
            refine ⟨?_, rfl, rfl, rfl, ?_⟩
            · unfold pending
              rw [hd]
              exact hmove.append_left _
            · rw [List.length_append]
              push_cast
              simp only [List.length_singleton]
              omega

/-- What a step of the queue other than the completion of a buffer does to the counters. -/
structure Keeps (cfg : WriteBehind.QueueConfig) (s s' : QueueThreads.State)
    (a : QueueThreads.Act) : Prop where
  imbalance : imbalance s' = imbalance s
  waits : (∃ c, a = .write c) ∧ s.buf_inqueue > cfg.m_max_buf ∧ pending s' = pending s ∧
      s'.buf_inqueue = s.buf_inqueue ∧ s'.waiters ≠ [] ∨
    (∀ c, a = .write c → pending s = [] → s.buf_inqueue ≤ cfg.m_max_buf) ∧
      (pending s' = [] →
        pending s = [] ∧ s'.waiters = s.waiters ∧ s'.buf_inqueue = s.buf_inqueue)

/-- The steps that complete nothing keep the counters. -/
theorem queue_step_spec {cfg : WriteBehind.QueueConfig} {s s' : QueueThreads.State}
    {a : QueueThreads.Act} (hstep : QueueThreads.step cfg s a = some s')
    (ha : ∀ i, a ≠ .complete i) : Keeps cfg s s' a := by
  cases a with
  | write c =>
      simp only [QueueThreads.step, Option.some.injEq] at hstep
      subst hstep
      rcases queue_buffer_spec cfg s c.toBuffer true with ⟨htakes, hroom⟩ | ⟨-, hfull, heq⟩
      · exact ⟨htakes.imbalance, .inr ⟨fun _ _ => hroom rfl, fun hnil => absurd hnil htakes.pending⟩⟩
      · rw [heq]
        exact ⟨rfl, .inl ⟨⟨c, rfl⟩, hfull, rfl, rfl, by simp⟩⟩
  | blockOnLast =>
      simp only [QueueThreads.step] at hstep
      split at hstep
      · cases hstep
        exact ⟨rfl, .inr ⟨(fun _ hc => by cases hc), fun hnil => ⟨hnil, rfl, rfl⟩⟩⟩
      · cases hstep
        rcases queue_buffer_spec cfg s QueueThreads.fakeBuffer false with
          ⟨htakes, -⟩ | ⟨hblock, -, -⟩
        · exact ⟨htakes.imbalance, .inr ⟨(fun _ hc => by cases hc), fun hnil => absurd hnil htakes.pending⟩⟩
        · cases hblock
  | wakeUp i =>
      simp only [QueueThreads.step, Option.bind_eq_some_iff] at hstep
      obtain ⟨w, -, hpush⟩ := hstep
      split at hpush
      · cases hpush
      · cases hpush
        have htakes := takes_push { s with waiters := s.waiters.eraseIdx i } w.2 w.1
        exact ⟨htakes.imbalance, .inr ⟨(fun _ hc => by cases hc), fun hnil => absurd hnil htakes.pending⟩⟩
  | stop =>
      cases hstep
      exact ⟨rfl, .inr ⟨(fun _ hc => by cases hc), fun hnil => ⟨hnil, rfl, rfl⟩⟩⟩
  | dispatch =>
      obtain ⟨hperm, hinqueue, hwaiters, hprocessing, honlink⟩ := dispatch_spec hstep
      refine ⟨?_, .inr ⟨(fun _ hc => by cases hc), fun hnil => ⟨?_, hwaiters, hinqueue⟩⟩⟩
      · simp only [QueueChannels.imbalance, bytes_perm hperm, hinqueue, hprocessing,
          Prod.mk.injEq, true_and]
        omega
      · rw [hnil] at hperm
        exact List.nil_perm.mp hperm
  | process i =>
      simp only [QueueThreads.step, Option.map_eq_some_iff] at hstep
      obtain ⟨q, hq, rfl⟩ := hstep
      obtain ⟨hlt, rfl⟩ := List.getElem?_eq_some_iff.mp hq
      have hmove : s.assigned.eraseIdx i ++ (s.processing ++ [s.assigned[i]]) ~
          s.assigned ++ s.processing := by
        rw [← List.append_assoc]
        refine (List.perm_append_singleton _ _).trans ?_
        exact (List.getElem_cons_eraseIdx_perm hlt).append_right s.processing
      have hperm := (hmove.append_left s.dispatcher.batch).append_left s.buf_waiting_line
      refine ⟨?_, .inr ⟨(fun _ hc => by cases hc), fun hnil => ⟨?_, rfl, rfl⟩⟩⟩
      · have hlen := hmove.length_eq
        simp only [List.length_append, List.length_singleton] at hlen
        have hbytes := bytes_perm hperm
        simp only [QueueChannels.imbalance, pending, Prod.mk.injEq]
        refine ⟨by rw [hbytes], ?_⟩
        simp only [List.length_append, List.length_singleton]
        omega
      · exact List.nil_perm.mp (hnil ▸ hperm)
  | complete i => exact absurd rfl (ha i)

/-- A buffer is completed. -/
theorem complete_spec {cfg : WriteBehind.QueueConfig} {s s' : QueueThreads.State} {i : Nat}
    (hstep : QueueThreads.step cfg s (.complete i) = some s') :
    ∃ q, s.processing[i]? = some q ∧ q :: pending s' ~ pending s ∧
      s'.buf_inqueue = s.buf_inqueue - repliedSize cfg q.buffer ∧
      s'.buf_onlink = s.buf_onlink - 1 ∧ s'.assigned = s.assigned ∧
      s'.processing = s.processing.eraseIdx i ∧ s'.waiters = s.waiters := by
  simp only [QueueThreads.step, Option.map_eq_some_iff] at hstep
  obtain ⟨q, hq, rfl⟩ := hstep
  refine ⟨q, hq, ?_, rfl, rfl, rfl, rfl, rfl⟩
  obtain ⟨hlt, rfl⟩ := List.getElem?_eq_some_iff.mp hq
  have hmove : s.processing[i] :: (s.buf_waiting_line ++ (s.dispatcher.batch ++
      (s.assigned ++ s.processing.eraseIdx i))) ~
      s.buf_waiting_line ++ (s.dispatcher.batch ++
        (s.assigned ++ s.processing[i] :: s.processing.eraseIdx i)) := by
    simp only [← List.append_assoc]
    exact List.perm_middle.symm
  refine hmove.trans ?_
  exact (((List.getElem_cons_eraseIdx_perm hlt).append_left _).append_left _).append_left _

/-! ### Steps with the channels -/

/-- The parts of `Balanced` that do not follow from the others. -/
theorem balanced_iff {cfg : Config} {s : State} (hstaged : Staged cfg s) :
    Balanced cfg s ↔ imbalance s.queue = (0, 0) ∧
      (∀ ch < cfg.multi_channel, s.channel_loads ch = s.stages.count (.inFlight ch)) ∧
        (pending s.queue = [] →
          s.queue.waiters = [] ∨ s.queue.buf_inqueue ≤ cfg.m_max_buf) := by
  constructor
  · intro h
    refine ⟨?_, h.channel_loads, fun hnil => (h.completed hnil).2.2.2⟩
    simp [imbalance, h.buf_inqueue, h.buf_onlink]
  · rintro ⟨hzero, hloads, hroom⟩
    simp only [imbalance, Prod.mk.injEq] at hzero
    have hinqueue : s.queue.buf_inqueue = bytes (pending s.queue) := by omega
    have honlink : s.queue.buf_onlink = s.queue.assigned.length + s.queue.processing.length := by
      omega
    refine ⟨hinqueue, honlink, hloads, fun hnil => ⟨?_, ?_, fun ch hch => ?_, hroom hnil⟩⟩
    · rw [hinqueue, hnil]
      rfl
    all_goals
      simp only [pending, List.append_eq_nil_iff] at hnil
      obtain ⟨-, -, hassigned, hprocessing⟩ := hnil
    · rw [honlink, hassigned, hprocessing]
      rfl
    · have hstages : s.stages = [] := by
        rw [← List.length_eq_zero_iff, hstaged.length, hprocessing]
        rfl
      rw [hloads ch hch, hstages]
      rfl

/-- The steps of the queue in which no worker begins or ends. -/
theorem step_queue {cfg : Config} {s s' : State} {a : QueueThreads.Act}
    (hstep : step cfg s (.queue a) = some s') (hprocess : ∀ i, a ≠ .process i)
    (hcomplete : ∀ i, a ≠ .complete i) :
    QueueThreads.step cfg.toQueueConfig s.queue a = some s'.queue ∧
      s'.channel_loads = s.channel_loads ∧ s'.stages = s.stages := by
  have hmap : step cfg s (.queue a) = (QueueThreads.step cfg.toQueueConfig s.queue a).map
      fun queue => { s with queue := queue } := by
    cases a with
    | process i => exact absurd rfl (hprocess i)
    | complete i => exact absurd rfl (hcomplete i)
    | _ => rfl
  rw [hmap, Option.map_eq_some_iff] at hstep
  obtain ⟨queue, hqueue, rfl⟩ := hstep
  exact ⟨hqueue, rfl, rfl⟩

/-- A worker begins with a buffer. -/
theorem step_process {cfg : Config} {s s' : State} {i : Nat}
    (hstep : step cfg s (.queue (.process i)) = some s') :
    QueueThreads.step cfg.toQueueConfig s.queue (.process i) = some s'.queue ∧
      s'.channel_loads = s.channel_loads ∧
      ∃ b, s'.stages = s.stages ++ [firstStage cfg b] := by
  simp only [step, Option.bind_eq_some_iff, Option.map_eq_some_iff] at hstep
  obtain ⟨q, -, queue, hqueue, rfl⟩ := hstep
  exact ⟨hqueue, rfl, q.buffer, rfl⟩

/-- A worker is done with a buffer. -/
theorem step_complete {cfg : Config} {s s' : State} {i : Nat}
    (hstep : step cfg s (.queue (.complete i)) = some s') :
      QueueThreads.step cfg.toQueueConfig s.queue (.complete i) = some s'.queue ∧
      s'.channel_loads = Function.update s.channel_loads 0 (s.channel_loads 0 - 1) ∧
      s'.stages = s.stages.eraseIdx i := by
  simp only [step] at hstep
  split at hstep
  · rw [Option.map_eq_some_iff] at hstep
    obtain ⟨queue, hqueue, rfl⟩ := hstep
    exact ⟨hqueue, rfl, rfl⟩
  · cases hstep

/-- No worker begins with a request on its way. -/
theorem firstStage_ne_inFlight (cfg : Config) (b : Buffer) (ch : Nat) :
    firstStage cfg b ≠ .inFlight ch := by
  unfold firstStage
  split <;> simp

/-- How many requests are on a channel after a worker has gone on. -/
theorem count_inFlight_set {stages : List Stage} {i : Nat} {st st' : Stage}
    (hst : stages[i]? = some st) (ch : Nat) (hbefore : st ≠ .inFlight ch) :
    (stages.set i st').count (.inFlight ch) =
      stages.count (.inFlight ch) + if st' = .inFlight ch then 1 else 0 := by
  obtain ⟨hlt, rfl⟩ := List.getElem?_eq_some_iff.mp hst
  rw [List.count_set hlt, if_neg (by simpa using hbefore)]
  simp

/-- Only workers that begin or end change what is in `Processing`. -/
theorem processing_eq {cfg : WriteBehind.QueueConfig} {s s' : QueueThreads.State}
    {a : QueueThreads.Act} (hstep : QueueThreads.step cfg s a = some s')
    (hprocess : ∀ i, a ≠ .process i) (hcomplete : ∀ i, a ≠ .complete i) :
    s'.processing = s.processing := by
  have hbuffer : ∀ b block, (QueueThreads.queue_buffer cfg s b block).processing =
      s.processing := by
    intro b block
    rcases queue_buffer_spec cfg s b block with ⟨htakes, -⟩ | ⟨-, -, heq⟩
    · exact htakes.processing
    · rw [heq]
  cases a with
  | write c =>
      cases hstep
      exact hbuffer _ _
  | blockOnLast =>
      simp only [QueueThreads.step] at hstep
      split at hstep
      · cases hstep
        rfl
      · cases hstep
        exact hbuffer _ _
  | wakeUp i =>
      simp only [QueueThreads.step, Option.bind_eq_some_iff] at hstep
      obtain ⟨w, -, hpush⟩ := hstep
      split at hpush
      · cases hpush
      · cases hpush
        exact (takes_push _ _ _).processing
  | stop =>
      cases hstep
      rfl
  | dispatch => exact (dispatch_spec hstep).2.2.2.1
  | process i => exact absurd rfl (hprocess i)
  | complete i => exact absurd rfl (hcomplete i)

/-- A worker that goes on in `get_spare_channel`. -/
theorem step_channel {cfg : Config} {s s' : State} {a : Act} (hstep : step cfg s a = some s')
    (ha : ∀ b, a ≠ .queue b) :
    s'.queue = s.queue ∧ ∃ i st st', s.stages[i]? = some st ∧ s'.stages = s.stages.set i st' ∧
      st ≠ .noChannel ∧ (∀ ch, st ≠ .inFlight ch) ∧
      ∀ ch, s'.channel_loads ch = s.channel_loads ch + if st' = .inFlight ch then 1 else 0 := by
  cases a with
  | queue b => exact absurd rfl (ha b)
  | readLoad i =>
      simp only [step] at hstep
      split at hstep
      · rename_i hst
        cases hstep
        exact ⟨rfl, i, _, _, hst, rfl, by simp, by simp, by simp⟩
      · cases hstep
  | choose i =>
      simp only [step] at hstep
      split at hstep
      · rename_i min_load hst
        cases hstep
        refine ⟨rfl, i, _, _, hst, rfl, by simp, by simp, fun ch => ?_⟩
        by_cases hch : ch = spareChannel s.channel_loads 0 min_load
            (List.range' 1 (cfg.multi_channel - 1))
        · rw [hch, if_pos rfl]
          exact Function.update_self ..
        · rw [if_neg (by simpa using Ne.symm hch), add_zero]
          exact Function.update_of_ne hch ..
      · cases hstep

/-- The stages stay what they are. -/
theorem Staged.step {cfg : Config} {s s' : State} {a : Act} (h : Staged cfg s)
    (hstep : QueueChannels.step cfg s a = some s') : Staged cfg s' := by
  by_cases hqueue : ∃ b, a = .queue b
  · obtain ⟨b, rfl⟩ := hqueue
    by_cases hprocess : ∃ i, b = .process i
    · obtain ⟨i, rfl⟩ := hprocess
      obtain ⟨hq, -, b, hstages⟩ := step_process hstep
      simp only [QueueThreads.step, Option.map_eq_some_iff] at hq
      obtain ⟨q, -, hq⟩ := hq
      constructor
      · rw [hstages, ← hq]
        simp [h.length]
      · intro hudt st hst
        rw [hstages] at hst
        rcases List.mem_append.mp hst with hst | hst
        · exact h.udt hudt st hst
        · rw [List.mem_singleton.mp hst]
          exact if_pos (.inr hudt)
    · by_cases hcomplete : ∃ i, b = .complete i
      · obtain ⟨i, rfl⟩ := hcomplete
        obtain ⟨hq, -, hstages⟩ := step_complete hstep
        obtain ⟨-, -, -, -, -, -, hprocessing, -⟩ := complete_spec hq
        constructor
        · rw [hstages, hprocessing, List.length_eraseIdx, List.length_eraseIdx, h.length]
        · intro hudt st hst
          rw [hstages] at hst
          exact h.udt hudt st (List.mem_of_mem_eraseIdx hst)
      · have hp : ∀ i, b ≠ .process i := fun i heq => hprocess ⟨i, heq⟩
        have hc : ∀ i, b ≠ .complete i := fun i heq => hcomplete ⟨i, heq⟩
        obtain ⟨hq, -, hstages⟩ := step_queue hstep hp hc
        constructor
        · rw [hstages, processing_eq hq hp hc, h.length]
        · rw [hstages]
          exact h.udt
  · obtain ⟨hq, i, st, st', hst, hstages, hnot, -⟩ :=
      step_channel hstep fun b heq => hqueue ⟨b, heq⟩
    constructor
    · rw [hstages, List.length_set, hq, h.length]
    · intro hudt
      exact absurd (h.udt hudt st (List.mem_of_getElem? hst)) hnot

/-- A step that completes nothing leads to balanced counters iff no call begins to wait where
nothing is pending. -/
theorem balanced_of_keeps {cfg : Config} {s s' : State} {a : QueueThreads.Act}
    (hstaged' : Staged cfg s') (h : Balanced cfg s)
    (hkeeps : Keeps cfg.toQueueConfig s.queue s'.queue a)
    (hloads' : ∀ ch < cfg.multi_channel, s'.channel_loads ch = s'.stages.count (.inFlight ch))
    (hstaged : Staged cfg s) (ha : ∀ i, a ≠ .complete i) :
    Balanced cfg s' ↔ Settles cfg s (.queue a) := by
  obtain ⟨hzero, -, hroom⟩ := (balanced_iff hstaged).mp h
  rw [balanced_iff hstaged', hkeeps.imbalance, and_iff_right hzero, and_iff_right hloads']
  rcases hkeeps.waits with ⟨⟨c, rfl⟩, hfull, hpending, hinqueue, hwaiters⟩ | ⟨hfree, hback⟩
  · rw [hpending, hinqueue]
    constructor
    · intro hnew hnil
      rcases hnew hnil with hw | hle
      · exact absurd hw hwaiters
      · exact absurd hle (Int.not_le.mpr hfull)
    · intro hsettles hnil
      have hmax : 0 ≤ cfg.m_max_buf := hsettles hnil
      rw [(h.completed hnil).1] at hfull
      exact absurd hfull (Int.not_lt.mpr hmax)
  · refine iff_of_true (fun hnil => ?_) ?_
    · obtain ⟨hpending, hwaiters, hinqueue⟩ := hback hnil
      rw [hwaiters, hinqueue]
      exact hroom hpending
    · cases a with
      | write c =>
          intro hnil
          rw [← (h.completed hnil).1]
          exact hfree c rfl hnil
      | complete i => exact absurd rfl (ha i)
      | _ => trivial

/-- The completion of a buffer leads to balanced counters iff it was on channel 0, and nobody is
left waiting. -/
theorem complete_balanced {cfg : Config} {s s' : State} {i : Nat} (hstaged : Staged cfg s)
    (hstaged' : Staged cfg s') (h : Balanced cfg s)
    (hstep : step cfg s (.queue (.complete i)) = some s') :
    Balanced cfg s' ↔ Settles cfg s (.queue (.complete i)) := by
  obtain ⟨hqueue, hloads', hstages⟩ := step_complete hstep
  obtain ⟨q, hq, hperm, hinqueue, honlink, hassigned, hprocessing, hwaiters⟩ :=
    complete_spec hqueue
  obtain ⟨hzero, hloads, -⟩ := (balanced_iff hstaged).mp h
  have hsettles : Settles cfg s (.queue (.complete i)) ↔ s.stages[i]? = some (.inFlight 0) ∧
      ((pending s.queue).length = 1 → s.queue.waiters ≠ [] → 0 ≤ cfg.m_max_buf) :=
    ⟨fun hs => hs (by rw [hstep]; rfl), fun hs _ => hs⟩
  rw [hsettles, balanced_iff hstaged']
  obtain ⟨hlt, hqi⟩ := List.getElem?_eq_some_iff.mp hq
  have hlt' : i < s.stages.length := by rw [hstaged.length]; exact hlt
  have hcount : ∀ ch, (s.stages.count (.inFlight ch) : Int) =
      s'.stages.count (.inFlight ch) + if s.stages[i] = .inFlight ch then 1 else 0 := by
    intro ch
    rw [hstages, ← (List.getElem_cons_eraseIdx_perm hlt').count_eq, List.count_cons]
    simp
  have hbytes : bytes (pending s.queue) = q.buffer.buf.length + bytes (pending s'.queue) := by
    rw [← bytes_perm hperm]
    simp [bytes]
  have hlen : (pending s.queue).length = (pending s'.queue).length + 1 := by
    rw [← hperm.length_eq, List.length_cons]
  have hstage : s.stages[i]? = some (.inFlight 0) ↔ s.stages[i] = .inFlight 0 := by
    rw [List.getElem?_eq_getElem hlt', Option.some_inj]
  rw [hstage]
  have hlast : pending s'.queue = [] ↔ (pending s.queue).length = 1 := by
    rw [hlen, ← List.length_eq_zero_iff]
    omega
  rw [hlast, hwaiters]
  constructor
  · rintro ⟨hzero', hbalanced, hroom'⟩
    have hfirst := hbalanced 0 cfg.multi_channel_pos
    rw [hloads', Function.update_self, hloads 0 cfg.multi_channel_pos, hcount 0] at hfirst
    have hchannel : s.stages[i] = .inFlight 0 := by
      by_contra hne
      rw [if_neg hne] at hfirst
      omega
    refine ⟨hchannel, fun hone hwait => ?_⟩
    have hnil := hlast.mpr hone
    simp only [imbalance, hnil, Prod.mk.injEq] at hzero'
    have hnone : bytes ([] : List Queued) = 0 := rfl
    rcases hroom' hone with hw | hle
    · exact absurd hw hwait
    · omega
  · rintro ⟨hchannel, hwait⟩
    have htcp : repliedSize cfg.toQueueConfig q.buffer = q.buffer.buf.length := by
      unfold repliedSize
      rw [if_neg]
      intro hudt
      have hno := hstaged.udt hudt _ (List.getElem_mem hlt')
      rw [hchannel] at hno
      cases hno
    have hzero' : imbalance s'.queue = (0, 0) := by
      simp only [imbalance, Prod.mk.injEq] at hzero ⊢
      rw [hinqueue, honlink, hassigned, hprocessing, htcp, List.length_eraseIdx_of_lt hlt]
      omega
    refine ⟨hzero', fun ch hch => ?_, fun hone => ?_⟩
    · have hbefore := hloads ch hch
      rw [hcount, hchannel] at hbefore
      rw [hloads']
      by_cases hzero : ch = 0
      · subst hzero
        rw [Function.update_self, hbefore]
        simp
      · rw [Function.update_of_ne hzero, hbefore, if_neg (by simpa using Ne.symm hzero)]
        simp
    · by_cases hw : s.queue.waiters = []
      · exact .inl hw
      · right
        have hnil := hlast.mpr hone
        simp only [imbalance, hnil, Prod.mk.injEq] at hzero'
        have hnone : bytes ([] : List Queued) = 0 := rfl
        have hmax := hwait hone hw
        omega

/-- A step leads to balanced counters iff it meets the condition. -/
theorem step_balanced {cfg : Config} {s s' : State} {a : Act} (hstaged : Staged cfg s)
    (h : Balanced cfg s) (hstep : step cfg s a = some s') :
    Balanced cfg s' ↔ Settles cfg s a := by
  have hstaged' := hstaged.step hstep
  by_cases hqueue : ∃ b, a = .queue b
  · obtain ⟨b, rfl⟩ := hqueue
    by_cases hcomplete : ∃ i, b = .complete i
    · obtain ⟨i, rfl⟩ := hcomplete
      exact complete_balanced hstaged hstaged' h hstep
    · have hc : ∀ i, b ≠ .complete i := fun i heq => hcomplete ⟨i, heq⟩
      by_cases hprocess : ∃ i, b = .process i
      · obtain ⟨i, rfl⟩ := hprocess
        obtain ⟨hq, hloads, b, hstages⟩ := step_process hstep
        refine balanced_of_keeps hstaged' h (queue_step_spec hq hc) (fun ch hch => ?_) hstaged hc
        rw [hloads, hstages, List.count_append, h.channel_loads ch hch]
        simp [firstStage_ne_inFlight]
      · obtain ⟨hq, hloads, hstages⟩ := step_queue hstep (fun i heq => hprocess ⟨i, heq⟩) hc
        refine balanced_of_keeps hstaged' h (queue_step_spec hq hc) (fun ch hch => ?_) hstaged hc
        rw [hloads, hstages, h.channel_loads ch hch]
  · obtain ⟨hq, i, st, st', hst, hstages, -, hnot, hloads⟩ :=
      step_channel hstep fun b heq => hqueue ⟨b, heq⟩
    obtain ⟨hzero, hbefore, hroom⟩ := (balanced_iff hstaged).mp h
    have hsettles : Settles cfg s a := by
      cases a with
      | queue b => exact absurd ⟨b, rfl⟩ hqueue
      | readLoad i => trivial
      | choose i => trivial
    refine iff_of_true ((balanced_iff hstaged').mpr ?_) hsettles
    rw [hq]
    refine ⟨hzero, fun ch hch => ?_, hroom⟩
    rw [hloads, hstages, hbefore ch hch, count_inFlight_set hst ch (hnot ch)]
    push_cast
    rfl

/-! ### Runs -/

/-- At first no worker is busy. -/
theorem staged_start (cfg : Config) : Staged cfg (start cfg) where
  length := rfl
  udt := fun _ _ hst => absurd hst List.not_mem_nil

/-- **The counters of the queue stay balanced** along a run iff all its steps meet the condition. -/
theorem counters_stay_balanced (cfg : Config) (as : List Act) :
    Machine.Always (step cfg) (Balanced cfg) (start cfg) as ↔
      Machine.Guarded (step cfg) (Settles cfg) (start cfg) as := by
  have hinv : ∀ s a s', Staged cfg s → step cfg s a = some s' → Staged cfg s' :=
    fun _ _ _ h hstep => h.step hstep
  refine Machine.always_iff_guarded hinv
    (fun _ _ _ hstaged h hstep => step_balanced hstaged h hstep) (fun s a hnone => ?_)
    (staged_start cfg) ?_
  · cases a with
    | queue b =>
        cases b with
        | write c => cases hnone
        | complete i =>
            intro henabled
            rw [hnone] at henabled
            cases henabled
        | _ => trivial
    | readLoad i => trivial
    | choose i => trivial
  · exact (balanced_iff (staged_start cfg)).mpr ⟨rfl, fun ch _ => rfl, fun _ => .inl rfl⟩

/-- UDT mode with eight workers and room for ten bytes. -/
def udtConfig : Config where
  m_max_buf := 10
  m_max_worker := 8
  use_udt := true
  multi_channel := 1
  multi_channel_pos := Nat.one_pos

/-- A write of one byte. -/
def oneByte : WriteBehind.WriteCall where
  iop := 0
  rpath := "a"
  buf := [0]
  offset := 0
  rpath_ne := by decide
  size_lt := by decide
  range_lt := by decide

/-- In UDT mode one byte is written; its completion leaves it in `buf_inqueue`. -/
theorem udt_completion_loses_size :
    ¬ ∀ (cfg : Config) (as : List Act),
      Machine.Always (step cfg) (Balanced cfg) (start cfg) as := by
  intro hall
  have h₁ := (hall udtConfig [.queue (.write oneByte), .queue .dispatch, .queue .dispatch,
    .queue .dispatch, .queue (.process 0), .queue (.complete 0)]).2 _ rfl
  have h₂ := h₁.2 _ rfl
  have h₃ := h₂.2 _ rfl
  have h₄ := h₃.2 _ rfl
  have h₅ := h₄.2 _ rfl
  have hinqueue := (h₅.2 _ rfl).buf_inqueue
  revert hinqueue
  decide

end Gvds.QueueChannels
