/-
Module: Gvds.Proofs.BackPressure
Layer: Proofs
Purpose: The back-pressure of the UDT writer over whole runs: in which runs the counter of pending
  messages is right in every state, messages go out in the order in which they were accepted, and
  no producer waits for ever after a send has failed.
Imports: Gvds.Common.UdtWriter, Gvds.Lib.Machine
Trusted boundary: as Gvds.Common.UdtWriter
Main exports: RemainsBlocked, Accurate, Sound, Sound.step, remainsBlocked_iff, Keeps,
  back_pressure_accurate_iff, dropped_messages_stay_pending
-/
import Gvds.Common.UdtWriter
import Gvds.Lib.Machine

namespace Gvds.UdtWriter

/-- The thread waits in `write` and will do so whatever happens. -/
def RemainsBlocked (s : State) (producer : Nat) : Prop :=
  producer ∈ blocked s ∧
    ∀ acts t, Machine.run step s acts = some t → producer ∈ blocked t

/-- The back-pressure is right in a state. -/
structure Accurate (s : State) : Prop where
  counted : s.m_pending_write = unsettled s
  ordered : (sent s).Sublist s.accepted
  onWire : (sent s).flatten <+: s.wire
  released : s.should_close = true → ∀ producer, ¬ RemainsBlocked s producer

/-- What holds in every reachable state: every accepted message is in one place, in the order in
which they were accepted; the writer is in its loop before the first error only; and up to then the
wire has what was sent, and of the message in the send circle what was taken. -/
structure Sound (s : State) : Prop where
  placed : s.accepted =
    s.handled.map Prod.fst ++ (s.writer.underWay ++ (s.writer.batch ++ s.m_new))
  opened : s.writer.inLoop = true → s.should_close = false
  wired : ∃ rest, s.wire = (sent s).flatten ++ rest ∧
    (s.should_close = false → rest = s.writer.progress)

theorem sound_start : Sound start :=
  ⟨rfl, fun h => (by cases h), [], rfl, fun _ => rfl⟩

@[simp] theorem sent_discard (s : State) (q : List Message) : sent (discard s q) = sent s := by
  simp [sent, discard, List.filter_map, Function.comp_def]

/-- Room in the queue is all that a push needs. -/
theorem Sound.push {s : State} (h : Sound s) (data : Message) : Sound (push s data) where
  placed := by simp [UdtWriter.push, h.placed]
  opened := h.opened
  wired := h.wired

/-- The producers that wait are not part of it. -/
theorem Sound.producers {s : State} (h : Sound s) (producers : List (Nat × Message)) :
    Sound { s with producers := producers } :=
  ⟨h.placed, h.opened, h.wired⟩

theorem Sound.writerStep {s t : State} {ss : Option Nat} (h : Sound s)
    (hstep : writerStep s ss = some t) : Sound t := by
  obtain ⟨hplaced, hopened, rest, hwire, hrest⟩ := h
  unfold UdtWriter.writerStep at hstep
  cases hwriter : s.writer with
  | loop =>
      simp only [hwriter, Writer.underWay, Writer.batch, Writer.progress] at hstep hplaced hrest
      split_ifs at hstep <;> cases hstep <;>
        exact ⟨hplaced, fun hin => (by cases hin), rest, hwire, hrest⟩
  | waiting =>
      simp only [hwriter, Writer.underWay, Writer.batch, Writer.progress] at hstep hplaced hrest
      cases hstep
      exact ⟨hplaced, fun hin => (by cases hin), rest, hwire, hrest⟩
  | swapping last =>
      simp only [hwriter, Writer.underWay, Writer.batch, Writer.progress] at hstep hplaced hrest
      cases hstep
      refine ⟨?_, fun hin => (by cases hin), rest, hwire, hrest⟩
      simpa [Writer.underWay, Writer.batch] using hplaced
  | entering last q =>
      simp only [hwriter, Writer.underWay, Writer.batch, Writer.progress] at hstep hplaced hrest
      split_ifs at hstep with hclose
      · cases hstep
        refine ⟨?_, fun hin => (by simp at hin), rest, ?_, fun hfalse => ?_⟩
        · simp [discard, hplaced, Function.comp_def]
        · exact (sent_discard s q).symm ▸ hwire
        · exact absurd hclose (by simpa [discard] using hfalse)
      · cases hstep
        exact ⟨hplaced, fun _ => by simpa using hclose, rest, hwire, hrest⟩
  | writing last q =>
      have hclose : s.should_close = false := hopened (by rw [hwriter]; rfl)
      cases q with
      | nil =>
          simp only [hwriter, Writer.underWay, Writer.batch, Writer.progress] at hstep hplaced hrest
          cases hstep
          refine ⟨?_, fun hin => (by simp at hin), rest, hwire, fun hfalse => ?_⟩
          · simpa using hplaced
          · simpa using hrest hfalse
      | cons data q =>
          simp only [hwriter, Writer.underWay, Writer.batch, Writer.progress] at hstep hplaced hrest
          cases hstep
          refine ⟨?_, fun _ => hclose, rest, hwire, fun hfalse => ?_⟩
          · simpa [Writer.underWay, Writer.batch] using hplaced
          · simpa [Writer.progress] using hrest hfalse
  | sending last q data n =>
      have hclose : s.should_close = false := hopened (by rw [hwriter]; rfl)
      simp only [hwriter, Writer.underWay, Writer.batch, Writer.progress] at hstep hplaced hrest
      split_ifs at hstep with hlt
      · cases ss with
        | none =>
            cases hstep
            refine ⟨?_, fun hin => (by simp at hin), rest, ?_, fun hfalse => (by cases hfalse)⟩
            · simp [discard, hplaced, Function.comp_def]
            · exact (sent_discard s (data :: q)).symm ▸ hwire
        | some k =>
            simp only at hstep
            split_ifs at hstep with hk
            cases hstep
            refine ⟨hplaced, fun _ => hclose, data.take (n + k), ?_, fun _ => rfl⟩
            change s.wire ++ _ = (sent s).flatten ++ _
            rw [hwire, hrest hclose, List.append_assoc, List.take_add]
      · cases hstep
        have hsent : sent { s with
            handled := s.handled ++ [(data, .sent)], writer := Writer.writing last q } =
            sent s ++ [data] := by
          simp [sent]
        refine ⟨?_, fun _ => hclose, [], ?_, fun _ => rfl⟩
        · simpa [Writer.underWay, Writer.batch] using hplaced
        · rw [hsent]
          simp [hwire, hrest hclose, List.take_of_length_le (Nat.le_of_not_lt hlt)]
  | ended =>
      simp [hwriter] at hstep

theorem Sound.step {s t : State} {a : Act} (h : Sound s) (hstep : step s a = some t) :
    Sound t := by
  cases a with
  | write producer data =>
      simp only [UdtWriter.step, write] at hstep
      split_ifs at hstep with hin hfull
      · cases hstep
        exact h.producers _
      · cases hstep
        exact h.push data
  | wake producer =>
      simp only [UdtWriter.step, wake, Option.map_eq_some_iff] at hstep
      obtain ⟨data, -, rfl⟩ := hstep
      split_ifs with hfull
      · exact h
      · exact (h.producers _).push data
  | close =>
      cases hstep
      exact ⟨h.placed, h.opened, h.wired⟩
  | writer ss => exact h.writerStep hstep

/-- The messages that are neither sent nor discarded are those in the batch and in the queue. -/
theorem Sound.unsettled_eq {s : State} (h : Sound s) :
    unsettled s = s.writer.batch.length + s.m_new.length := by
  have hlength := congrArg List.length h.placed
  simp only [List.length_append, List.length_map] at hlength
  simp only [unsettled]
  omega

/-- Messages are sent in the order in which they were accepted. -/
theorem Sound.ordered {s : State} (h : Sound s) : (sent s).Sublist s.accepted := by
  rw [h.placed]
  exact (List.filter_sublist.map Prod.fst).trans (List.sublist_append_left _ _)

/-- A thread waits in `write` iff its message is found there. -/
theorem mem_blocked_iff {s : State} {producer : Nat} :
    producer ∈ blocked s ↔ ∃ data, s.producers.lookup producer = some data := by
  rw [← Option.ne_none_iff_exists', Ne, List.lookup_eq_none_iff]
  simp [blocked]

/-- A thread that looks again when there is room leaves `write`. -/
theorem wake_leaves {s : State} {producer : Nat} (hin : producer ∈ blocked s)
    (hroom : s.m_pending_write ≤ m_max_write) :
    ∃ t, step s (.wake producer) = some t ∧ producer ∉ blocked t := by
  obtain ⟨data, hdata⟩ := mem_blocked_iff.mp hin
  refine ⟨wake s producer data, by simp [step, hdata], ?_⟩
  rw [wake, if_neg (Int.not_lt.mpr hroom)]
  simp [push, blocked]

/-- Once a send has failed, the counter of pending messages does not fall any more. -/
theorem full_step {s t : State} {a : Act} {producer : Nat} (h : Sound s)
    (hclose : s.should_close = true) (hfull : m_max_write < s.m_pending_write)
    (hin : producer ∈ blocked s) (hstep : step s a = some t) :
    t.should_close = true ∧ m_max_write < t.m_pending_write ∧ producer ∈ blocked t := by
  cases a with
  | write other data =>
      simp only [step, write, if_pos hfull] at hstep
      split_ifs at hstep
      cases hstep
      exact ⟨hclose, hfull, by simpa [blocked] using Or.inl hin⟩
  | wake other =>
      simp only [step, wake, if_pos hfull, Option.map_eq_some_iff] at hstep
      obtain ⟨data, -, rfl⟩ := hstep
      exact ⟨hclose, hfull, hin⟩
  | close =>
      cases hstep
      exact ⟨hclose, hfull, hin⟩
  | writer ss =>
      simp only [step, writerStep] at hstep
      cases hwriter : s.writer with
      | loop =>
          simp only [hwriter] at hstep
          split_ifs at hstep <;> cases hstep <;> exact ⟨hclose, hfull, hin⟩
      | waiting =>
          simp only [hwriter] at hstep
          cases hstep
          exact ⟨hclose, hfull, hin⟩
      | swapping last =>
          simp only [hwriter] at hstep
          cases hstep
          exact ⟨hclose, hfull, hin⟩
      | entering last q =>
          simp only [hwriter, if_pos hclose] at hstep
          cases hstep
          exact ⟨hclose, hfull, hin⟩
      | writing last q =>
          have hfalse := h.opened (by rw [hwriter]; rfl)
          cases hclose.symm.trans hfalse
      | sending last q data n =>
          have hfalse := h.opened (by rw [hwriter]; rfl)
          cases hclose.symm.trans hfalse
      | ended => simp [hwriter] at hstep

/-- After an error a thread remains blocked iff it waits while the limit is exceeded. -/
theorem Sound.remainsBlocked_iff {s : State} (h : Sound s) (hclose : s.should_close = true)
    (producer : Nat) :
    RemainsBlocked s producer ↔ producer ∈ blocked s ∧ m_max_write < s.m_pending_write := by
  constructor
  · rintro ⟨hin, hall⟩
    refine ⟨hin, Int.not_le.mp fun hroom => ?_⟩
    obtain ⟨t, hstep, hout⟩ := wake_leaves hin hroom
    exact hout (hall [.wake producer] t (by simp [Machine.run, hstep]))
  · rintro ⟨hin, hfull⟩
    refine ⟨hin, fun acts t hrun => ?_⟩
    have hkeep : ∀ s a t, (Sound s ∧ s.should_close = true ∧ m_max_write < s.m_pending_write ∧
        producer ∈ blocked s) → UdtWriter.step s a = some t → (Sound t ∧ t.should_close = true ∧
        m_max_write < t.m_pending_write ∧ producer ∈ blocked t) :=
      fun s a t hs hstep => ⟨hs.1.step hstep, full_step hs.1 hs.2.1 hs.2.2.1 hs.2.2.2 hstep⟩
    have hlast := Machine.run_preserves hkeep ⟨h, hclose, hfull, hin⟩ hrun
    exact hlast.2.2.2

/-- What is left of the property in a reachable state. -/
theorem Sound.accurate_iff {s : State} (h : Sound s) :
    Accurate s ↔ s.m_pending_write = s.writer.batch.length + s.m_new.length ∧
      (s.should_close = true → s.producers = [] ∨ s.m_pending_write ≤ m_max_write) := by
  rw [← h.unsettled_eq]
  constructor
  · rintro ⟨hcounted, -, -, hreleased⟩
    refine ⟨hcounted, fun hclose => ?_⟩
    cases hproducers : s.producers with
    | nil => exact .inl rfl
    | cons w ws =>
        refine .inr (Int.not_lt.mp fun hfull => hreleased hclose w.1 ?_)
        exact (h.remainsBlocked_iff hclose w.1).mpr ⟨by simp [blocked, hproducers], hfull⟩
  · rintro ⟨hcounted, hroom⟩
    obtain ⟨rest, hwire, -⟩ := h.wired
    refine ⟨hcounted, h.ordered, ⟨rest, hwire.symm⟩, fun hclose producer hremains => ?_⟩
    obtain ⟨hin, hfull⟩ := (h.remainsBlocked_iff hclose producer).mp hremains
    rcases hroom hclose with hnone | hle
    · simp [blocked, hnone] at hin
    · exact absurd hfull (Int.not_lt.mpr hle)

/-- What a step needs: when a send fails, its message is the last one of its batch, and no producer
waits unless there is room; after that no batch with a message in it is taken, no producer calls
`write` without room, and none takes the last room while another one waits. -/
def Keeps (s : State) : Act → Prop
  | .write producer _ => producer ∉ blocked s → s.should_close = true →
      s.m_pending_write < m_max_write ∨ s.m_pending_write = m_max_write ∧ s.producers = []
  | .wake producer => producer ∈ blocked s → s.should_close = true →
      s.m_pending_write = m_max_write → ∀ other ∈ blocked s, other = producer
  | .close => True
  | .writer ss =>
      match s.writer with
      | .entering _ q => s.should_close = true → q = []
      | .sending _ q data n => n < data.length → ss = none →
          q = [] ∧ (s.producers = [] ∨ s.m_pending_write ≤ m_max_write)
      | _ => True

/-- A message that is pushed is counted; what the room behind it has to do for those that wait. -/
theorem accurate_push_iff {s : State} (h : Sound s) (data : Message)
    (hcounted : s.m_pending_write = s.writer.batch.length + s.m_new.length) :
    Accurate (push s data) ↔
      (s.should_close = true → s.producers = [] ∨ s.m_pending_write < m_max_write) := by
  have hpushed : (push s data).m_pending_write =
      (push s data).writer.batch.length + (push s data).m_new.length := by
    simp only [push, List.length_append, List.length_singleton]
    omega
  rw [(h.push data).accurate_iff, and_iff_right hpushed]
  rfl

/-- No other producer waits iff none is left when this one has gone. -/
theorem filter_producers_eq_nil_iff (s : State) (producer : Nat) :
    s.producers.filter (fun w => w.1 ≠ producer) = [] ↔
      ∀ other ∈ blocked s, other = producer := by
  simp [List.filter_eq_nil_iff, blocked]

theorem accurate_write_iff {s : State} (h : Sound s) (ha : Accurate s) (producer : Nat)
    (data : Message) :
    Accurate (write s producer data) ↔ (s.should_close = true →
      s.m_pending_write < m_max_write ∨ s.m_pending_write = m_max_write ∧ s.producers = []) := by
  obtain ⟨hcounted, hroom⟩ := h.accurate_iff.mp ha
  unfold write
  split_ifs with hfull
  · have hnone : ¬ (s.m_pending_write < m_max_write ∨
        s.m_pending_write = m_max_write ∧ s.producers = []) := by
      rintro (hlt | ⟨heq, -⟩) <;> omega
    rw [(h.producers _).accurate_iff, and_iff_right hcounted]
    refine imp_congr_right fun _ => iff_of_false ?_ hnone
    rintro (hnil | hle)
    · simp at hnil
    · exact absurd hfull (Int.not_lt.mpr hle)
  · rw [accurate_push_iff h data hcounted]
    refine imp_congr_right fun _ => ⟨?_, ?_⟩
    · rintro (hnil | hlt)
      · rcases Int.lt_or_eq_of_le (Int.not_lt.mp hfull) with hlt | heq
        · exact .inl hlt
        · exact .inr ⟨heq, hnil⟩
      · exact .inl hlt
    · rintro (hlt | ⟨-, hnil⟩)
      · exact .inr hlt
      · exact .inl hnil

theorem accurate_wake_iff {s : State} (h : Sound s) (ha : Accurate s) (producer : Nat)
    (data : Message) :
    Accurate (wake s producer data) ↔ (s.should_close = true →
      s.m_pending_write = m_max_write → ∀ other ∈ blocked s, other = producer) := by
  obtain ⟨hcounted, hroom⟩ := h.accurate_iff.mp ha
  unfold wake
  split_ifs with hfull
  · exact iff_of_true ha fun _ heq => absurd hfull (by omega)
  · have hrest := h.producers (s.producers.filter fun w => w.1 ≠ producer)
    rw [accurate_push_iff hrest data hcounted]
    refine imp_congr_right fun _ => ?_
    change (_ = [] ∨ s.m_pending_write < m_max_write) ↔ _
    rw [filter_producers_eq_nil_iff]
    constructor
    · rintro (hall | hlt) heq
      · exact hall
      · omega
    · intro hall
      rcases Int.lt_or_eq_of_le (Int.not_lt.mp hfull) with hlt | heq
      · exact .inr hlt
      · exact .inl (hall heq)

theorem accurate_writerStep_iff {s t : State} {ss : Option Nat} (h : Sound s) (ha : Accurate s)
    (hstep : writerStep s ss = some t) : Accurate t ↔ Keeps s (.writer ss) := by
  rw [(h.writerStep hstep).accurate_iff]
  obtain ⟨hcounted, hroom⟩ := h.accurate_iff.mp ha
  simp only [writerStep, Keeps] at hstep ⊢
  cases hwriter : s.writer with
  | loop =>
      simp only [hwriter] at hstep hcounted ⊢
      split_ifs at hstep <;> cases hstep <;> exact iff_of_true ⟨hcounted, hroom⟩ trivial
  | waiting =>
      simp only [hwriter] at hstep hcounted ⊢
      cases hstep
      exact iff_of_true ⟨hcounted, hroom⟩ trivial
  | swapping last =>
      simp only [hwriter] at hstep hcounted ⊢
      cases hstep
      refine iff_of_true ⟨?_, hroom⟩ trivial
      simpa [Writer.batch] using hcounted
  | entering last q =>
      simp only [hwriter] at hstep hcounted ⊢
      split_ifs at hstep with hclose
      · cases hstep
        change s.m_pending_write = q.length + s.m_new.length at hcounted
        simp only [discard, batch_back, List.length_nil, hclose, forall_true_left] at hroom ⊢
        rw [and_iff_left hroom, ← List.length_eq_zero_iff]
        omega
      · cases hstep
        exact iff_of_true ⟨hcounted, hroom⟩ fun hfalse => absurd hfalse hclose
  | writing last q =>
      cases q with
      | nil =>
          simp only [hwriter] at hstep hcounted ⊢
          cases hstep
          refine iff_of_true ⟨?_, hroom⟩ trivial
          rw [batch_back]
          exact hcounted
      | cons data q =>
          simp only [hwriter] at hstep hcounted ⊢
          cases hstep
          refine iff_of_true ⟨?_, fun hclose => (hroom hclose).imp_right fun hle => ?_⟩ trivial
          · simp only [Writer.batch, List.length_cons] at hcounted ⊢
            omega
          · change s.m_pending_write - 1 ≤ m_max_write
            omega
  | sending last q data n =>
      simp only [hwriter] at hstep hcounted ⊢
      split_ifs at hstep with hlt
      · cases ss with
        | none =>
            cases hstep
            change s.m_pending_write = q.length + s.m_new.length at hcounted
            simp only [discard, batch_back, List.length_nil, hlt, forall_true_left]
            refine and_congr_left fun _ => ?_
            rw [← List.length_eq_zero_iff]
            omega
        | some k =>
            simp only at hstep
            split_ifs at hstep with hk
            cases hstep
            exact iff_of_true ⟨hcounted, hroom⟩ fun _ hnone => (by cases hnone)
      · cases hstep
        exact iff_of_true ⟨hcounted, hroom⟩ fun hlt' => absurd hlt' hlt
  | ended => simp [hwriter] at hstep

/-- A step of the writer that is refused asks for nothing. -/
theorem keeps_of_writerStep_none {s : State} {ss : Option Nat} (hnone : writerStep s ss = none) :
    Keeps s (.writer ss) := by
  simp only [writerStep, Keeps] at hnone ⊢
  cases hwriter : s.writer with
  | entering last q =>
      simp only [hwriter] at hnone
      split_ifs at hnone
  | sending last q data n =>
      simp only [hwriter] at hnone ⊢
      intro hlt hss
      subst hss
      simp [hlt] at hnone
  | _ => trivial

/-- For every number of producers, every order of their calls and of the steps of the writer, all
that `UDT::send` answers, and `close` at any time: the back-pressure is right in every state of the
run iff every step of it meets the condition. -/
theorem back_pressure_accurate_iff (acts : List Act) :
    Machine.Always step Accurate start acts ↔ Machine.Guarded step Keeps start acts := by
  have hstart : Accurate start := sound_start.accurate_iff.mpr ⟨rfl, fun h => by cases h⟩
  refine Machine.always_iff_guarded (fun _ _ _ h hstep => h.step hstep)
    (fun s a t h ha hstep => ?_) (fun s a hnone => ?_) sound_start hstart
  · cases a with
    | write producer data =>
        simp only [step] at hstep
        split_ifs at hstep with hin
        cases hstep
        rw [accurate_write_iff h ha, Keeps]
        simp [hin]
    | wake producer =>
        simp only [step, Option.map_eq_some_iff] at hstep
        obtain ⟨data, hdata, rfl⟩ := hstep
        have hin : producer ∈ blocked s := mem_blocked_iff.mpr ⟨data, hdata⟩
        rw [accurate_wake_iff h ha, Keeps]
        simp [hin]
    | close =>
        rw [(h.step hstep).accurate_iff]
        cases hstep
        exact iff_of_true (h.accurate_iff.mp ha) trivial
    | writer ss => exact accurate_writerStep_iff h ha hstep
  · cases a with
    | write producer data =>
        simp only [step] at hnone
        split_ifs at hnone with hin
        exact fun hout => absurd hin hout
    | wake producer =>
        intro hin
        obtain ⟨data, hdata⟩ := mem_blocked_iff.mp hin
        simp [step, hdata] at hnone
    | close => trivial
    | writer ss => exact keeps_of_writerStep_none hnone

/-- Two messages are accepted, the first send fails: the second message is dropped and stays
counted. -/
theorem dropped_messages_stay_pending :
    ¬ ∀ acts, Machine.Always step Accurate start acts := by
  intro hall
  have halways := hall [.write 0 [1], .write 0 [2], .writer none, .writer none, .writer none,
    .writer none, .writer none]
  have hlast := halways.last rfl
  exact absurd hlast.counted (by decide)

end Gvds.UdtWriter
