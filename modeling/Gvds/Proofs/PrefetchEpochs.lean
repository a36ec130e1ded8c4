/-
Module: Gvds.Proofs.PrefetchEpochs
Layer: Proofs
Purpose: The epochs of the read-ahead over whole runs of its threads: in which runs onlink counts the
  requests in flight of the current epoch in every state, clear_buf leaves every request that was in
  flight with an older epoch, and the callback of an older epoch changes nothing.
Imports: Gvds.Client.ReadAheadThreads, Gvds.Lib.IndexedList, Gvds.Lib.Machine
Trusted boundary: as Gvds.Client.ReadAheadThreads
Main exports: inFlight, Counted, Invalidates, Keeps, Counted.step, Noted.step, epochs_invalidate,
  onlink_wraps
-/
import Gvds.Client.ReadAheadThreads
import Gvds.Lib.IndexedList
import Gvds.Lib.Machine

namespace Gvds.ReadAheadThreads

open WriteBehind (FileName)
open ReadAhead (BufArea sectorSize)
open IndexedList

/-! ### Requests in flight -/

/-- The request of the epoch is submitted, and its callback has not looked at the epoch yet. -/
def Request.waits (i : Fin 2) (epoch : Nat) (r : Request) : Bool :=
  r.buf_idx = i && r.stage = .sent && r.cur_epoch = epoch

/-- The call has counted a request that it has not submitted yet, and that has the epoch or will
look at the epoch of the buffer. -/
def Call.issues (i : Fin 2) (epoch : Nat) (call : Call) : Bool :=
  call.buf_idx = i &&
    match call.pc with
    | .number _ => true
    | .stamp _ _ _ => true
    | .submit _ _ _ e => e = epoch
    | _ => false

/-- How many requests of a buffer with an epoch are in flight. -/
def inFlight (s : State) (i : Fin 2) (epoch : Nat) : Nat :=
  s.requests.countP (Request.waits i epoch) + s.calls.countP (Call.issues i epoch)

/-- `onlink` is the number of requests in flight of the current epoch, and at most `max_onlink`. -/
def Counted (cfg : Config) (s : State) : Prop :=
  ∀ i, (s.bufs i).onlink = inFlight s i (s.bufs i).epoch ∧ (s.bufs i).onlink ≤ cfg.max_onlink

/-- The request is of an older epoch than its buffer. -/
def Request.Older (s : State) (r : Request) : Prop := r.cur_epoch < (s.bufs r.buf_idx).epoch

/-- The call is made by the callback of such a request. -/
def Call.Older (s : State) (call : Call) : Prop :=
  ∃ k r, call.owner = some k ∧ s.requests[k]? = some r ∧ r.Older s

/-- What a step does: behind `clear_buf` the epochs of both buffers are greater than those of the
requests that were in flight, and the callback of an older epoch changes no buffer and wakes no
reader. -/
def Invalidates (cfg : Config) (s : State) (a : Act) : Prop :=
  ∀ t, step cfg s a = some t →
    match a with
    | .clearStep n => ∀ to_epoch epochs, s.clears[n]? = some (.second to_epoch epochs) →
        ∀ epoch ∈ epochs, ∀ i, epoch < (t.bufs i).epoch
    | .callback k => ∀ r, s.requests[k]? = some r → r.Older s →
        t.bufs = s.bufs ∧ t.outcome = s.outcome
    | .call c => ∀ call, s.calls[c]? = some call → call.Older s →
        t.bufs = s.bufs ∧ t.outcome = s.outcome
    | _ => True

/-- What a step of `set_task` or `fetch_sector_remote` needs: a task is set with an epoch of which
no request is in flight, and not between `onlink++` and the look at the epoch by another call;
`onlink++` finds room; and the callback of an older epoch does not come to an assignment. -/
def CallKeeps (cfg : Config) (s : State) (call : Call) : Pc → Prop
  | .task file sec_bg _ epoch =>
      let b := s.bufs call.buf_idx
      ¬ HasTask b file sec_bg → (InUse b file → b.epoch < epoch → ¬ call.Older s) ∧
        (¬ InUse b file → ¬ call.Older s ∧ inFlight s call.buf_idx epoch = 0)
  | .reserve _ => (s.bufs call.buf_idx).onlink < cfg.max_onlink ∧ ¬ call.Older s
  | .number _ => ¬ call.Older s
  | .store _ _ _ => ¬ call.Older s
  | _ => True

/-- What a step of `clear_buf` needs: it takes its epoch when those of all requests in flight are
smaller; it clears a buffer when none with that epoch is in flight there; and no other call has set
the first buffer further back. -/
def ClearKeeps (s : State) : ClearStage → Prop
  | .named => ∀ epoch ∈ inFlightEpochs s, epoch < (s.bufs 0).epoch
  | .first to_epoch _ => inFlight s 0 to_epoch = 0
  | .second to_epoch _ => inFlight s 1 to_epoch = 0 ∧ to_epoch ≤ (s.bufs 0).epoch
  | .returned => True

/-- What a step of a callback needs: it does not copy or mark when its request is of an older
epoch. -/
def CallbackKeeps (s : State) (r : Request) : Stage → Prop
  | .taken k' _ => ((s.requests[k']?).bind Request.reply).join ≠ none → ¬ r.Older s
  | .copied _ _ => ¬ r.Older s
  | _ => True

/-- What a step needs. -/
def Keeps (cfg : Config) (s : State) : Act → Prop
  | .call c => ∀ call, s.calls[c]? = some call → CallKeeps cfg s call call.pc
  | .callback k => ∀ r, s.requests[k]? = some r → CallbackKeeps s r r.stage
  | .clearStep n => ∀ stage, s.clears[n]? = some stage → ClearKeeps s stage
  | _ => True

/-! ### The conditions can be computed -/

instance (s : State) (r : Request) : Decidable (r.Older s) :=
  inferInstanceAs (Decidable (_ < _))

/-- What holds of the element at an index, if there is one, can be computed. -/
instance decidableAt {α : Type*} (x : Option α) (p : α → Prop) [DecidablePred p] :
    Decidable (∀ a, x = some a → p a) :=
  match x with
  | none => .isTrue fun _ h => by cases h
  | some a => decidable_of_iff (p a) (by simp)

instance (s : State) (call : Call) : Decidable (call.Older s) :=
  match howner : call.owner with
  | none => .isFalse fun ⟨_, _, hk, _⟩ => by simp [howner] at hk
  | some k =>
      match hr : s.requests[k]? with
      | none => .isFalse fun ⟨_, _, hk, hr', _⟩ => by
          rw [howner] at hk
          cases hk
          rw [hr] at hr'
          cases hr'
      | some r => decidable_of_iff (r.Older s) (by simp [Call.Older, howner, hr])

instance (cfg : Config) (s : State) (call : Call) : (pc : Pc) → Decidable (CallKeeps cfg s call pc)
  | .task _ _ _ _ => inferInstanceAs (Decidable (¬ _ → (_ → _ → ¬ _) ∧ (¬ _ → ¬ _ ∧ _)))
  | .reserve _ => inferInstanceAs (Decidable (_ ∧ ¬ _))
  | .number _ => inferInstanceAs (Decidable (¬ _))
  | .store _ _ _ => inferInstanceAs (Decidable (¬ _))
  | .enter => .isTrue trivial
  | .check _ => .isTrue trivial
  | .bound _ => .isTrue trivial
  | .stamp _ _ _ => .isTrue trivial
  | .submit _ _ _ _ => .isTrue trivial
  | .ended => .isTrue trivial

instance (s : State) : (stage : ClearStage) → Decidable (ClearKeeps s stage)
  | .named => inferInstanceAs (Decidable (∀ epoch ∈ inFlightEpochs s, _))
  | .first _ _ => inferInstanceAs (Decidable (_ = _))
  | .second _ _ => inferInstanceAs (Decidable (_ ∧ _))
  | .returned => .isTrue trivial

instance (s : State) (r : Request) : (stage : Stage) → Decidable (CallbackKeeps s r stage)
  | .taken _ _ => inferInstanceAs (Decidable (_ → ¬ _))
  | .copied _ _ => inferInstanceAs (Decidable (¬ _))
  | .sent => .isTrue trivial
  | .marked _ => .isTrue trivial
  | .room => .isTrue trivial
  | .done => .isTrue trivial

instance (cfg : Config) (s : State) : (a : Act) → Decidable (Keeps cfg s a)
  | .call c => decidableAt s.calls[c]? fun call => CallKeeps cfg s call call.pc
  | .callback k => decidableAt s.requests[k]? fun r => CallbackKeeps s r r.stage
  | .clearStep n => decidableAt s.clears[n]? (ClearKeeps s)
  | .setTask _ _ _ _ => .isTrue trivial
  | .serve _ _ => .isTrue trivial
  | .clear _ => .isTrue trivial
  | .wait _ _ => .isTrue trivial
  | .wakeUp _ => .isTrue trivial

/-! ### Counting -/

theorem inFlight_setPc {s : State} {c : Nat} {call : Call} (h : s.calls[c]? = some call) (pc : Pc)
    (i : Fin 2) (epoch : Nat) :
    inFlight (s.setPc c call pc) i epoch + (call.issues i epoch).toNat =
      inFlight s i epoch + ({ call with pc := pc }.issues i epoch).toNat := by
  have hcount := countP_set_add (Call.issues i epoch) h { call with pc := pc }
  simp only [inFlight, State.setPc]
  omega

theorem inFlight_setStage {s : State} {k : Nat} {r : Request} (h : s.requests[k]? = some r)
    (stage : Stage) (i : Fin 2) (epoch : Nat) :
    inFlight (s.setStage k r stage) i epoch + (r.waits i epoch).toNat =
      inFlight s i epoch + ({ r with stage := stage }.waits i epoch).toNat := by
  have hcount := countP_set_add (Request.waits i epoch) h { r with stage := stage }
  simp only [inFlight, State.setStage]
  omega

/-- A call that has counted no request neither before nor after a step. -/
theorem inFlight_setPc_of_not {s : State} {c : Nat} {call : Call} (h : s.calls[c]? = some call)
    {pc : Pc} {i : Fin 2} {epoch : Nat} (hbefore : call.issues i epoch = false)
    (hafter : { call with pc := pc }.issues i epoch = false) :
    inFlight (s.setPc c call pc) i epoch = inFlight s i epoch := by
  simpa [hbefore, hafter] using inFlight_setPc h pc i epoch

/-- A callback that has looked at the epoch before. -/
theorem inFlight_setStage_of_ne {s : State} {k : Nat} {r : Request} (h : s.requests[k]? = some r)
    {stage : Stage} (hbefore : r.stage ≠ .sent) (hafter : stage ≠ .sent) (i : Fin 2)
    (epoch : Nat) : inFlight (s.setStage k r stage) i epoch = inFlight s i epoch := by
  simpa [Request.waits, hbefore, hafter] using inFlight_setStage h stage i epoch

/-- A call that begins has counted no request. -/
theorem inFlight_call (s : State) {call : Call} {i : Fin 2} {epoch : Nat}
    (hnew : call.issues i epoch = false) : inFlight (s.call call) i epoch = inFlight s i epoch := by
  simp [inFlight, State.call, hnew]

theorem mem_inFlightEpochs {s : State} {epoch : Nat} :
    epoch ∈ inFlightEpochs s ↔ (∃ r ∈ s.requests, r.stage = .sent ∧ r.cur_epoch = epoch) ∨
      ∃ call ∈ s.calls, ∃ file sec_nr task, call.pc = .submit file sec_nr task epoch := by
  simp only [inFlightEpochs, List.mem_append, List.mem_map, List.mem_filter, List.mem_filterMap,
    decide_eq_true_eq, and_assoc]
  refine or_congr Iff.rfl (exists_congr fun call => and_congr_right fun _ => ?_)
  constructor
  · intro hsome
    split at hsome
    · rename_i file sec_nr task e hpc
      cases hsome
      exact ⟨file, sec_nr, task, hpc⟩
    · cases hsome
  · rintro ⟨file, sec_nr, task, hpc⟩
    rw [hpc]

/-- Of an epoch that no request in flight has, only those are counted that have yet to look. -/
theorem inFlight_eq_of_not_mem {s : State} {i : Fin 2} {e e' : Nat} (h : e ∉ inFlightEpochs s)
    (h' : e' ∉ inFlightEpochs s) : inFlight s i e = inFlight s i e' := by
  have hnone : ∀ e, e ∉ inFlightEpochs s → s.requests.countP (Request.waits i e) = 0 := by
    intro e he
    rw [List.countP_eq_zero]
    intro r hr hwaits
    simp only [Request.waits, Bool.and_eq_true, decide_eq_true_eq] at hwaits
    exact he (mem_inFlightEpochs.mpr (.inl ⟨r, hr, hwaits.1.2, hwaits.2⟩))
  have hcalls : s.calls.countP (Call.issues i e) = s.calls.countP (Call.issues i e') := by
    refine List.countP_congr fun call hcall => ?_
    have hnot : ∀ e, e ∉ inFlightEpochs s → ∀ file sec_nr task,
        call.pc ≠ .submit file sec_nr task e := fun e he file sec_nr task hpc =>
      he (mem_inFlightEpochs.mpr (.inr ⟨call, hcall, file, sec_nr, task, hpc⟩))
    unfold Call.issues
    cases hpc : call.pc with
    | submit file sec_nr task epoch =>
        have hne : epoch ≠ e := fun heq => hnot e h file sec_nr task (heq ▸ hpc)
        have hne' : epoch ≠ e' := fun heq => hnot e' h' file sec_nr task (heq ▸ hpc)
        simp [hne, hne']
    | _ => rfl
  rw [inFlight, inFlight, hnone e h, hnone e' h', hcalls]

/-! ### The count over one step -/

theorem incr_eq {n : Nat} (h : n < 2 ^ 32) : incr n = n + 1 :=
  if_neg (by omega)

theorem decr_eq {n : Nat} (hpos : 0 < n) : decr n = n - 1 :=
  if_neg (by omega)

/-- Nothing that is counted changes. -/
theorem Counted.of_same {cfg : Config} {s t : State} (h : Counted cfg s)
    (honlink : ∀ i, (t.bufs i).onlink = (s.bufs i).onlink)
    (hepoch : ∀ i, (t.bufs i).epoch = (s.bufs i).epoch)
    (hcount : ∀ i, inFlight t i (s.bufs i).epoch = inFlight s i (s.bufs i).epoch) :
    Counted cfg t := by
  intro i
  rw [honlink, hepoch, hcount]
  exact h i

/-- One buffer changes, and the requests of the other one do not. -/
theorem Counted.of_buf {cfg : Config} {s t : State} {i : Fin 2} {b : Buffer} (h : Counted cfg s)
    (hbufs : t.bufs = Function.update s.bufs i b)
    (hother : ∀ j, j ≠ i → inFlight t j (s.bufs j).epoch = inFlight s j (s.bufs j).epoch)
    (honlink : b.onlink = inFlight t i b.epoch) (hle : b.onlink ≤ cfg.max_onlink) :
    Counted cfg t := by
  intro j
  by_cases hj : j = i
  · subst hj
    rw [hbufs, Function.update_self]
    exact ⟨honlink, hle⟩
  · rw [hbufs, Function.update_of_ne hj, hother j hj]
    exact h j

/-- A call goes on without counting a request, and without changing the count of its buffer. -/
theorem Counted.setPc {cfg : Config} {s : State} (h : Counted cfg s) {c : Nat} {call : Call}
    (hcall : s.calls[c]? = some call) {pc : Pc}
    (hissues : ∀ i, { call with pc := pc }.issues i (s.bufs i).epoch =
      call.issues i (s.bufs i).epoch) : Counted cfg (s.setPc c call pc) :=
  h.of_same (fun _ => rfl) (fun _ => rfl) fun i => by
    have hcount := inFlight_setPc hcall pc i (s.bufs i).epoch
    rw [hissues] at hcount
    omega

/-- A buffer changes in other variables. -/
theorem Counted.setBuf {cfg : Config} {s : State} (h : Counted cfg s) {i : Fin 2} {b : Buffer}
    (honlink : b.onlink = (s.bufs i).onlink) (hepoch : b.epoch = (s.bufs i).epoch) :
    Counted cfg (s.setBuf i b) := by
  refine h.of_buf rfl (fun _ _ => rfl) ?_ (honlink ▸ (h i).2)
  rw [honlink, hepoch]
  exact (h i).1

theorem Counted.lockTask {cfg : Config} {s : State} (h : Counted cfg s) {c : Nat} {call : Call}
    (hcall : s.calls[c]? = some call) {file : FileName} {sec_bg sec_max epoch : Nat}
    (hpc : call.pc = .task file sec_bg sec_max epoch) (hkeeps : CallKeeps cfg s call call.pc) :
    Counted cfg (lockTask s c call file sec_bg sec_max epoch) := by
  have hbefore : ∀ i e, call.issues i e = false := by simp [Call.issues, hpc]
  simp only [CallKeeps, hpc] at hkeeps
  unfold ReadAheadThreads.lockTask
  dsimp only
  split_ifs with htask huse hlt
  · exact h.setPc hcall fun i => by simp [Call.issues, hpc]
  · refine Counted.setPc (Counted.setBuf h ?_ ?_) hcall fun i => ?_
    · rfl
    · rfl
    · simp [Call.issues, hpc]
  · exact h.setPc hcall fun i => by simp [Call.issues, hpc]
  · have hcount : ∀ i e, inFlight (s.setPc c call .enter) i e = inFlight s i e := fun i e =>
      inFlight_setPc_of_not hcall (hbefore i e) (by simp [Call.issues])
    have hnone := ((hkeeps htask).2 huse).2
    exact h.of_buf rfl (fun j _ => hcount j _) (hnone.symm.trans (hcount _ _).symm)
      (Nat.zero_le _)

theorem Counted.leave {cfg : Config} {s : State} (h : Counted cfg s) {c : Nat} {call : Call}
    (hcall : s.calls[c]? = some call) (hbefore : ∀ i e, call.issues i e = false) :
    Counted cfg (leave s c call) :=
  (h.setPc hcall fun i => (by rw [hbefore]; simp [Call.issues]) :
    Counted cfg (s.setPc c call .ended))

theorem Counted.callStep {cfg : Config} {s t : State} (h : Counted cfg s) {c : Nat} {call : Call}
    (hcall : s.calls[c]? = some call) (hkeeps : CallKeeps cfg s call call.pc)
    (hstep : callStep cfg s c call = some t) : Counted cfg t := by
  unfold ReadAheadThreads.callStep at hstep
  cases hpc : call.pc with
  | task file sec_bg sec_max epoch =>
      simp only [hpc] at hstep
      split_ifs at hstep
      cases hstep
      exact h.lockTask hcall hpc hkeeps
  | enter =>
      simp only [hpc] at hstep
      cases hstep
      exact h.setPc hcall fun i => by simp [Call.issues, hpc]
  | check file =>
      simp only [hpc] at hstep
      cases hstep
      split_ifs
      · exact h.setPc hcall fun i => by simp [Call.issues, hpc]
      · exact h.leave hcall (by simp [Call.issues, hpc])
  | bound file =>
      simp only [hpc] at hstep
      cases hstep
      split_ifs
      · exact h.setPc hcall fun i => by simp [Call.issues, hpc]
      · exact h.leave hcall (by simp [Call.issues, hpc])
  | reserve file =>
      simp only [CallKeeps, hpc] at hstep hkeeps
      cases hstep
      have hcount := inFlight_setPc hcall (.number file)
      have hroom := cfg.max_onlink_lt
      have honlink : incr (s.bufs call.buf_idx).onlink = (s.bufs call.buf_idx).onlink + 1 :=
        incr_eq (by omega)
      refine h.of_buf rfl (fun j hj => ?_) ?_ ?_
      · have hj' := hcount j (s.bufs j).epoch
        simp only [Call.issues, hpc, Ne.symm hj, decide_false, Bool.false_and] at hj'
        exact Nat.add_right_cancel hj'
      · have hi := hcount call.buf_idx (s.bufs call.buf_idx).epoch
        simp only [Call.issues, hpc, decide_true, Bool.and_false, Bool.and_true] at hi
        rw [honlink, (h _).1]
        exact hi.symm
      · rw [honlink]
        exact hkeeps.1
  | number file =>
      simp only [hpc] at hstep
      cases hstep
      refine Counted.setPc (Counted.setBuf h ?_ ?_) hcall fun i => ?_
      · rfl
      · rfl
      · simp [Call.issues, hpc]
  | stamp file sec_nr task =>
      simp only [hpc] at hstep
      cases hstep
      refine h.setPc hcall fun i => ?_
      by_cases hi : call.buf_idx = i
      · simp [Call.issues, hpc, hi]
      · simp [Call.issues, hpc, hi]
  | submit file sec_nr task epoch =>
      simp only [hpc] at hstep
      cases hstep
      refine h.of_same (fun _ => rfl) (fun _ => rfl) fun i => ?_
      have hcount := inFlight_setPc hcall (.store file sec_nr s.requests.length) i
        (s.bufs i).epoch
      have hsame : call.issues i (s.bufs i).epoch = Request.waits i (s.bufs i).epoch
          ⟨call.buf_idx, file, sec_nr, epoch, task, none, .sent⟩ := by
        simp [Call.issues, Request.waits, hpc]
      have hstored : ({ call with pc := .store file sec_nr s.requests.length } : Call).issues i
          (s.bufs i).epoch = false := by
        simp [Call.issues]
      rw [hsame, hstored] at hcount
      simp only [inFlight, State.setPc, List.countP_append, List.countP_singleton] at hcount ⊢
      cases hwaits : Request.waits i (s.bufs i).epoch
          ⟨call.buf_idx, file, sec_nr, epoch, task, none, .sent⟩
      · simpa [hwaits] using hcount
      · simp [hwaits] at hcount ⊢
        omega
  | store file sec_nr k =>
      simp only [hpc] at hstep
      cases hstep
      refine Counted.setPc (Counted.setBuf h ?_ ?_) hcall fun i => ?_
      · rfl
      · rfl
      · simp [Call.issues, hpc]
  | ended => simp [hpc] at hstep

/-- A callback goes on behind its look at the epoch. -/
theorem Counted.setStage {cfg : Config} {s : State} (h : Counted cfg s) {k : Nat} {r : Request}
    (hr : s.requests[k]? = some r) {stage : Stage} (hbefore : r.stage ≠ .sent)
    (hafter : stage ≠ .sent) : Counted cfg (s.setStage k r stage) :=
  h.of_same (fun _ => rfl) (fun _ => rfl) fun i => inFlight_setStage_of_ne hr hbefore hafter i _

/-- The callback of a request of the current epoch takes it off. -/
theorem Counted.takeOff {cfg : Config} {s : State} (h : Counted cfg s) {k : Nat} {r : Request}
    (hr : s.requests[k]? = some r) (hsent : r.stage = .sent)
    (hcurrent : (s.bufs r.buf_idx).epoch = r.cur_epoch) {b : Buffer}
    (honlink : b.onlink = decr (s.bufs r.buf_idx).onlink)
    (hepoch : b.epoch = (s.bufs r.buf_idx).epoch) {stage : Stage} (hafter : stage ≠ .sent) :
    Counted cfg ((s.setBuf r.buf_idx b).setStage k r stage) := by
  have hcount := inFlight_setStage hr stage
  obtain ⟨heq, hle⟩ := h r.buf_idx
  have hroom := cfg.max_onlink_lt
  have hone := hcount r.buf_idx (s.bufs r.buf_idx).epoch
  simp only [Request.waits, hsent, hcurrent, hafter, decide_true, Bool.and_self, Bool.toNat_true,
    decide_false, Bool.and_false, Bool.false_and, Bool.toNat_false, Nat.add_zero] at hone
  rw [hcurrent] at heq
  rw [decr_eq (by omega)] at honlink
  refine h.of_buf rfl (fun j hj => ?_) ?_ ?_
  · have hj' := hcount j (s.bufs j).epoch
    simp only [Request.waits, Ne.symm hj, decide_false, Bool.false_and] at hj'
    exact Nat.add_right_cancel hj'
  · change b.onlink = inFlight (s.setStage k r stage) r.buf_idx b.epoch
    rw [honlink, hepoch, hcurrent]
    omega
  · omega

theorem Counted.check {cfg : Config} {s : State} (h : Counted cfg s) {k : Nat} {r : Request}
    (hr : s.requests[k]? = some r) (hsent : r.stage = .sent) : Counted cfg (check s k r) := by
  unfold ReadAheadThreads.check
  dsimp only
  split_ifs with hcurrent
  · refine h.of_same (fun _ => rfl) (fun _ => rfl) fun i => ?_
    have hcount := inFlight_setStage hr .done i (s.bufs i).epoch
    have hnot : r.waits i (s.bufs i).epoch = false := by
      by_cases hi : r.buf_idx = i
      · subst hi
        simp [Request.waits, Ne.symm hcurrent]
      · simp [Request.waits, hi]
    have hnot' : Request.waits i (s.bufs i).epoch { r with stage := .done } = false := by
      simp [Request.waits]
    simpa [hnot, hnot'] using hcount
  · rw [not_not] at hcurrent
    cases (s.bufs r.buf_idx).ft_res_tab r.sec_nr with
    | none =>
        refine Counted.takeOff h hr hsent hcurrent ?_ ?_ (by simp)
        · rfl
        · rfl
    | some k' =>
        refine Counted.takeOff h hr hsent hcurrent ?_ ?_ (by simp)
        · rfl
        · rfl

theorem receive_onlink (b : BufArea) (n : Nat) (bytes : List UInt8) (time : Nat) :
    (b.receive n bytes time).onlink = b.onlink := by
  rw [BufArea.receive]

theorem receive_epoch (b : BufArea) (n : Nat) (bytes : List UInt8) (time : Nat) :
    (b.receive n bytes time).epoch = b.epoch := by
  rw [BufArea.receive]

theorem wake_bufs (s : State) (p : Option Nat) : (s.wake p).bufs = s.bufs := by
  cases p <;> rfl

theorem Counted.wake {cfg : Config} {s : State} (h : Counted cfg s) (p : Option Nat) :
    Counted cfg (s.wake p) := by
  cases p with
  | none => exact h
  | some p => exact h

/-- A call that begins. -/
theorem Counted.call {cfg : Config} {s : State} (h : Counted cfg s) {call : Call}
    (hnew : ∀ i e, call.issues i e = false) : Counted cfg (s.call call) :=
  h.of_same (fun _ => rfl) (fun _ => rfl) fun i => inFlight_call s (hnew i _)

theorem Counted.setTask {cfg : Config} {s : State} (h : Counted cfg s) (owner : Option Nat)
    (file : FileName) (i : Fin 2) (sec_bg sec_max : Nat) (epoch : Option Nat) :
    Counted cfg (setTask s owner file i sec_bg sec_max epoch) := by
  cases epoch with
  | none => exact h.call fun _ _ => by simp [Call.issues]
  | some epoch =>
      simp only [ReadAheadThreads.setTask]
      split_ifs
      · exact h
      · exact h.call fun _ _ => by simp [Call.issues]

theorem Counted.callbackStep {cfg : Config} {s t : State} (h : Counted cfg s) {k : Nat}
    {r : Request} (hr : s.requests[k]? = some r) (hstep : callbackStep cfg s k r = some t) :
    Counted cfg t := by
  unfold ReadAheadThreads.callbackStep at hstep
  cases hstage : r.stage with
  | sent =>
      simp only [hstage] at hstep
      split_ifs at hstep
      cases hstep
      exact h.check hr hstage
  | taken k' task =>
      simp only [hstage, copy] at hstep
      cases hstep
      have hbefore : r.stage ≠ .sent := by simp [hstage]
      split
      · refine Counted.setStage (Counted.setBuf h ?_ ?_) hr hbefore (by simp)
        · exact receive_onlink _ _ _ _
        · exact receive_epoch _ _ _ _
      · exact h.setStage hr hbefore (by simp)
  | copied len task =>
      simp only [hstage, mark] at hstep
      split_ifs at hstep
      cases hstep
      have hbefore : r.stage ≠ .sent := by simp [hstage]
      have hwake := h.wake ((s.bufs r.buf_idx).prom_waiting_tab r.sec_nr)
      refine Counted.setStage (Counted.setBuf hwake ?_ ?_) ?_ hbefore (by simp)
      · rw [wake_bufs]
      · rw [wake_bufs]
      · rw [← hr]
        cases (s.bufs r.buf_idx).prom_waiting_tab r.sec_nr <;> rfl
  | marked len =>
      simp only [hstage] at hstep
      cases hstep
      exact h.setStage hr (by simp [hstage]) (by split <;> simp)
  | room =>
      simp only [hstage, next] at hstep
      cases hstep
      have hdone : Counted cfg (s.setStage k r .done) :=
        h.setStage hr (by simp [hstage]) (by simp)
      split_ifs
      · exact hdone.setTask _ _ _ _ _ _
      · exact hdone.call fun _ _ => by simp [Call.issues]
      · exact hdone.call fun _ _ => by simp [Call.issues]
  | done => simp [hstage] at hstep

theorem Counted.clear {cfg : Config} {s : State} (h : Counted cfg s) {i : Fin 2} {to_epoch : Nat}
    (hnone : inFlight s i to_epoch = 0) : Counted cfg (clear s i to_epoch) :=
  h.of_buf rfl (fun _ _ => rfl) hnone.symm (Nat.zero_le _)

theorem Counted.clearStep {cfg : Config} {s t : State} (h : Counted cfg s) {n : Nat}
    {stage : ClearStage} (hkeeps : ClearKeeps s stage) (hstep : ClearStepped s n stage t) :
    Counted cfg t := by
  cases hstep with
  | named =>
      have hsame : inFlight s 0 (s.bufs 0).epoch = inFlight s 0 ((s.bufs 0).epoch + 1) :=
        inFlight_eq_of_not_mem (fun hmem => absurd (hkeeps _ hmem) (by omega))
          (fun hmem => absurd (hkeeps _ hmem) (by omega))
      exact h.of_buf rfl (fun _ _ => rfl) ((h 0).1.trans hsame) (h 0).2
  | first to_epoch epochs _ => exact h.clear hkeeps
  | second to_epoch epochs _ => exact h.clear hkeeps.1

theorem Counted.step {cfg : Config} {s t : State} {a : Act} (h : Counted cfg s)
    (hkeeps : Keeps cfg s a) (hstep : step cfg s a = some t) : Counted cfg t := by
  cases stepped_of_step hstep with
  | setTask file i sec_bg epoch => exact h.setTask _ _ _ _ _ _
  | call c call _ hcall hcallStep => exact h.callStep hcall (hkeeps call hcall) hcallStep
  | serve k reply r hr _ _ =>
      refine h.of_same (fun _ => rfl) (fun _ => rfl) fun i => ?_
      have hcount := countP_set_add (Request.waits i (s.bufs i).epoch) hr
        { r with reply := some reply }
      simp only [inFlight, Request.waits] at hcount ⊢
      omega
  | callback k r _ hr hcallback => exact h.callbackStep hr hcallback
  | clear filepath => exact h
  | clearStep n stage _ hstage hclear => exact h.clearStep (hkeeps stage hstage) hclear
  | wait i sec_nr _ =>
      unfold ReadAheadThreads.wait
      dsimp only
      split
      · refine Counted.of_buf h rfl (fun _ _ => rfl) ?_ ?_
        · exact (h i).1
        · exact (h i).2
      · exact h
  | wakeUp p w _ _ _ =>
      unfold ReadAheadThreads.wakeUp
      dsimp only
      split
      · exact h
      · refine Counted.of_buf h rfl (fun _ _ => rfl) ?_ ?_
        · exact (h _).1
        · exact (h _).2

/-! ### What the steps leave alone -/

theorem setTask_frame (s : State) (owner : Option Nat) (file : FileName) (i : Fin 2)
    (sec_bg sec_max : Nat) (epoch : Option Nat) :
    (setTask s owner file i sec_bg sec_max epoch).bufs = s.bufs ∧
      (setTask s owner file i sec_bg sec_max epoch).outcome = s.outcome ∧
      (setTask s owner file i sec_bg sec_max epoch).clears = s.clears := by
  cases epoch with
  | none => exact ⟨rfl, rfl, rfl⟩
  | some epoch =>
      simp only [setTask]
      split_ifs <;> exact ⟨rfl, rfl, rfl⟩

theorem callStep_clears {cfg : Config} {s t : State} {c : Nat} {call : Call}
    (hstep : callStep cfg s c call = some t) : t.clears = s.clears := by
  unfold callStep at hstep
  cases hpc : call.pc with
  | task file sec_bg sec_max epoch =>
      simp only [hpc, lockTask] at hstep
      split_ifs at hstep <;> cases hstep <;> rfl
  | check file =>
      simp only [hpc] at hstep
      split_ifs at hstep <;> cases hstep <;> rfl
  | bound file =>
      simp only [hpc] at hstep
      split_ifs at hstep <;> cases hstep <;> rfl
  | ended => simp [hpc] at hstep
  | _ =>
      simp only [hpc] at hstep
      cases hstep
      rfl

/-- The callback of an older epoch in a call. -/
theorem callStep_of_older {cfg : Config} {s t : State} {c : Nat} {call : Call}
    (hkeeps : CallKeeps cfg s call call.pc) (hold : call.Older s)
    (hstep : callStep cfg s c call = some t) : t.bufs = s.bufs ∧ t.outcome = s.outcome := by
  unfold callStep at hstep
  cases hpc : call.pc with
  | task file sec_bg sec_max epoch =>
      simp only [hpc, lockTask, CallKeeps] at hstep hkeeps
      split_ifs at hstep with _ htask huse hlt
      · cases hstep
        exact ⟨rfl, rfl⟩
      · exact absurd hold ((hkeeps htask).1 huse hlt)
      · cases hstep
        exact ⟨rfl, rfl⟩
      · exact absurd hold ((hkeeps htask).2 huse).1
  | check file =>
      simp only [hpc] at hstep
      split_ifs at hstep <;> cases hstep <;> exact ⟨rfl, rfl⟩
  | bound file =>
      simp only [hpc] at hstep
      split_ifs at hstep <;> cases hstep <;> exact ⟨rfl, rfl⟩
  | reserve file =>
      simp only [hpc, CallKeeps] at hkeeps
      exact absurd hold hkeeps.2
  | number file =>
      simp only [hpc, CallKeeps] at hkeeps
      exact absurd hold hkeeps
  | store file sec_nr k =>
      simp only [hpc, CallKeeps] at hkeeps
      exact absurd hold hkeeps
  | ended => simp [hpc] at hstep
  | _ =>
      simp only [hpc] at hstep
      cases hstep
      exact ⟨rfl, rfl⟩

theorem callbackStep_clears {cfg : Config} {s t : State} {k : Nat} {r : Request}
    (hstep : callbackStep cfg s k r = some t) : t.clears = s.clears := by
  unfold callbackStep at hstep
  cases hstage : r.stage with
  | sent =>
      simp only [hstage, check] at hstep
      split_ifs at hstep
      · cases hstep
        rfl
      · cases hstep
        split <;> rfl
  | taken k' task =>
      simp only [hstage, copy] at hstep
      cases hstep
      split <;> rfl
  | copied len task =>
      simp only [hstage, mark] at hstep
      split_ifs at hstep
      cases hstep
      cases (s.bufs r.buf_idx).prom_waiting_tab r.sec_nr <;> rfl
  | marked len =>
      simp only [hstage] at hstep
      cases hstep
      rfl
  | room =>
      simp only [hstage, next] at hstep
      cases hstep
      split_ifs
      · exact (setTask_frame _ _ _ _ _ _ _).2.2
      · rfl
      · rfl
  | done => simp [hstage] at hstep

/-- The callback of an older epoch. -/
theorem callbackStep_of_older {cfg : Config} {s t : State} {k : Nat} {r : Request}
    (hkeeps : CallbackKeeps s r r.stage) (hold : r.Older s) (hstep : callbackStep cfg s k r = some t) :
    t.bufs = s.bufs ∧ t.outcome = s.outcome := by
  unfold callbackStep at hstep
  cases hstage : r.stage with
  | sent =>
      simp only [hstage, check] at hstep
      split_ifs at hstep with _ hcurrent
      · cases hstep
        exact ⟨rfl, rfl⟩
      · rw [not_not] at hcurrent
        exact absurd hcurrent (Nat.ne_of_gt hold)
  | taken k' task =>
      simp only [hstage, copy, CallbackKeeps] at hstep hkeeps
      cases hstep
      split
      · rename_i rep hrep
        exact absurd hold (hkeeps (by simp [hrep]))
      · exact ⟨rfl, rfl⟩
  | copied len task =>
      simp only [hstage, CallbackKeeps] at hkeeps
      exact absurd hold hkeeps
  | marked len =>
      simp only [hstage] at hstep
      cases hstep
      exact ⟨rfl, rfl⟩
  | room =>
      simp only [hstage, next] at hstep
      cases hstep
      split_ifs
      · exact ⟨(setTask_frame _ _ _ _ _ _ _).1, (setTask_frame _ _ _ _ _ _ _).2.1⟩
      · exact ⟨rfl, rfl⟩
      · exact ⟨rfl, rfl⟩
  | done => simp [hstage] at hstep

/-! ### Runs -/

/-- A call of `clear_buf` that has taken its epoch gives the buffers one that is greater than those
of the requests that were in flight. -/
def Noted (s : State) : Prop :=
  ∀ stage ∈ s.clears, ∀ to_epoch epochs,
    stage = .first to_epoch epochs ∨ stage = .second to_epoch epochs →
      ∀ epoch ∈ epochs, epoch < to_epoch

/-- One call of `clear_buf` goes on. -/
theorem Noted.set {s t : State} {n : Nat} {stage : ClearStage} (h : Noted s)
    (hclears : t.clears = s.clears.set n stage)
    (hnew : ∀ to_epoch epochs, stage = .first to_epoch epochs ∨ stage = .second to_epoch epochs →
      ∀ epoch ∈ epochs, epoch < to_epoch) : Noted t := by
  intro stage' hmem
  rw [hclears] at hmem
  rcases List.mem_or_eq_of_mem_set hmem with hold | rfl
  · exact h stage' hold
  · exact hnew

theorem Noted.clearStep {s t : State} {n : Nat} {stage : ClearStage} (h : Noted s)
    (hstage : s.clears[n]? = some stage) (hkeeps : ClearKeeps s stage)
    (hstep : ClearStepped s n stage t) : Noted t := by
  cases hstep with
  | named =>
      refine h.set rfl fun to_epoch epochs heq epoch hmem => ?_
      rcases heq with heq | heq <;> cases heq
      exact hkeeps epoch hmem
  | first e l _ =>
      refine h.set rfl fun to_epoch epochs heq => ?_
      rcases heq with heq | heq <;> cases heq
      exact h _ (List.mem_of_getElem? hstage) _ _ (.inl rfl)
  | second e l _ =>
      refine h.set rfl fun to_epoch epochs heq => ?_
      rcases heq with heq | heq <;> cases heq

theorem Noted.step {cfg : Config} {s t : State} {a : Act} (h : Noted s) (hkeeps : Keeps cfg s a)
    (hstep : step cfg s a = some t) : Noted t := by
  have hframe : t.clears = s.clears → Noted t := fun hclears => by
    intro stage hmem
    rw [hclears] at hmem
    exact h stage hmem
  cases stepped_of_step hstep with
  | setTask file i sec_bg epoch => exact hframe (setTask_frame _ _ _ _ _ _ _).2.2
  | call c call _ _ hcallStep => exact hframe (callStep_clears hcallStep)
  | serve k reply r _ _ _ => exact h
  | callback k r _ _ hcallback => exact hframe (callbackStep_clears hcallback)
  | clear filepath =>
      intro stage hmem to_epoch epochs heq
      rcases List.mem_append.mp hmem with hold | hnew
      · exact h stage hold to_epoch epochs heq
      · rw [List.mem_singleton] at hnew
        subst hnew
        rcases heq with heq | heq <;> split at heq <;> cases heq
  | clearStep n stage _ hstage hclear =>
      exact h.clearStep hstage (hkeeps stage hstage) hclear
  | wait i sec_nr _ =>
      refine hframe ?_
      unfold ReadAheadThreads.wait
      dsimp only
      split <;> rfl
  | wakeUp p w _ _ _ =>
      refine hframe ?_
      unfold ReadAheadThreads.wakeUp
      dsimp only
      split <;> rfl

theorem Noted.invalidates {cfg : Config} {s : State} {a : Act} (h : Noted s)
    (hkeeps : Keeps cfg s a) : Invalidates cfg s a := by
  intro t hstep
  cases a with
  | call c =>
      intro call hcall hold
      simp only [ReadAheadThreads.step, hcall, Option.bind_some] at hstep
      exact callStep_of_older (hkeeps call hcall) hold hstep
  | callback k =>
      intro r hr hold
      simp only [ReadAheadThreads.step, hr, Option.bind_some] at hstep
      exact callbackStep_of_older (hkeeps r hr) hold hstep
  | clearStep n =>
      intro to_epoch epochs hstage epoch hmem i
      have hlt := h _ (List.mem_of_getElem? hstage) _ _ (.inr rfl) epoch hmem
      have hback := (hkeeps _ hstage).2
      simp only [ReadAheadThreads.step, hstage, Option.bind_some, ReadAheadThreads.clearStep] at hstep
      split_ifs at hstep
      cases hstep
      by_cases hi : i = 1
      · subst hi
        exact hlt
      · have hsame : ((clear s 1 to_epoch).bufs i).epoch = (s.bufs i).epoch := by
          simp [clear, State.setBuf, State.wakeAll, hi]
        have hzero : i = 0 := by omega
        subst hzero
        exact lt_of_lt_of_le hlt (hsame ▸ hback)
  | _ => trivial

theorem counted_start (cfg : Config) : Counted cfg start :=
  fun _ => ⟨rfl, Nat.zero_le _⟩

theorem noted_start : Noted start := fun _ hmem => by cases hmem

/-- In every run, of any number of threads, whose steps all meet the condition: `onlink` is the
number of requests in flight of the current epoch and at most `max_onlink` in every state, and every
step invalidates older epochs as it should. -/
theorem epochs_invalidate {cfg : Config} {acts : List Act}
    (h : Machine.Guarded (step cfg) (Keeps cfg) start acts) :
    Machine.Always (step cfg) (Counted cfg) start acts ∧
      Machine.Guarded (step cfg) (Invalidates cfg) start acts := by
  constructor
  · exact h.always (fun _ _ _ hcounted hkeeps hstep => hcounted.step hkeeps hstep)
      (fun _ hcounted => hcounted) (counted_start cfg)
  · exact h.of_invariant (fun _ _ _ hnoted hkeeps hstep => hnoted.step hkeeps hstep)
      (fun _ _ hnoted hkeeps => hnoted.invalidates hkeeps) noted_start

theorem smallest_onlink_lt : 1 < 2 ^ 32 := by decide

theorem smallest_readahead_lt : 1 < 2 ^ 14 := by decide

/-- One request at a time, and buffers of one sector. -/
def smallest : Config where
  max_onlink := 1
  readahead := 1
  max_onlink_lt := smallest_onlink_lt
  readahead_lt := smallest_readahead_lt

/-- A task is set for a file, and one request is submitted. -/
def fetchOne : List Act :=
  .setTask (0, "/f") 0 0 none :: List.replicate 10 (.call 0)

/-- The request is answered, its callback runs to its end, and the file is written to. -/
def fetchThenClear : List Act :=
  fetchOne ++ [.serve 0 (some ⟨[7], 0⟩), .callback 0, .callback 0, .callback 0, .callback 0,
    .clear "/f", .clearStep 0, .clearStep 0, .clearStep 0]

theorem epochs_invalidate_fetch_then_clear :
    Machine.Always (step smallest) (Counted smallest) start fetchThenClear ∧
      Machine.Guarded (step smallest) (Invalidates smallest) start fetchThenClear :=
  epochs_invalidate (by decide +kernel)

/-- The file is written to while the request is in flight, then the request is answered. -/
def clearInFlight : List Act :=
  fetchOne ++ [.clear "/f", .clearStep 0, .clearStep 0, .clearStep 0, .serve 0 (some ⟨[7], 0⟩),
    .callback 0]

/-- `clear_buf` gives the buffer back the epoch it had, with `onlink` at zero: the callback of the
request that was in flight takes the request off once more. -/
theorem onlink_wraps :
    ¬ ∀ cfg acts, Machine.Always (step cfg) (Counted cfg) start acts ∧
      Machine.Guarded (step cfg) (Invalidates cfg) start acts := by
  intro hall
  have hwrapped : (Machine.run (step smallest) start clearInFlight).any
      (fun s => smallest.max_onlink < (s.bufs 0).onlink) = true := by
    decide +kernel
  obtain ⟨t, hrun, hlt⟩ := (Option.any_eq_true _ _).mp hwrapped
  have hcounted := (hall smallest clearInFlight).1.last hrun
  exact absurd (hcounted 0).2 (Nat.not_le.mpr (of_decide_eq_true hlt))

end Gvds.ReadAheadThreads
