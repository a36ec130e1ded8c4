/-
Module: Gvds.Proofs.KeptPrefetches
Layer: Proofs
Purpose: What becomes of the replies to prefetches over whole runs of the threads: in which runs every
  good reply of the current epoch is copied to its sector, recorded in sec_bufferd and wakes the
  readers of that sector. It is lost where the completion comes before fetch_sector_remote has stored
  the future.
Imports: Gvds.Proofs.FutureTables, Gvds.Proofs.SectorWaiters
Trusted boundary: as Gvds.Client.ReadAheadThreads
Main exports: Kept, Safe, completed_prefetches_kept, overtaken_reply_is_dropped
-/
import Gvds.Proofs.FutureTables
import Gvds.Proofs.SectorWaiters

namespace Gvds.ReadAheadThreads

open ReadAhead (BufArea sectorSize)

/-! ### Replies -/

/-- What a step of its callback does with a good reply: the callback gets the future of its own
request; the reply is in its sector; it is recorded, and every reader of the sector is woken. -/
def ReplyKept (t : State) (k : Nat) (r : Request) (rep : ReadAhead.Reply) : Stage → Prop
  | .sent => ∃ r' task, t.requests[k]? = some r' ∧ r'.stage = .taken k task
  | .taken _ _ => Copied t r rep ∧
      ∃ r' task, t.requests[k]? = some r' ∧ r'.stage = .copied rep.bytes.length task
  | .copied _ _ => Copied t r rep ∧
      (t.bufs r.buf_idx).sec_bufferd r.sec_nr = some rep.bytes.length ∧
        ∀ w ∈ t.waiters, w.returned = false → w.buf_idx = r.buf_idx → w.sec_nr = r.sec_nr →
          t.fulfilled w.prom = true
  | _ => True

/-- No step of a callback loses a good reply of the current epoch. -/
def Kept (cfg : Config) (s : State) (a : Act) : Prop :=
  ∀ t, step cfg s a = some t →
    match a with
    | .callback k => ∀ r rep, s.requests[k]? = some r → r.reply = some (some rep) →
        r.Current s → ReplyKept t k r rep r.stage
    | _ => True

/-- What a step needs. -/
def Safe (s : State) (a : Act) : Prop := Ordered s a ∧ Leaves s a

/-! ### The conditions can be computed -/

instance (s : State) (r : Request) : Decidable (r.Current s) :=
  inferInstanceAs (Decidable (_ = _))

instance (s : State) (call : Call) : (pc : Pc) → Decidable (CallOrdered s call pc)
  | .number _ => inferInstanceAs (Decidable (_ < _))
  | .store _ _ k => decidableAt s.requests[k]? fun r => r.task = (s.bufs call.buf_idx).task
  | .task _ _ _ _ => .isTrue trivial
  | .enter => .isTrue trivial
  | .check _ => .isTrue trivial
  | .bound _ => .isTrue trivial
  | .reserve _ => .isTrue trivial
  | .stamp _ _ _ => .isTrue trivial
  | .submit _ _ _ _ => .isTrue trivial
  | .ended => .isTrue trivial

instance (s : State) (k : Nat) (r : Request) :
    (stage : Stage) → Decidable (CallbackOrdered s k r stage)
  | .sent => inferInstanceAs (Decidable (r.Current s → _ ∧ (_ → _)))
  | .taken _ _ => inferInstanceAs (Decidable (_ → _))
  | .copied _ _ => inferInstanceAs (Decidable (r.Current s → _))
  | .marked _ => .isTrue trivial
  | .room => .isTrue trivial
  | .done => .isTrue trivial

instance (s : State) : (a : Act) → Decidable (Ordered s a)
  | .call c => decidableAt s.calls[c]? fun call => CallOrdered s call call.pc
  | .callback k => decidableAt s.requests[k]? fun r => CallbackOrdered s k r r.stage
  | .setTask _ _ _ _ => .isTrue trivial
  | .serve _ _ => .isTrue trivial
  | .clear _ => .isTrue trivial
  | .clearStep _ => .isTrue trivial
  | .wait _ _ => .isTrue trivial
  | .wakeUp _ => .isTrue trivial

instance (s : State) : (a : Act) → Decidable (Leaves s a)
  | .wakeUp p => decidableAt s.waiters[p]? fun w => ∀ w' ∈ s.waiters.eraseIdx p,
      w'.returned = false → w'.buf_idx = w.buf_idx → w'.sec_nr = w.sec_nr →
        s.fulfilled w'.prom = true
  | .setTask _ _ _ _ => .isTrue trivial
  | .call _ => .isTrue trivial
  | .serve _ _ => .isTrue trivial
  | .callback _ => .isTrue trivial
  | .clear _ => .isTrue trivial
  | .clearStep _ => .isTrue trivial
  | .wait _ _ => .isTrue trivial

instance (s : State) (a : Act) : Decidable (Safe s a) := inferInstanceAs (Decidable (_ ∧ _))

/-! ### One step -/

/-- The callback of a current request finds its own future. -/
theorem check_kept {s : State} (h : Intact s) {k : Nat} {r : Request} {rep : ReadAhead.Reply}
    (hr : s.requests[k]? = some r) (hsent : r.stage = .sent) (hrep : r.reply = some (some rep))
    (hcurrent : r.Current s) (hordered : CallbackOrdered s k r .sent) :
    ReplyKept (check s k r) k r rep .sent := by
  obtain ⟨htask, hstored⟩ := hordered hcurrent
  have hlt : k < s.requests.length := (List.getElem?_eq_some_iff.mp hr).1
  have htab := h.stored k r hr hsent htask (hstored (by simp [hrep]))
  have hepoch : ¬ (s.bufs r.buf_idx).epoch ≠ r.cur_epoch := not_not.mpr hcurrent.symm
  rw [check, if_neg hepoch, htab]
  exact ⟨_, _, List.getElem?_set_self hlt, rfl⟩

/-- The reply is in its sector when it has been copied. -/
theorem copy_kept {s : State} (h : Intact s) {k k' task : Nat} {r : Request}
    {rep : ReadAhead.Reply} (hr : s.requests[k]? = some r) (hstage : r.stage = .taken k' task)
    (hrep : r.reply = some (some rep)) (hordered : CallbackOrdered s k r (.taken k' task)) :
    ReplyKept (copy s k r k' task) k r rep (.taken k' task) := by
  obtain ⟨rfl, rfl⟩ := h.taken k r k' task hr hstage
  have hlt : k' < s.requests.length := (List.getElem?_eq_some_iff.mp hr).1
  have htask : r.task = (s.bufs r.buf_idx).task := hordered (by simp [hrep])
  have hin : (s.bufs r.buf_idx).InTask r.sec_nr := (h.taken_lt _ (ticket_mem hr) htask).1
  rw [copy, hr, Option.bind_some, hrep]
  exact ⟨copied_receive hin, _, _, List.getElem?_set_self hlt, rfl⟩

/-- The reply is recorded and the readers are woken when the sector is marked. -/
theorem mark_kept {s : State} (h : Intact s) (hwaiting : Waiting s) {k len task : Nat}
    {r : Request} {rep : ReadAhead.Reply} (hr : s.requests[k]? = some r)
    (hstage : r.stage = .copied len task) (hrep : r.reply = some (some rep))
    (hcurrent : r.Current s) (hordered : CallbackOrdered s k r (.copied len task)) :
    ReplyKept (mark s k r len) k r rep (.copied len task) := by
  obtain ⟨-, rep', hrep', rfl, hcopied⟩ := h.copied k r len task hr hstage
  rw [hrep, Option.some.injEq, Option.some.injEq] at hrep'
  subst hrep'
  have hbufs : (mark s k r rep.bytes.length).bufs r.buf_idx = { s.bufs r.buf_idx with
      sec_bufferd :=
        Function.update (s.bufs r.buf_idx).sec_bufferd r.sec_nr (some rep.bytes.length)
      prom_waiting_tab :=
        Function.update (s.bufs r.buf_idx).prom_waiting_tab r.sec_nr none } := by
    simp [mark, State.setStage]
  refine ⟨?_, ?_, ?_⟩
  · refine (hcopied (hordered hcurrent)).of_sameTask ?_ ?_
    · rw [hbufs]
      exact ⟨rfl, rfl, rfl, Nat.le_refl _⟩
    · rw [hbufs]
  · rw [hbufs]
    exact Function.update_self _ _ _
  · intro w hmem hreturned hidx hsec
    rw [mark_waiters] at hmem
    obtain ⟨p, hw⟩ := List.mem_iff_getElem?.mp hmem
    exact hwaiting.mark_wakes hw hreturned hidx hsec

theorem kept {cfg : Config} {s : State} {a : Act} (h : Intact s) (hwaiting : Waiting s)
    (hsafe : Safe s a) : Kept cfg s a := by
  intro t hstep
  cases a with
  | callback k =>
      intro r rep hr hrep hcurrent
      have hordered := hsafe.1 r hr
      simp only [step, hr, Option.bind_some, callbackStep] at hstep
      cases hstage : r.stage with
      | sent =>
          simp only [hstage] at hstep hordered
          split_ifs at hstep
          cases hstep
          exact check_kept h hr hstage hrep hcurrent hordered
      | taken k' task =>
          simp only [hstage] at hstep hordered
          cases hstep
          exact copy_kept h hr hstage hrep hordered
      | copied len task =>
          simp only [hstage] at hstep hordered
          split_ifs at hstep
          cases hstep
          exact mark_kept h hwaiting hr hstage hrep hcurrent hordered
      | _ => trivial
  | _ => trivial

/-! ### Runs -/

/-- In every run, of any number of threads, whose steps all meet the condition, every good reply of
the current epoch is copied to its sector and recorded, and wakes the readers that wait for it. -/
theorem completed_prefetches_kept {cfg : Config} {acts : List Act}
    (h : Machine.Guarded (step cfg) Safe start acts) :
    Machine.Guarded (step cfg) (Kept cfg) start acts := by
  have hpreserved : ∀ s a t, Intact s ∧ Waiting s → Safe s a → step cfg s a = some t →
      Intact t ∧ Waiting t := by
    rintro s a t ⟨hintact, hwaiting⟩ ⟨hordered, hleaves⟩ hstep
    exact ⟨hintact.step hordered hstep, hwaiting.step hleaves hstep⟩
  have hkept : ∀ s a, Intact s ∧ Waiting s → Safe s a → Kept cfg s a := by
    rintro s a ⟨hintact, hwaiting⟩ hsafe
    exact kept hintact hwaiting hsafe
  exact h.of_invariant hpreserved hkept ⟨intact_start, waiting_start⟩

/-- A sector is fetched while two readers wait for it. -/
def fetchForReaders : List Act :=
  fetchOne ++ [.wait 0 0, .wait 0 0, .serve 0 (some ⟨[7], 0⟩), .callback 0, .callback 0,
    .callback 0, .wakeUp 0, .wakeUp 1]

theorem completed_prefetches_kept_for_readers :
    Machine.Guarded (step smallest) (Kept smallest) start fetchForReaders :=
  completed_prefetches_kept (by decide +kernel)

theorem two_sectors_lt : 2 < 2 ^ 14 := by decide

/-- One request at a time, and buffers of two sectors. -/
def twoSectors : Config where
  max_onlink := 1
  readahead := 2
  max_onlink_lt := smallest_onlink_lt
  readahead_lt := two_sectors_lt

/-- A task is set for a file, and the callback of its first request has marked its sector. -/
def fetchFirst : List Act :=
  fetchOne ++ [.serve 0 (some ⟨[7], 0⟩), .callback 0, .callback 0, .callback 0]

/-- A task is set for another file, and its first request is answered. -/
def fetchOther : List Act :=
  .setTask (1, "/g") 0 0 none :: List.replicate 10 (.call 1) ++
    [.serve 1 (some ⟨[7], 0⟩), .callback 1]

/-- The first callback triggers a fetch, which is submitted and answered while no other callback
runs. -/
def fetchNext : List Act :=
  [.callback 0, .callback 0] ++ List.replicate 7 (.call 2) ++
    [.callback 1, .callback 1, .callback 1, .serve 2 (some ⟨[7], 0⟩)]

/-- A file is given up for another one while the callback of its first request runs; the callback then
fetches the next sector of the other file, without the lock. -/
def overtaken : List Act := fetchFirst ++ fetchOther ++ fetchNext

/-- The callback of a request of the current epoch runs before the thread that submitted the request
has stored the future: it finds none and drops the reply. -/
theorem overtaken_reply_is_dropped :
    ¬ ∀ cfg acts, Machine.Guarded (step cfg) (Kept cfg) start acts := by
  intro hall
  have hdropped : (Machine.run (step twoSectors) start overtaken).any (fun s =>
      (s.requests[2]?).any fun r => r.reply = some (some ⟨[7], 0⟩) && r.stage = .sent &&
        r.cur_epoch = (s.bufs r.buf_idx).epoch &&
        (step twoSectors s (.callback 2)).any fun t =>
          (t.requests[2]?).any fun r' => r'.stage = .done) = true := by
    decide +kernel
  obtain ⟨s, hrun, hs⟩ := (Option.any_eq_true _ _).mp hdropped
  obtain ⟨r, hr, hr'⟩ := (Option.any_eq_true _ _).mp hs
  simp only [Bool.and_eq_true, decide_eq_true_eq] at hr'
  obtain ⟨⟨⟨hrep, hsent⟩, hcurrent⟩, hnext⟩ := hr'
  obtain ⟨t, hstep, ht⟩ := (Option.any_eq_true _ _).mp hnext
  obtain ⟨r', hr', hdone⟩ := (Option.any_eq_true _ _).mp ht
  have hguarded := hall twoSectors (overtaken ++ [.callback 2])
  have hkept := hguarded.last hrun t hstep r _ hr hrep hcurrent
  rw [hsent] at hkept
  obtain ⟨r'', task, hr'', htaken⟩ := hkept
  rw [hr', Option.some.injEq] at hr''
  subst hr''
  rw [htaken] at hdone
  cases of_decide_eq_true hdone

end Gvds.ReadAheadThreads
