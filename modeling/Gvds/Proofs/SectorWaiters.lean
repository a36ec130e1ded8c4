/-
Module: Gvds.Proofs.SectorWaiters
Layer: Proofs
Purpose: Who waits for a sector of the read-ahead. As long as no reader takes the promise of a sector
  away from another one that still waits for it, every reader in wait_sector holds the promise that is
  in the table for its sector, or one that has got its value; so a callback that marks a sector wakes
  all of them.
Imports: Gvds.Proofs.PrefetchEpochs
Trusted boundary: as Gvds.Client.ReadAheadThreads
Main exports: State.fulfilled, Waiting, Leaves, Waiting.step, Waiting.mark_wakes
-/
import Gvds.Proofs.PrefetchEpochs

namespace Gvds.ReadAheadThreads

open WriteBehind (FileName)
open ReadAhead (BufArea sectorSize)
open IndexedList

/-- The promise has got its value. -/
def State.fulfilled (s : State) (p : Nat) : Bool :=
  match s.outcome p with
  | some (.value _) => true
  | _ => false

/-- What a reader that leaves `wait_sector` needs: the others in front of the same sector have got
their values. -/
def Leaves (s : State) : Act → Prop
  | .wakeUp p => ∀ w, s.waiters[p]? = some w → ∀ w' ∈ s.waiters.eraseIdx p,
      w'.returned = false → w'.buf_idx = w.buf_idx → w'.sec_nr = w.sec_nr →
        s.fulfilled w'.prom = true
  | _ => True

/-- The tables of promises and futures agree, and no reader is left out. -/
structure Waiting (s : State) : Prop where
  made : ∀ i sec_nr p, (s.bufs i).prom_waiting_tab sec_nr = some p →
    ∃ w, s.waiters[p]? = some w ∧ w.buf_idx = i ∧ w.sec_nr = sec_nr
  held : ∀ i sec_nr p, (s.bufs i).prom_waiting_tab sec_nr = some p →
    (s.bufs i).ft_waiting_tab sec_nr = some p
  shared : ∀ i sec_nr p, (s.bufs i).ft_waiting_tab sec_nr = some p →
    (s.bufs i).prom_waiting_tab sec_nr = some p ∨ s.fulfilled p = true
  waiting : ∀ (p : Nat) (w : Waiter), s.waiters[p]? = some w → w.returned = false →
    (s.bufs w.buf_idx).prom_waiting_tab w.sec_nr = some w.prom ∨ s.fulfilled w.prom = true

theorem waiting_start : Waiting start where
  made := fun _ _ _ hprom => by cases hprom
  held := fun _ _ _ hprom => by cases hprom
  shared := fun _ _ _ hft => by cases hft
  waiting := fun _ _ hw => by cases hw

theorem fulfilled_congr {s t : State} {p : Nat} (h : t.outcome p = s.outcome p) :
    t.fulfilled p = s.fulfilled p := by
  rw [State.fulfilled, State.fulfilled, h]

theorem fulfilled_of_value {s : State} {p : Nat} {b : Bool} (h : s.outcome p = some (.value b)) :
    s.fulfilled p = true := by
  rw [State.fulfilled, h]

namespace Waiting

/-- Nothing changes but what no reader depends on. -/
theorem of_same {s t : State} (h : Waiting s)
    (hprom : ∀ i, (t.bufs i).prom_waiting_tab = (s.bufs i).prom_waiting_tab)
    (hft : ∀ i, (t.bufs i).ft_waiting_tab = (s.bufs i).ft_waiting_tab)
    (hwaiters : t.waiters = s.waiters) (houtcome : t.outcome = s.outcome) : Waiting t where
  made := by
    intro i sec_nr p hentry
    rw [hprom] at hentry
    rw [hwaiters]
    exact h.made i sec_nr p hentry
  held := by
    intro i sec_nr p hentry
    rw [hprom] at hentry
    rw [hft]
    exact h.held i sec_nr p hentry
  shared := by
    intro i sec_nr p hentry
    rw [hft] at hentry
    rw [hprom, fulfilled_congr (congrFun houtcome p)]
    exact h.shared i sec_nr p hentry
  waiting := by
    intro p w hw hreturned
    rw [hwaiters] at hw
    rw [hprom, fulfilled_congr (congrFun houtcome w.prom)]
    exact h.waiting p w hw hreturned

/-- A buffer changes outside its tables of readers. -/
theorem setOther {s : State} (h : Waiting s) {i : Fin 2} {b : Buffer}
    (hprom : b.prom_waiting_tab = (s.bufs i).prom_waiting_tab)
    (hft : b.ft_waiting_tab = (s.bufs i).ft_waiting_tab) : Waiting (s.setBuf i b) := by
  refine h.of_same ?_ ?_ rfl rfl
  · exact (Function.forall_update_iff s.bufs fun i b' =>
      b'.prom_waiting_tab = (s.bufs i).prom_waiting_tab).mpr ⟨hprom, fun _ _ => rfl⟩
  · exact (Function.forall_update_iff s.bufs fun i b' =>
      b'.ft_waiting_tab = (s.bufs i).ft_waiting_tab).mpr ⟨hft, fun _ _ => rfl⟩

theorem setPc {s : State} (h : Waiting s) (c : Nat) (call : Call) (pc : Pc) :
    Waiting (s.setPc c call pc) :=
  h.of_same (fun _ => rfl) (fun _ => rfl) rfl rfl

theorem setStage {s : State} (h : Waiting s) (k : Nat) (r : Request) (stage : Stage) :
    Waiting (s.setStage k r stage) :=
  h.of_same (fun _ => rfl) (fun _ => rfl) rfl rfl

/-- A buffer is cleared or given a task: all its readers are woken. -/
theorem reset {s : State} (h : Waiting s) (i : Fin 2) (b : BufArea) :
    Waiting ((s.wakeAll i).setBuf i (.reset b)) := by
  have hkept : ∀ p, s.fulfilled p = true →
      ((s.wakeAll i).setBuf i (.reset b)).fulfilled p = true := by
    intro p hp
    by_cases hreg : s.registered i p
    · exact fulfilled_of_value (if_pos hreg)
    · rw [← hp]
      exact fulfilled_congr (if_neg hreg)
  have hnone : ∀ n, (((s.wakeAll i).setBuf i (.reset b)).bufs i).prom_waiting_tab n = none :=
    fun n => by simp [State.setBuf, Buffer.reset]
  have hnone' : ∀ n, (((s.wakeAll i).setBuf i (.reset b)).bufs i).ft_waiting_tab n = none :=
    fun n => by simp [State.setBuf, Buffer.reset]
  have hother : ∀ j, j ≠ i → ((s.wakeAll i).setBuf i (.reset b)).bufs j = s.bufs j :=
    fun j hj => Function.update_of_ne hj _ _
  constructor
  · intro j sec_nr p hentry
    by_cases hj : j = i
    · subst hj
      rw [hnone] at hentry
      cases hentry
    · rw [hother j hj] at hentry
      exact h.made j sec_nr p hentry
  · intro j sec_nr p hentry
    by_cases hj : j = i
    · subst hj
      rw [hnone] at hentry
      cases hentry
    · rw [hother j hj] at hentry ⊢
      exact h.held j sec_nr p hentry
  · intro j sec_nr p hentry
    by_cases hj : j = i
    · subst hj
      rw [hnone'] at hentry
      cases hentry
    · rw [hother j hj] at hentry ⊢
      exact (h.shared j sec_nr p hentry).imp_right (hkept p)
  · intro p w hw hreturned
    rcases h.waiting p w hw hreturned with hprom | hvalue
    · by_cases hj : w.buf_idx = i
      · -- its promise is in the table, so it gets a value
        right
        obtain ⟨w', hw', hidx, hsec⟩ := h.made _ _ _ hprom
        have hreg : s.registered i w.prom = true := by
          rw [State.registered, hw', Option.any_some, Bool.and_eq_true, decide_eq_true_eq,
            decide_eq_true_eq, hidx, hsec, ← hj]
          exact ⟨rfl, hprom⟩
        exact fulfilled_of_value (if_pos hreg)
      · rw [hother _ hj]
        exact .inl hprom
    · exact .inr (hkept _ hvalue)

end Waiting

/-- A promise that has its value keeps one when another one, or the same again, gets its value. -/
theorem fulfilled_wake {s : State} {p : Nat} (h : s.fulfilled p = true) (x : Option Nat) :
    (s.wake x).fulfilled p = true := by
  cases x with
  | none => exact h
  | some q =>
      by_cases hp : p = q
      · subst hp
        exact fulfilled_of_value (Function.update_self _ _ _)
      · rw [← h]
        exact fulfilled_congr (Function.update_of_ne hp _ _)

theorem fulfilled_wake_self (s : State) (p : Nat) : (s.wake (some p)).fulfilled p = true :=
  fulfilled_of_value (Function.update_self _ _ _)

theorem fulfilled_mark (s : State) (k : Nat) (r : Request) (len p : Nat) :
    (mark s k r len).fulfilled p =
      (s.wake ((s.bufs r.buf_idx).prom_waiting_tab r.sec_nr)).fulfilled p := rfl

/-- The tables of readers behind `mark`. -/
theorem mark_tables (s : State) (k : Nat) (r : Request) (len : Nat) (i : Fin 2) (n : Nat) :
    ((mark s k r len).bufs i).ft_waiting_tab n = (s.bufs i).ft_waiting_tab n ∧
      ((mark s k r len).bufs i).prom_waiting_tab n =
        if i = r.buf_idx ∧ n = r.sec_nr then none else (s.bufs i).prom_waiting_tab n := by
  have hbufs : (mark s k r len).bufs = Function.update s.bufs r.buf_idx
      { s.bufs r.buf_idx with
        sec_bufferd := Function.update (s.bufs r.buf_idx).sec_bufferd r.sec_nr (some len)
        prom_waiting_tab :=
          Function.update (s.bufs r.buf_idx).prom_waiting_tab r.sec_nr none } := by
    simp only [mark, State.setStage, State.setBuf, wake_bufs]
  rw [hbufs]
  by_cases hi : i = r.buf_idx
  · subst hi
    simp [Function.update_apply]
  · simp [hi]

theorem mark_waiters (s : State) (k : Nat) (r : Request) (len : Nat) :
    (mark s k r len).waiters = s.waiters := by
  unfold mark
  dsimp only
  cases (s.bufs r.buf_idx).prom_waiting_tab r.sec_nr <;> rfl

/-- The entries of both tables for a sector, when they are set together. -/
theorem setBoth_tables (s : State) (i : Fin 2) (sec_nr : Nat) (x : Option Nat) (j : Fin 2) (n : Nat) :
    let b := s.bufs i
    let b' := { b with
      ft_waiting_tab := Function.update b.ft_waiting_tab sec_nr x
      prom_waiting_tab := Function.update b.prom_waiting_tab sec_nr x }
    ((s.setBuf i b').bufs j).ft_waiting_tab n =
        (if j = i ∧ n = sec_nr then x else (s.bufs j).ft_waiting_tab n) ∧
      ((s.setBuf i b').bufs j).prom_waiting_tab n =
        if j = i ∧ n = sec_nr then x else (s.bufs j).prom_waiting_tab n := by
  by_cases hj : j = i
  · subst hj
    simp [State.setBuf, Function.update_apply]
  · simp [State.setBuf, hj]

namespace Waiting

/-- Every reader that waits for the sector is woken when it is marked. -/
theorem mark_wakes {s : State} (h : Waiting s) {k : Nat} {r : Request} {len p : Nat} {w : Waiter}
    (hw : s.waiters[p]? = some w) (hreturned : w.returned = false) (hidx : w.buf_idx = r.buf_idx)
    (hsec : w.sec_nr = r.sec_nr) : (mark s k r len).fulfilled w.prom = true := by
  rw [fulfilled_mark]
  rcases h.waiting p w hw hreturned with hprom | hvalue
  · rw [hidx, hsec] at hprom
    rw [hprom]
    exact fulfilled_wake_self s w.prom
  · exact fulfilled_wake hvalue _

theorem mark {s : State} (h : Waiting s) (k : Nat) (r : Request) (len : Nat) :
    Waiting (mark s k r len) := by
  have hentries : ∀ i n p, ((ReadAheadThreads.mark s k r len).bufs i).prom_waiting_tab n = some p →
      (s.bufs i).prom_waiting_tab n = some p := by
    intro i n p hentry
    rw [(mark_tables s k r len i n).2] at hentry
    split_ifs at hentry
    exact hentry
  -- what is not in the table any more has got its value
  have hgone : ∀ i n p, (s.bufs i).prom_waiting_tab n = some p →
      ((ReadAheadThreads.mark s k r len).bufs i).prom_waiting_tab n = some p ∨
        (ReadAheadThreads.mark s k r len).fulfilled p = true := by
    intro i n p hentry
    rw [(mark_tables s k r len i n).2]
    split_ifs with hmarked
    · obtain ⟨rfl, rfl⟩ := hmarked
      right
      rw [fulfilled_mark, hentry]
      exact fulfilled_wake_self s p
    · exact .inl hentry
  constructor
  · intro i n p hentry
    rw [mark_waiters]
    exact h.made i n p (hentries i n p hentry)
  · intro i n p hentry
    rw [(mark_tables s k r len i n).1]
    exact h.held i n p (hentries i n p hentry)
  · intro i n p hentry
    rw [(mark_tables s k r len i n).1] at hentry
    rcases h.shared i n p hentry with hprom | hvalue
    · exact hgone i n p hprom
    · exact .inr (fulfilled_wake hvalue _)
  · intro p w hw hreturned
    rw [mark_waiters] at hw
    rcases h.waiting p w hw hreturned with hprom | hvalue
    · exact hgone _ _ _ hprom
    · exact .inr (fulfilled_wake hvalue _)

theorem wait {s : State} (h : Waiting s) (i : Fin 2) (sec_nr : Nat) : Waiting (wait s i sec_nr) := by
  have hold : ∀ (p : Nat) (w : Waiter), s.waiters[p]? = some w → ∀ w',
      (s.waiters ++ [w'])[p]? = some w := fun p w hw w' =>
    (List.getElem?_append_left (List.getElem?_eq_some_iff.mp hw).1).trans hw
  unfold ReadAheadThreads.wait
  dsimp only
  split
  next hnone =>
    have htables := setBoth_tables s i sec_nr (some s.waiters.length)
    dsimp only at htables
    -- nobody waits for the sector with a promise that is in the table
    have hnoprom : ∀ p, (s.bufs i).prom_waiting_tab sec_nr ≠ some p := by
      intro p hprom
      rw [h.held i sec_nr p hprom] at hnone
      cases hnone
    constructor
    · intro j n p hentry
      dsimp only at hentry
      rw [(htables j n).2] at hentry
      split_ifs at hentry with hplace
      · obtain ⟨rfl, rfl⟩ := hplace
        cases hentry
        exact ⟨_, List.getElem?_concat_length, rfl, rfl⟩
      · obtain ⟨w, hw, hplace⟩ := h.made j n p hentry
        exact ⟨w, hold p w hw _, hplace⟩
    · intro j n p hentry
      dsimp only at hentry ⊢
      rw [(htables j n).2] at hentry
      rw [(htables j n).1]
      split_ifs at hentry ⊢
      · exact hentry
      · exact h.held j n p hentry
    · intro j n p hentry
      dsimp only at hentry ⊢
      rw [(htables j n).1] at hentry
      rw [(htables j n).2]
      split_ifs at hentry ⊢
      · exact .inl hentry
      · exact h.shared j n p hentry
    · intro p w hw hreturned
      dsimp only
      rw [(htables _ _).2]
      rcases getElem?_concat_cases hw with hbefore | ⟨-, rfl⟩
      · rcases h.waiting p w hbefore hreturned with hprom | hvalue
        · rw [if_neg]
          · exact .inl hprom
          · rintro ⟨hidx, hsec⟩
            rw [hidx, hsec] at hprom
            exact hnoprom _ hprom
        · exact .inr hvalue
      · exact .inl (if_pos ⟨rfl, rfl⟩)
  next prom hft =>
    constructor
    · intro j n p hentry
      obtain ⟨w, hw, hplace⟩ := h.made j n p hentry
      exact ⟨w, hold p w hw _, hplace⟩
    · exact h.held
    · exact h.shared
    · intro p w hw hreturned
      rcases getElem?_concat_cases hw with hbefore | ⟨-, rfl⟩
      · exact h.waiting p w hbefore hreturned
      · exact h.shared i sec_nr prom hft

/-- Behind `wait_sector` there is neither a promise nor a future for its sector. -/
theorem wakeUp_tables {s : State} (h : Waiting s) (p : Nat) (w : Waiter) (j : Fin 2) (n : Nat) :
    ((wakeUp s p w).bufs j).ft_waiting_tab n =
        (if j = w.buf_idx ∧ n = w.sec_nr then none else (s.bufs j).ft_waiting_tab n) ∧
      ((wakeUp s p w).bufs j).prom_waiting_tab n =
        if j = w.buf_idx ∧ n = w.sec_nr then none else (s.bufs j).prom_waiting_tab n := by
  unfold wakeUp
  dsimp only
  split
  next hnone =>
    have hnoprom : (s.bufs w.buf_idx).prom_waiting_tab w.sec_nr = none := by
      cases hprom : (s.bufs w.buf_idx).prom_waiting_tab w.sec_nr with
      | none => rfl
      | some q =>
          rw [h.held _ _ q hprom] at hnone
          cases hnone
    dsimp only
    split_ifs with hplace
    · obtain ⟨rfl, rfl⟩ := hplace
      exact ⟨hnone, hnoprom⟩
    · exact ⟨rfl, rfl⟩
  next => exact setBoth_tables _ _ _ none j n

theorem wakeUp_waiters (s : State) (p : Nat) (w : Waiter) :
    (wakeUp s p w).waiters = s.waiters.set p { w with returned := true } := by
  unfold wakeUp
  dsimp only
  split <;> rfl

theorem fulfilled_wakeUp {s : State} {q : Nat} (h : s.fulfilled q = true) (p : Nat) (w : Waiter) :
    (wakeUp s p w).fulfilled q = true := by
  have houtcome : (wakeUp s p w).outcome =
      Function.update s.outcome p (some ((s.outcome p).getD .broken)) := by
    unfold wakeUp
    dsimp only
    split <;> rfl
  rw [← h]
  refine fulfilled_congr ?_
  rw [houtcome]
  by_cases hq : q = p
  · subst hq
    rw [Function.update_self]
    cases hs : s.outcome q with
    | none => simp [State.fulfilled, hs] at h
    | some o => rfl
  · exact Function.update_of_ne hq _ _

theorem wakeUp {s : State} (h : Waiting s) {p : Nat} {w : Waiter} (hw : s.waiters[p]? = some w)
    (hleaves : ∀ w' ∈ s.waiters.eraseIdx p, w'.returned = false → w'.buf_idx = w.buf_idx →
      w'.sec_nr = w.sec_nr → s.fulfilled w'.prom = true) : Waiting (wakeUp s p w) := by
  have htables := wakeUp_tables h p w
  constructor
  · intro j n q hentry
    rw [(htables j n).2] at hentry
    split_ifs at hentry
    obtain ⟨w', hw', hplace⟩ := h.made j n q hentry
    rw [wakeUp_waiters]
    by_cases hq : q = p
    · subst hq
      rw [hw, Option.some.injEq] at hw'
      subst hw'
      have hlt : q < s.waiters.length := (List.getElem?_eq_some_iff.mp hw).1
      exact ⟨_, List.getElem?_set_self hlt, hplace⟩
    · exact ⟨w', (List.getElem?_set_ne (Ne.symm hq)).trans hw', hplace⟩
  · intro j n q hentry
    rw [(htables j n).2] at hentry
    rw [(htables j n).1]
    split_ifs at hentry ⊢
    exact h.held j n q hentry
  · intro j n q hentry
    rw [(htables j n).1] at hentry
    rw [(htables j n).2]
    split_ifs at hentry ⊢
    exact (h.shared j n q hentry).imp_right (fulfilled_wakeUp · p w)
  · intro q w' hw' hreturned
    rw [wakeUp_waiters] at hw'
    rcases getElem?_set_cases hw' with ⟨-, rfl⟩ | ⟨hq, hbefore⟩
    · cases hreturned
    · rw [(htables _ _).2]
      split_ifs with hplace
      · -- the others in front of the sector have been woken
        have hmem := List.mem_eraseIdx_iff_getElem?.mpr ⟨q, hq, hbefore⟩
        exact .inr (fulfilled_wakeUp (hleaves w' hmem hreturned hplace.1 hplace.2) p w)
      · exact (h.waiting q w' hbefore hreturned).imp_right (fulfilled_wakeUp · p w)

theorem lockTask {s : State} (h : Waiting s) (c : Nat) (call : Call) (file : FileName)
    (sec_bg sec_max epoch : Nat) : Waiting (lockTask s c call file sec_bg sec_max epoch) := by
  unfold ReadAheadThreads.lockTask
  dsimp only
  split_ifs
  · exact h.setPc _ _ _
  · have hcursor : Waiting (s.setBuf call.buf_idx { s.bufs call.buf_idx with
        cursor := (s.bufs call.buf_idx).cursor + 1 }) := h.setOther rfl rfl
    exact hcursor.setPc _ _ _
  · exact h.setPc _ _ _
  · have hreset := h.reset call.buf_idx
      ((s.bufs call.buf_idx).toBufArea.retask file sec_bg sec_max epoch)
    exact (hreset.setPc c call .enter).of_same (fun _ => rfl) (fun _ => rfl) rfl rfl

theorem leave {s : State} (h : Waiting s) (c : Nat) (call : Call) : Waiting (leave s c call) :=
  h.of_same (fun _ => rfl) (fun _ => rfl) rfl rfl

theorem callStep {cfg : Config} {s t : State} (h : Waiting s) {c : Nat} {call : Call}
    (hstep : callStep cfg s c call = some t) : Waiting t := by
  unfold ReadAheadThreads.callStep at hstep
  cases hpc : call.pc with
  | task file sec_bg sec_max epoch =>
      simp only [hpc] at hstep
      split_ifs at hstep
      cases hstep
      exact h.lockTask c call file sec_bg sec_max epoch
  | enter =>
      simp only [hpc] at hstep
      cases hstep
      exact h.setPc _ _ _
  | check file =>
      simp only [hpc] at hstep
      cases hstep
      split_ifs
      · exact h.setPc _ _ _
      · exact h.leave _ _
  | bound file =>
      simp only [hpc] at hstep
      cases hstep
      split_ifs
      · exact h.setPc _ _ _
      · exact h.leave _ _
  | reserve file =>
      simp only [hpc] at hstep
      cases hstep
      refine Waiting.setPc (h.setOther ?_ ?_) _ _ _
      · rfl
      · rfl
  | number file =>
      simp only [hpc] at hstep
      cases hstep
      refine Waiting.setPc (h.setOther ?_ ?_) _ _ _
      · rfl
      · rfl
  | stamp file sec_nr task =>
      simp only [hpc] at hstep
      cases hstep
      exact h.setPc _ _ _
  | submit file sec_nr task epoch =>
      simp only [hpc] at hstep
      cases hstep
      exact h.of_same (fun _ => rfl) (fun _ => rfl) rfl rfl
  | store file sec_nr k =>
      simp only [hpc] at hstep
      cases hstep
      refine Waiting.setPc (h.setOther ?_ ?_) _ _ _
      · rfl
      · rfl
  | ended => simp [hpc] at hstep

theorem check {s : State} (h : Waiting s) (k : Nat) (r : Request) : Waiting (check s k r) := by
  unfold ReadAheadThreads.check
  dsimp only
  split_ifs
  · exact h.setStage _ _ _
  · cases (s.bufs r.buf_idx).ft_res_tab r.sec_nr with
    | none =>
        refine Waiting.setStage (h.setOther ?_ ?_) _ _ _
        · rfl
        · rfl
    | some k' =>
        refine Waiting.setStage (h.setOther ?_ ?_) _ _ _
        · rfl
        · rfl

theorem copy {s : State} (h : Waiting s) (k : Nat) (r : Request) (k' task : Nat) :
    Waiting (copy s k r k' task) := by
  unfold ReadAheadThreads.copy
  dsimp only
  split
  · refine Waiting.setStage (h.setOther ?_ ?_) _ _ _
    · rfl
    · rfl
  · exact h.setStage _ _ _

theorem setTask {s : State} (h : Waiting s) (owner : Option Nat) (file : FileName) (i : Fin 2)
    (sec_bg sec_max : Nat) (epoch : Option Nat) :
    Waiting (setTask s owner file i sec_bg sec_max epoch) := by
  cases epoch with
  | none => exact h.of_same (fun _ => rfl) (fun _ => rfl) rfl rfl
  | some epoch =>
      simp only [ReadAheadThreads.setTask]
      split_ifs
      · exact h
      · exact h.of_same (fun _ => rfl) (fun _ => rfl) rfl rfl

theorem next {s : State} (h : Waiting s) (k : Nat) (r : Request) : Waiting (next s k r) := by
  have hdone := h.setStage k r .done
  unfold ReadAheadThreads.next
  dsimp only
  split_ifs
  · exact hdone.setTask _ _ _ _ _ _
  · exact hdone.of_same (fun _ => rfl) (fun _ => rfl) rfl rfl
  · exact hdone.of_same (fun _ => rfl) (fun _ => rfl) rfl rfl

theorem callbackStep {cfg : Config} {s t : State} (h : Waiting s) {k : Nat} {r : Request}
    (hstep : callbackStep cfg s k r = some t) : Waiting t := by
  unfold ReadAheadThreads.callbackStep at hstep
  cases hstage : r.stage with
  | sent =>
      simp only [hstage] at hstep
      split_ifs at hstep
      cases hstep
      exact h.check k r
  | taken k' task =>
      simp only [hstage] at hstep
      cases hstep
      exact h.copy k r k' task
  | copied len task =>
      simp only [hstage] at hstep
      split_ifs at hstep
      cases hstep
      exact h.mark k r len
  | marked len =>
      simp only [hstage] at hstep
      cases hstep
      exact h.setStage _ _ _
  | room =>
      simp only [hstage] at hstep
      cases hstep
      exact h.next k r
  | done => simp [hstage] at hstep

theorem clearStep {s t : State} (h : Waiting s) {n : Nat} {stage : ClearStage}
    (hstep : ClearStepped s n stage t) : Waiting t := by
  cases hstep with
  | named =>
      have hcounted : Waiting (s.setBuf 0 { s.bufs 0 with epoch := (s.bufs 0).epoch + 1 }) :=
        h.setOther rfl rfl
      exact hcounted.of_same (fun _ => rfl) (fun _ => rfl) rfl rfl
  | first to_epoch epochs _ => exact (h.reset 0 _).of_same (fun _ => rfl) (fun _ => rfl) rfl rfl
  | second to_epoch epochs _ => exact (h.reset 1 _).of_same (fun _ => rfl) (fun _ => rfl) rfl rfl

/-- One step leaves no reader out. -/
theorem step {cfg : Config} {s t : State} {a : Act} (h : Waiting s) (hleaves : Leaves s a)
    (hstep : step cfg s a = some t) : Waiting t := by
  cases stepped_of_step hstep with
  | setTask file i sec_bg epoch => exact h.setTask _ _ _ _ _ _
  | call c call _ _ hcallStep => exact h.callStep hcallStep
  | serve k reply r _ _ _ => exact h.of_same (fun _ => rfl) (fun _ => rfl) rfl rfl
  | callback k r _ _ hcallback => exact h.callbackStep hcallback
  | clear filepath => exact h.of_same (fun _ => rfl) (fun _ => rfl) rfl rfl
  | clearStep n stage _ _ hclear => exact h.clearStep hclear
  | wait i sec_nr _ => exact h.wait i sec_nr
  | wakeUp p w hw _ _ => exact h.wakeUp hw (hleaves w hw)

end Waiting

end Gvds.ReadAheadThreads
