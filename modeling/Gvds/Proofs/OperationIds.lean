/-
Module: Gvds.Proofs.OperationIds
Layer: Proofs
Purpose: The ints that ClientSession::write returns, over all interleavings of writers, readers and
  replies. They are taken from a counter of 64 bits: as long as a session has made no more than 2^31
  requests each is the number of its request, the next one is negative, and after 2^32 they are
  given again.
Imports: Gvds.Lib.Machine, Gvds.Client.SessionBarrier
Trusted boundary: as Gvds.Client.SessionBarrier. That the counter itself wraps at 2^64 does not show
  in an int
Main exports: Unmistaken, Unmistakable, Took, Distinct, ids_unmistakable_iff,
  ids_unmistakable_one, ids_are_mistaken
-/
import Gvds.Lib.Machine
import Gvds.Client.SessionBarrier

namespace Gvds.ClientSession

/-- The ID of a call is no error for the callers, and nobody else is found under it. -/
structure Unmistaken (w : World) (k : Nat) : Prop where
  nonneg : 0 ≤ w.id k
  writes : ∀ again, write_data (w.id k) again = some (w.id k)
  reads : ∀ again, read_data (w.id k) again = some (w.id k)
  alone : ∀ k', w.session.futures (w.id k) = some k' ∨
    w.session.ready_promises (w.id k) = some k' → k' = k

/-- A call of `write` that has taken its number, until it returns. -/
def UnderWay (w : World) (k : Nat) : Prop := w.stage k = .numbered ∨ w.stage k = .entered

/-- No call of `write` returns an ID that is mistaken. -/
def Unmistakable (s : Session) : Prop := ∀ k, UnderWay s.world k → Unmistaken s.world k

/-- A call of `write` that has taken a number. -/
def Took (w : World) (k : Nat) : Prop := UnderWay w k ∨ w.sent k = true

/-- The IDs are the numbers that were taken, each by one call, and the tables have the calls under
their IDs. -/
structure Distinct (w : World) : Prop where
  bound : ∀ k, Took w k → 0 ≤ w.id k ∧ w.id k < w.session.seq_n
  one : ∀ k k', Took w k → Took w k' → w.id k = w.id k' → k = k'
  futures : ∀ id k, w.session.futures id = some k → Took w k ∧ w.id k = id
  promises : ∀ id k, w.session.ready_promises id = some k → Took w k ∧ w.id k = id
  sent : ∀ k, w.sent k = true → w.stage k = .written ∨ w.stage k = .registered

/-- The first 2^31 numbers are ints. -/
theorem int_of_lt {n : Nat} (h : n < 2147483648) : int n = n := by
  unfold int
  apply Int.bmod_eq_of_le
  · omega
  · omega

/-- Callers wait for an ID that is not negative. -/
theorem unmistaken_of_nonneg {w : World} {k : Nat} (hnonneg : 0 ≤ w.id k)
    (halone : ∀ k', w.session.futures (w.id k) = some k' ∨
      w.session.ready_promises (w.id k) = some k' → k' = k) : Unmistaken w k where
  nonneg := hnonneg
  writes again := by
    have hreset : w.id k ≠ -ECONNRESET := by
      unfold ECONNRESET
      omega
    simp only [write_data, if_neg hreset, if_neg (Int.not_lt.mpr hnonneg)]
  reads again := by
    simp only [read_data, if_neg (Int.not_lt.mpr hnonneg)]
  alone := halone

/-- Under distinct IDs none is mistaken. -/
theorem Distinct.unmistakable {s : Session} (h : Distinct s.world) : Unmistakable s := by
  intro k hk
  refine unmistaken_of_nonneg (h.bound k (.inl hk)).1 fun k' hfound => ?_
  have hk' : Took s.world k' ∧ s.world.id k' = s.world.id k := by
    cases hfound with
    | inl hfuture => exact h.futures _ k' hfuture
    | inr hpromise => exact h.promises _ k' hpromise
  exact h.one k' k hk'.1 (.inl hk) hk'.2

/-! ### One step -/

section Step

variable {w w' : World} {k : Nat}

/-- A step that takes no number and enters nothing into the tables. -/
theorem Distinct.of_same (h : Distinct w) (hseq : w'.session.seq_n = w.session.seq_n)
    (hid : w'.id = w.id) (htook : ∀ j, Took w' j ↔ Took w j)
    (hfutures : ∀ id j, w'.session.futures id = some j → w.session.futures id = some j)
    (hpromises : ∀ id j, w'.session.ready_promises id = some j →
      w.session.ready_promises id = some j)
    (hsent : ∀ j, w'.sent j = true → w'.stage j = .written ∨ w'.stage j = .registered) :
    Distinct w' where
  bound j hj := by
    rw [hid, hseq]
    exact h.bound j ((htook j).mp hj)
  one j j' hj hj' heq := by
    rw [hid] at heq
    exact h.one j j' ((htook j).mp hj) ((htook j').mp hj') heq
  futures id j hfound := by
    rw [hid, htook]
    exact h.futures id j (hfutures id j hfound)
  promises id j hfound := by
    rw [hid, htook]
    exact h.promises id j (hpromises id j hfound)
  sent := hsent

/-- A call that has not begun has taken no number. -/
theorem Distinct.not_took_of_start (h : Distinct w) (hstage : w.stage k = .start) : ¬ Took w k := by
  rintro ((hnum | hent) | hsent)
  · rw [hstage] at hnum
    cases hnum
  · rw [hstage] at hent
    cases hent
  · cases h.sent k hsent with
    | inl hwritten =>
        rw [hstage] at hwritten
        cases hwritten
    | inr hregistered =>
        rw [hstage] at hregistered
        cases hregistered

/-- The calls other than one that goes on. -/
theorem took_update_of_ne {st : Stage} {j : Nat} (hj : j ≠ k)
    (hstage : w'.stage = Function.update w.stage k st) (hsent : w'.sent j = w.sent j) :
    Took w' j ↔ Took w j := by
  unfold Took UnderWay
  rw [hstage, Function.update_of_ne hj, hsent]

/-- A table that has lost an entry. -/
theorem mem_of_update_none {table : Int → Option Nat} {id id' : Int} {j : Nat}
    (h : Function.update table id none id' = some j) : table id' = some j := by
  by_cases hid : id' = id
  · subst hid
    rw [Function.update_self] at h
    cases h
  · rwa [Function.update_of_ne hid] at h

/-- A call begins: it is refused, or takes the next number as its ID. -/
theorem Distinct.begins (h : Distinct w) (hbefore : w.stage k = .start) {st : Stage} {v : Int}
    (hstage : w'.stage = Function.update w.stage k st) (hid : w'.id = Function.update w.id k v)
    (hsent : w'.sent = w.sent) (hfutures : w'.session.futures = w.session.futures)
    (hpromises : w'.session.ready_promises = w.session.ready_promises)
    (hseq : w.session.seq_n ≤ w'.session.seq_n)
    (hnew : st = .refused ∨ v = w.session.seq_n ∧ w.session.seq_n < w'.session.seq_n) :
    Distinct w' := by
  have hnot := h.not_took_of_start hbefore
  have hne : ∀ {j}, Took w j → j ≠ k := fun hj hjk => hnot (hjk ▸ hj)
  have hold : ∀ {j}, j ≠ k → (Took w' j ↔ Took w j) := fun hj =>
    took_update_of_ne hj hstage (congrFun hsent _)
  have hidOld : ∀ {j}, j ≠ k → w'.id j = w.id j := fun hj => by
    rw [hid, Function.update_of_ne hj]
  -- the call itself has taken a number only if it has got the next one
  have hself : Took w' k → w'.id k = w.session.seq_n ∧ w.session.seq_n < w'.session.seq_n := by
    intro htook
    rcases hnew with rfl | ⟨rfl, hlt⟩
    · rcases htook with (hnum | hent) | hsent'
      · rw [hstage, Function.update_self] at hnum
        cases hnum
      · rw [hstage, Function.update_self] at hent
        cases hent
      · rw [hsent] at hsent'
        exact absurd (.inr hsent') hnot
    · exact ⟨by rw [hid, Function.update_self], hlt⟩
  have hentry : ∀ {id : Int} {j : Nat}, Took w j ∧ w.id j = id → Took w' j ∧ w'.id j = id := by
    rintro id j ⟨htook, rfl⟩
    exact ⟨(hold (hne htook)).mpr htook, hidOld (hne htook)⟩
  constructor
  · intro j hj
    by_cases hjk : j = k
    · subst hjk
      have hnumber := hself hj
      omega
    · have hbound := h.bound j ((hold hjk).mp hj)
      rw [hidOld hjk]
      omega
  · intro j j' hj hj' heq
    by_cases hjk : j = k
    · subst hjk
      by_cases hjk' : j' = j
      · exact hjk'.symm
      · have hbound := h.bound j' ((hold hjk').mp hj')
        rw [hidOld hjk', (hself hj).1] at heq
        omega
    · have hbound := h.bound j ((hold hjk).mp hj)
      by_cases hjk' : j' = k
      · subst hjk'
        rw [hidOld hjk, (hself hj').1] at heq
        omega
      · rw [hidOld hjk, hidOld hjk'] at heq
        exact h.one j j' ((hold hjk).mp hj) ((hold hjk').mp hj') heq
  · intro id j hfound
    rw [hfutures] at hfound
    exact hentry (h.futures id j hfound)
  · intro id j hfound
    rw [hpromises] at hfound
    exact hentry (h.promises id j hfound)
  · intro j hj
    rw [hsent] at hj
    rw [hstage, Function.update_of_ne (hne (.inr hj))]
    exact h.sent j hj

/-- A call enters its promise under its ID. -/
theorem Distinct.enter (h : Distinct w) (hbefore : w.stage k = .numbered) :
    Distinct { w with session := ClientSession.enter w.session (w.id k) k
                      stage := Function.update w.stage k .entered } := by
  have htook : ∀ j, Took { w with session := ClientSession.enter w.session (w.id k) k
                                  stage := Function.update w.stage k .entered } j ↔ Took w j := by
    intro j
    by_cases hjk : j = k
    · subst hjk
      exact iff_of_true (.inl (.inr (Function.update_self _ _ _))) (.inl (.inl hbefore))
    · exact took_update_of_ne hjk rfl rfl
  have hentry : ∀ {table : Int → Option Nat} {id : Int} {j : Nat},
      (∀ id j, table id = some j → Took w j ∧ w.id j = id) →
      Function.update table (w.id k) (some k) id = some j → Took w j ∧ w.id j = id := by
    intro table id j htable hfound
    by_cases hid : id = w.id k
    · subst hid
      rw [Function.update_self] at hfound
      cases hfound
      exact ⟨.inl (.inl hbefore), rfl⟩
    · rw [Function.update_of_ne hid] at hfound
      exact htable id j hfound
  constructor
  · intro j hj
    exact h.bound j ((htook j).mp hj)
  · intro j j' hj hj' heq
    exact h.one j j' ((htook j).mp hj) ((htook j').mp hj') heq
  · intro id j hfound
    rw [htook]
    exact hentry h.futures hfound
  · intro id j hfound
    rw [htook]
    exact hentry h.promises hfound
  · intro j hj
    have hjk : j ≠ k := by
      rintro rfl
      cases h.sent j hj with
      | inl hwritten =>
          rw [hbefore] at hwritten
          cases hwritten
      | inr hregistered =>
          rw [hbefore] at hregistered
          cases hregistered
    simp only [Function.update_of_ne hjk]
    exact h.sent j hj

/-- A call returns. -/
theorem Distinct.send (h : Distinct w) (hbefore : w.stage k = .entered) :
    Distinct { w with stage := Function.update w.stage k .written
                      sent := Function.update w.sent k true } := by
  refine h.of_same rfl rfl (fun j => ?_) (fun _ _ hfound => hfound) (fun _ _ hfound => hfound)
    fun j hj => ?_
  · by_cases hjk : j = k
    · subst hjk
      exact iff_of_true (.inr (Function.update_self _ _ _)) (.inl (.inr hbefore))
    · exact took_update_of_ne hjk rfl (Function.update_of_ne hjk _ _)
  · by_cases hjk : j = k
    · subst hjk
      exact .inl (Function.update_self _ _ _)
    · simp only [Function.update_of_ne hjk] at hj ⊢
      exact h.sent j hj

/-- A handler is registered. -/
theorem Distinct.register (h : Distinct w)
    (hbefore : w.stage k = .written ∨ w.stage k = .refused) :
    Distinct { w with session := registe_handler w.session (w.id k) k
                      stage := Function.update w.stage k .registered } := by
  refine h.of_same rfl rfl (fun j => ?_) (fun _ _ hfound => hfound) (fun _ _ hfound => hfound)
    fun j hj => ?_
  · by_cases hjk : j = k
    · subst hjk
      unfold Took UnderWay
      simp only [Function.update_self]
      rcases hbefore with hst | hst <;> simp [hst]
    · exact took_update_of_ne hjk rfl rfl
  · by_cases hjk : j = k
    · subst hjk
      exact .inr (Function.update_self _ _ _)
    · simp only [Function.update_of_ne hjk]
      exact h.sent j hj

/-- A reply takes entries out of the tables. -/
theorem do_read_tables (s : ClientSession) (id : Int) :
    (do_read s id).1.seq_n = s.seq_n ∧
      (∀ id' j, (do_read s id).1.futures id' = some j → s.futures id' = some j) ∧
      ∀ id' j, (do_read s id).1.ready_promises id' = some j → s.ready_promises id' = some j := by
  unfold do_read
  cases s.ready_promises id with
  | none => exact ⟨rfl, fun _ _ hfound => hfound, fun _ _ hfound => hfound⟩
  | some k =>
      dsimp only
      split
      · exact ⟨rfl, fun _ _ => mem_of_update_none, fun _ _ => mem_of_update_none⟩
      · exact ⟨rfl, fun _ _ hfound => hfound, fun _ _ => mem_of_update_none⟩

/-- What becomes of a reply changes no call of `write`. -/
theorem apply_spec (w : World) (e : Effect) :
    (w.apply e).session = w.session ∧ (w.apply e).id = w.id ∧ (w.apply e).stage = w.stage ∧
      (w.apply e).sent = w.sent := by
  cases e with
  | handled f => cases f <;> exact ⟨rfl, rfl, rfl, rfl⟩
  | _ => exact ⟨rfl, rfl, rfl, rfl⟩

/-- The IDs stay distinct as long as no number beyond 2^31 is taken. -/
theorem Distinct.step {a : Action} (h : Distinct w) (hstep : ClientSession.step w a = some w')
    (hbound : w'.session.seq_n ≤ 2147483648) : Distinct w' := by
  cases stepped_of_step hstep with
  | refused k hbefore =>
      exact h.begins hbefore rfl rfl rfl rfl rfl (Nat.le_refl _) (.inl rfl)
  | numbered k hbefore =>
      have hlt : w.session.seq_n < 2147483648 := hbound
      exact h.begins hbefore rfl rfl rfl rfl rfl (Nat.le_succ _)
        (.inr ⟨int_of_lt hlt, Nat.lt_succ_self _⟩)
  | entered k hbefore => exact h.enter hbefore
  | written k hbefore => exact h.send hbefore
  | registered k hbefore => exact h.register hbefore
  | received k _ =>
      obtain ⟨hsession, hid, hstage, hsent⟩ := apply_spec
        { w with session := (do_read w.session (w.id k)).1
                 replied := Function.update w.replied k true } (do_read w.session (w.id k)).2
      obtain ⟨hseq, hfutures, hpromises⟩ := do_read_tables w.session (w.id k)
      refine h.of_same (by rw [hsession]; exact hseq) hid (fun j => ?_) (fun id j hfound => ?_)
        (fun id j hfound => ?_) fun j hj => ?_
      · unfold Took UnderWay
        rw [hstage, hsent]
      · rw [hsession] at hfound
        exact hfutures id j hfound
      · rw [hsession] at hfound
        exact hpromises id j hfound
      · rw [hsent] at hj
        rw [hstage]
        exact h.sent j hj

end Step

/-! ### Steps of the session -/

section Session

variable {s t : Session} {a : Act}

/-- What the steps other than those of writers and replies do to a session. -/
theorem world_spec (hstep : stepBarriers s a = some t) :
    (∃ b, a = .session b ∧ step s.world b = some t.world) ∨
      t.world.session.seq_n = s.world.session.seq_n ∧ t.world.id = s.world.id ∧
        t.world.stage = s.world.stage ∧ t.world.sent = s.world.sent ∧
        t.world.session.ready_promises = s.world.session.ready_promises ∧
        ∀ id j, t.world.session.futures id = some j → s.world.session.futures id = some j := by
  cases a with
  | session b =>
      simp only [stepBarriers, Option.map_eq_some_iff] at hstep
      obtain ⟨w, hworld, rfl⟩ := hstep
      refine .inl ⟨b, rfl, ?_⟩
      cases leaving s.world b <;> exact hworld
  | waitOp id =>
      cases hstep
      exact .inr ⟨rfl, rfl, rfl, rfl, rfl, fun _ _ => mem_of_update_none⟩
  | autoHandle id =>
      cases hstep
      exact .inr ⟨rfl, rfl, rfl, rfl, rfl, fun _ _ hfound => hfound⟩
  | begin b =>
      simp only [stepBarriers] at hstep
      split at hstep <;> cases hstep
      exact .inr ⟨rfl, rfl, rfl, rfl, rfl, fun _ _ hfound => hfound⟩
  | look b =>
      simp only [stepBarriers] at hstep
      split at hstep <;> cases hstep
      exact .inr ⟨rfl, rfl, rfl, rfl, rfl, fun _ _ hfound => hfound⟩
  | timeOut b =>
      simp only [stepBarriers] at hstep
      split at hstep <;> cases hstep
      exact .inr ⟨rfl, rfl, rfl, rfl, rfl, fun _ _ hfound => hfound⟩

/-- A step leaves the counter, or takes a number for a call. -/
theorem seq_n_spec (hstep : stepBarriers s a = some t) :
    t.world.session.seq_n = s.world.session.seq_n ∨
      t.world.session.seq_n = s.world.session.seq_n + 1 ∧
        ∃ k, UnderWay t.world k ∧ t.world.id k = int s.world.session.seq_n := by
  rcases world_spec hstep with ⟨b, rfl, hworld⟩ | ⟨hseq, -⟩
  · generalize t.world = w at hworld ⊢
    cases stepped_of_step hworld with
    | numbered k _ =>
        exact .inr ⟨rfl, k, .inl (Function.update_self _ _ _), Function.update_self _ _ _⟩
    | received k _ =>
        rw [(apply_spec _ _).1]
        exact .inl (do_read_tables s.world.session (s.world.id k)).1
    | _ => exact .inl rfl
  · exact .inl hseq

/-- The IDs stay distinct as long as no number beyond 2^31 is taken. -/
theorem Distinct.stepBarriers (h : Distinct s.world)
    (hstep : ClientSession.stepBarriers s a = some t)
    (hbound : t.world.session.seq_n ≤ 2147483648) : Distinct t.world := by
  rcases world_spec hstep with ⟨b, rfl, hworld⟩ | ⟨hseq, hid, hstage, hsent, hpromises, hfutures⟩
  · exact h.step hworld hbound
  · refine h.of_same hseq hid (fun j => ?_) hfutures (fun id j hfound => ?_) fun j hj => ?_
    · unfold Took UnderWay
      rw [hstage, hsent]
    · rw [hpromises] at hfound
      exact hfound
    · rw [hsent] at hj
      rw [hstage]
      exact h.sent j hj

/-- The number after the first 2^31 is a negative int. -/
theorem seq_n_le_of_unmistakable (hstep : ClientSession.stepBarriers s a = some t)
    (hbound : s.world.session.seq_n ≤ 2147483648) (ht : Unmistakable t) :
    t.world.session.seq_n ≤ 2147483648 := by
  rcases seq_n_spec hstep with hseq | ⟨hseq, k, hway, hid⟩
  · rw [hseq]
    exact hbound
  · have hnonneg := (ht k hway).nonneg
    have hne : s.world.session.seq_n ≠ 2147483648 := by
      intro heq
      rw [hid, heq] at hnonneg
      exact absurd hnonneg (by decide)
    omega

end Session

/-! ### Runs -/

theorem distinct_start : Distinct Session.start.world where
  bound k hk := by rcases hk with (hnum | hent) | hsent <;> cases ‹_›
  one k k' hk := by rcases hk with (hnum | hent) | hsent <;> cases ‹_›
  futures id k hfound := by cases hfound
  promises id k hfound := by cases hfound
  sent k hk := by cases hk

/-- The counter is never set back. -/
theorem seq_n_le_of_run {s t : Session} {acts : List Act}
    (hrun : Machine.run stepBarriers s acts = some t) :
    s.world.session.seq_n ≤ t.world.session.seq_n := by
  have hpreserves : ∀ (u : Session) (a : Act) (v : Session),
      s.world.session.seq_n ≤ u.world.session.seq_n → stepBarriers u a = some v →
      s.world.session.seq_n ≤ v.world.session.seq_n := by
    intro u a v hle hstep
    rcases seq_n_spec hstep with hseq | ⟨hseq, -⟩
    · rw [hseq]
      exact hle
    · rw [hseq]
      exact Nat.le_succ_of_le hle
  exact Machine.run_preserves hpreserves (Nat.le_refl _) hrun

/-- With no more than 2^31 requests no ID of the run is mistaken. -/
theorem always_unmistakable {s t : Session} {acts : List Act} (h : Distinct s.world)
    (hrun : Machine.run stepBarriers s acts = some t)
    (hbound : t.world.session.seq_n ≤ 2147483648) :
    Machine.Always stepBarriers Unmistakable s acts := by
  induction acts generalizing s with
  | nil => exact h.unmistakable
  | cons a acts ih =>
      obtain ⟨u, hu, hrest⟩ := Machine.run_cons_eq_some.mp hrun
      refine ⟨h.unmistakable, fun v hv => ?_⟩
      rw [hu] at hv
      cases hv
      have hle := seq_n_le_of_run hrest
      exact ih (h.stepBarriers hu (Nat.le_trans hle hbound)) hrest

/-- With more than 2^31 requests one is. -/
theorem seq_n_le_of_always {s t : Session} {acts : List Act}
    (hs : s.world.session.seq_n ≤ 2147483648)
    (halways : Machine.Always stepBarriers Unmistakable s acts)
    (hrun : Machine.run stepBarriers s acts = some t) :
    t.world.session.seq_n ≤ 2147483648 := by
  induction acts generalizing s with
  | nil =>
      cases hrun
      exact hs
  | cons a acts ih =>
      obtain ⟨u, hu, hrest⟩ := Machine.run_cons_eq_some.mp hrun
      have hu' : Unmistakable u := by
        cases acts with
        | nil => exact halways.2 u hu
        | cons b acts => exact (halways.2 u hu).1
      exact ih (seq_n_le_of_unmistakable hu hs hu') (halways.2 u hu) hrest

/-- **Operation IDs are mistaken for nothing** over a run, by the callers that test for a negative
ID and in the tables, iff the session has made no more than 2^31 requests. -/
theorem ids_unmistakable_iff (acts : List Act) (s : Session)
    (hrun : Machine.run stepBarriers Session.start acts = some s) :
    Machine.Always stepBarriers Unmistakable Session.start acts ↔
      s.world.session.seq_n ≤ 2147483648 :=
  ⟨fun halways => seq_n_le_of_always (Nat.zero_le _) halways hrun,
    fun hbound => always_unmistakable distinct_start hrun hbound⟩

/-! ### One request after the other -/

/-- The steps of a call of `write`. -/
def write (k : Nat) : List Act :=
  [.session (.number k false), .session (.enter k), .session (.send k)]

/-- So many calls of `write`, whose replies are not received yet. -/
def writes (n : Nat) : List Act := (List.range n).flatMap write

/-- The session after so many calls, as long as their IDs are not given again. -/
structure Written (n : Nat) (s : Session) : Prop where
  seq_n : s.world.session.seq_n = n
  start : ∀ k, n ≤ k → s.world.stage k = .start
  futures : ∀ j, j < n → s.world.session.futures (int j) = some j

/-- Numbers below the modulus are told apart. -/
theorem eq_of_bmod_eq {m i j : Nat} (hi : i < m) (hj : j < m)
    (h : Int.bmod i m = Int.bmod j m) : i = j := by
  have hmod : (i : Int) % m = j % m := by
    rw [← Int.bmod_emod (x := i), h, Int.bmod_emod]
  rw [Int.emod_eq_of_lt (by omega) (by omega), Int.emod_eq_of_lt (by omega) (by omega)] at hmod
  exact Int.ofNat_inj.mp hmod

/-- Less than 2^32 IDs are distinct ints. -/
theorem int_injective {i j : Nat} (hi : i < 4294967296) (hj : j < 4294967296)
    (h : int i = int j) : i = j := eq_of_bmod_eq hi hj h

/-- A step of a writer, in the session. -/
theorem exists_session_step {s : Session} {b : Action} {w : World}
    (h : step s.world b = some w) :
    ∃ t, stepBarriers s (.session b) = some t ∧ t.world = w := by
  refine ⟨settle { s with world := w } (leaving s.world b), by simp [stepBarriers, h], ?_⟩
  cases leaving s.world b <;> rfl

/-- A call of `write` takes a number. -/
theorem step_number {s : Session} {k : Nat} (h : s.world.stage k = .start) :
    ∃ t, stepBarriers s (.session (.number k false)) = some t ∧
      t.world = { s.world with
        session := { s.world.session with seq_n := s.world.session.seq_n + 1 }
        stage := Function.update s.world.stage k .numbered
        id := Function.update s.world.id k (int s.world.session.seq_n) } :=
  exists_session_step (by simp [step, h])

/-- It enters its promise. -/
theorem step_enter {s : Session} {k : Nat} (h : s.world.stage k = .numbered) :
    ∃ t, stepBarriers s (.session (.enter k)) = some t ∧
      t.world = { s.world with
        session := enter s.world.session (s.world.id k) k
        stage := Function.update s.world.stage k .entered } :=
  exists_session_step (by simp [step, h])

/-- It returns. -/
theorem step_send {s : Session} {k : Nat} (h : s.world.stage k = .entered) :
    ∃ t, stepBarriers s (.session (.send k)) = some t ∧
      t.world = { s.world with
        stage := Function.update s.world.stage k .written
        sent := Function.update s.world.sent k true } :=
  exists_session_step (by simp [step, h])

/-- One more call. -/
theorem run_write {n : Nat} (hn : n < 4294967296) {s : Session} (h : Written n s) :
    ∃ t, Machine.run stepBarriers s (write n) = some t ∧ Written (n + 1) t := by
  obtain ⟨t₁, h₁, hw₁⟩ := step_number (h.start n (Nat.le_refl n))
  obtain ⟨t₂, h₂, hw₂⟩ := step_enter (s := t₁) (k := n) (by rw [hw₁]; exact Function.update_self ..)
  obtain ⟨t₃, h₃, hw₃⟩ := step_send (s := t₂) (k := n) (by rw [hw₂]; exact Function.update_self ..)
  refine ⟨t₃, by simp [Machine.run, write, h₁, h₂, h₃], ?_, fun k hk => ?_, fun j hj => ?_⟩
  · rw [hw₃, hw₂, hw₁]
    exact congrArg (· + 1) h.seq_n
  · have hne : k ≠ n := by omega
    rw [hw₃, hw₂, hw₁]
    simp only [Function.update_of_ne hne]
    exact h.start k (by omega)
  · rw [hw₃, hw₂, hw₁]
    simp only [enter, Function.update_self, h.seq_n]
    by_cases hjn : j = n
    · rw [hjn, Function.update_self]
    · have hid : int j ≠ int n := fun heq => hjn (int_injective (by omega) hn heq)
      rw [Function.update_of_ne hid]
      exact h.futures j (by omega)

/-- All of them. -/
theorem run_writes {n : Nat} (hn : n ≤ 4294967296) :
    ∃ s, Machine.run stepBarriers Session.start (writes n) = some s ∧ Written n s := by
  induction n with
  | zero => exact ⟨Session.start, rfl, rfl, fun _ _ => rfl, fun j hj => absurd hj (by omega)⟩
  | succ n ih =>
      obtain ⟨s, hrun, hs⟩ := ih (by omega)
      obtain ⟨t, hwrite, ht⟩ := run_write (by omega) hs
      refine ⟨t, ?_, ht⟩
      unfold writes at hrun ⊢
      rw [List.range_succ, List.flatMap_append, Machine.run_append, hrun]
      simpa using hwrite

/-- The next call has taken its number. -/
theorem run_writes_number {n : Nat} (hn : n ≤ 4294967296) :
    ∃ s, Machine.run stepBarriers Session.start (writes n ++ [.session (.number n false)]) =
        some s ∧ UnderWay s.world n ∧ s.world.id n = int n ∧ s.world.session.seq_n = n + 1 ∧
      ∀ j, j < n → s.world.session.futures (int j) = some j := by
  obtain ⟨s, hrun, hs⟩ := run_writes hn
  obtain ⟨t, ht, hw⟩ := step_number (hs.start n (Nat.le_refl n))
  refine ⟨t, ?_, ?_, ?_, ?_, fun j hj => ?_⟩
  · rw [Machine.run_append, hrun]
    simp [Machine.run, ht]
  · rw [hw]
    exact .inl (Function.update_self ..)
  · rw [hw]
    simp only [Function.update_self, hs.seq_n]
  · rw [hw]
    exact congrArg (· + 1) hs.seq_n
  · rw [hw]
    exact hs.futures j hj

/-- A session with one request. -/
theorem ids_unmistakable_one :
    ∃ s, Machine.run stepBarriers Session.start (writes 1) = some s ∧
      (Machine.Always stepBarriers Unmistakable Session.start (writes 1) ↔
        s.world.session.seq_n ≤ 2147483648) := by
  obtain ⟨s, hrun, -⟩ := run_writes (show 1 ≤ 4294967296 by decide)
  exact ⟨s, hrun, ids_unmistakable_iff (writes 1) s hrun⟩

/-- After 2^31 requests the next ID is negative, and after 2^32 it is that of the first request,
whose future is still there. -/
theorem ids_are_mistaken :
    (∃ s, Machine.run stepBarriers Session.start
        (writes 2147483648 ++ [.session (.number 2147483648 false)]) = some s ∧
      UnderWay s.world 2147483648 ∧ s.world.id 2147483648 = -2147483648) ∧
    (∃ s, Machine.run stepBarriers Session.start
        (writes 4294967296 ++ [.session (.number 4294967296 false)]) = some s ∧
      UnderWay s.world 4294967296 ∧
      s.world.session.futures (s.world.id 4294967296) = some 0) ∧
    ¬ ∀ acts, Machine.Always stepBarriers Unmistakable Session.start acts := by
  obtain ⟨s, hrun, hway, hid, hseq, -⟩ :=
    run_writes_number (show 2147483648 ≤ 4294967296 by decide)
  obtain ⟨t, hrun', hway', hid', -, hfutures⟩ :=
    run_writes_number (Nat.le_refl 4294967296)
  refine ⟨⟨s, hrun, hway, hid.trans (by decide)⟩, ⟨t, hrun', hway', ?_⟩, fun hall => ?_⟩
  · have hsame : int 4294967296 = int 0 := by decide
    rw [hid', hsame]
    exact hfutures 0 (by decide)
  · have hle := seq_n_le_of_always (Nat.zero_le _) (hall _) hrun
    rw [hseq] at hle
    exact absurd hle (by decide)

end Gvds.ClientSession
