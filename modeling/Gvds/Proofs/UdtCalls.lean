/-
Module: Gvds.Proofs.UdtCalls
Layer: Proofs
Purpose: Calls over UDT over whole runs of all threads of all clients and of the IO proxy: a reply
  that a session takes off the wire belongs to the call whose request made the operation, each call
  gets one reply at most, and what wait_op returns for a call is the outcome of its own operation.
Imports: Gvds.Client.UdtCalls, Gvds.Proofs.UdtTransport, Mathlib.Data.List.Perm.Basic
Trusted boundary: as Gvds.Client.UdtCalls
Main exports: UdtWriter.Handed, UdtWriter.Handed.write, UdtWriter.Handed.step, Sent, Replied, Reads,
  Table, Answered, replies_reach_callers
-/
import Gvds.Client.UdtCalls
import Gvds.Proofs.UdtTransport
import Mathlib.Data.List.Perm.Basic

namespace Gvds.UdtWriter

/-! ### What a writer is handed -/

/-- Each producer hands over one message, `f` of it: the writer has accepted those of `order`, and
the others wait. -/
structure Handed (f : Nat → Message) (order : List Nat) (s : State) : Prop where
  accepted : s.accepted = order.map f
  waiting : ∀ p ∈ s.producers, p.2 = f p.1
  distinct : (order ++ blocked s).Nodup

variable {f g : Nat → Message} {order : List Nat} {s t : State}

theorem Handed.congr (h : Handed f order s) (hsame : ∀ n ∈ order ++ blocked s, g n = f n) :
    Handed g order s where
  accepted := by
    rw [h.accepted]
    exact List.map_congr_left fun n hn => (hsame n (List.mem_append_left _ hn)).symm
  waiting := by
    intro p hp
    rw [h.waiting p hp, hsame p.1 (List.mem_append_right _ (List.mem_map_of_mem hp))]
  distinct := h.distinct

/-- A message that is pushed is one more accepted. -/
theorem Handed.push (h : Handed f order s) {n : Nat} (hn : n ∉ order ++ blocked s) :
    Handed f (order ++ [n]) (push s (f n)) ∧
      (order ++ [n] ++ blocked (push s (f n))).Perm (n :: (order ++ blocked s)) := by
  have hperm : (order ++ [n] ++ blocked (UdtWriter.push s (f n))).Perm
      (n :: (order ++ blocked s)) := by
    rw [List.append_assoc]
    exact List.perm_middle
  refine ⟨⟨by simp [UdtWriter.push, h.accepted], h.waiting, ?_⟩, hperm⟩
  exact hperm.nodup_iff.mpr (List.nodup_cons.mpr ⟨hn, h.distinct⟩)

/-- A call of `write` by a producer that has made none. -/
theorem Handed.write (h : Handed f order s) {n : Nat} (hn : n ∉ order ++ blocked s)
    (hstep : step s (.write n (f n)) = some t) :
    ∃ order', Handed f order' t ∧ (order' ++ blocked t).Perm (n :: (order ++ blocked s)) := by
  simp only [step, UdtWriter.write] at hstep
  split_ifs at hstep with hblocked hfull
  · cases hstep
    have hperm : (order ++ blocked { s with producers := s.producers ++ [(n, f n)] }).Perm
        (n :: (order ++ blocked s)) := by
      simp only [blocked, List.map_append, List.map_cons, List.map_nil]
      rw [← List.append_assoc]
      exact (List.perm_append_singleton _ _)
    refine ⟨order, ⟨h.accepted, ?_, hperm.nodup_iff.mpr (List.nodup_cons.mpr ⟨hn, h.distinct⟩)⟩,
      hperm⟩
    intro p hp
    rcases List.mem_append.mp hp with hold | hnew
    · exact h.waiting p hold
    · rw [List.mem_singleton.mp hnew]
  · cases hstep
    exact ⟨order ++ [n], h.push hn⟩

/-- Producers are taken out by their names. -/
theorem perm_blocked_filter {l : List (Nat × Message)} {n : Nat} (hmem : n ∈ l.map Prod.fst)
    (hnodup : (l.map Prod.fst).Nodup) :
    (n :: (l.filter fun w => w.1 ≠ n).map Prod.fst).Perm (l.map Prod.fst) := by
  have hfilter : (l.filter fun w => w.1 ≠ n).map Prod.fst =
      (l.map Prod.fst).filter fun k => k ≠ n := by
    rw [List.filter_map]
    rfl
  have herase := hnodup.erase_eq_filter n
  rw [hfilter]
  refine (List.Perm.cons n ?_).trans (List.perm_cons_erase hmem).symm
  rw [herase]
  refine List.Perm.of_eq (List.filter_congr fun k _ => ?_)
  by_cases hk : k = n <;> simp [hk]

/-- The steps that hand over nothing new. -/
theorem Handed.step (h : Handed f order s) {a : Act} (ha : ∀ n data, a ≠ .write n data)
    (hstep : step s a = some t) :
    ∃ order', Handed f order' t ∧ (order' ++ blocked t).Perm (order ++ blocked s) := by
  cases a with
  | write n data => exact absurd rfl (ha n data)
  | wake n =>
      simp only [UdtWriter.step, Option.map_eq_some_iff] at hstep
      obtain ⟨data, hdata, rfl⟩ := hstep
      obtain ⟨before, behind, hsplit, _⟩ := List.lookup_eq_some_iff.mp hdata
      have hp : (n, data) ∈ s.producers := by simp [hsplit]
      have hmem : n ∈ blocked s := List.mem_map_of_mem hp
      unfold UdtWriter.wake
      split_ifs
      · exact ⟨order, h, List.Perm.refl _⟩
      · obtain rfl : data = f n := h.waiting _ hp
        have hnodup := List.nodup_append.mp h.distinct
        have hfilter := perm_blocked_filter hmem hnodup.2.1
        have hrest : (order ++ (n :: (s.producers.filter fun w => w.1 ≠ n).map Prod.fst)).Perm
            (order ++ blocked s) := List.Perm.append_left order hfilter
        have hmiddle : (n :: (order ++ (s.producers.filter fun w => w.1 ≠ n).map Prod.fst)).Perm
            (order ++ blocked s) := List.perm_middle.symm.trans hrest
        have hnew := List.nodup_cons.mp (hmiddle.nodup_iff.mpr h.distinct)
        have hless : Handed f order { s with producers := s.producers.filter fun w => w.1 ≠ n } :=
          ⟨h.accepted, fun p hp => h.waiting p (List.mem_of_mem_filter hp), hnew.2⟩
        obtain ⟨hpush, hperm⟩ := hless.push hnew.1
        exact ⟨order ++ [n], hpush, hperm.trans hmiddle⟩
  | close =>
      cases hstep
      exact ⟨order, ⟨h.accepted, h.waiting, h.distinct⟩, List.Perm.refl _⟩
  | writer ss =>
      obtain ⟨haccepted, hproducers⟩ := kept_of_writerStep hstep
      have hblocked : blocked t = blocked s := by rw [blocked, hproducers, blocked]
      refine ⟨order, ⟨haccepted ▸ h.accepted, hproducers ▸ h.waiting, ?_⟩, ?_⟩
      · rw [hblocked]
        exact h.distinct
      · rw [hblocked]

end Gvds.UdtWriter

namespace Gvds.Udt

open ClientSession (Stage Effect int ECONNRESET)

variable {m : Msgpack} {data_path : Bytes} {serv_fd : Int32}

/-! ### The stages of a call -/

/-- The request has been handed over. -/
def Written (st : Stage) : Prop := st = .written ∨ st = .registered

/-- The promise is in the tables. -/
def Entered (st : Stage) : Prop := st = .entered ∨ Written st

/-- The call has a number. -/
def Numbered (st : Stage) : Prop := st = .numbered ∨ Entered st

theorem Written.entered {st : Stage} (h : Written st) : Entered st := Or.inr h

theorem Entered.numbered {st : Stage} (h : Entered st) : Numbered st := Or.inr h

/-- The requests of `order` are accepted by the writer of the session, and those of the threads that
are blocked wait for it. -/
structure Sent (m : Msgpack) (c : Caller) (w : UdtWriter.State) (order : List Nat) : Prop where
  handed : UdtWriter.Handed (fun k => m.pack (c.request k)) order w
  written : ∀ k ∈ order ++ UdtWriter.blocked w, Written (c.stage k)

/-- Requests that are sent stay what they are. -/
theorem Sent.congr {c c' : Caller} {w : UdtWriter.State} {order : List Nat} (h : Sent m c w order)
    (hsame : ∀ k, Written (c.stage k) → c'.request k = c.request k ∧ Written (c'.stage k)) :
    Sent m c' w order where
  handed := h.handed.congr fun k hk => by rw [(hsame k (h.written k hk)).1]
  written := fun k hk => (hsame k (h.written k hk)).2

/-- The other steps of the writer. -/
theorem Sent.step {c : Caller} {w w' : UdtWriter.State} {order : List Nat} {a : UdtWriter.Act}
    (h : Sent m c w order) (ha : ∀ n data, a ≠ .write n data)
    (hstep : UdtWriter.step w a = some w') : ∃ order', Sent m c w' order' := by
  obtain ⟨order', hhanded, hperm⟩ := h.handed.step ha hstep
  exact ⟨order', hhanded, fun k hk => h.written k (hperm.mem_iff.mp hk)⟩

/-! ### The tables of a session -/

/-- The tables of a session are about its calls, and of each call the promise is there until the
reply is taken. -/
structure Table (c : Caller) : Prop where
  numbered : ∀ k, Numbered (c.stage k) → ∃ i < c.session.seq_n,
    c.id k = (i : Int) ∧ (c.request k).id = UInt64.ofNat i
  distinct : ∀ k k', Numbered (c.stage k) → Numbered (c.stage k') → c.id k = c.id k' → k = k'
  refused : ∀ k, c.stage k = .refused → c.id k = -ECONNRESET
  promised : ∀ key k, c.session.ready_promises key = some k → Entered (c.stage k) ∧ c.id k = key
  kept : ∀ k, Entered (c.stage k) → (∀ e ∈ c.taken, e.1.id ≠ (c.request k).id) →
    c.session.ready_promises (c.id k) = some k
  future : ∀ key k, c.session.futures key = some k → Entered (c.stage k) ∧ c.id k = key
  handler : ∀ key k, c.session.handlers key = some k →
    (c.stage k = .registered ∨ c.stage k = .refused) ∧ c.id k = key
  values : ∀ k buf, c.values k = some buf → (buf, .value k) ∈ c.taken
  waits : ∀ k j, c.waits k = .on j → j = k
  returned : ∀ k buf, c.waits k = .returned (some buf) → (buf, .value k) ∈ c.taken
  effects : ∀ e ∈ c.taken, ∃ k, Entered (c.stage k) ∧ (c.request k).id = e.1.id ∧
    (e.2 = .value k ∨ e.2 = .handled none ∨ e.2 = .handled (some k))

/-- The numbers that a session may give out before its IDs, which are ints, are used up. -/
def idLimit : Nat := 2 ^ 31

theorem int_of_lt {i : Nat} (h : i < idLimit) : int i = (i : Int) := by
  unfold idLimit at h
  unfold int
  rw [Int.bmod_def]
  omega

theorem toNat_ofNat {i : Nat} (h : i < idLimit) : (UInt64.ofNat i).toNat = i := by
  exact UInt64.toNat_ofNat_of_lt' (Nat.lt_trans h (by decide))

/-- Within the limit, the ID in the buffer and the int that `write` returns are the same number. -/
theorem Table.id_eq {c : Caller} (h : Table c) (hlimit : c.session.seq_n ≤ idLimit) {k : Nat}
    (hk : Numbered (c.stage k)) : int (c.request k).id.toNat = c.id k := by
  obtain ⟨i, hi, hid, hrequest⟩ := h.numbered k hk
  have hlt := Nat.lt_of_lt_of_le hi hlimit
  rw [hrequest, toNat_ofNat hlt, int_of_lt hlt, hid]

/-- Different calls have different IDs. -/
theorem Table.eq_of_id {c : Caller} (h : Table c) (hlimit : c.session.seq_n ≤ idLimit) {k k' : Nat}
    (hk : Numbered (c.stage k)) (hk' : Numbered (c.stage k'))
    (heq : (c.request k).id = (c.request k').id) : k = k' := by
  apply h.distinct k k' hk hk'
  rw [← h.id_eq hlimit hk, ← h.id_eq hlimit hk', heq]

/-- A call that is refused has no ID of another. -/
theorem Table.id_ne_reset {c : Caller} (h : Table c) {k : Nat} (hk : Numbered (c.stage k)) :
    c.id k ≠ -ECONNRESET := by
  obtain ⟨i, _, hid, _⟩ := h.numbered k hk
  unfold ECONNRESET
  omega

/-- A change of stages and of what is in no table. -/
theorem Table.setStage {c : Caller} (h : Table c) {k : Nat} {st : Stage}
    (hentered : Entered (c.stage k)) (hst : Entered st)
    (hregistered : c.stage k ≠ .registered ∨ st = .registered) :
    Table { c with stage := Function.update c.stage k st } := by
  have hstage : ∀ k', Numbered (Function.update c.stage k st k') → Numbered (c.stage k') := by
    intro k' hk'
    by_cases heq : k' = k
    · subst heq
      exact hentered.numbered
    · rwa [Function.update_of_ne heq] at hk'
  have hentered' : ∀ k', Entered (Function.update c.stage k st k') ↔ Entered (c.stage k') := by
    intro k'
    by_cases heq : k' = k
    · subst heq
      simp [hst, hentered]
    · rw [Function.update_of_ne heq]
  exact { h with
    numbered := fun k' hk' => h.numbered k' (hstage k' hk')
    distinct := fun k' k'' hk' hk'' => h.distinct k' k'' (hstage k' hk') (hstage k'' hk'')
    refused := by
      intro k' hk'
      dsimp only at hk'
      by_cases heq : k' = k
      · subst heq
        rw [Function.update_self] at hk'
        rw [hk'] at hst
        rcases hst with hst | hst | hst <;> cases hst
      · rw [Function.update_of_ne heq] at hk'
        exact h.refused k' hk'
    promised := fun key k' hk' => by
      rw [hentered' k']
      exact h.promised key k' hk'
    kept := fun k' hk' => h.kept k' ((hentered' k').mp hk')
    future := fun key k' hk' => by
      rw [hentered' k']
      exact h.future key k' hk'
    handler := by
      intro key k' hk'
      obtain ⟨hstage', hkey⟩ := h.handler key k' hk'
      refine ⟨?_, hkey⟩
      dsimp only
      by_cases heq : k' = k
      · subst heq
        rw [Function.update_self]
        rcases hregistered with hne | rfl
        · rcases hstage' with hreg | href
          · exact absurd hreg hne
          · rw [href] at hentered
            rcases hentered with hentered | hentered | hentered <;> cases hentered
        · exact Or.inl rfl
      · rw [Function.update_of_ne heq]
        exact hstage'
    effects := by
      intro e he
      obtain ⟨k', hk', hid, heffect⟩ := h.effects e he
      exact ⟨k', (hentered' k').mpr hk', hid, heffect⟩ }

/-- A call of `write` begins: it gets the next number, or is refused. The tables say nothing of it
yet. -/
theorem Table.begin {c : Caller} (h : Table c) {k : Nat} (hk : c.stage k = .start) {seq_n : Nat}
    {st : Stage} {id : Int} (request : RpcBuffer) (hseq : c.session.seq_n ≤ seq_n)
    (hst : st = .refused ∧ id = -ECONNRESET ∨ st = .numbered ∧ c.session.seq_n < seq_n ∧
      id = (c.session.seq_n : Int) ∧ request.id = UInt64.ofNat c.session.seq_n) :
    Table { c with
      session := { c.session with seq_n := seq_n }
      stage := Function.update c.stage k st
      id := Function.update c.id k id
      request := Function.update c.request k request } := by
  have hstarted : ∀ k', Numbered (c.stage k') → k' ≠ k := by
    rintro k' hk' rfl
    rw [hk] at hk'
    rcases hk' with hk' | hk' | hk' | hk' <;> cases hk'
  have hkeeps : ∀ k', Entered (c.stage k') → Entered (Function.update c.stage k st k') := by
    intro k' hk'
    rwa [Function.update_of_ne (hstarted k' hk'.numbered)]
  have hbefore : ∀ k', Entered (Function.update c.stage k st k') → Entered (c.stage k') := by
    intro k' hk'
    by_cases heq : k' = k
    · rw [heq, Function.update_self] at hk'
      rcases hst with ⟨rfl, _⟩ | ⟨rfl, _⟩ <;> rcases hk' with hk' | hk' | hk' <;> cases hk'
    · rwa [Function.update_of_ne heq] at hk'
  have hid : ∀ k', Numbered (c.stage k') → Function.update c.id k id k' = c.id k' :=
    fun k' hk' => Function.update_of_ne (hstarted k' hk') _ _
  have hless : ∀ k', Numbered (c.stage k') → c.id k' ≠ (c.session.seq_n : Int) := by
    intro k' hk'
    obtain ⟨i, hi, hid', _⟩ := h.numbered k' hk'
    omega
  -- A call that has a number had it before, or it is this one with the next number.
  have hcases : ∀ k', Numbered (Function.update c.stage k st k') → Numbered (c.stage k') ∨
      k' = k ∧ c.session.seq_n < seq_n ∧ id = (c.session.seq_n : Int) ∧
        request.id = UInt64.ofNat c.session.seq_n := by
    intro k' hk'
    by_cases heq : k' = k
    · rw [heq, Function.update_self] at hk'
      rcases hst with ⟨rfl, _⟩ | ⟨_, hnew⟩
      · rcases hk' with hk' | hk' | hk' | hk' <;> cases hk'
      · exact Or.inr ⟨heq, hnew⟩
    · rw [Function.update_of_ne heq] at hk'
      exact Or.inl hk'
  exact { h with
    numbered := by
      intro k' hk'
      dsimp only at hk' ⊢
      rcases hcases k' hk' with hold | ⟨rfl, hlt, hnew, hrequest⟩
      · obtain ⟨i, hi, hid', hrequest⟩ := h.numbered k' hold
        rw [hid k' hold, Function.update_of_ne (hstarted k' hold)]
        exact ⟨i, Nat.lt_of_lt_of_le hi hseq, hid', hrequest⟩
      · rw [Function.update_self, Function.update_self]
        exact ⟨_, hlt, hnew, hrequest⟩
    distinct := by
      intro k' k'' hk' hk'' hsame
      dsimp only at hk' hk'' hsame
      rcases hcases k' hk' with hold | ⟨rfl, _, hnew, _⟩ <;>
        rcases hcases k'' hk'' with hold' | ⟨rfl, _, hnew', _⟩
      · rw [hid k' hold, hid k'' hold'] at hsame
        exact h.distinct k' k'' hold hold' hsame
      · rw [hid k' hold, Function.update_self, hnew'] at hsame
        exact absurd hsame (hless k' hold)
      · rw [hid k'' hold', Function.update_self, hnew] at hsame
        exact absurd hsame.symm (hless k'' hold')
      · rfl
    refused := by
      intro k' hk'
      dsimp only at hk' ⊢
      by_cases heq : k' = k
      · subst heq
        rw [Function.update_self] at hk' ⊢
        rcases hst with ⟨_, hrefused⟩ | ⟨rfl, _⟩
        · exact hrefused
        · cases hk'
      · rw [Function.update_of_ne heq] at hk' ⊢
        exact h.refused k' hk'
    promised := by
      intro key k' hk'
      obtain ⟨hstage, hkey⟩ := h.promised key k' hk'
      exact ⟨hkeeps k' hstage, (hid k' hstage.numbered).trans hkey⟩
    kept := by
      intro k' hk' htaken
      have hstage := hbefore k' hk'
      dsimp only at htaken ⊢
      rw [Function.update_of_ne (hstarted k' hstage.numbered)] at htaken
      rw [hid k' hstage.numbered]
      exact h.kept k' hstage htaken
    future := by
      intro key k' hk'
      obtain ⟨hstage, hkey⟩ := h.future key k' hk'
      exact ⟨hkeeps k' hstage, (hid k' hstage.numbered).trans hkey⟩
    handler := by
      intro key k' hk'
      obtain ⟨hstage, hkey⟩ := h.handler key k' hk'
      have heq : k' ≠ k := by
        rintro rfl
        rw [hk] at hstage
        rcases hstage with hstage | hstage <;> cases hstage
      dsimp only
      rw [Function.update_of_ne heq, Function.update_of_ne heq]
      exact ⟨hstage, hkey⟩
    effects := by
      intro e he
      obtain ⟨k', hk', hid', heffect⟩ := h.effects e he
      refine ⟨k', hkeeps k' hk', ?_, heffect⟩
      dsimp only
      rw [Function.update_of_ne (hstarted k' hk'.numbered)]
      exact hid' }

theorem Table.number {c : Caller} (h : Table c) (hlimit : c.session.seq_n + 1 ≤ idLimit) {k : Nat}
    (hk : c.stage k = .start) (buf : RpcBuffer) : Table (c.number k buf) :=
  h.begin hk _ (Nat.le_succ _)
    (Or.inr ⟨rfl, Nat.lt_succ_self _, int_of_lt (Nat.lt_of_succ_le hlimit), rfl⟩)

theorem Table.refuse {c : Caller} (h : Table c) {k : Nat} (hk : c.stage k = .start) :
    Table { c with
      stage := Function.update c.stage k .refused
      id := Function.update c.id k (-ECONNRESET) } := by
  have hbegin := h.begin hk (c.request k) (Nat.le_refl _) (Or.inl ⟨rfl, rfl⟩)
  rwa [Function.update_eq_self] at hbegin

theorem Table.enter {c : Caller} (h : Table c) {k : Nat} (hk : c.stage k = .numbered) :
    Table { c with
      session := ClientSession.enter c.session (c.id k) k
      stage := Function.update c.stage k .entered } := by
  have hnumbered : Numbered (c.stage k) := Or.inl hk
  have hstage : ∀ k', Numbered (Function.update c.stage k .entered k') → Numbered (c.stage k') := by
    intro k' hk'
    by_cases heq : k' = k
    · subst heq
      exact hnumbered
    · rwa [Function.update_of_ne heq] at hk'
  have hentered : ∀ k', Entered (c.stage k') →
      Entered (Function.update c.stage k .entered k') := by
    intro k' hk'
    by_cases heq : k' = k
    · subst heq
      rw [Function.update_self]
      exact Or.inl rfl
    · rwa [Function.update_of_ne heq]
  have hnew : Entered (Function.update c.stage k .entered k) := by
    rw [Function.update_self]
    exact Or.inl rfl
  have hother : ∀ k', k' ≠ k → Numbered (c.stage k') → c.id k' ≠ c.id k :=
    fun k' hne hk' heq => hne (h.distinct k' k hk' hnumbered heq)
  have hfound : ∀ (table : Int → Option Nat) (key : Int) (k' : Nat),
      (∀ key k', table key = some k' → Entered (c.stage k') ∧ c.id k' = key) →
      Function.update table (c.id k) (some k) key = some k' →
      Entered (Function.update c.stage k .entered k') ∧ c.id k' = key := by
    intro table key k' htable hk'
    by_cases hkey : key = c.id k
    · subst hkey
      rw [Function.update_self] at hk'
      cases hk'
      exact ⟨hnew, rfl⟩
    · rw [Function.update_of_ne hkey] at hk'
      obtain ⟨hst, hid⟩ := htable key k' hk'
      exact ⟨hentered k' hst, hid⟩
  exact { h with
    numbered := fun k' hk' => h.numbered k' (hstage k' hk')
    distinct := fun k' k'' hk' hk'' => h.distinct k' k'' (hstage k' hk') (hstage k'' hk'')
    refused := by
      intro k' hk'
      dsimp only at hk'
      by_cases heq : k' = k
      · rw [heq, Function.update_self] at hk'
        cases hk'
      · rw [Function.update_of_ne heq] at hk'
        exact h.refused k' hk'
    promised := fun key k' hk' => hfound _ key k' h.promised hk'
    kept := by
      intro k' hk' htaken
      simp only [ClientSession.enter] at hk' ⊢
      by_cases heq : k' = k
      · rw [heq, Function.update_self]
      · have hk'' : Entered (c.stage k') := by rwa [Function.update_of_ne heq] at hk'
        rw [Function.update_of_ne (hother k' heq hk''.numbered)]
        exact h.kept k' hk'' htaken
    future := fun key k' hk' => hfound _ key k' h.future hk'
    handler := by
      intro key k' hk'
      obtain ⟨hst, hkey⟩ := h.handler key k' hk'
      refine ⟨?_, hkey⟩
      have heq : k' ≠ k := by
        rintro rfl
        rw [hk] at hst
        rcases hst with hst | hst <;> cases hst
      dsimp only
      rw [Function.update_of_ne heq]
      exact hst
    effects := by
      intro e he
      obtain ⟨k', hk', hid, heffect⟩ := h.effects e he
      exact ⟨k', hentered k' hk', hid, heffect⟩ }

theorem Table.registe_handler {c : Caller} (h : Table c) {k : Nat}
    (hk : Written (c.stage k) ∨ c.stage k = .refused) :
    Table { c with
      session := ClientSession.registe_handler c.session (c.id k) k
      stage := Function.update c.stage k
        (if c.stage k = .refused then .refused else .registered) } := by
  have hhandler : ∀ key k', Function.update c.session.handlers (c.id k)
      (some ((c.session.handlers (c.id k)).getD k)) key = some k' →
      (c.stage k' = .registered ∨ c.stage k' = .refused) ∧ c.id k' = key ∨
        k' = k ∧ c.id k' = key := by
    intro key k' hk'
    by_cases hkey : key = c.id k
    · subst hkey
      rw [Function.update_self, Option.some.injEq] at hk'
      cases hthere : c.session.handlers (c.id k) with
      | none =>
          rw [hthere, Option.getD_none] at hk'
          exact Or.inr ⟨hk'.symm, by rw [hk']⟩
      | some f =>
          rw [hthere, Option.getD_some] at hk'
          subst hk'
          exact Or.inl (h.handler _ _ hthere)
    · rw [Function.update_of_ne hkey] at hk'
      exact Or.inl (h.handler key k' hk')
  by_cases hrefused : c.stage k = .refused
  · rw [if_pos hrefused]
    have hsame : Function.update c.stage k .refused = c.stage := by
      rw [← hrefused, Function.update_eq_self]
    rw [hsame]
    exact { h with
      handler := by
        intro key k' hk'
        rcases hhandler key k' hk' with hold | ⟨rfl, hkey⟩
        · exact hold
        · exact ⟨Or.inr hrefused, hkey⟩ }
  · rw [if_neg hrefused]
    have hentered : Entered (c.stage k) := (hk.resolve_right hrefused).entered
    have hset := h.setStage hentered (Or.inr (Or.inr rfl)) (Or.inr rfl)
    exact { hset with
      handler := by
        intro key k' hk'
        dsimp only
        by_cases heq : k' = k
        · subst heq
          rw [Function.update_self]
          rcases hhandler key k' hk' with ⟨_, hkey⟩ | ⟨_, hkey⟩ <;> exact ⟨Or.inl rfl, hkey⟩
        · rw [Function.update_of_ne heq]
          rcases hhandler key k' hk' with hold | ⟨hself, _⟩
          · exact hold
          · exact absurd hself heq }

theorem Table.wait_op {c : Caller} (h : Table c) {k : Nat} (hk : Written (c.stage k)) :
    Table (c.wait_op k) := by
  unfold Caller.wait_op
  cases hfuture : c.session.futures (c.id k) with
  | none =>
      exact { h with
        waits := by
          intro k' j hj
          by_cases heq : k' = k
          · simp [heq] at hj
          · simp only [Function.update_of_ne heq] at hj
            exact h.waits k' j hj
        returned := by
          intro k' buf hbuf
          by_cases heq : k' = k
          · simp [heq] at hbuf
          · simp only [Function.update_of_ne heq] at hbuf
            exact h.returned k' buf hbuf }
  | some j =>
      obtain ⟨hentered, hid⟩ := h.future _ _ hfuture
      have hj : j = k := h.distinct j k hentered.numbered hk.entered.numbered hid
      subst hj
      exact { h with
        future := by
          intro key k' hk'
          by_cases hkey : key = c.id j
          · simp [hkey] at hk'
          · simp only [Function.update_of_ne hkey] at hk'
            exact h.future key k' hk'
        waits := by
          intro k' j' hj'
          by_cases heq : k' = j
          · subst heq
            simpa using hj'.symm
          · simp only [Function.update_of_ne heq] at hj'
            exact h.waits k' j' hj'
        returned := by
          intro k' buf hbuf
          by_cases heq : k' = j
          · simp [heq] at hbuf
          · simp only [Function.update_of_ne heq] at hbuf
            exact h.returned k' buf hbuf }

/-- A wait is over, with the value of the promise or without. -/
theorem Table.awake {c : Caller} (h : Table c) {k : Nat} {res : Option RpcBuffer}
    (hres : ∀ buf, res = some buf → c.values k = some buf) :
    Table { c with waits := Function.update c.waits k (.returned res) } :=
  { h with
    waits := by
      intro k' j hj
      by_cases heq : k' = k
      · simp [heq] at hj
      · simp only [Function.update_of_ne heq] at hj
        exact h.waits k' j hj
    returned := by
      intro k' buf hbuf
      by_cases heq : k' = k
      · subst heq
        simp only [Function.update_self, Wait.returned.injEq] at hbuf
        exact h.values k' buf (hres buf hbuf)
      · simp only [Function.update_of_ne heq] at hbuf
        exact h.returned k' buf hbuf }

/-- A reply with the ID of a call whose reply has not been taken yet: the promise is found, and
what comes of the reply is for that call. -/
theorem Table.take {c : Caller} (h : Table c) (hlimit : c.session.seq_n ≤ idLimit) {k : Nat}
    {buf : RpcBuffer} (hk : Entered (c.stage k)) (hid : (c.request k).id = buf.id)
    (hnew : ∀ e ∈ c.taken, e.1.id ≠ buf.id) : Table (c.take buf) := by
  have hkey : int buf.id.toNat = c.id k := by
    rw [← hid]
    exact h.id_eq hlimit hk.numbered
  have hfound : c.session.ready_promises (c.id k) = some k :=
    h.kept k hk fun e he => hid ▸ hnew e he
  have hpromised : ∀ key k', Function.update c.session.ready_promises (c.id k) none key = some k' →
      Entered (c.stage k') ∧ c.id k' = key := by
    intro key k' hk'
    by_cases heq : key = c.id k
    · rw [heq, Function.update_self] at hk'
      cases hk'
    · rw [Function.update_of_ne heq] at hk'
      exact h.promised key k' hk'
  have hkept : ∀ (effect : Effect) k', Entered (c.stage k') →
      (∀ e ∈ c.taken ++ [(buf, effect)], e.1.id ≠ (c.request k').id) →
      Function.update c.session.ready_promises (c.id k) none (c.id k') = some k' := by
    intro effect k' hk' htaken
    have hne : c.id k' ≠ c.id k := by
      intro heq
      have hsame := h.distinct k' k hk'.numbered hk.numbered heq
      exact htaken (buf, effect) (by simp) (by rw [hsame, hid])
    rw [Function.update_of_ne hne]
    exact h.kept k' hk' fun e he => htaken e (List.mem_append_left _ he)
  have hfuture : ∀ key k', Function.update c.session.futures (c.id k) none key = some k' →
      Entered (c.stage k') ∧ c.id k' = key := by
    intro key k' hk'
    by_cases heq : key = c.id k
    · rw [heq, Function.update_self] at hk'
      cases hk'
    · rw [Function.update_of_ne heq] at hk'
      exact h.future key k' hk'
  have heffects : ∀ effect : Effect,
      effect = .value k ∨ effect = .handled none ∨ effect = .handled (some k) →
      ∀ e ∈ c.taken ++ [(buf, effect)], ∃ k, Entered (c.stage k) ∧ (c.request k).id = e.1.id ∧
        (e.2 = .value k ∨ e.2 = .handled none ∨ e.2 = .handled (some k)) := by
    intro effect heffect e he
    rcases List.mem_append.mp he with hold | hlast
    · exact h.effects e hold
    · rw [List.mem_singleton.mp hlast]
      exact ⟨k, hk, hid, heffect⟩
  have hmem : ∀ (effect : Effect) {e : RpcBuffer × Effect}, e ∈ c.taken →
      e ∈ c.taken ++ [(buf, effect)] := fun effect e he => List.mem_append_left _ he
  simp only [Caller.take, ClientSession.do_read, hkey, hfound]
  by_cases hauto : c.session.auto_handler (c.id k) = true
  · rw [if_pos hauto]
    have hhandler : c.session.handlers (c.id k) = none ∨
        c.session.handlers (c.id k) = some k := by
      cases hthere : c.session.handlers (c.id k) with
      | none => exact Or.inl rfl
      | some f =>
          obtain ⟨hstage, hsame⟩ := h.handler _ _ hthere
          rcases hstage with hstage | hstage
          · have hf : Numbered (c.stage f) := Or.inr (Or.inr (Or.inr hstage))
            exact Or.inr (congrArg some (h.distinct f k hf hk.numbered hsame))
          · exact absurd (hsame.symm.trans (h.refused f hstage)) (h.id_ne_reset hk.numbered)
    exact { h with
      promised := hpromised
      kept := hkept _
      future := hfuture
      values := fun k' b hb => hmem _ (h.values k' b hb)
      returned := fun k' b hb => hmem _ (h.returned k' b hb)
      effects := heffects _ (by rcases hhandler with hnone | hself <;> simp [*]) }
  · rw [if_neg hauto]
    exact { h with
      promised := hpromised
      kept := hkept _
      values := by
        intro k' b hb
        by_cases heq : k' = k
        · subst heq
          simp only [Function.update_self, Option.some.injEq] at hb
          simp [hb]
        · simp only [Function.update_of_ne heq] at hb
          exact hmem _ (h.values k' b hb)
      returned := fun k' b hb => hmem _ (h.returned k' b hb)
      effects := heffects _ (Or.inl rfl) }

/-! ### The thread of a session -/

/-- What a lookup leaves as it is. -/
theorem take_frame (c : Caller) (buf : RpcBuffer) :
    ∃ session effect values, session.seq_n = c.session.seq_n ∧
      c.take buf = { c with
        session := session
        values := values
        taken := c.taken ++ [(buf, effect)] } := by
  have hseq : (ClientSession.do_read c.session (int buf.id.toNat)).1.seq_n = c.session.seq_n := by
    unfold ClientSession.do_read
    split
    · rfl
    · simp only
      split <;> rfl
  unfold Caller.take
  cases hread : ClientSession.do_read c.session (int buf.id.toNat) with
  | mk session effect =>
      rw [hread] at hseq
      cases effect with
      | duplicated => exact ⟨session, .duplicated, c.values, hseq, rfl⟩
      | handled f => exact ⟨session, .handled f, c.values, hseq, rfl⟩
      | value k => exact ⟨session, .value k, _, hseq, rfl⟩

/-- A round of the loop changes no call. -/
theorem next_frame (m : Msgpack) (c : Caller) :
    (c.next m).stage = c.stage ∧ (c.next m).request = c.request ∧
      (c.next m).session.seq_n = c.session.seq_n := by
  unfold Caller.next
  cases m.unpacker.next c.held with
  | more => exact ⟨rfl, rfl, rfl⟩
  | broken => exact ⟨rfl, rfl, rfl⟩
  | message o rest =>
      simp only
      split
      · exact ⟨rfl, rfl, rfl⟩
      · cases m.as o with
        | none => exact ⟨rfl, rfl, rfl⟩
        | some buf =>
            obtain ⟨session, effect, values, hseq, htake⟩ := take_frame { c with held := rest } buf
            simp only [htake]
            exact ⟨trivial, trivial, hseq⟩

/-- What the thread of a session has read: every whole reply that has come is taken or still held by
the unpacker. -/
structure Reads (m : Msgpack) (c : Caller) (wire : Bytes) : Prop where
  received : c.received <+: wire
  whole : c.reader ≠ .ended →
    c.taken.map Prod.fst ++ (m.unpacker.drain c.held).messages.filterMap m.as =
        (m.unpacker.drain c.received).messages.filterMap m.as ∧
      (m.unpacker.drain c.held).rest = (m.unpacker.drain c.received).rest ∧
      (m.unpacker.drain c.held).stuck = false
  past : c.taken.map Prod.fst <+: (m.unpacker.drain c.received).messages.filterMap m.as
  waiting : c.reader = .reading →
    m.unpacker.next c.held = .more ∧ Caller.max_read_bytes ≤ c.capacity
  fault : c.fault = none ∨ c.fault = some .dangling

theorem Reads.recv {c : Caller} {wire bytes : Bytes} (h : Reads m c wire)
    (hreader : c.reader = .reading) (hbytes : bytes.length ≤ Caller.max_read_bytes)
    (hwire : c.received ++ bytes <+: wire) (hfree : (m.unpacker.drain c.received).stuck = false)
    (hmore : (m.unpacker.drain (c.received ++ bytes)).stuck = false) :
    Reads m (c.recv bytes) wire := by
  obtain ⟨hnext, hroom⟩ := h.waiting hreader
  obtain ⟨hmessages, hrest, _⟩ := h.whole (by simp [hreader])
  rw [StreamParser.drain_of_more hnext] at hmessages hrest
  have hdrain := StreamParser.drain_append hfree bytes
  rw [← hrest] at hdrain
  have hall := congrArg StreamParser.Drained.messages hdrain
  have hleft := congrArg StreamParser.Drained.rest hdrain
  have hstuck := congrArg StreamParser.Drained.stuck hdrain
  simp only [List.filterMap_nil, List.append_nil] at hmessages hall hleft hstuck
  rw [Caller.recv, if_pos (Nat.le_trans hbytes hroom)]
  have hwhole : c.taken.map Prod.fst ++
        (m.unpacker.drain (c.held ++ bytes)).messages.filterMap m.as =
      (m.unpacker.drain (c.received ++ bytes)).messages.filterMap m.as := by
    rw [hall, List.filterMap_append, hmessages]
  exact {
    received := hwire
    whole := fun _ => ⟨hwhole, hleft.symm, hstuck.symm.trans hmore⟩
    past := ⟨_, hwhole⟩
    waiting := fun hreading => by cases hreading
    fault := h.fault }

/-- The loop over the messages is left with nothing to take, and the next `recv` has room. -/
theorem Reads.again {c : Caller} {wire : Bytes} (h : Reads m c wire) (hended : c.reader ≠ .ended)
    (hnext : m.unpacker.next c.held = .more) : Reads m c.again wire where
  received := h.received
  whole := fun _ => h.whole hended
  past := h.past
  waiting := by
    intro _
    refine ⟨hnext, ?_⟩
    simp only [Caller.again]
    split
    · exact Nat.le_refl _
    · omega
  fault := h.fault

/-- It is left because the session stops, and the thread ends. -/
theorem Reads.stopped {c : Caller} {wire : Bytes} (h : Reads m c wire) (hstop : c.m_stop = true)
    (held : Bytes) : Reads m ({ c with held := held } : Caller).again wire where
  received := h.received
  whole := fun hended => by simp [Caller.again, hstop] at hended
  past := h.past
  waiting := fun hreading => by simp [Caller.again, hstop] at hreading
  fault := h.fault

/-- A round of the loop. If it takes a reply, that is the next one that has come. -/
theorem Reads.next {c : Caller} {wire : Bytes} (h : Reads m c wire)
    (hreader : c.reader = .handling) : Reads m (c.next m) wire := by
  have hended : c.reader ≠ .ended := by simp [hreader]
  obtain ⟨hmessages, hrest, hstuck⟩ := h.whole hended
  unfold Caller.next
  cases hnext : m.unpacker.next c.held with
  | more => exact h.again hended hnext
  | broken =>
      rw [StreamParser.drain_of_broken hnext] at hstuck
      cases hstuck
  | message o rest =>
      rw [StreamParser.drain_of_message hnext] at hmessages hrest hstuck
      simp only [StreamParser.Drained.cons] at hmessages hrest hstuck
      simp only
      split
      next hstop => exact h.stopped hstop rest
      next =>
        cases has : m.as o with
        | none =>
            rw [List.filterMap_cons_none has] at hmessages
            exact ⟨h.received, fun _ => ⟨hmessages, hrest, hstuck⟩, h.past,
              fun hr => by simp [hreader] at hr, h.fault⟩
        | some buf =>
            obtain ⟨session, effect, values, _, htake⟩ := take_frame { c with held := rest } buf
            rw [List.filterMap_cons_some has] at hmessages
            simp only [htake]
            have hwhole : (c.taken ++ [(buf, effect)]).map Prod.fst ++
                  (m.unpacker.drain rest).messages.filterMap m.as =
                (m.unpacker.drain c.received).messages.filterMap m.as := by
              rw [← hmessages]
              simp
            exact {
              received := h.received
              whole := fun _ => ⟨hwhole, hrest, hstuck⟩
              past := ⟨_, hwhole⟩
              waiting := fun hr => by simp [hreader] at hr
              fault := h.fault }

/-! ### The steps at a session -/

/-- The tables after a round of the loop, where the replies that have come are those of `bufs`. -/
theorem Table.next {c : Caller} (h : Table c) (hlimit : c.session.seq_n ≤ idLimit)
    {bufs : List RpcBuffer} (hpast : (c.next m).taken.map Prod.fst <+: bufs)
    (hdistinct : (bufs.map RpcBuffer.id).Nodup)
    (howner : ∀ buf ∈ bufs, ∃ k, Entered (c.stage k) ∧ (c.request k).id = buf.id) :
    Table (c.next m) := by
  unfold Caller.next at hpast ⊢
  cases hnext : m.unpacker.next c.held with
  | more => exact { h with }
  | broken => exact { h with }
  | message o rest =>
      rw [hnext] at hpast
      simp only at hpast ⊢
      split
      next => exact { h with }
      next hstop =>
        rw [if_neg hstop] at hpast
        cases has : m.as o with
        | none => exact { h with }
        | some buf =>
            rw [has] at hpast
            obtain ⟨_, effect, _, _, htake⟩ := take_frame { c with held := rest } buf
            simp only [htake, List.map_append, List.map_cons, List.map_nil] at hpast
            obtain ⟨behind, hbufs⟩ := hpast
            obtain ⟨k, hk, hid⟩ := howner buf (by simp [← hbufs])
            have hrest : Table { c with held := rest } := { h with }
            refine hrest.take hlimit hk hid fun e he hsame => ?_
            rw [← hbufs, List.append_assoc, List.map_append] at hdistinct
            refine (List.nodup_append.mp hdistinct).2.2 e.1.id ?_ buf.id ?_ hsame
            · exact List.mem_map_of_mem (List.mem_map_of_mem he)
            · simp

/-- The tables after a step at the session. -/
theorem Table.step {c c' : Caller} {w : UdtWriter.State} {wire : Bytes} {a : CallerAct}
    (h : c.session.seq_n ≤ idLimit → Table c)
    (hnext : c.session.seq_n ≤ idLimit → c.reader = .handling → Table (c.next m))
    (hstep : Caller.Stepped m w wire c a c') (hlimit : c'.session.seq_n ≤ idLimit) :
    Table c' := by
  cases hstep with
  | dangling k buf error_stat hbefore => exact { h hlimit with }
  | refused k buf hbefore => exact (h hlimit).refuse hbefore
  | numbered k buf hbefore => exact (h (Nat.le_of_succ_le hlimit)).number hlimit hbefore buf
  | entered k hbefore => exact (h hlimit).enter hbefore
  | registered k hbefore => exact (h hlimit).registe_handler (hbefore.imp_left Or.inl)
  | autoHandled k hbefore =>
      have hset : Table { c with stage := Function.update c.stage k .registered } :=
        (h hlimit).setStage (Or.inr (Or.inl hbefore)) (Or.inr (Or.inr rfl)) (Or.inr rfl)
      exact { hset with }
  | waited k hbefore =>
      have hseq : (c.wait_op k).session.seq_n = c.session.seq_n := by
        unfold Caller.wait_op
        split <;> rfl
      rw [hseq] at hlimit
      exact (h hlimit).wait_op (Or.inl hbefore)
  | ready k j buf hwaits hvalue =>
      have htable := h hlimit
      obtain rfl := htable.waits k j hwaits
      exact htable.awake fun b hb => by rw [hvalue, hb]
  | timedOut k j hwaits => exact (h hlimit).awake fun b hb => by cases hb
  | recv bytes hreader hbytes hwire =>
      have hseq : (c.recv bytes).session.seq_n = c.session.seq_n := by
        unfold Caller.recv
        split <;> rfl
      rw [hseq] at hlimit
      unfold Caller.recv
      split <;> exact { h hlimit with }
  | recvError hreader => exact { h hlimit with }
  | next hreader =>
      rw [(next_frame m c).2.2] at hlimit
      exact hnext hlimit hreader

/-- What the thread has read after a step at the session. -/
theorem Reads.step {c c' : Caller} {w : UdtWriter.State} {wire : Bytes} {a : CallerAct}
    (h : Reads m c wire) (hfree : ∀ bs, bs <+: wire → (m.unpacker.drain bs).stuck = false)
    (hstep : Caller.Stepped m w wire c a c') : Reads m c' wire := by
  cases hstep with
  | dangling k buf error_stat hbefore => exact { h with fault := Or.inr rfl }
  | refused k buf hbefore => exact { h with }
  | numbered k buf hbefore => exact { h with }
  | entered k hbefore => exact { h with }
  | registered k hbefore => exact { h with }
  | autoHandled k hbefore => exact { h with }
  | waited k hbefore =>
      unfold Caller.wait_op
      split <;> exact { h with }
  | ready k j buf hwaits hvalue => exact { h with }
  | timedOut k j hwaits => exact { h with }
  | recv bytes hreader hbytes hwire =>
      exact h.recv hreader hbytes hwire (hfree _ h.received) (hfree _ hwire)
  | recvError hreader =>
      exact ⟨h.received, fun hended => absurd rfl hended, h.past, fun hr => (by cases hr), h.fault⟩
  | next hreader => exact h.next hreader

/-! ### What the server answers -/

/-- What a step of the server has queued and answered before stays. -/
theorem grown_of_step {s t : Server} {a : Act} (hstep : step m data_path serv_fd s a = some t) :
    s.queued <+: t.queued ∧ s.written <+: t.written := by
  have hread : ∀ (s : Server) cur_sock rs reserved,
      s.queued <+: (s.read m data_path cur_sock rs reserved).queued ∧
        s.written <+: (s.read m data_path cur_sock rs reserved).written := by
    intro s cur_sock rs reserved
    unfold Server.read
    cases s.sessions cur_sock with
    | none => exact ⟨List.prefix_rfl, List.prefix_rfl⟩
    | some session =>
        simp only
        split <;> exact ⟨List.prefix_append _ _, List.prefix_rfl⟩
  unfold step at hstep
  split at hstep
  · cases hstep
  · cases a with
    | epoll_wait readfds =>
        obtain ⟨_, heq⟩ := Option.ite_none_right_eq_some.mp hstep
        cases heq
        exact ⟨List.prefix_rfl, List.prefix_rfl⟩
    | epollError =>
        obtain ⟨_, heq⟩ := Option.ite_none_right_eq_some.mp hstep
        cases heq
        exact ⟨List.prefix_rfl, List.prefix_rfl⟩
    | complete n outcome =>
        simp only [Server.complete] at hstep
        split at hstep
        · cases hstep
        · split at hstep
          · cases hstep
          · split at hstep <;> cases hstep
            · exact ⟨List.prefix_rfl, List.prefix_append _ _⟩
            · exact ⟨List.prefix_rfl, List.prefix_rfl⟩
    | handle answer =>
        cases htodo : s.todo with
        | nil => simp [Server.handle, htodo] at hstep
        | cons cur_sock todo =>
            simp only [Server.handle, htodo] at hstep
            split at hstep
            · cases answer with
              | acceptFailed =>
                  cases hstep
                  exact ⟨List.prefix_rfl, List.prefix_rfl⟩
              | accepted new_sock added reserved =>
                  obtain ⟨_, heq⟩ := Option.ite_none_right_eq_some.mp hstep
                  cases heq
                  unfold Server.accept
                  split <;> exact ⟨List.prefix_rfl, List.prefix_rfl⟩
              | recvError => cases hstep
              | recv bytes reserved => cases hstep
            · cases answer with
              | acceptFailed => cases hstep
              | accepted new_sock added reserved => cases hstep
              | recvError =>
                  cases hstep
                  exact hread { s with todo := todo } cur_sock none 0
              | recv bytes reserved =>
                  obtain ⟨_, heq⟩ := Option.ite_none_right_eq_some.mp hstep
                  cases heq
                  exact hread { s with todo := todo } cur_sock (some bytes) reserved

/-- The ID of a reply is that of its operation. -/
theorem id_fill_reply (op : DataOp) (outcome : Outcome) (rest : RpcBuffer) :
    ((reply op outcome).fill rest).id = op.id := by
  unfold reply Reply.fill
  cases op.operation <;> rfl

/-- An operation of a connection is done, and its callback has packed a buffer. -/
def Packed (server : Server) (packed : Nat → RpcBuffer) (sock : Int32) (n : Nat) : Prop :=
  ∃ op outcome rest, server.queued[n]? = some (sock, op) ∧
    (n, sock, reply op outcome) ∈ server.written ∧ packed n = (reply op outcome).fill rest

/-- The replies of `order` are accepted by the writer of a session of the server. -/
structure Replied (m : Msgpack) (s : Calls) (sock : Int32) (order : List Nat) : Prop where
  handed : UdtWriter.Handed (fun n => m.pack (s.packed n)) order (s.replies sock)
  packed : ∀ n ∈ order ++ UdtWriter.blocked (s.replies sock),
    Packed s.transport.server s.packed sock n
  streamed : UdtWriter.Streamed (s.replies sock)

theorem Packed.mono {server server' : Server} {packed packed' : Nat → RpcBuffer} {sock : Int32}
    {n : Nat} (h : Packed server packed sock n) (hqueued : server.queued <+: server'.queued)
    (hwritten : server.written <+: server'.written) (hsame : packed' n = packed n) :
    Packed server' packed' sock n := by
  obtain ⟨op, outcome, rest, hop, hreply, hbuf⟩ := h
  obtain ⟨behind, hqueued⟩ := hqueued
  refine ⟨op, outcome, rest, ?_, hwritten.subset hreply, hsame.trans hbuf⟩
  rw [← hqueued, List.getElem?_append_left (List.getElem?_eq_some_iff.mp hop).choose]
  exact hop

theorem Packed.answered {server : Server} {packed : Nat → RpcBuffer} {sock : Int32} {n : Nat}
    (h : Packed server packed sock n) : n ∈ server.written.map Prod.fst := by
  obtain ⟨_, _, _, _, hreply, _⟩ := h
  exact List.mem_map_of_mem hreply

/-- Replies are read as far as they have come. -/
theorem Replied.drain {s : Calls} {sock : Int32} {order : List Nat} (h : Replied m s sock order)
    {bs : Bytes} (hbs : bs <+: (s.replies sock).wire) :
    ∃ j, (m.unpacker.drain bs).messages.filterMap m.as = (order.map s.packed).take j ∧
      (m.unpacker.drain bs).stuck = false ∧
      (j < order.length →
        bs.length < (((order.map s.packed).take (j + 1)).flatMap m.pack).length) := by
  have hwire : bs <+: (order.map s.packed).flatMap m.pack := by
    refine hbs.trans (h.streamed.wire.trans ?_)
    rw [h.handed.accepted, List.flatMap_def, List.map_map]
    exact List.prefix_rfl
  obtain ⟨j, hread, hfree, hsplit, hrest⟩ := m.packs.drain_of_prefix hwire
  refine ⟨j, hread, hfree, fun hj => ?_⟩
  rw [hsplit, List.take_add_one, List.flatMap_append, List.length_append, List.length_append]
  have hj' : j < (order.map s.packed).length := by simpa using hj
  have hlt : (m.unpacker.drain bs).rest.length < (m.pack ((order.map s.packed)[j])).length := by
    rcases hrest with hnil | ⟨buf, hbuf, hpart, hne⟩
    · obtain ⟨o, hnext, _⟩ := m.packs.reads (order.map s.packed)[j]
      have hlt := m.unpacker.length_lt hnext
      rw [hnil]
      simpa using hlt
    · rw [List.getElem?_eq_getElem hj', Option.some.injEq] at hbuf
      rw [hbuf]
      exact Nat.lt_of_le_of_ne hpart.length_le fun heq => hne (hpart.eq_of_length heq)
  rw [List.getElem?_eq_getElem hj']
  simpa using hlt

/-- The operations of a connection are those of the requests sent first. -/
theorem Coherent.opsFrom_eq {s : Transport} (h : Coherent m data_path serv_fd s) {sock : Int32}
    {c : Caller} {order : List Nat} (hsent : Sent m c (s.clients sock) order) :
    ∃ j, opsFrom s.server sock =
      (order.take j).map fun k => toOp data_path (c.request k) := by
  obtain ⟨bufs, j, hbufs, hops, _⟩ := h.queuedInOrder.queued sock
  rw [hsent.handed.accepted] at hbufs
  have hmap : order.map c.request = bufs := by
    apply List.map_injective_iff.mpr m.packs.injective
    rw [← hbufs, List.map_map]
    rfl
  refine ⟨j, ?_⟩
  rw [hops, ← hmap, ← List.map_take, List.map_map]
  rfl

/-- Where the operations of a connection have different IDs, the ID tells which one it is. -/
theorem eq_of_queued {s : Server} {sock : Int32} (hnodup : ((opsFrom s sock).map DataOp.id).Nodup)
    {n n' : Nat} {op op' : DataOp} (hn : s.queued[n]? = some (sock, op))
    (hn' : s.queued[n']? = some (sock, op')) (hid : op.id = op'.id) : n = n' := by
  rw [opsFrom, List.map_map, List.Nodup, List.pairwise_map, List.pairwise_filter,
    List.pairwise_iff_getElem] at hnodup
  obtain ⟨hlt, hget⟩ := List.getElem?_eq_some_iff.mp hn
  obtain ⟨hlt', hget'⟩ := List.getElem?_eq_some_iff.mp hn'
  rcases Nat.lt_trichotomy n n' with hbefore | heq | hbehind
  · have hne := hnodup n n' hlt hlt' hbefore (by simp [hget]) (by simp [hget'])
    simp [hget, hget', hid] at hne
  · exact heq
  · have hne := hnodup n' n hlt' hlt hbehind (by simp [hget']) (by simp [hget])
    simp [hget, hget', hid] at hne

/-! ### The whole way there and back -/

/-- The invariant. -/
structure Linked (m : Msgpack) (data_path : Bytes) (serv_fd : Int32) (s : Calls) : Prop where
  coherent : Coherent m data_path serv_fd s.transport
  requests : ∀ sock, ∃ order, Sent m (s.callers sock) (s.transport.clients sock) order
  replies : ∀ sock, ∃ order, Replied m s sock order
  reads : ∀ sock, Reads m (s.callers sock) (s.replies sock).wire
  table : ∀ sock, (s.callers sock).session.seq_n ≤ idLimit → Table (s.callers sock)

/-- A reply in the writer of a session is for a call whose request was sent. -/
theorem Linked.owner {s : Calls} (h : Linked m data_path serv_fd s) {sock : Int32}
    {order : List Nat} (hreplied : Replied m s sock order) {n : Nat} (hn : n ∈ order) :
    ∃ k op outcome rest, Written ((s.callers sock).stage k) ∧
      op = toOp data_path ((s.callers sock).request k) ∧
      s.transport.server.queued[n]? = some (sock, op) ∧
      (n, sock, reply op outcome) ∈ s.transport.server.written ∧
      s.packed n = (reply op outcome).fill rest ∧
      (s.packed n).id = ((s.callers sock).request k).id := by
  obtain ⟨op, outcome, rest, hop, hreply, hbuf⟩ :=
    hreplied.packed n (List.mem_append_left _ hn)
  obtain ⟨sent, hsent⟩ := h.requests sock
  obtain ⟨j, hops⟩ := h.coherent.opsFrom_eq hsent
  have hmem : op ∈ opsFrom s.transport.server sock :=
    List.mem_map.mpr ⟨(sock, op), List.mem_filter.mpr ⟨List.mem_of_getElem? hop, by simp⟩, rfl⟩
  rw [hops] at hmem
  obtain ⟨k, hk, rfl⟩ := List.mem_map.mp hmem
  have hwritten := hsent.written k (List.mem_append_left _ (List.mem_of_mem_take hk))
  refine ⟨k, _, outcome, rest, hwritten, rfl, hop, hreply, hbuf, ?_⟩
  rw [hbuf, id_fill_reply]
  rfl

/-- The replies in the writer of a session have different IDs. -/
theorem Linked.distinct {s : Calls} (h : Linked m data_path serv_fd s) {sock : Int32}
    (hlimit : (s.callers sock).session.seq_n ≤ idLimit) {order : List Nat}
    (hreplied : Replied m s sock order) :
    ((order.map s.packed).map RpcBuffer.id).Nodup := by
  obtain ⟨sent, hsent⟩ := h.requests sock
  obtain ⟨j, hops⟩ := h.coherent.opsFrom_eq hsent
  have htable := h.table sock hlimit
  have hids : ((opsFrom s.transport.server sock).map DataOp.id).Nodup := by
    have hnodup := (List.nodup_append.mp hsent.handed.distinct).1.sublist (List.take_sublist j sent)
    rw [hops, List.map_map]
    refine hnodup.map_on fun k hk k' hk' hsame => ?_
    have hnumbered : ∀ k ∈ sent.take j, Numbered ((s.callers sock).stage k) := fun k hk =>
      (hsent.written k (List.mem_append_left _ (List.mem_of_mem_take hk))).entered.numbered
    exact htable.eq_of_id hlimit (hnumbered k hk) (hnumbered k' hk') hsame
  rw [List.map_map]
  refine (List.nodup_append.mp hreplied.handed.distinct).1.map_on fun n hn n' hn' hsame => ?_
  obtain ⟨_, op, _, _, _, _, hop, _, hbuf, _⟩ := h.owner hreplied hn
  obtain ⟨_, op', _, _, _, _, hop', _, hbuf', _⟩ := h.owner hreplied hn'
  refine eq_of_queued hids hop hop' ?_
  simpa [hbuf, hbuf', id_fill_reply] using hsame

/-- A session has another state. -/
theorem Linked.setCaller {s : Calls} (h : Linked m data_path serv_fd s) {sock : Int32} {c : Caller}
    (hsent : ∀ k, Written ((s.callers sock).stage k) →
      c.request k = (s.callers sock).request k ∧ Written (c.stage k))
    (hreads : Reads m c (s.replies sock).wire)
    (htable : c.session.seq_n ≤ idLimit → Table c) :
    Linked m data_path serv_fd (s.setCaller sock c) where
  coherent := h.coherent
  requests := by
    intro other
    by_cases hother : other = sock
    · subst hother
      obtain ⟨order, hold⟩ := h.requests other
      simp only [Calls.setCaller, Function.update_self]
      exact ⟨order, hold.congr hsent⟩
    · simp only [Calls.setCaller, Function.update_of_ne hother]
      exact h.requests other
  replies := fun other => by
    obtain ⟨order, hreplied⟩ := h.replies other
    exact ⟨order, hreplied.handed, hreplied.packed, hreplied.streamed⟩
  reads := by
    intro other
    by_cases hother : other = sock
    · subst hother
      simpa only [Calls.setCaller, Function.update_self] using hreads
    · simp only [Calls.setCaller, Function.update_of_ne hother]
      exact h.reads other
  table := by
    intro other
    by_cases hother : other = sock
    · subst hother
      simpa only [Calls.setCaller, Function.update_self] using htable
    · simp only [Calls.setCaller, Function.update_of_ne hother]
      exact h.table other

/-- What is neither a request nor a reply of a session. -/
theorem Linked.keepCaller {s : Calls} (h : Linked m data_path serv_fd s) {sock : Int32} {c : Caller}
    (hstage : c.stage = (s.callers sock).stage) (hrequest : c.request = (s.callers sock).request)
    (hreads : Reads m c (s.replies sock).wire)
    (htable : c.session.seq_n ≤ idLimit → Table c) :
    Linked m data_path serv_fd (s.setCaller sock c) :=
  h.setCaller (fun k hk => by rw [hstage, hrequest]; exact ⟨rfl, hk⟩) hreads htable

/-- A step of the writer of a client is one of that writer alone. -/
theorem client_eq {s t : Transport} {sock : Int32} {a : UdtWriter.Act}
    (hstep : s.client sock a = some t) :
    t.server = s.server ∧ (∃ w, UdtWriter.step (s.clients sock) a = some w ∧ t.clients sock = w) ∧
      ∀ other, other ≠ sock → t.clients other = s.clients other := by
  obtain ⟨w, hw, rfl⟩ := Option.map_eq_some_iff.mp hstep
  exact ⟨rfl, ⟨w, hw, Function.update_self _ _ _⟩,
    fun other hother => Function.update_of_ne hother _ _⟩

theorem server_eq {s t : Transport} {a : Act}
    (hstep : s.step m data_path serv_fd (.server a) = some t) :
    ∃ server, step m data_path serv_fd s.server a = some server ∧
      t = { s with server := server } := by
  simp only [Transport.step, Option.ite_none_right_eq_some, Option.map_eq_some_iff] at hstep
  obtain ⟨_, server, hserver, rfl⟩ := hstep
  exact ⟨server, hserver, rfl⟩

/-- What the server has done stays when the requests go on their way. -/
theorem grown_of_transportStep {s t : Transport} {e : Event}
    (hstep : s.step m data_path serv_fd e = some t) :
    s.server.queued <+: t.server.queued ∧ s.server.written <+: t.server.written := by
  have hclient : ∀ {sock a}, s.client sock a = some t →
      s.server.queued <+: t.server.queued ∧ s.server.written <+: t.server.written := by
    intro sock a hclient
    rw [(client_eq hclient).1]
    exact ⟨List.prefix_rfl, List.prefix_rfl⟩
  cases e with
  | write sock producer buf => exact hclient hstep
  | wake sock producer => exact hclient hstep
  | close sock => exact hclient hstep
  | send sock ss => exact hclient hstep
  | server a =>
      obtain ⟨server, hserver, rfl⟩ := server_eq hstep
      exact grown_of_step hserver

theorem Replied.mono {s : Calls} {sock : Int32} {order : List Nat} {transport : Transport}
    (h : Replied m s sock order) (hqueued : s.transport.server.queued <+: transport.server.queued)
    (hwritten : s.transport.server.written <+: transport.server.written) :
    Replied m { s with transport := transport } sock order :=
  ⟨h.handed, fun n hn => (h.packed n hn).mono hqueued hwritten rfl, h.streamed⟩

/-- Steps of the writers of the clients and of the server. -/
theorem Linked.carry {s t : Calls} {e : Event} (h : Linked m data_path serv_fd s)
    (hstep : s.carry m data_path serv_fd e = some t)
    (hsent : ∀ sock, ∃ order, Sent m (s.callers sock) (t.transport.clients sock) order) :
    Linked m data_path serv_fd t := by
  obtain ⟨transport, htransport, rfl⟩ := Option.map_eq_some_iff.mp hstep
  obtain ⟨hqueued, hwritten⟩ := grown_of_transportStep htransport
  exact {
    coherent := coherent_step h.coherent htransport
    requests := hsent
    replies := fun sock => by
      obtain ⟨order, hreplied⟩ := h.replies sock
      exact ⟨order, hreplied.mono hqueued hwritten⟩
    reads := h.reads
    table := h.table }

/-- The writer of a client makes a step that hands over nothing. -/
theorem Linked.client {s t : Calls} {e : Event} {sock : Int32} {a : UdtWriter.Act}
    (h : Linked m data_path serv_fd s) (hstep : s.carry m data_path serv_fd e = some t)
    (he : s.transport.step m data_path serv_fd e = s.transport.client sock a)
    (ha : ∀ n data, a ≠ .write n data) : Linked m data_path serv_fd t := by
  refine h.carry hstep fun other => ?_
  obtain ⟨transport, htransport, rfl⟩ := Option.map_eq_some_iff.mp hstep
  rw [he] at htransport
  obtain ⟨_, ⟨w, hw, hclient⟩, hothers⟩ := client_eq htransport
  obtain ⟨order, hsent⟩ := h.requests other
  by_cases hother : other = sock
  · subst hother
    rw [hclient]
    exact hsent.step ha hw
  · rw [hothers other hother]
    exact ⟨order, hsent⟩

/-- The server makes a step. -/
theorem Linked.server {s t : Calls} {a : Act} (h : Linked m data_path serv_fd s)
    (hstep : s.carry m data_path serv_fd (.server a) = some t) : Linked m data_path serv_fd t := by
  refine h.carry hstep fun sock => ?_
  obtain ⟨transport, htransport, rfl⟩ := Option.map_eq_some_iff.mp hstep
  obtain ⟨server, _, rfl⟩ := server_eq htransport
  exact h.requests sock

/-- A request is handed over. -/
theorem Linked.send {s t : Calls} {sock : Int32} {k : Nat} (h : Linked m data_path serv_fd s)
    (hstep : s.send m data_path serv_fd sock k = some t) : Linked m data_path serv_fd t := by
  unfold Calls.send at hstep
  simp only at hstep
  split_ifs at hstep with hentered hclosed
  · cases hstep
    refine h.keepCaller rfl rfl { h.reads sock with fault := Or.inr rfl } fun hlimit => ?_
    exact { h.table sock hlimit with }
  · obtain ⟨u, hcarry, rfl⟩ := Option.map_eq_some_iff.mp hstep
    have hset : Linked m data_path serv_fd (s.setCaller sock
        { s.callers sock with stage := Function.update (s.callers sock).stage k .written }) := by
      refine h.setCaller (fun k' hk' => ⟨rfl, ?_⟩) { h.reads sock with } fun hlimit => ?_
      · have hne : k' ≠ k := by
          rintro rfl
          rw [hentered] at hk'
          rcases hk' with hk' | hk' <;> cases hk'
        dsimp only
        rwa [Function.update_of_ne hne]
      · exact (h.table sock hlimit).setStage (Or.inl hentered) (Or.inr (Or.inl rfl))
          (Or.inl (by simp [hentered]))
    obtain ⟨transport, htransport, rfl⟩ := Option.map_eq_some_iff.mp hcarry
    refine hset.carry (e := .write sock k ((s.callers sock).request k))
      (by rw [Calls.carry, Calls.setCaller, htransport]; rfl) fun other => ?_
    obtain ⟨_, ⟨w, hw, hclient⟩, hothers⟩ := client_eq htransport
    obtain ⟨order, hsent⟩ := h.requests other
    by_cases hother : other = sock
    · subst hother
      have hnew : k ∉ order ++ UdtWriter.blocked (s.transport.clients other) := by
        intro hk
        have hwritten := hsent.written k hk
        rw [hentered] at hwritten
        rcases hwritten with hwritten | hwritten <;> cases hwritten
      obtain ⟨order', hhanded, hperm⟩ := hsent.handed.write hnew hw
      simp only [Calls.setCaller, Function.update_self, hclient]
      refine ⟨order', hhanded, fun k' hk' => ?_⟩
      dsimp only
      by_cases heq : k' = k
      · subst heq
        rw [Function.update_self]
        exact Or.inl rfl
      · rw [Function.update_of_ne heq]
        have hold := hperm.mem_iff.mp hk'
        exact hsent.written k' ((List.mem_cons.mp hold).resolve_left heq)
    · simp only [Calls.setCaller, Function.update_of_ne hother, hothers other hother]
      exact ⟨order, hsent⟩

/-- A writer of the server makes a step. -/
theorem Linked.reply {s : Calls} {sock : Int32} {a : UdtWriter.Act} {w : UdtWriter.State}
    {packed : Nat → RpcBuffer} (h : Linked m data_path serv_fd s)
    (hw : UdtWriter.step (s.replies sock) a = some w)
    (hsock : ∃ order, UdtWriter.Handed (fun n => m.pack (packed n)) order w ∧
      ∀ n ∈ order ++ UdtWriter.blocked w, Packed s.transport.server packed sock n)
    (hothers : ∀ other n, other ≠ sock → Packed s.transport.server s.packed other n →
      packed n = s.packed n) :
    Linked m data_path serv_fd
      { s with replies := Function.update s.replies sock w, packed := packed } where
  coherent := h.coherent
  requests := h.requests
  replies := by
    intro other
    obtain ⟨order, hreplied⟩ := h.replies other
    by_cases hother : other = sock
    · subst hother
      obtain ⟨order', hhanded, hpacked⟩ := hsock
      refine ⟨order', ?_, ?_, ?_⟩ <;> simp only [Function.update_self]
      · exact hhanded
      · exact hpacked
      · exact UdtWriter.streamed_step hreplied.streamed hw
    · have hsame : ∀ n ∈ order ++ UdtWriter.blocked (s.replies other), packed n = s.packed n :=
        fun n hn => hothers other n hother (hreplied.packed n hn)
      refine ⟨order, ?_, ?_, ?_⟩ <;> simp only [Function.update_of_ne hother]
      · exact hreplied.handed.congr fun n hn => by rw [hsame n hn]
      · exact fun n hn => (hreplied.packed n hn).mono List.prefix_rfl List.prefix_rfl (hsame n hn)
      · exact hreplied.streamed
  reads := by
    intro other
    by_cases hother : other = sock
    · subst hother
      obtain ⟨order, hreplied⟩ := h.replies other
      have hgrown := (hreplied.streamed.sound.stream_step hw).2.1
      simp only [Function.update_self]
      exact { h.reads other with received := (h.reads other).received.trans hgrown }
    · simp only [Function.update_of_ne hother]
      exact h.reads other
  table := h.table

/-- An operation is done whose session is there. -/
theorem written_of_complete {s t : Server} {n : Nat} {outcome : Outcome} {sock : Int32}
    {op : DataOp} (hstep : step m data_path serv_fd s (.complete n outcome) = some t)
    (hop : s.queued[n]? = some (sock, op)) (hfault : ¬ t.fault.isSome = true) :
    n ∉ s.written.map Prod.fst ∧
      t = { s with written := s.written ++ [(n, sock, reply op outcome)] } := by
  unfold step at hstep
  split at hstep
  · cases hstep
  · simp only [Server.complete, hop] at hstep
    split at hstep
    · cases hstep
    next hnew =>
      split at hstep <;> cases hstep
      · exact ⟨hnew, rfl⟩
      · exact absurd rfl hfault

theorem Linked.complete {s t : Calls} {n : Nat} {outcome : Outcome} {rest : RpcBuffer}
    (h : Linked m data_path serv_fd s)
    (hstep : s.complete m data_path serv_fd n outcome rest = some t) :
    Linked m data_path serv_fd t := by
  unfold Calls.complete at hstep
  cases hcarry : s.carry m data_path serv_fd (.server (.complete n outcome)) with
  | none => simp [hcarry] at hstep
  | some u =>
      have hu := h.server hcarry
      cases hop : s.transport.server.queued[n]? with
      | none => simp [hcarry, hop] at hstep
      | some entry =>
          obtain ⟨sock, op⟩ := entry
          simp only [hcarry, hop] at hstep
          split at hstep
          · cases hstep
            exact hu
          next hfault =>
            obtain ⟨transport, htransport, rfl⟩ := Option.map_eq_some_iff.mp hcarry
            obtain ⟨server, hserver, rfl⟩ := server_eq htransport
            obtain ⟨hnew, rfl⟩ := written_of_complete hserver hop hfault
            obtain ⟨w, hw, rfl⟩ := Option.map_eq_some_iff.mp hstep
            obtain ⟨order, hreplied⟩ := h.replies sock
            have hnot : n ∉ order ++ UdtWriter.blocked (s.replies sock) := fun hn =>
              hnew (hreplied.packed n hn).answered
            -- The buffers packed before are still what they were.
            have hsame : ∀ n' ∈ order ++ UdtWriter.blocked (s.replies sock),
                Function.update s.packed n ((Udt.reply op outcome).fill rest) n' = s.packed n' :=
              fun n' hn' => Function.update_of_ne (ne_of_mem_of_not_mem hn' hnot) _ _
            have hhanded : UdtWriter.Handed (fun n' =>
                m.pack (Function.update s.packed n ((Udt.reply op outcome).fill rest) n'))
                order (s.replies sock) :=
              hreplied.handed.congr fun n' hn' => by rw [hsame n' hn']
            obtain ⟨order', hhanded', hperm⟩ := hhanded.write hnot (by simpa using hw)
            refine hu.reply hw ⟨order', hhanded', fun n' hn' => ?_⟩
              fun other n' hother hpacked => ?_
            · rcases List.mem_cons.mp (hperm.mem_iff.mp hn') with rfl | hold
              · exact ⟨op, outcome, rest, hop, by simp, Function.update_self _ _ _⟩
              · exact (hreplied.packed n' hold).mono List.prefix_rfl (List.prefix_append _ _)
                  (hsame n' hold)
            · obtain ⟨op', _, _, hop', _⟩ := hpacked
              refine Function.update_of_ne (fun heq => hother ?_) _ _
              rw [heq, hop] at hop'
              cases hop'
              rfl

/-- The reply `e` that a session has taken is for the call `k`: it is of the operation that the
request of the call has become. -/
def Answers (data_path : Bytes) (s : Calls) (sock : Int32) (e : RpcBuffer × Effect) (k : Nat) :
    Prop :=
  ∃ n outcome rest,
    s.transport.server.queued[n]? = some (sock, toOp data_path ((s.callers sock).request k)) ∧
    (n, sock, reply (toOp data_path ((s.callers sock).request k)) outcome) ∈
      s.transport.server.written ∧
    e.1 = (reply (toOp data_path ((s.callers sock).request k)) outcome).fill rest ∧
    (e.2 = .value k ∨ e.2 = .handled none ∨ e.2 = .handled (some k))

/-- On every connection each reply is for one call, which gets no other, and what `wait_op` returns
for a call is the reply of its own operation. A session that waits for bytes has taken every reply
that has come whole, and its thread does not end by itself. -/
structure Answered (m : Msgpack) (data_path : Bytes) (s : Calls) : Prop where
  answers : ∀ sock, (s.callers sock).session.seq_n ≤ idLimit →
    ∀ e ∈ (s.callers sock).taken, ∃ k, Answers data_path s sock e k
  once : ∀ sock, (s.callers sock).session.seq_n ≤ idLimit →
    ((s.callers sock).taken.map fun e => e.1.id).Nodup
  returned : ∀ sock, (s.callers sock).session.seq_n ≤ idLimit → ∀ k buf,
    (s.callers sock).waits k = .returned (some buf) →
    (buf, .value k) ∈ (s.callers sock).taken ∧ Answers data_path s sock (buf, .value k) k
  all : ∀ sock, (s.callers sock).reader = .reading → ∃ (bufs : List RpcBuffer) (j : Nat),
    (s.replies sock).accepted = bufs.map m.pack ∧
    (s.callers sock).taken.map Prod.fst = bufs.take j ∧
    (j < bufs.length →
      (s.callers sock).received.length < ((bufs.take (j + 1)).flatMap m.pack).length)
  running : ∀ sock, (s.callers sock).fault = none ∨ (s.callers sock).fault = some .dangling

/-- A reply that was taken belongs to the call of the effect. -/
theorem Linked.answers {s : Calls} (h : Linked m data_path serv_fd s) {sock : Int32}
    (hlimit : (s.callers sock).session.seq_n ≤ idLimit) {e : RpcBuffer × Effect}
    (he : e ∈ (s.callers sock).taken) : ∃ k, Answers data_path s sock e k := by
  obtain ⟨order, hreplied⟩ := h.replies sock
  have hreads := h.reads sock
  obtain ⟨j, hread, _⟩ := hreplied.drain hreads.received
  have hpast := hreads.past
  rw [hread] at hpast
  have hmem := List.mem_of_mem_take (hpast.subset (List.mem_map_of_mem he))
  obtain ⟨n, hn, hbuf⟩ := List.mem_map.mp hmem
  obtain ⟨k, op, outcome, rest, hwritten, rfl, hop, hreply, hpacked, hid⟩ := h.owner hreplied hn
  have htable := h.table sock hlimit
  obtain ⟨k', hk', hid', heffect⟩ := htable.effects e he
  have hsame : k' = k := by
    apply htable.eq_of_id hlimit hk'.numbered hwritten.entered.numbered
    rw [hid', ← hbuf, hid]
  subst hsame
  exact ⟨k', n, outcome, rest, hop, hreply, hbuf.symm.trans hpacked, heffect⟩

theorem Linked.answered {s : Calls} (h : Linked m data_path serv_fd s) :
    Answered m data_path s where
  answers := fun sock hlimit e he => h.answers hlimit he
  once := by
    intro sock hlimit
    obtain ⟨order, hreplied⟩ := h.replies sock
    have hreads := h.reads sock
    obtain ⟨j, hread, _⟩ := hreplied.drain hreads.received
    have hpast := hreads.past
    rw [hread] at hpast
    have hsub := ((hpast.trans (List.take_prefix _ _)).map RpcBuffer.id).sublist
    rw [List.map_map] at hsub
    exact (h.distinct hlimit hreplied).sublist hsub
  returned := by
    intro sock hlimit k buf hbuf
    have hmem := (h.table sock hlimit).returned k buf hbuf
    obtain ⟨k', hanswers⟩ := h.answers hlimit hmem
    obtain ⟨_, _, _, _, _, _, heffect⟩ := id hanswers
    have hsame : k = k' := by simpa using heffect
    exact ⟨hmem, hsame ▸ hanswers⟩
  all := by
    intro sock hreading
    obtain ⟨order, hreplied⟩ := h.replies sock
    have hreads := h.reads sock
    obtain ⟨j, hread, _, hmore⟩ := hreplied.drain hreads.received
    obtain ⟨hwhole, _⟩ := hreads.whole (by simp [hreading])
    rw [StreamParser.drain_of_more (hreads.waiting hreading).1, hread] at hwhole
    refine ⟨order.map s.packed, j, ?_, by simpa using hwhole, by simpa using hmore⟩
    rw [hreplied.handed.accepted, List.map_map]
    rfl
  running := fun sock => (h.reads sock).fault

/-- A number as a text of its length. -/
def unary (n : Nat) : Bytes := List.replicate n 0

def noBuffer : RpcBuffer := ⟨0, [], [], 0, true, 0, 0, 0, 0⟩

/-- A read of three bytes. -/
def threeBytes : RpcBuffer := { noBuffer with path := [97], read_size := 3 }

/-- The bytes that `wait_op` has returned. -/
def Wait.answer : Wait → Option Bytes
  | .returned res => res.map RpcBuffer.buf
  | .no => none
  | .on _ => none

end Gvds.Udt
