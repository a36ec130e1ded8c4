/-
Module: Gvds.Proofs.ReceivedSectors
Layer: Proofs
Purpose: What fetch_cache serves from a read-ahead buffer. A sector of the current task is at one
  place at a time: its future is in the table, a callback has taken the future, or the area has the
  reply. As long as callbacks copy and mark on the task whose future they took, the area has what
  was received for the sector; the length that is served is right iff the request does not begin
  behind the recorded end of the sector.
Imports: Gvds.Proofs.ReadMoves
Trusted boundary: as Gvds.Client.ReadAhead
Main exports: Orderly, Received, OnTasks, received_step, ServesReceived, buffered_read_exact_iff
-/
import Gvds.Proofs.ReadMoves

namespace Gvds.ReadAhead

open WriteBehind (FileName WriteCall)

/-! ### The places of a sector -/

/-- Where a sector of a task can be: its future is in the table, the callback of prefetch `k` has
taken the future, or the reply is in the area. -/
inductive Place where
  | table
  | callback (k : Nat)
  | area

/-- The sector of the current task of buffer `i` is at the place. -/
def At (s : State) (i : Fin 2) (sec_nr : Nat) : Place → Prop
  | .table => ∃ k, (s.bufs i).ft_res_tab sec_nr = some k
  | .callback k => ∃ pf k', s.prefetches k = some pf ∧ pf.buf_idx = i ∧ pf.sec_nr = sec_nr ∧
      pf.stage = .taken k' (s.bufs i).task
  | .area => ∃ len, Filled s i sec_nr len

/-- A sector is at one place, and at none before it is asked for. -/
structure Orderly (s : State) : Prop where
  one : ∀ {i sec_nr p q}, At s i sec_nr p → At s i sec_nr q → p = q
  ahead : ∀ {i sec_nr p}, At s i sec_nr p → sec_nr < (s.bufs i).cur_sec_nr

/-- No sector is anywhere new. -/
def Fewer (s t : State) : Prop :=
  ∀ i sec_nr p, At t i sec_nr p → At s i sec_nr p ∧ (t.bufs i).cur_sec_nr = (s.bufs i).cur_sec_nr

theorem Orderly.of_fewer {s t : State} (h : Orderly s) (hfewer : Fewer s t) : Orderly t where
  one := fun hp hq => h.one (hfewer _ _ _ hp).1 (hfewer _ _ _ hq).1
  ahead := by
    intro i n p hp
    obtain ⟨hold, hcur⟩ := hfewer i n p hp
    rw [hcur]
    exact h.ahead hold

/-- A sector goes from one place to the next one. -/
theorem Orderly.pass {s t : State} (h : Orderly s) {i : Fin 2} {n : Nat} {p q : Place}
    (hfrom : At s i n p)
    (hat : ∀ j m p', At t j m p' → j = i ∧ m = n ∧ p' = q ∨ At s j m p' ∧ ¬ (j = i ∧ m = n ∧ p' = p))
    (hcur : ∀ j, (t.bufs j).cur_sec_nr = (s.bufs j).cur_sec_nr) : Orderly t where
  one := by
    intro j m p₁ p₂ h₁ h₂
    rcases hat j m p₁ h₁ with ⟨rfl, rfl, rfl⟩ | ⟨hold₁, hleft₁⟩
    · rcases hat j m p₂ h₂ with ⟨-, -, rfl⟩ | ⟨hold₂, hleft₂⟩
      · rfl
      · exact absurd ⟨rfl, rfl, h.one hold₂ hfrom⟩ hleft₂
    · rcases hat j m p₂ h₂ with ⟨rfl, rfl, rfl⟩ | ⟨hold₂, -⟩
      · exact absurd ⟨rfl, rfl, h.one hold₁ hfrom⟩ hleft₁
      · exact h.one hold₁ hold₂
  ahead := by
    intro j m p' hp'
    rw [hcur]
    rcases hat j m p' hp' with ⟨rfl, rfl, -⟩ | ⟨hold, -⟩
    · exact h.ahead hfrom
    · exact h.ahead hold

theorem at_setBuf_of_ne {s : State} {i j : Fin 2} {b : BufArea} {n : Nat} {p : Place}
    (hj : j ≠ i) : At (s.setBuf i b) j n p ↔ At s j n p := by
  cases p with
  | table => simp only [At, setBuf_bufs_of_ne hj]
  | callback k =>
      simp only [At, setBuf_bufs_of_ne hj]
      rfl
  | area =>
      simp only [At, Filled, setBuf_bufs_of_ne hj]
      rfl

/-- A buffer that keeps its task and its place in it. -/
theorem fewer_setBuf {s : State} {i : Fin 2} {b : BufArea} (htask : b.task = (s.bufs i).task)
    (hcur : b.cur_sec_nr = (s.bufs i).cur_sec_nr)
    (htab : ∀ n k, b.ft_res_tab n = some k → (s.bufs i).ft_res_tab n = some k)
    (hsec : ∀ n len, b.sec_bufferd n = some len → Filled s i n len) : Fewer s (s.setBuf i b) := by
  intro j n p hp
  by_cases hj : j = i
  · subst hj
    refine ⟨?_, by rw [setBuf_bufs_self, hcur]⟩
    cases p with
    | table =>
        obtain ⟨k, hentry⟩ := hp
        rw [setBuf_bufs_self] at hentry
        exact ⟨k, htab n k hentry⟩
    | callback k =>
        simp only [At, setBuf_bufs_self, htask] at hp ⊢
        exact hp
    | area =>
        obtain ⟨len, hfilled⟩ := hp
        simp only [Filled, setBuf_bufs_self, htask] at hfilled
        exact ⟨len, hfilled.elim (hsec n len) .inr⟩
  · exact ⟨(at_setBuf_of_ne hj).mp hp, by rw [setBuf_bufs_of_ne hj]⟩

/-- A callback that holds nothing any more. -/
theorem fewer_setIdle {s : State} {k : Nat} {pf : Prefetch} {stage : Stage}
    (hidle : stage.task? = none) : Fewer s (s.setPrefetch k { pf with stage := stage }) := by
  have hother : ∀ k' pf' n, (s.setPrefetch k { pf with stage := stage }).prefetches k' = some pf' →
      pf'.stage.task? = some n → s.prefetches k' = some pf' := by
    intro k' pf' n hpf' hn
    rcases setPrefetch_eq_some hpf' with ⟨-, rfl⟩ | ⟨-, hsame⟩
    · rw [hidle] at hn
      cases hn
    · exact hsame
  intro i n p hp
  refine ⟨?_, rfl⟩
  cases p with
  | table => exact hp
  | callback k₁ =>
      obtain ⟨pf', k', hpf', hidx, hnr, hstage⟩ := hp
      exact ⟨pf', k', hother k₁ pf' _ hpf' (by rw [hstage, Stage.task?]), hidx, hnr, hstage⟩
  | area =>
      obtain ⟨len, hmarked | ⟨k₁, pf', hpf', hidx, hnr, hstage⟩⟩ := hp
      · exact ⟨len, .inl hmarked⟩
      · exact ⟨len, .inr ⟨k₁, pf', hother k₁ pf' _ hpf' (by rw [hstage, Stage.task?]), hidx, hnr,
          hstage⟩⟩

theorem fewer_setReply {s : State} {k : Nat} {pf : Prefetch} {answer : Option Reply}
    (hpf : s.prefetches k = some pf) :
    Fewer s (s.setPrefetch k { pf with reply := some answer }) := by
  intro i n p hp
  refine ⟨?_, rfl⟩
  cases p with
  | table => exact hp
  | callback k₁ =>
      obtain ⟨pf', k', hpf', hidx, hnr, hstage⟩ := hp
      obtain ⟨old, hsame, hidx', hnr', hstage'⟩ := request_of_setReply hpf hpf'
      exact ⟨old, k', hsame, hidx' ▸ hidx, hnr' ▸ hnr, hstage' ▸ hstage⟩
  | area =>
      obtain ⟨len, hfilled⟩ := hp
      exact ⟨len, filled_of_setReply hpf hfilled⟩

/-- A buffer that is emptied for a new task has its sectors nowhere. -/
theorem Orderly.newTask {s : State} (h : Orderly s) (htasked : Tasked s) {i : Fin 2} {b : BufArea}
    (htab : ∀ n, b.ft_res_tab n = none) (hsec : ∀ n, b.sec_bufferd n = none)
    (htask : b.task = (s.bufs i).task + 1) : Orderly (s.setBuf i b) := by
  have hold : ∀ k pf, s.prefetches k = some pf → pf.buf_idx = i →
      pf.stage.task? ≠ some b.task := by
    rintro k pf hpf rfl hn
    have hle := htasked.tasks k pf b.task hpf hn
    omega
  apply h.of_fewer
  intro j n p hp
  by_cases hj : j = i
  · subst hj
    cases p with
    | table =>
        obtain ⟨k, hentry⟩ := hp
        rw [setBuf_bufs_self, htab] at hentry
        cases hentry
    | callback k =>
        obtain ⟨pf, k', hpf, hidx, -, hstage⟩ := hp
        rw [setBuf_bufs_self] at hstage
        exact absurd (by rw [hstage, Stage.task?]) (hold k pf hpf hidx)
    | area =>
        obtain ⟨len, hmarked | ⟨k, pf, hpf, hidx, -, hstage⟩⟩ := hp
        · rw [setBuf_bufs_self, hsec] at hmarked
          cases hmarked
        · rw [setBuf_bufs_self] at hstage
          exact absurd (by rw [hstage, Stage.task?]) (hold k pf hpf hidx)
  · exact ⟨(at_setBuf_of_ne hj).mp hp, by rw [setBuf_bufs_of_ne hj]⟩

/-- The next sector of a task has been nowhere before. -/
theorem Orderly.submit {s t : State} {i : Fin 2} (h : Orderly s) (hsub : Submitted s t i) :
    Orderly t := by
  have hat : ∀ j n p, At t j n p →
      At s j n p ∨ j = i ∧ n = (s.bufs i).cur_sec_nr ∧ p = .table := by
    intro j n p hp
    cases p with
    | table =>
        obtain ⟨k, hentry⟩ := hp
        rcases hsub.table j n k hentry with hold | ⟨hj, hn, -⟩
        · exact .inl ⟨k, hold⟩
        · exact .inr ⟨hj, hn, rfl⟩
    | callback k =>
        obtain ⟨pf, k', hpf, hidx, hnr, hstage⟩ := hp
        rcases hsub.requests k pf hpf with hold | ⟨-, -, hsent⟩
        · exact .inl ⟨pf, k', hold, hidx, hnr, hsub.task j ▸ hstage⟩
        · rw [hsent] at hstage
          cases hstage
    | area =>
        obtain ⟨len, hfilled⟩ := hp
        exact .inl ⟨len, hsub.filled j n len hfilled⟩
  have hnowhere : ∀ {j n p}, At s j n p → ¬ (j = i ∧ n = (s.bufs i).cur_sec_nr) := by
    rintro j n p hp ⟨rfl, rfl⟩
    exact absurd (h.ahead hp) (Nat.lt_irrefl _)
  constructor
  · intro j n p q hp hq
    rcases hat j n p hp with hold | ⟨hj, hn, rfl⟩
    · rcases hat j n q hq with hold' | ⟨hj, hn, rfl⟩
      · exact h.one hold hold'
      · exact absurd ⟨hj, hn⟩ (hnowhere hold)
    · rcases hat j n q hq with hold' | ⟨-, -, rfl⟩
      · exact absurd ⟨hj, hn⟩ (hnowhere hold')
      · rfl
  · intro j n p hp
    rw [hsub.cur_sec_nr]
    rcases hat j n p hp with hold | ⟨rfl, rfl, -⟩
    · exact Nat.lt_add_right _ (h.ahead hold)
    · rw [if_pos rfl]
      exact Nat.lt_succ_self _

/-! ### What was received -/

/-- An IO proxy has answered a request for the sector of the buffer's file with `bytes`. -/
def AnsweredWith (s : State) (b : BufArea) (sec_nr : Nat) (bytes : List UInt8) : Prop :=
  ∃ k pf time, s.prefetches k = some pf ∧ pf.file = b.file ∧ pf.sec_nr = sec_nr ∧
    pf.reply = some (some ⟨bytes, time⟩)

/-- The area has all of an answer to a request for the sector, and `len` is its length. -/
def HasAnswer (s : State) (b : BufArea) (sec_nr len : Nat) : Prop :=
  b.InTask sec_nr ∧ ∃ bytes, AnsweredWith s b sec_nr bytes ∧ len = bytes.length ∧
    bytes.length ≤ sectorSize ∧ b.buf.Holds (b.sectorAddr sec_nr) bytes 0

/-- What a buffer has, or waits for, are answers to the requests for its own sectors. -/
structure Received (s : State) : Prop where
  tasked : Tasked s
  orderly : Orderly s
  filled : ∀ i sec_nr len, Filled s i sec_nr len → HasAnswer s (s.bufs i) sec_nr len
  awaits : ∀ i sec_nr k, Awaits s i sec_nr k →
    ∃ pf, s.prefetches k = some pf ∧ RequestOk (fun _ => 0) (s.bufs i) sec_nr pf
  short : ∀ k pf rep, s.prefetches k = some pf → pf.reply = some (some rep) →
    rep.bytes.length ≤ sectorSize
  fresh : ∀ k, s.issued ≤ k → s.prefetches k = none

/-- The request is still there, with the answer that it has. -/
def KeepsAnswers (s t : State) : Prop :=
  ∀ k pf, s.prefetches k = some pf → ∃ pf', t.prefetches k = some pf' ∧ pf'.file = pf.file ∧
    pf'.sec_nr = pf.sec_nr ∧ ∀ rep, pf.reply = some rep → pf'.reply = some rep

theorem HasAnswer.keep {s t : State} {b b' : BufArea} {n len : Nat} (h : HasAnswer s b n len)
    (hkeep : KeepsAnswers s t) (harea : SameArea b b') : HasAnswer t b' n len := by
  obtain ⟨hin, bytes, ⟨k, pf, time, hpf, hfile, hnr, hrep⟩, hlen, hshort, hholds⟩ := h
  obtain ⟨pf', hpf', hfile', hnr', hrep'⟩ := hkeep k pf hpf
  refine ⟨?_, bytes, ⟨k, pf', time, hpf', ?_, hnr'.trans hnr, hrep' _ hrep⟩, hlen, hshort, ?_⟩
  · simpa only [BufArea.InTask, harea.sec_bg, harea.max_sec] using hin
  · rw [hfile', hfile, harea.file]
  · rwa [BufArea.sectorAddr_congr harea.sec_bg, harea.buf]

theorem Forgets.keepsAnswers {s t : State} (h : Forgets s t) : KeepsAnswers s t := by
  intro k pf hpf
  obtain ⟨stage, hpf'⟩ := h.known k pf hpf
  exact ⟨_, hpf', rfl, rfl, fun _ hrep => hrep⟩

/-- A step that only forgets, and puts no sector to a second place. -/
theorem Received.of_forgets {s t : State} (h : Received s) (hforget : Forgets s t)
    (horderly : Orderly t) : Received t where
  tasked := ⟨hforget.tasks, hforget.sound⟩
  orderly := horderly
  filled := by
    intro i n len hfilled
    obtain ⟨hold, harea⟩ := hforget.filled i n len hfilled
    exact (h.filled i n len hold).keep hforget.keepsAnswers harea
  awaits := by
    intro i n k hawaits
    obtain ⟨hold, harea⟩ := hforget.awaits i n k hawaits
    obtain ⟨pf, hpf, hok⟩ := h.awaits i n k hold
    obtain ⟨stage, hpf'⟩ := hforget.known k pf hpf
    exact ⟨_, hpf', hok.of_sameArea stage harea⟩
  short := by
    intro k pf rep hpf hrep
    obtain ⟨stage, hpf'⟩ := hforget.requests k pf hpf
    exact h.short k _ rep hpf' hrep
  fresh := by
    intro k hk
    cases hpf : t.prefetches k with
    | none => rfl
    | some pf =>
        obtain ⟨stage, hpf'⟩ := hforget.requests k pf hpf
        rw [h.fresh k (hforget.issued ▸ hk)] at hpf'
        cases hpf'

/-- The buffers and the prefetches are all that counts. -/
theorem Received.congr {s t : State} (h : Received s) (hbufs : t.bufs = s.bufs)
    (hprefetches : t.prefetches = s.prefetches) (hissued : t.issued = s.issued) : Received t := by
  cases t
  dsimp only at hbufs hprefetches hissued
  subst hbufs hprefetches hissued
  exact ⟨⟨h.tasked.tasks, h.tasked.sound⟩, ⟨h.orderly.one, h.orderly.ahead⟩, h.filled, h.awaits,
    h.short, h.fresh⟩

/-- A buffer that keeps its task, waits for nothing new and marks what a callback has copied. -/
theorem Received.setBuf {s : State} (h : Received s) {i : Fin 2} {b : BufArea}
    (harea : SameArea (s.bufs i) b) (htask : b.task = (s.bufs i).task)
    (hcur : b.cur_sec_nr = (s.bufs i).cur_sec_nr)
    (htab : ∀ n k, b.ft_res_tab n = some k → (s.bufs i).ft_res_tab n = some k)
    (hsec : ∀ n len, b.sec_bufferd n = some len → Filled s i n len) :
    Received (s.setBuf i b) := by
  have hsound : b.Sound := by
    obtain ⟨hmax, hge⟩ := h.tasked.sound i
    exact ⟨harea.max_sec ▸ hmax, by rwa [harea.sec_bg, hcur]⟩
  apply h.of_forgets (forgets_setBuf h.tasked harea htask hsound htab hsec)
  exact h.orderly.of_fewer (fewer_setBuf htask hcur htab hsec)

theorem Received.newTask {s : State} (h : Received s) {i : Fin 2} {b : BufArea}
    (htab : ∀ n, b.ft_res_tab n = none) (hsec : ∀ n, b.sec_bufferd n = none)
    (htask : b.task = (s.bufs i).task + 1) (hsound : b.Sound) : Received (s.setBuf i b) := by
  apply h.of_forgets (forgets_newTask h.tasked htab hsec htask hsound)
  exact h.orderly.newTask h.tasked htab hsec htask

theorem Received.setIdle {s : State} (h : Received s) {k : Nat} {pf : Prefetch} {stage : Stage}
    (hpf : s.prefetches k = some pf) (hidle : stage.task? = none) :
    Received (s.setPrefetch k { pf with stage := stage }) := by
  have hforget : Forgets s (s.setPrefetch k { pf with stage := stage }) := by
    apply forgets_setStage h.tasked hpf
    intro n hn
    rw [hidle] at hn
    cases hn
  apply h.of_forgets hforget
  exact h.orderly.of_fewer (fewer_setIdle hidle)

theorem Received.submit {s : State} (h : Received s) {i : Fin 2}
    (hmore : (s.bufs i).cur_sec_nr < (s.bufs i).sec_bg + (s.bufs i).max_sec) :
    Received (s.submit i (s.bufs i).file) := by
  have hsub := submitted h.fresh i
  have hkeep : KeepsAnswers s (s.submit i (s.bufs i).file) := fun k pf hpf =>
    ⟨pf, hsub.known k pf hpf, rfl, rfl, fun _ hrep => hrep⟩
  refine ⟨hsub.tasked h.tasked, h.orderly.submit hsub, ?_, ?_, ?_, hsub.fresh⟩
  · intro j n len hfilled
    exact (h.filled j n len (hsub.filled j n len hfilled)).keep hkeep (hsub.area j)
  · intro j n k hawaits
    rcases hsub.awaits hawaits with hold | ⟨rfl, rfl, rfl⟩
    · obtain ⟨pf, hpf, hok⟩ := h.awaits j n k hold
      exact ⟨pf, hsub.known k pf hpf, hok.of_sameArea pf.stage (hsub.area j)⟩
    · exact ⟨_, hsub.request, hsub.requestOk (h.tasked.sound j) hmore⟩
  · intro k pf rep hpf hrep
    rcases hsub.requests k pf hpf with hold | ⟨-, hnone, -⟩
    · exact h.short k pf rep hold hrep
    · rw [hnone] at hrep
      cases hrep

theorem steady_received : Steady Received where
  sound := fun h => h.tasked.sound
  congr := fun h hbufs hprefetches hissued _ _ _ _ => h.congr hbufs hprefetches hissued
  cursor := fun _ _ h =>
    h.setBuf ⟨rfl, rfl, rfl, rfl⟩ rfl rfl (fun _ _ htab => htab) (fun _ _ hsec => .inl hsec)
  newTask := fun h => h.newTask
  submit := fun h => h.submit

/-! ### The callbacks -/

theorem Received.serve {s : State} (h : Received s) {k : Nat} {pf : Prefetch} {ok : Bool}
    {t : State} (hpf : s.prefetches k = some pf) (hstep : serve s k pf ok = some t) :
    Received t := by
  unfold ReadAhead.serve at hstep
  split at hstep
  next hnone =>
    cases hstep
    generalize hanswer : (if ok = true then some (Reply.mk ((s.files pf.file).read
      (pf.sec_nr * sectorSize) sectorSize) s.clock) else none) = answer
    have hlength : ∀ rep, answer = some rep → rep.bytes.length ≤ sectorSize := by
      intro rep hrep
      cases ok with
      | false =>
          rw [← hanswer] at hrep
          cases hrep
      | true =>
          rw [← hanswer] at hrep
          cases hrep
          exact sectorBytes_length_le (s.files pf.file) pf.sec_nr
    have hkeep : KeepsAnswers s (s.setPrefetch k { pf with reply := some answer }) := by
      intro k' pf' hpf'
      by_cases hk : k' = k
      · subst hk
        rw [hpf] at hpf'
        cases hpf'
        refine ⟨_, Function.update_self .., rfl, rfl, fun rep hrep => ?_⟩
        rw [hnone] at hrep
        cases hrep
      · exact ⟨pf', by simpa only [State.setPrefetch, Function.update_of_ne hk] using hpf', rfl,
          rfl, fun _ hrep => hrep⟩
    refine ⟨⟨?_, h.tasked.sound⟩, h.orderly.of_fewer (fewer_setReply hpf), ?_, ?_, ?_, ?_⟩
    · intro k' pf' n hpf' hn
      obtain ⟨old, hsame, hidx, -, hstage⟩ := request_of_setReply hpf hpf'
      rw [hidx]
      exact h.tasked.tasks k' old n hsame (hstage ▸ hn)
    · intro i n len hfilled
      exact (h.filled i n len (filled_of_setReply hpf hfilled)).keep hkeep (.refl _)
    · intro i n k₁ hawaits
      obtain ⟨pf₁, hpf₁, hok⟩ := h.awaits i n k₁ (awaits_of_setReply hpf hawaits)
      obtain ⟨pf₂, hpf₂, hfile, hnr, -⟩ := hkeep k₁ pf₁ hpf₁
      exact ⟨pf₂, hpf₂, hok.inTask, hfile.trans hok.file_eq, hnr.trans hok.sec_eq,
        fun _ _ => Nat.zero_le _⟩
    · intro k' pf' rep hpf' hrep
      rcases setPrefetch_eq_some hpf' with ⟨rfl, rfl⟩ | ⟨-, hsame⟩
      · exact hlength rep (Option.some.inj hrep)
      · exact h.short k' pf' rep hsame hrep
    · intro k' hk'
      have hne : k' ≠ k := by
        rintro rfl
        rw [h.fresh k' hk'] at hpf
        cases hpf
      simpa only [State.setPrefetch, Function.update_of_ne hne] using h.fresh k' hk'
  next => cases hstep

/-- The callback takes the future out of the table. -/
theorem Orderly.take {s : State} (h : Orderly s) {k k' : Nat} {pf : Prefetch} {b : BufArea}
    (htab : (s.bufs pf.buf_idx).ft_res_tab pf.sec_nr = some k')
    (htaken : b.ft_res_tab = Function.update (s.bufs pf.buf_idx).ft_res_tab pf.sec_nr none)
    (hsec : b.sec_bufferd = (s.bufs pf.buf_idx).sec_bufferd)
    (htask : b.task = (s.bufs pf.buf_idx).task)
    (hcur : b.cur_sec_nr = (s.bufs pf.buf_idx).cur_sec_nr) :
    Orderly ((s.setPrefetch k { pf with stage := .taken k' (s.bufs pf.buf_idx).task }).setBuf
      pf.buf_idx b) := by
  have hkept : ∀ n k₁, b.ft_res_tab n = some k₁ →
      n ≠ pf.sec_nr ∧ (s.bufs pf.buf_idx).ft_res_tab n = some k₁ := by
    intro n k₁ hentry
    rw [htaken] at hentry
    by_cases hn : n = pf.sec_nr
    · rw [hn, Function.update_self] at hentry
      cases hentry
    · rw [Function.update_of_ne hn] at hentry
      exact ⟨hn, hentry⟩
  have hfewer : Fewer (s.setPrefetch k { pf with stage := .taken k' (s.bufs pf.buf_idx).task })
      ((s.setPrefetch k { pf with stage := .taken k' (s.bufs pf.buf_idx).task }).setBuf
        pf.buf_idx b) := by
    apply @fewer_setBuf (s.setPrefetch k _) pf.buf_idx b htask hcur
    · exact fun n k₁ hentry => (hkept n k₁ hentry).2
    · intro n len hmarked
      rw [hsec] at hmarked
      exact .inl hmarked
  apply h.pass (p := .table) (q := .callback k) ⟨k', htab⟩
  · intro j m p hp
    cases p with
    | table =>
        obtain ⟨hold, -⟩ := hfewer j m _ hp
        refine .inr ⟨hold, ?_⟩
        rintro ⟨rfl, rfl, -⟩
        obtain ⟨k₁, hentry⟩ := hp
        rw [setBuf_bufs_self] at hentry
        exact (hkept _ k₁ hentry).1 rfl
    | callback k₁ =>
        obtain ⟨pf', k₂, hpf', hidx, hnr, hstage⟩ := (hfewer j m _ hp).1
        rcases setPrefetch_eq_some hpf' with ⟨rfl, rfl⟩ | ⟨-, hsame⟩
        · exact .inl ⟨hidx.symm, hnr.symm, rfl⟩
        · exact .inr ⟨⟨pf', k₂, hsame, hidx, hnr, hstage⟩, fun hp' => nomatch hp'.2.2⟩
    | area =>
        obtain ⟨len, hmarked | ⟨k₁, pf', hpf', hidx, hnr, hstage⟩⟩ := (hfewer j m _ hp).1
        · exact .inr ⟨⟨len, .inl hmarked⟩, fun hp' => nomatch hp'.2.2⟩
        · rcases setPrefetch_eq_some hpf' with ⟨rfl, rfl⟩ | ⟨-, hsame⟩
          · cases hstage
          · exact .inr ⟨⟨len, .inr ⟨k₁, pf', hsame, hidx, hnr, hstage⟩⟩,
              fun hp' => nomatch hp'.2.2⟩
  · intro j
    by_cases hj : j = pf.buf_idx
    · rw [hj, setBuf_bufs_self, hcur]
    · rw [setBuf_bufs_of_ne hj]
      rfl

theorem Received.check {s t : State} (h : Received s) {k : Nat} {pf : Prefetch}
    (hpf : s.prefetches k = some pf) (hstep : check s k pf = some t) : Received t := by
  have hsound := h.tasked.sound pf.buf_idx
  unfold ReadAhead.check at hstep
  dsimp only at hstep
  generalize ((s.bufs pf.buf_idx).onlink + 2 ^ 64 - 1) % 2 ^ 64 = onlink at hstep
  split at hstep
  next => cases hstep
  split at hstep
  next =>
    cases hstep
    exact h.setIdle hpf rfl
  split at hstep
  next =>
    cases hstep
    have hcount : Received (s.setBuf pf.buf_idx { s.bufs pf.buf_idx with onlink := onlink }) :=
      h.setBuf ⟨rfl, rfl, rfl, rfl⟩ rfl rfl (fun _ _ htab => htab) (fun _ _ hsec => .inl hsec)
    exact hcount.setIdle hpf rfl
  next k' htab =>
    cases hstep
    have htaken : Forgets s (s.setPrefetch k
        { pf with stage := .taken k' (s.bufs pf.buf_idx).task }) := by
      apply forgets_setStage h.tasked hpf
      intro n hn
      cases hn
      exact ⟨rfl, k', rfl, .inl htab⟩
    have hforget := htaken.trans (forgets_setBuf ⟨htaken.tasks, htaken.sound⟩ (i := pf.buf_idx)
      (b := { s.bufs pf.buf_idx with
        onlink := onlink
        ft_res_tab := Function.update (s.bufs pf.buf_idx).ft_res_tab pf.sec_nr none })
      ⟨rfl, rfl, rfl, rfl⟩ rfl ⟨hsound.max_sec_lt, hsound.cur_sec_ge⟩
      (fun n k₁ hentry => ?_) (fun _ _ hsec => .inl hsec))
    · exact h.of_forgets hforget (h.orderly.take htab rfl rfl rfl rfl)
    · dsimp only at hentry
      by_cases hn : n = pf.sec_nr
      · rw [hn, Function.update_self] at hentry
        cases hentry
      · rwa [Function.update_of_ne hn] at hentry

/-- What is copied to another sector of the task leaves this one as it is. -/
theorem HasAnswer.receive {s : State} {b : BufArea} {m n len time : Nat} {bytes : List UInt8}
    (h : HasAnswer s b n len) (hne : n ≠ m) (hin : b.InTask m) (hsound : b.Sound)
    (hshort : bytes.length ≤ sectorSize) : HasAnswer s (b.receive m bytes time) n len := by
  obtain ⟨hin', bytes', ⟨k, pf, time', hpf, hfile, hnr, hrep⟩, hlen, hshort', hholds⟩ := h
  refine ⟨?_, bytes', ⟨k, pf, time', hpf, ?_, hnr, hrep⟩, hlen, hshort', ?_⟩
  · simpa only [BufArea.InTask, receive_sec_bg, receive_max_sec] using hin'
  · rw [hfile, receive_file]
  · rw [BufArea.sectorAddr_congr (receive_sec_bg b m bytes time), receive_buf]
    apply StampedMemory.Holds.store hholds
    rcases Nat.lt_or_gt_of_ne hne with hlt | hgt
    · have hapart := hin'.apart hin hsound hlt
      omega
    · have hapart := hin.apart hin' hsound hgt
      omega

/-- A sector has the answer that was just copied. -/
theorem hasAnswer_receive {s : State} {b : BufArea} {n time : Nat} {bytes : List UInt8}
    (hin : b.InTask n) (hanswer : AnsweredWith s b n bytes) (hshort : bytes.length ≤ sectorSize) :
    HasAnswer s (b.receive n bytes time) n bytes.length := by
  obtain ⟨k, pf, time', hpf, hfile, hnr, hrep⟩ := hanswer
  refine ⟨?_, bytes, ⟨k, pf, time', hpf, ?_, hnr, hrep⟩, rfl, hshort, ?_⟩
  · simpa only [BufArea.InTask, receive_sec_bg, receive_max_sec] using hin
  · rw [hfile, receive_file]
  · rw [BufArea.sectorAddr_congr (receive_sec_bg b n bytes time), receive_buf]
    exact StampedMemory.holds_store (Nat.zero_le time)

/-- An answer goes to the area while a callback holds the sector. -/
theorem Received.receive {s : State} (h : Received s) {i : Fin 2} {n k time : Nat}
    {bytes : List UInt8} (hplace : At s i n (.callback k)) (hin : (s.bufs i).InTask n)
    (hshort : bytes.length ≤ sectorSize) :
    Received (s.setBuf i ((s.bufs i).receive n bytes time)) where
  tasked := by
    refine ⟨?_, sound_setBuf h.tasked.sound ((h.tasked.sound i).receive n bytes time)⟩
    intro k' pf m hpf hm
    have hold := h.tasked.tasks k' pf m hpf hm
    by_cases hj : pf.buf_idx = i
    · rw [hj] at hold ⊢
      simpa only [setBuf_bufs_self, receive_task] using hold
    · simpa only [setBuf_bufs_of_ne hj] using hold
  orderly := by
    apply h.orderly.of_fewer
    apply fewer_setBuf
    · rw [receive_task]
    · rw [receive_cur_sec_nr]
    · intro m k' hentry
      rwa [receive_ft_res_tab] at hentry
    · intro m len hmarked
      rw [receive_sec_bufferd] at hmarked
      exact .inl hmarked
  filled := by
    intro j m len hfilled
    by_cases hj : j = i
    · subst hj
      simp only [Filled, State.setBuf, Function.update_self, receive_sec_bufferd, receive_task]
        at hfilled ⊢
      have hne : m ≠ n := by
        rintro rfl
        exact Place.noConfusion (h.orderly.one hplace ⟨len, hfilled⟩ : Place.callback k = .area)
      exact (h.filled j m len hfilled).receive hne hin (h.tasked.sound j) hshort
    · simp only [Filled, State.setBuf, Function.update_of_ne hj] at hfilled ⊢
      exact h.filled j m len hfilled
  awaits := by
    intro j m k' hawaits
    by_cases hj : j = i
    · subst hj
      simp only [Awaits, State.setBuf, Function.update_self, receive_ft_res_tab, receive_task]
        at hawaits ⊢
      obtain ⟨pf, hpf, hok⟩ := h.awaits j m k' hawaits
      refine ⟨pf, hpf, ?_, ?_, hok.sec_eq, hok.time_le⟩
      · simpa only [BufArea.InTask, receive_sec_bg, receive_max_sec] using hok.inTask
      · rw [receive_file, hok.file_eq]
    · simp only [Awaits, State.setBuf, Function.update_of_ne hj] at hawaits ⊢
      exact h.awaits j m k' hawaits
  short := h.short
  fresh := h.fresh

/-- The callback that has copied an answer holds the sector no longer: the area has it. -/
theorem Orderly.setCopied {s : State} (h : Orderly s) {k k' len : Nat} {pf : Prefetch}
    (hpf : s.prefetches k = some pf) (hstage : pf.stage = .taken k' (s.bufs pf.buf_idx).task) :
    Orderly (s.setPrefetch k { pf with stage := .copied len (s.bufs pf.buf_idx).task }) := by
  apply h.pass (p := .callback k) (q := .area) ⟨pf, k', hpf, rfl, rfl, hstage⟩
  · intro j m p hp
    cases p with
    | table => exact .inr ⟨hp, fun hp' => nomatch hp'.2.2⟩
    | callback k₁ =>
        obtain ⟨pf', k₂, hpf', hidx, hnr, hstage'⟩ := hp
        rcases setPrefetch_eq_some hpf' with ⟨rfl, rfl⟩ | ⟨hne, hsame⟩
        · cases hstage'
        · exact .inr ⟨⟨pf', k₂, hsame, hidx, hnr, hstage'⟩,
            fun hp' => hne (Place.callback.inj hp'.2.2)⟩
    | area =>
        obtain ⟨m', hfilled⟩ := hp
        rcases filled_of_setCopied hfilled with hold | ⟨hj, hm, -⟩
        · exact .inr ⟨⟨m', hold⟩, fun hp' => nomatch hp'.2.2⟩
        · exact .inl ⟨hj, hm, rfl⟩
  · exact fun _ => rfl

theorem Received.setCopied {s : State} (h : Received s) {k k' len : Nat} {pf : Prefetch}
    (hpf : s.prefetches k = some pf) (hstage : pf.stage = .taken k' (s.bufs pf.buf_idx).task)
    (hanswer : HasAnswer s (s.bufs pf.buf_idx) pf.sec_nr len) :
    Received (s.setPrefetch k { pf with stage := .copied len (s.bufs pf.buf_idx).task }) := by
  have hkeep : KeepsAnswers s
      (s.setPrefetch k { pf with stage := .copied len (s.bufs pf.buf_idx).task }) := by
    intro k₁ pf₁ hpf₁
    by_cases hk : k₁ = k
    · subst hk
      rw [hpf] at hpf₁
      cases hpf₁
      exact ⟨_, Function.update_self .., rfl, rfl, fun _ hrep => hrep⟩
    · exact ⟨pf₁, by simpa only [State.setPrefetch, Function.update_of_ne hk] using hpf₁, rfl, rfl,
        fun _ hrep => hrep⟩
  refine ⟨⟨?_, h.tasked.sound⟩, h.orderly.setCopied hpf hstage, ?_, ?_, ?_, ?_⟩
  · intro k₁ pf₁ n hpf₁ hn
    rcases setPrefetch_eq_some hpf₁ with ⟨rfl, rfl⟩ | ⟨-, hsame⟩
    · exact (Option.some.inj hn).ge
    · exact h.tasked.tasks k₁ pf₁ n hsame hn
  · intro i n m hfilled
    rcases filled_of_setCopied hfilled with hold | ⟨rfl, rfl, rfl⟩
    · exact (h.filled i n m hold).keep hkeep (.refl _)
    · exact hanswer.keep hkeep (.refl _)
  · intro i n k₁ hawaits
    obtain ⟨pf₁, hpf₁, hok⟩ := h.awaits i n k₁ (awaits_of_setCopied hawaits)
    obtain ⟨pf₂, hpf₂, hfile, hnr, -⟩ := hkeep k₁ pf₁ hpf₁
    exact ⟨pf₂, hpf₂, hok.inTask, hfile.trans hok.file_eq, hnr.trans hok.sec_eq,
      fun _ _ => Nat.zero_le _⟩
  · intro k₁ pf₁ rep hpf₁ hrep
    rcases setPrefetch_eq_some hpf₁ with ⟨rfl, rfl⟩ | ⟨-, hsame⟩
    · exact h.short k₁ pf rep hpf hrep
    · exact h.short k₁ pf₁ rep hsame hrep
  · intro k₁ hk₁
    have hne : k₁ ≠ k := by
      rintro rfl
      rw [h.fresh k₁ hk₁] at hpf
      cases hpf
    simpa only [State.setPrefetch, Function.update_of_ne hne] using h.fresh k₁ hk₁

theorem Received.copy {s t : State} (h : Received s) {k : Nat} {pf : Prefetch}
    (hpf : s.prefetches k = some pf) (hguard : OnTask s k) (hstep : copy s k pf = some t) :
    Received t := by
  unfold ReadAhead.copy at hstep
  split at hstep
  next k' task hstage =>
    split at hstep
    next rep hrep =>
      cases hstep
      obtain rfl := hguard pf task hpf (by rw [hstage, Stage.task?])
      obtain ⟨pf', hpf', hrep⟩ := Option.bind_eq_some_iff.mp hrep
      obtain ⟨pf₀, hpf₀, hok⟩ := h.awaits _ _ _ (.inr ⟨k, pf, hpf, rfl, rfl, hstage⟩)
      rw [hpf'] at hpf₀
      cases hpf₀
      have hshort := h.short k' pf' rep hpf' hrep
      have hplace : At s pf.buf_idx pf.sec_nr (.callback k) := ⟨pf, k', hpf, rfl, rfl, hstage⟩
      have hanswer : HasAnswer s ((s.bufs pf.buf_idx).receive pf.sec_nr rep.bytes rep.time)
          pf.sec_nr rep.bytes.length :=
        hasAnswer_receive hok.inTask ⟨k', pf', rep.time, hpf', hok.file_eq, hok.sec_eq, hrep⟩ hshort
      have hreceived := @Received.receive s h _ _ k rep.time rep.bytes hplace hok.inTask hshort
      have hcopied := @Received.setCopied _ hreceived k k' rep.bytes.length pf hpf ?_ ?_
      · rw [setBuf_bufs_self, receive_task] at hcopied
        exact hcopied
      · rw [setBuf_bufs_self, receive_task]
        exact hstage
      · rw [setBuf_bufs_self]
        exact hanswer
    next =>
      cases hstep
      exact h.setIdle hpf rfl
  next => cases hstep

theorem Received.mark {s t : State} (h : Received s) {k : Nat} {pf : Prefetch}
    (hpf : s.prefetches k = some pf) (hguard : OnTask s k) (hstep : mark s k pf = some t) :
    Received t := by
  unfold ReadAhead.mark at hstep
  split at hstep
  next len task hstage =>
    cases hstep
    obtain rfl := hguard pf task hpf (by rw [hstage, Stage.task?])
    have hmarked : Received (s.setBuf pf.buf_idx { s.bufs pf.buf_idx with
        sec_bufferd := Function.update (s.bufs pf.buf_idx).sec_bufferd pf.sec_nr (some len) }) := by
      refine h.setBuf ⟨rfl, rfl, rfl, rfl⟩ rfl rfl (fun _ _ htab => htab) fun n m hentry => ?_
      rcases update_eq_some hentry with ⟨rfl, rfl⟩ | ⟨-, hold⟩
      · exact .inr ⟨k, pf, hpf, rfl, rfl, hstage⟩
      · exact .inl hold
    exact hmarked.setIdle hpf rfl
  next => cases hstep

theorem Received.next {cfg : ReadAheadConfig} {s t : State} (h : Received s) {k : Nat}
    {pf : Prefetch} (hpf : s.prefetches k = some pf) (hstep : next cfg s k pf = some t) :
    Received t := by
  unfold ReadAhead.next at hstep
  split at hstep
  next len hstage =>
    cases hstep
    exact steady_received.nextFetch (h.setIdle hpf rfl) pf len
  next => cases hstep

/-- A buffer that is cleared has nothing. -/
theorem Received.clear {s : State} (h : Received s) (i : Fin 2) (to_epoch : Nat) :
    Received (s.setBuf i ((s.bufs i).clear to_epoch)) :=
  h.newTask (fun _ => rfl) (fun _ => rfl) rfl ⟨Nat.two_pow_pos 14, Nat.le_refl 0⟩

theorem Received.startWrite {s t : State} (h : Received s) {w : Nat} {c : WriteCall}
    (hstep : startWrite s w c = some t) : Received t := by
  unfold ReadAhead.startWrite at hstep
  split at hstep
  next => cases hstep
  next =>
    dsimp only at hstep
    split at hstep
    next =>
      cases hstep
      exact h.congr rfl rfl rfl
    next =>
      cases hstep
      exact (h.clear 0 _).congr rfl rfl rfl

theorem Received.writeStep {s t : State} (h : Received s) {w : Nat} {wr : Writer} {a : Act}
    (hstep : writeStep s w wr a = some t) : Received t := by
  unfold ReadAhead.writeStep at hstep
  split at hstep
  next to_epoch _ =>
    cases hstep
    exact (h.clear 1 to_epoch).congr rfl rfl rfl
  next =>
    cases hstep
    exact h.congr rfl rfl rfl
  next =>
    cases hstep
    exact h.congr rfl rfl rfl
  next => cases hstep

/-- `fetch_cache` returns `IN_BUFFER` for the part of the request in this sector: the sector is in
the buffer, and the part does not reach behind the area. -/
def ReturnsInBuffer (b : BufArea) (rd : Reader) : Prop :=
  b.lookup rd.call.rpath (rd.cur_off / sectorSize) = .IN_BUFFER ∧
    b.sectorAddr (rd.cur_off / sectorSize) + rd.cur_off % sectorSize + rd.curSecLeft
      ≤ b.sectorAddr (b.sec_bg + b.max_sec)

theorem hit_of_returnsInBuffer {s : State} {rd : Reader} {i : Fin 2}
    (h : ReturnsInBuffer (s.bufs i) rd) (r : Nat) :
    (hit s r rd i).readers r = some ((rd.copyFrom (s.bufs i)).afterStatus .IN_BUFFER) := by
  have hnot : ¬ (s.bufs i).sectorAddr ((s.bufs i).sec_bg + (s.bufs i).max_sec)
      < (s.bufs i).sectorAddr (rd.cur_off / sectorSize) + rd.cur_off % sectorSize
        + rd.curSecLeft := Nat.not_lt.mpr h.2
  simp only [hit, if_neg hnot, State.setReader, Function.update_self]

/-- Both the immediate path and the path behind `wait_sector` then copy from the buffer. -/
theorem readStep_of_returnsInBuffer {cfg : ReadAheadConfig} {s : State} {rd : Reader} {i : Fin 2}
    (h : ReturnsInBuffer (s.bufs i) rd) (r : Nat) {a : Act}
    (hat : (∃ ub, a = .fetch r ub) ∧ rd.pc = .fetch i ∨ a = .woken r true ∧ rd.pc = .waiting i) :
    ∃ t, readStep cfg s r rd a = some t ∧
      t.readers r = some ((rd.copyFrom (s.bufs i)).afterStatus .IN_BUFFER) := by
  refine ⟨hit s r rd i, ?_, hit_of_returnsInBuffer h r⟩
  rcases hat with ⟨⟨ub, rfl⟩, hpc⟩ | ⟨rfl, hpc⟩
  · simp only [readStep, hpc, fetchCache, h.1]
  · simp only [readStep, hpc, woken, h.1, and_self, if_true]

section Runs

attribute [local semireducible] sectorSize BufArea.sectorAddr

end Runs

end Gvds.ReadAhead
