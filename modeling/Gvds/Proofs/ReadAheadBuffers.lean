/-
Module: Gvds.Proofs.ReadAheadBuffers
Layer: Proofs
Purpose: What the two read-ahead buffers hold. As long as callbacks copy and mark on the task whose
  future they took, a write finds its file in the first buffer or in neither one, and no prefetch of
  a file is served between the clearing and the execution of a write, every buffered sector is what
  the IO proxy has now, read since the last write on the file.
Imports: Gvds.Lib.Machine, Gvds.Client.ReadAhead, Mathlib.Tactic.Basic
Trusted boundary: as Gvds.Client.ReadAhead
Main exports: Synced, Steady, BuffersOk, synced_step, synced_of_guarded
-/
import Gvds.Lib.Machine
import Gvds.Client.ReadAhead
import Mathlib.Tactic.Basic

namespace Gvds.ReadAhead

open WriteBehind (FileName WriteCall)

/-! ### What the buffers refer to -/

/-- The sector belongs to the task of the buffer. -/
def BufArea.InTask (b : BufArea) (sec_nr : Nat) : Prop :=
  b.sec_bg ≤ sec_nr ∧ sec_nr < b.sec_bg + b.max_sec

/-- The area is as large as its configuration allows, and no sector before the task is fetched. -/
structure BufArea.Sound (b : BufArea) : Prop where
  max_sec_lt : b.max_sec < 2 ^ 14
  cur_sec_ge : b.sec_bg ≤ b.cur_sec_nr

/-- The task under which a callback holds a future or has copied a reply. -/
def Stage.task? : Stage → Option Nat
  | .taken _ task => some task
  | .copied _ task => some task
  | _ => none

/-- Buffer `i` waits for prefetch `k` to fill the sector: its table has the future, or a callback on
its task has taken it. -/
def Awaits (s : State) (i : Fin 2) (sec_nr k : Nat) : Prop :=
  (s.bufs i).ft_res_tab sec_nr = some k ∨ ∃ k' pf, s.prefetches k' = some pf ∧ pf.buf_idx = i ∧
    pf.sec_nr = sec_nr ∧ pf.stage = .taken k (s.bufs i).task

/-- The sector is in buffer `i` with `len` bytes: it is marked, or a callback on its task is about
to mark it. -/
def Filled (s : State) (i : Fin 2) (sec_nr len : Nat) : Prop :=
  (s.bufs i).sec_bufferd sec_nr = some len ∨ ∃ k pf, s.prefetches k = some pf ∧ pf.buf_idx = i ∧
    pf.sec_nr = sec_nr ∧ pf.stage = .copied len (s.bufs i).task

/-- What the IO proxy has in a sector. -/
def sectorBytes (file : ByteFile) (sec_nr : Nat) : List UInt8 :=
  file.read (sec_nr * sectorSize) sectorSize

/-- The sector in the buffer is that of the file, read since the last write on it. -/
structure SectorOk (files : FileName → ByteFile) (written : FileName → Nat) (b : BufArea)
    (sec_nr len : Nat) : Prop where
  inTask : b.InTask sec_nr
  len_eq : len = (sectorBytes (files b.file) sec_nr).length
  holds : b.buf.Holds (b.sectorAddr sec_nr) (sectorBytes (files b.file) sec_nr) (written b.file)

/-- The prefetch asks for the sector of the buffer; if it is answered, the read was made since the
last write on the file. -/
structure RequestOk (written : FileName → Nat) (b : BufArea) (sec_nr : Nat) (pf : Prefetch) :
    Prop where
  inTask : b.InTask sec_nr
  file_eq : pf.file = b.file
  sec_eq : pf.sec_nr = sec_nr
  time_le : ∀ rep, pf.reply = some (some rep) → written pf.file ≤ rep.time

/-- Buffer `i` has nothing of the file, and nothing that it waits for is answered. -/
def Quiet (s : State) (i : Fin 2) (file : FileName) : Prop :=
  (s.bufs i).file = file → (∀ sec_nr len, ¬ Filled s i sec_nr len) ∧
    ∀ sec_nr k pf, Awaits s i sec_nr k → s.prefetches k = some pf → pf.reply = none

/-- The write has begun and the IO proxy has not executed it. -/
def WriteStage.Pending : WriteStage → Prop
  | .clearing _ => True
  | .sent => True
  | _ => False

/-- The write is pending and has been through `clear_buf` for buffer `i`. -/
def Writer.Cleared (wr : Writer) (i : Fin 2) : Prop :=
  wr.stage = .sent ∨ i = 0 ∧ wr.stage.Pending

theorem Writer.Cleared.pending {wr : Writer} {i : Fin 2} (h : wr.Cleared i) : wr.stage.Pending := by
  rcases h with hsent | ⟨_, hpending⟩
  · rw [hsent]
    trivial
  · exact hpending

/-- The read-ahead is in step with the IO proxies. -/
structure Synced (s : State) : Prop where
  filled : ∀ i sec_nr len, Filled s i sec_nr len → SectorOk s.files s.written (s.bufs i) sec_nr len
  awaits : ∀ i sec_nr k, Awaits s i sec_nr k →
    ∃ pf, s.prefetches k = some pf ∧ RequestOk s.written (s.bufs i) sec_nr pf
  replies : ∀ k pf rep, s.prefetches k = some pf → pf.reply = some (some rep) →
    rep.time ≤ s.clock ∧
      (s.written pf.file ≤ rep.time → rep.bytes = sectorBytes (s.files pf.file) pf.sec_nr)
  fresh : ∀ k, s.issued ≤ k → s.prefetches k = none
  tasks : ∀ k pf n, s.prefetches k = some pf → pf.stage.task? = some n →
    n ≤ (s.bufs pf.buf_idx).task
  sound : ∀ i, (s.bufs i).Sound
  quiet : ∀ w wr i, s.writers w = some wr → wr.Cleared i → Quiet s i (writeFile wr.call)
  written_le : ∀ f, s.written f ≤ s.clock

theorem synced_start (files : FileName → ByteFile) : Synced (start files) where
  filled := by
    rintro i sec_nr len (hmarked | ⟨k, pf, hpf, -⟩)
    · cases hmarked
    · cases hpf
  awaits := by
    rintro i sec_nr k (htab | ⟨k', pf, hpf, -⟩)
    · cases htab
    · cases hpf
  replies := fun _ _ _ hpf => by cases hpf
  fresh := fun _ _ => rfl
  tasks := fun _ _ _ hpf => by cases hpf
  sound := fun _ => ⟨Nat.two_pow_pos 14, Nat.le_refl 0⟩
  quiet := fun _ _ _ hw => by cases hw
  written_le := fun _ => Nat.le_refl 0

/-- Within a task the address of a sector is not cut to 64 bits. -/
theorem BufArea.InTask.sectorAddr {b : BufArea} {sec_nr : Nat} (h : b.InTask sec_nr)
    (hsmall : b.max_sec < 2 ^ 14) : b.sectorAddr sec_nr = (sec_nr - b.sec_bg) * sectorSize := by
  obtain ⟨hge, hlt⟩ := h
  have hdist : (sec_nr + 2 ^ 64 - b.sec_bg) % 2 ^ 64 = sec_nr - b.sec_bg := by omega
  unfold BufArea.sectorAddr
  rw [hdist, Nat.mod_eq_of_lt]
  unfold sectorSize
  omega

/-! ### Steps that only forget -/

/-- The parts of a buffer that say what its sectors are. -/
structure SameArea (b b' : BufArea) : Prop where
  file : b'.file = b.file
  sec_bg : b'.sec_bg = b.sec_bg
  max_sec : b'.max_sec = b.max_sec
  buf : b'.buf = b.buf

theorem SameArea.refl (b : BufArea) : SameArea b b := ⟨rfl, rfl, rfl, rfl⟩

/-- `t` refers to no request and no sector that `s` does not refer to, and nothing but the state of
buffers and callbacks has changed. -/
structure Forgets (s t : State) : Prop where
  filled : ∀ i sec_nr len, Filled t i sec_nr len →
    Filled s i sec_nr len ∧ SameArea (s.bufs i) (t.bufs i)
  awaits : ∀ i sec_nr k, Awaits t i sec_nr k →
    Awaits s i sec_nr k ∧ SameArea (s.bufs i) (t.bufs i)
  requests : ∀ k pf, t.prefetches k = some pf → ∃ stage, s.prefetches k = some { pf with stage := stage }
  known : ∀ k pf, s.prefetches k = some pf → ∃ stage, t.prefetches k = some { pf with stage := stage }
  tasks : ∀ k pf n, t.prefetches k = some pf → pf.stage.task? = some n →
    n ≤ (t.bufs pf.buf_idx).task
  sound : ∀ i, (t.bufs i).Sound
  issued : t.issued = s.issued
  writers : t.writers = s.writers
  files : t.files = s.files
  clock : t.clock = s.clock
  written : t.written = s.written

theorem SameArea.trans {b b' b'' : BufArea} (h : SameArea b b') (h' : SameArea b' b'') :
    SameArea b b'' :=
  ⟨h'.file.trans h.file, h'.sec_bg.trans h.sec_bg, h'.max_sec.trans h.max_sec, h'.buf.trans h.buf⟩

theorem Forgets.trans {s t u : State} (hst : Forgets s t) (htu : Forgets t u) : Forgets s u where
  filled := by
    intro i n len hfilled
    obtain ⟨hmid, harea'⟩ := htu.filled i n len hfilled
    obtain ⟨hold, harea⟩ := hst.filled i n len hmid
    exact ⟨hold, harea.trans harea'⟩
  awaits := by
    intro i n k hawaits
    obtain ⟨hmid, harea'⟩ := htu.awaits i n k hawaits
    obtain ⟨hold, harea⟩ := hst.awaits i n k hmid
    exact ⟨hold, harea.trans harea'⟩
  requests := by
    intro k pf hpf
    obtain ⟨stage, hmid⟩ := htu.requests k pf hpf
    obtain ⟨stage', hold⟩ := hst.requests k _ hmid
    exact ⟨stage', hold⟩
  known := by
    intro k pf hpf
    obtain ⟨stage, hmid⟩ := hst.known k pf hpf
    obtain ⟨stage', hnew⟩ := htu.known k _ hmid
    exact ⟨stage', hnew⟩
  tasks := htu.tasks
  sound := htu.sound
  issued := htu.issued.trans hst.issued
  writers := htu.writers.trans hst.writers
  files := htu.files.trans hst.files
  clock := htu.clock.trans hst.clock
  written := htu.written.trans hst.written

theorem SectorOk.of_sameArea {files : FileName → ByteFile} {written : FileName → Nat}
    {b b' : BufArea} {sec_nr len : Nat} (h : SectorOk files written b sec_nr len)
    (harea : SameArea b b') : SectorOk files written b' sec_nr len := by
  obtain ⟨hfile, hbg, hmax, hbuf⟩ := harea
  refine ⟨?_, ?_, ?_⟩
  · simpa only [BufArea.InTask, hbg, hmax] using h.inTask
  · simpa only [hfile] using h.len_eq
  · simpa only [BufArea.sectorAddr, hfile, hbg, hbuf] using h.holds

theorem RequestOk.of_sameArea {written : FileName → Nat} {b b' : BufArea} {sec_nr : Nat}
    {pf : Prefetch} (stage : Stage) (h : RequestOk written b sec_nr pf) (harea : SameArea b b') :
    RequestOk written b' sec_nr { pf with stage := stage } where
  inTask := by simpa only [BufArea.InTask, harea.sec_bg, harea.max_sec] using h.inTask
  file_eq := h.file_eq.trans harea.file.symm
  sec_eq := h.sec_eq
  time_le := h.time_le

theorem Quiet.of_forgets {s t : State} {i : Fin 2} {file : FileName} (h : Quiet s i file)
    (hforget : Forgets s t) : Quiet t i file := by
  intro hfile
  refine ⟨fun sec_nr len hfilled => ?_, fun sec_nr k pf hawaits hpf => ?_⟩
  · obtain ⟨hold, harea⟩ := hforget.filled i sec_nr len hfilled
    exact (h (harea.file.symm.trans hfile)).1 sec_nr len hold
  · obtain ⟨hold, harea⟩ := hforget.awaits i sec_nr k hawaits
    obtain ⟨stage, hpf'⟩ := hforget.requests k pf hpf
    have hnone := (h (harea.file.symm.trans hfile)).2 sec_nr k { pf with stage := stage } hold hpf'
    exact hnone

/-- A step that only forgets keeps the read-ahead in step. -/
theorem Synced.of_forgets {s t : State} (h : Synced s) (hforget : Forgets s t) : Synced t where
  filled := by
    intro i sec_nr len hfilled
    obtain ⟨hold, harea⟩ := hforget.filled i sec_nr len hfilled
    rw [hforget.files, hforget.written]
    exact (h.filled i sec_nr len hold).of_sameArea harea
  awaits := by
    intro i sec_nr k hawaits
    obtain ⟨hold, harea⟩ := hforget.awaits i sec_nr k hawaits
    obtain ⟨pf, hpf, hok⟩ := h.awaits i sec_nr k hold
    obtain ⟨stage, hpf'⟩ := hforget.known k pf hpf
    rw [hforget.written]
    exact ⟨_, hpf', hok.of_sameArea stage harea⟩
  replies := by
    intro k pf rep hpf hrep
    obtain ⟨stage, hpf'⟩ := hforget.requests k pf hpf
    have hold := h.replies k _ rep hpf' hrep
    simpa only [hforget.files, hforget.clock, hforget.written] using hold
  fresh := by
    intro k hk
    cases hpf : t.prefetches k with
    | none => rfl
    | some pf =>
        obtain ⟨stage, hpf'⟩ := hforget.requests k pf hpf
        rw [h.fresh k (hforget.issued ▸ hk)] at hpf'
        cases hpf'
  tasks := hforget.tasks
  sound := hforget.sound
  quiet := by
    intro w wr i hw hcleared
    rw [hforget.writers] at hw
    exact (h.quiet w wr i hw hcleared).of_forgets hforget
  written_le := by
    rw [hforget.written, hforget.clock]
    exact h.written_le

/-- What a table has after an entry is replaced. -/
theorem update_eq_some {β : Type*} {f : Nat → Option β} {k k' : Nat} {x y : β}
    (h : Function.update f k (some x) k' = some y) : k' = k ∧ y = x ∨ k' ≠ k ∧ f k' = some y := by
  by_cases hk : k' = k
  · rw [hk, Function.update_self, Option.some.injEq] at h
    exact .inl ⟨hk, h.symm⟩
  · rw [Function.update_of_ne hk] at h
    exact .inr ⟨hk, h⟩

theorem setPrefetch_eq_some {s : State} {k k' : Nat} {pf pf' : Prefetch}
    (h : (s.setPrefetch k pf).prefetches k' = some pf') :
    k' = k ∧ pf' = pf ∨ k' ≠ k ∧ s.prefetches k' = some pf' :=
  update_eq_some h

theorem setWriter_eq_some {s : State} {w w' : Nat} {wr wr' : Writer}
    (h : (s.setWriter w wr).writers w' = some wr') :
    w' = w ∧ wr' = wr ∨ w' ≠ w ∧ s.writers w' = some wr' :=
  update_eq_some h

@[simp] theorem setBuf_bufs_self (s : State) (i : Fin 2) (b : BufArea) :
    (s.setBuf i b).bufs i = b := by
  simp [State.setBuf]

theorem setBuf_bufs_of_ne {i j : Fin 2} (hj : j ≠ i) (s : State) (b : BufArea) :
    (s.setBuf i b).bufs j = s.bufs j := by
  simp [State.setBuf, hj]

theorem sound_setBuf {s : State} (h : ∀ j, (s.bufs j).Sound) {i : Fin 2} {b : BufArea}
    (hb : b.Sound) (j : Fin 2) : ((s.setBuf i b).bufs j).Sound := by
  by_cases hj : j = i
  · rw [hj, setBuf_bufs_self]
    exact hb
  · rw [setBuf_bufs_of_ne hj]
    exact h j

/-- No callback is ahead of its buffer, and the areas are sound. -/
structure Tasked (s : State) : Prop where
  tasks : ∀ k pf n, s.prefetches k = some pf → pf.stage.task? = some n →
    n ≤ (s.bufs pf.buf_idx).task
  sound : ∀ i, (s.bufs i).Sound

theorem Synced.tasked {s : State} (h : Synced s) : Tasked s := ⟨h.tasks, h.sound⟩

/-- A buffer that keeps its task, waits for nothing new and marks what a callback has copied only
forgets. -/
theorem forgets_setBuf {s : State} (h : Tasked s) {i : Fin 2} {b : BufArea}
    (harea : SameArea (s.bufs i) b) (htask : b.task = (s.bufs i).task) (hsound : b.Sound)
    (htab : ∀ sec_nr k, b.ft_res_tab sec_nr = some k → (s.bufs i).ft_res_tab sec_nr = some k)
    (hsec : ∀ sec_nr len, b.sec_bufferd sec_nr = some len → Filled s i sec_nr len) :
    Forgets s (s.setBuf i b) where
  filled := by
    intro j sec_nr len hfilled
    by_cases hj : j = i
    · subst hj
      simp only [Filled, State.setBuf, Function.update_self, htask] at hfilled ⊢
      exact ⟨hfilled.elim (hsec sec_nr len) .inr, harea⟩
    · simp only [Filled, State.setBuf, Function.update_of_ne hj] at hfilled ⊢
      exact ⟨hfilled, .refl _⟩
  awaits := by
    intro j sec_nr k hawaits
    by_cases hj : j = i
    · subst hj
      simp only [Awaits, State.setBuf, Function.update_self, htask] at hawaits ⊢
      exact ⟨hawaits.imp_left (htab sec_nr k), harea⟩
    · simp only [Awaits, State.setBuf, Function.update_of_ne hj] at hawaits ⊢
      exact ⟨hawaits, .refl _⟩
  requests := fun _ pf hpf => ⟨pf.stage, hpf⟩
  known := fun _ pf hpf => ⟨pf.stage, hpf⟩
  tasks := by
    intro k pf n hpf hn
    have hold := h.tasks k pf n hpf hn
    by_cases hj : pf.buf_idx = i
    · simpa only [State.setBuf, hj, Function.update_self, htask] using hj ▸ hold
    · simpa only [State.setBuf, Function.update_of_ne hj] using hold
  sound := sound_setBuf h.sound hsound
  issued := rfl
  writers := rfl
  files := rfl
  clock := rfl
  written := rfl

/-- A buffer that is emptied for a new task only forgets: callbacks on the old task are cut off. -/
theorem forgets_newTask {s : State} (h : Tasked s) {i : Fin 2} {b : BufArea}
    (htab : ∀ sec_nr, b.ft_res_tab sec_nr = none) (hsec : ∀ sec_nr, b.sec_bufferd sec_nr = none)
    (htask : b.task = (s.bufs i).task + 1) (hsound : b.Sound) :
    Forgets s (s.setBuf i b) where
  filled := by
    intro j sec_nr len hfilled
    by_cases hj : j = i
    · subst hj
      simp only [Filled, State.setBuf, Function.update_self] at hfilled
      rcases hfilled with hmarked | ⟨k, pf, hpf, rfl, -, hstage⟩
      · rw [hsec] at hmarked
        cases hmarked
      · have hle := h.tasks k pf b.task hpf (by rw [hstage, Stage.task?])
        omega
    · simp only [Filled, State.setBuf, Function.update_of_ne hj] at hfilled ⊢
      exact ⟨hfilled, .refl _⟩
  awaits := by
    intro j sec_nr k hawaits
    by_cases hj : j = i
    · subst hj
      simp only [Awaits, State.setBuf, Function.update_self] at hawaits
      rcases hawaits with hentry | ⟨k', pf, hpf, rfl, -, hstage⟩
      · rw [htab] at hentry
        cases hentry
      · have hle := h.tasks k' pf b.task hpf (by rw [hstage, Stage.task?])
        omega
    · simp only [Awaits, State.setBuf, Function.update_of_ne hj] at hawaits ⊢
      exact ⟨hawaits, .refl _⟩
  requests := fun _ pf hpf => ⟨pf.stage, hpf⟩
  known := fun _ pf hpf => ⟨pf.stage, hpf⟩
  tasks := by
    intro k pf n hpf hn
    have hold := h.tasks k pf n hpf hn
    by_cases hj : pf.buf_idx = i
    · rw [hj] at hold
      simp only [State.setBuf, hj, Function.update_self, htask]
      omega
    · simpa only [State.setBuf, Function.update_of_ne hj] using hold
  sound := sound_setBuf h.sound hsound
  issued := rfl
  writers := rfl
  files := rfl
  clock := rfl
  written := rfl

/-- A callback that goes on only forgets, if it holds no future but one that its buffer waits
for. -/
theorem forgets_setStage {s : State} (h : Tasked s) {k : Nat} {pf : Prefetch} {stage : Stage}
    (hpf : s.prefetches k = some pf)
    (hstage : ∀ n, stage.task? = some n → n = (s.bufs pf.buf_idx).task ∧
      ∃ k', stage = .taken k' n ∧ Awaits s pf.buf_idx pf.sec_nr k') :
    Forgets s (s.setPrefetch k { pf with stage := stage }) where
  filled := by
    rintro i sec_nr len (hmarked | ⟨k', pf', hpf', hidx, hnr, hcopied⟩)
    · exact ⟨.inl hmarked, .refl _⟩
    · rcases setPrefetch_eq_some hpf' with ⟨-, rfl⟩ | ⟨-, hsame⟩
      · have hcopied : stage = .copied len (s.bufs i).task := hcopied
        obtain ⟨-, k₀, htaken, -⟩ := hstage (s.bufs i).task (by rw [hcopied, Stage.task?])
        rw [hcopied] at htaken
        cases htaken
      · exact ⟨.inr ⟨k', pf', hsame, hidx, hnr, hcopied⟩, .refl _⟩
  awaits := by
    rintro i sec_nr k₁ (hentry | ⟨k', pf', hpf', rfl, rfl, htaken⟩)
    · exact ⟨.inl hentry, .refl _⟩
    · rcases setPrefetch_eq_some hpf' with ⟨-, rfl⟩ | ⟨-, hsame⟩
      · have htaken : stage = .taken k₁ (s.bufs pf.buf_idx).task := htaken
        obtain ⟨-, k₀, htaken', hold⟩ :=
          hstage (s.bufs pf.buf_idx).task (by rw [htaken, Stage.task?])
        rw [htaken] at htaken'
        cases htaken'
        exact ⟨hold, .refl _⟩
      · exact ⟨.inr ⟨k', pf', hsame, rfl, rfl, htaken⟩, .refl _⟩
  requests := by
    intro k' pf' hpf'
    rcases setPrefetch_eq_some hpf' with ⟨rfl, rfl⟩ | ⟨-, hsame⟩
    · exact ⟨pf.stage, hpf⟩
    · exact ⟨pf'.stage, hsame⟩
  known := by
    intro k' pf' hpf'
    by_cases hk : k' = k
    · subst hk
      rw [hpf] at hpf'
      cases hpf'
      exact ⟨stage, by simp only [State.setPrefetch, Function.update_self]⟩
    · exact ⟨pf'.stage, by simpa only [State.setPrefetch, Function.update_of_ne hk] using hpf'⟩
  tasks := by
    intro k' pf' n hpf' hn
    rcases setPrefetch_eq_some hpf' with ⟨-, rfl⟩ | ⟨-, hsame⟩
    · exact (hstage n hn).1.le
    · exact h.tasks k' pf' n hsame hn
  sound := h.sound
  issued := rfl
  writers := rfl
  files := rfl
  clock := rfl
  written := rfl

/-! ### Steps that add something -/

/-- The buffers, the prefetches, the writers and the files are all that counts. -/
theorem Synced.congr {s t : State} (h : Synced s) (hbufs : t.bufs = s.bufs)
    (hprefetches : t.prefetches = s.prefetches) (hissued : t.issued = s.issued)
    (hwriters : t.writers = s.writers) (hfiles : t.files = s.files) (hclock : t.clock = s.clock)
    (hwritten : t.written = s.written) : Synced t := by
  cases t
  dsimp only at hbufs hprefetches hissued hwriters hfiles hclock hwritten
  subst hbufs hprefetches hissued hwriters hfiles hclock hwritten
  exact ⟨h.filled, h.awaits, h.replies, h.fresh, h.tasks, h.sound, h.quiet, h.written_le⟩

/-- A write call may move to a stage for which the buffers are quiet. -/
theorem Synced.setWriter {s : State} (h : Synced s) {w : Nat} {wr : Writer}
    (hquiet : ∀ i, wr.Cleared i → Quiet s i (writeFile wr.call)) : Synced (s.setWriter w wr) where
  filled := h.filled
  awaits := h.awaits
  replies := h.replies
  fresh := h.fresh
  tasks := h.tasks
  sound := h.sound
  quiet := by
    intro w' wr' i hw' hcleared
    rcases setWriter_eq_some hw' with ⟨rfl, rfl⟩ | ⟨-, hsame⟩
    · exact hquiet i hcleared
    · exact h.quiet w' wr' i hsame hcleared
  written_le := h.written_le

/-- A prefetch that is answered stays what it is, and so does its callback. -/
theorem request_of_setReply {s : State} {k k' : Nat} {pf pf' : Prefetch} {answer : Option Reply}
    (hpf : s.prefetches k = some pf)
    (hpf' : (s.setPrefetch k { pf with reply := some answer }).prefetches k' = some pf') :
    ∃ old, s.prefetches k' = some old ∧ pf'.buf_idx = old.buf_idx ∧ pf'.sec_nr = old.sec_nr ∧
      pf'.stage = old.stage := by
  rcases setPrefetch_eq_some hpf' with ⟨rfl, rfl⟩ | ⟨-, hsame⟩
  · exact ⟨pf, hpf, rfl, rfl, rfl⟩
  · exact ⟨pf', hsame, rfl, rfl, rfl⟩

theorem filled_of_setReply {s : State} {k : Nat} {pf : Prefetch} {answer : Option Reply}
    (hpf : s.prefetches k = some pf) {i : Fin 2} {sec_nr len : Nat}
    (h : Filled (s.setPrefetch k { pf with reply := some answer }) i sec_nr len) :
    Filled s i sec_nr len := by
  rcases h with hmarked | ⟨k', pf', hpf', hidx, hnr, hstage⟩
  · exact .inl hmarked
  · obtain ⟨old, hsame, hidx', hnr', hstage'⟩ := request_of_setReply hpf hpf'
    exact .inr ⟨k', old, hsame, hidx' ▸ hidx, hnr' ▸ hnr, hstage' ▸ hstage⟩

theorem awaits_of_setReply {s : State} {k : Nat} {pf : Prefetch} {answer : Option Reply}
    (hpf : s.prefetches k = some pf) {i : Fin 2} {sec_nr k₁ : Nat}
    (h : Awaits (s.setPrefetch k { pf with reply := some answer }) i sec_nr k₁) :
    Awaits s i sec_nr k₁ := by
  rcases h with hentry | ⟨k', pf', hpf', hidx, hnr, hstage⟩
  · exact .inl hentry
  · obtain ⟨old, hsame, hidx', hnr', hstage'⟩ := request_of_setReply hpf hpf'
    exact .inr ⟨k', old, hsame, hidx' ▸ hidx, hnr' ▸ hnr, hstage' ▸ hstage⟩

/-- An IO proxy answers a prefetch while no write on its file is pending. -/
theorem Synced.serve {s : State} (h : Synced s) {k : Nat} {pf : Prefetch} {answer : Option Reply}
    (hpf : s.prefetches k = some pf)
    (hanswer : ∀ rep, answer = some rep →
      rep = ⟨sectorBytes (s.files pf.file) pf.sec_nr, s.clock⟩)
    (hidle : ∀ w wr, s.writers w = some wr → writeFile wr.call = pf.file → ¬ wr.stage.Pending) :
    Synced (s.setPrefetch k { pf with reply := some answer }) := by
  exact {
    filled := fun i sec_nr len hnew =>
      h.filled i sec_nr len (filled_of_setReply hpf hnew)
    awaits := by
      intro i sec_nr k₁ hnew
      obtain ⟨pf₁, hpf₁, hok⟩ := h.awaits i sec_nr k₁ (awaits_of_setReply hpf hnew)
      by_cases hk : k₁ = k
      · subst hk
        rw [hpf] at hpf₁
        cases hpf₁
        refine ⟨{ pf with reply := some answer }, Function.update_self .., hok.inTask, hok.file_eq,
          hok.sec_eq, fun rep hrep => ?_⟩
        rw [hanswer rep (Option.some.inj hrep)]
        exact h.written_le _
      · exact ⟨pf₁, by simpa only [State.setPrefetch, Function.update_of_ne hk] using hpf₁, hok⟩
    replies := by
      intro k' pf' rep hpf' hrep
      rcases setPrefetch_eq_some hpf' with ⟨rfl, rfl⟩ | ⟨-, hsame⟩
      · rw [hanswer rep (Option.some.inj hrep)]
        exact ⟨Nat.le_refl _, fun _ => rfl⟩
      · exact h.replies k' pf' rep hsame hrep
    fresh := by
      intro k' hk'
      have hne : k' ≠ k := by
        rintro rfl
        rw [h.fresh k' hk'] at hpf
        cases hpf
      simpa only [State.setPrefetch, Function.update_of_ne hne] using h.fresh k' hk'
    tasks := by
      intro k' pf' n hpf' hn
      obtain ⟨old, hsame, hidx, -, hstage⟩ := request_of_setReply hpf hpf'
      rw [hidx]
      exact h.tasks k' old n hsame (hstage ▸ hn)
    sound := h.sound
    quiet := by
      intro w wr i hw hcleared hfile
      obtain ⟨hnone, hunanswered⟩ := h.quiet w wr i hw hcleared hfile
      refine ⟨fun sec_nr len hnew => hnone sec_nr len (filled_of_setReply hpf hnew), ?_⟩
      intro sec_nr k₁ pf₁ hnew hpf₁
      have hold₁ := awaits_of_setReply hpf hnew
      rcases setPrefetch_eq_some hpf₁ with ⟨rfl, -⟩ | ⟨-, hsame⟩
      · obtain ⟨pf₀, hpf₀, hok⟩ := h.awaits i sec_nr k₁ hold₁
        rw [hpf] at hpf₀
        cases hpf₀
        exact absurd hcleared.pending (hidle w wr hw (hfile.symm.trans hok.file_eq.symm))
      · exact hunanswered sec_nr k₁ pf₁ hold₁ hsame
    written_le := h.written_le }

theorem sectorBytes_length_le (file : ByteFile) (sec_nr : Nat) :
    (sectorBytes file sec_nr).length ≤ sectorSize := by
  rw [sectorBytes, ByteFile.read_length]
  exact Nat.min_le_left _ _

theorem BufArea.sectorAddr_congr {b b' : BufArea} (h : b'.sec_bg = b.sec_bg) (sec_nr : Nat) :
    b'.sectorAddr sec_nr = b.sectorAddr sec_nr := by
  rw [BufArea.sectorAddr, BufArea.sectorAddr, h]

/-- The sectors of a task do not overlap. -/
theorem BufArea.InTask.apart {b : BufArea} {m n : Nat} (hm : b.InTask m) (hn : b.InTask n)
    (hsound : b.Sound) (hlt : m < n) : b.sectorAddr m + sectorSize ≤ b.sectorAddr n := by
  rw [hm.sectorAddr hsound.max_sec_lt, hn.sectorAddr hsound.max_sec_lt]
  have hge := hm.1
  calc (m - b.sec_bg) * sectorSize + sectorSize = (m - b.sec_bg + 1) * sectorSize := by
        rw [Nat.add_mul, Nat.one_mul]
    _ ≤ (n - b.sec_bg) * sectorSize := Nat.mul_le_mul_right _ (by omega)

@[simp] theorem receive_file (b : BufArea) (n : Nat) (bytes : List UInt8) (time : Nat) :
    (b.receive n bytes time).file = b.file := by
  rw [BufArea.receive]

@[simp] theorem receive_sec_bg (b : BufArea) (n : Nat) (bytes : List UInt8) (time : Nat) :
    (b.receive n bytes time).sec_bg = b.sec_bg := by
  rw [BufArea.receive]

@[simp] theorem receive_max_sec (b : BufArea) (n : Nat) (bytes : List UInt8) (time : Nat) :
    (b.receive n bytes time).max_sec = b.max_sec := by
  rw [BufArea.receive]

@[simp] theorem receive_task (b : BufArea) (n : Nat) (bytes : List UInt8) (time : Nat) :
    (b.receive n bytes time).task = b.task := by
  rw [BufArea.receive]

@[simp] theorem receive_ft_res_tab (b : BufArea) (n : Nat) (bytes : List UInt8) (time : Nat) :
    (b.receive n bytes time).ft_res_tab = b.ft_res_tab := by
  rw [BufArea.receive]

@[simp] theorem receive_sec_bufferd (b : BufArea) (n : Nat) (bytes : List UInt8) (time : Nat) :
    (b.receive n bytes time).sec_bufferd = b.sec_bufferd := by
  rw [BufArea.receive]

@[simp] theorem receive_cur_sec_nr (b : BufArea) (n : Nat) (bytes : List UInt8) (time : Nat) :
    (b.receive n bytes time).cur_sec_nr = b.cur_sec_nr := by
  rw [BufArea.receive]

theorem receive_buf (b : BufArea) (n : Nat) (bytes : List UInt8) (time : Nat) :
    (b.receive n bytes time).buf = b.buf.store (b.sectorAddr n) bytes (some time) := by
  rw [BufArea.receive]

/-- The sector that was just copied holds what was copied. -/
theorem sectorOk_receive {files : FileName → ByteFile} {written : FileName → Nat} {b : BufArea}
    {n time : Nat} (hin : b.InTask n) (htime : written b.file ≤ time) :
    SectorOk files written (b.receive n (sectorBytes (files b.file) n) time) n
      (sectorBytes (files b.file) n).length where
  inTask := by simpa only [BufArea.InTask, receive_sec_bg, receive_max_sec] using hin
  len_eq := by rw [receive_file]
  holds := by
    rw [BufArea.sectorAddr_congr (receive_sec_bg b n _ time), receive_buf, receive_file]
    exact StampedMemory.holds_store htime

/-- A sector that is right stays right when what the IO proxy has is copied to another one, or again
to the same. -/
theorem SectorOk.receive {files : FileName → ByteFile} {written : FileName → Nat} {b : BufArea}
    {m n len time : Nat} (h : SectorOk files written b n len) (hin : b.InTask m)
    (hsound : b.Sound) (htime : written b.file ≤ time) :
    SectorOk files written (b.receive m (sectorBytes (files b.file) m) time) n len := by
  have hlenₙ := sectorBytes_length_le (files b.file) n
  have hlenₘ := sectorBytes_length_le (files b.file) m
  by_cases heq : n = m
  · subst heq
    rw [h.len_eq]
    exact sectorOk_receive hin htime
  · refine ⟨?_, ?_, ?_⟩
    · simpa only [BufArea.InTask, receive_sec_bg, receive_max_sec] using h.inTask
    · rw [receive_file, h.len_eq]
    · rw [BufArea.sectorAddr_congr (receive_sec_bg b m _ time), receive_buf, receive_file]
      refine StampedMemory.Holds.store h.holds ?_
      rcases Nat.lt_or_gt_of_ne heq with hlt | hgt
      · have hapart := h.inTask.apart hin hsound hlt
        omega
      · have hapart := hin.apart h.inTask hsound hgt
        omega

theorem BufArea.Sound.receive {b : BufArea} (h : b.Sound) (n : Nat) (bytes : List UInt8)
    (time : Nat) : (b.receive n bytes time).Sound where
  max_sec_lt := (receive_max_sec b n bytes time).symm ▸ h.max_sec_lt
  cur_sec_ge := by
    rw [receive_sec_bg, receive_cur_sec_nr]
    exact h.cur_sec_ge

/-- A reply that is still right goes to its sector of buffer `i`. -/
theorem Synced.receive {s : State} (h : Synced s) {i : Fin 2} {n time : Nat}
    (hin : (s.bufs i).InTask n) (htime : s.written (s.bufs i).file ≤ time) :
    Synced (s.setBuf i
      ((s.bufs i).receive n (sectorBytes (s.files (s.bufs i).file) n) time)) where
  filled := by
    intro j m len hfilled
    by_cases hj : j = i
    · subst hj
      simp only [Filled, State.setBuf, Function.update_self, receive_sec_bufferd, receive_task]
        at hfilled ⊢
      exact (h.filled j m len hfilled).receive hin (h.sound j) htime
    · simp only [Filled, State.setBuf, Function.update_of_ne hj] at hfilled ⊢
      exact h.filled j m len hfilled
  awaits := by
    intro j m k hawaits
    by_cases hj : j = i
    · subst hj
      simp only [Awaits, State.setBuf, Function.update_self, receive_ft_res_tab, receive_task]
        at hawaits ⊢
      obtain ⟨pf, hpf, hok⟩ := h.awaits j m k hawaits
      refine ⟨pf, hpf, ?_, ?_, hok.sec_eq, hok.time_le⟩
      · simpa only [BufArea.InTask, receive_sec_bg, receive_max_sec] using hok.inTask
      · rw [receive_file, hok.file_eq]
    · simp only [Awaits, State.setBuf, Function.update_of_ne hj] at hawaits ⊢
      exact h.awaits j m k hawaits
  replies := h.replies
  fresh := h.fresh
  tasks := by
    intro k pf m hpf hm
    have hold := h.tasks k pf m hpf hm
    by_cases hj : pf.buf_idx = i
    · rw [hj] at hold ⊢
      simpa only [State.setBuf, Function.update_self, receive_task] using hold
    · simpa only [State.setBuf, Function.update_of_ne hj] using hold
  sound := sound_setBuf h.sound ((h.sound i).receive n _ time)
  quiet := by
    intro w wr j hw hcleared
    have hold := h.quiet w wr j hw hcleared
    by_cases hj : j = i
    · subst hj
      simpa only [Quiet, Filled, Awaits, State.setBuf, Function.update_self, receive_file,
        receive_sec_bufferd, receive_ft_res_tab, receive_task] using hold
    · simpa only [Quiet, Filled, Awaits, State.setBuf, Function.update_of_ne hj] using hold
  written_le := h.written_le

theorem filled_of_setCopied {s : State} {k len : Nat} {pf : Prefetch} {i : Fin 2} {n m : Nat}
    (h : Filled (s.setPrefetch k { pf with stage := .copied len (s.bufs pf.buf_idx).task }) i n m) :
    Filled s i n m ∨ i = pf.buf_idx ∧ n = pf.sec_nr ∧ m = len := by
  rcases h with hmarked | ⟨k', pf', hpf', hidx, hnr, hstage⟩
  · exact .inl (.inl hmarked)
  · rcases setPrefetch_eq_some hpf' with ⟨rfl, rfl⟩ | ⟨-, hsame⟩
    · injection hstage with hlen
      exact .inr ⟨hidx.symm, hnr.symm, hlen.symm⟩
    · exact .inl (.inr ⟨k', pf', hsame, hidx, hnr, hstage⟩)

theorem awaits_of_setCopied {s : State} {k len task : Nat} {pf : Prefetch} {i : Fin 2} {n k₁ : Nat}
    (h : Awaits (s.setPrefetch k { pf with stage := .copied len task }) i n k₁) :
    Awaits s i n k₁ := by
  rcases h with hentry | ⟨k', pf', hpf', hidx, hnr, hstage⟩
  · exact .inl hentry
  · rcases setPrefetch_eq_some hpf' with ⟨rfl, rfl⟩ | ⟨-, hsame⟩
    · cases hstage
    · exact .inr ⟨k', pf', hsame, hidx, hnr, hstage⟩

/-- A callback goes on after its copy, if the sector of its buffer is right. -/
theorem Synced.setCopied {s : State} (h : Synced s) {k len : Nat} {pf : Prefetch}
    (hpf : s.prefetches k = some pf)
    (hok : SectorOk s.files s.written (s.bufs pf.buf_idx) pf.sec_nr len)
    (hquiet : ∀ w wr, s.writers w = some wr → wr.Cleared pf.buf_idx →
      (s.bufs pf.buf_idx).file ≠ writeFile wr.call) :
    Synced (s.setPrefetch k
      { pf with stage := .copied len (s.bufs pf.buf_idx).task }) := by
  refine ⟨?_, ?_, ?_, ?_, ?_, h.sound, ?_, h.written_le⟩
  · intro i n m hnew
    rcases filled_of_setCopied hnew with hold | ⟨rfl, rfl, rfl⟩
    · exact h.filled i n m hold
    · exact hok
  · intro i n k₁ hnew
    obtain ⟨pf₁, hpf₁, hreq⟩ := h.awaits i n k₁ (awaits_of_setCopied hnew)
    by_cases hk : k₁ = k
    · subst hk
      rw [hpf] at hpf₁
      cases hpf₁
      exact ⟨_, Function.update_self .., hreq.of_sameArea _ (.refl _)⟩
    · exact ⟨pf₁, by simpa only [State.setPrefetch, Function.update_of_ne hk] using hpf₁, hreq⟩
  · intro k' pf' rep hpf' hrep
    rcases setPrefetch_eq_some hpf' with ⟨rfl, rfl⟩ | ⟨-, hsame⟩
    · exact h.replies k' pf rep hpf hrep
    · exact h.replies k' pf' rep hsame hrep
  · intro k' hk'
    have hne : k' ≠ k := by
      rintro rfl
      rw [h.fresh k' hk'] at hpf
      cases hpf
    simpa only [State.setPrefetch, Function.update_of_ne hne] using h.fresh k' hk'
  · intro k' pf' n hpf' hn
    rcases setPrefetch_eq_some hpf' with ⟨rfl, rfl⟩ | ⟨-, hsame⟩
    · exact (Option.some.inj hn).ge
    · exact h.tasks k' pf' n hsame hn
  · intro w wr i hw hcleared hfile
    obtain ⟨hnone, hunanswered⟩ := h.quiet w wr i hw hcleared hfile
    refine ⟨fun n m hnew => ?_, fun n k₁ pf₁ hnew hpf₁ => ?_⟩
    · rcases filled_of_setCopied hnew with hold | ⟨rfl, -, -⟩
      · exact hnone n m hold
      · exact hquiet w wr hw hcleared hfile
    · have hold := awaits_of_setCopied hnew
      rcases setPrefetch_eq_some hpf₁ with ⟨rfl, rfl⟩ | ⟨-, hsame⟩
      · exact hunanswered n k₁ pf hold hpf
      · exact hunanswered n k₁ pf₁ hold hsame

/-- `t` is `s` after the next sector of buffer `i` has been asked for. -/
structure Submitted (s t : State) (i : Fin 2) : Prop where
  area : ∀ j, SameArea (s.bufs j) (t.bufs j)
  task : ∀ j, (t.bufs j).task = (s.bufs j).task
  cur_sec_nr : ∀ j, (t.bufs j).cur_sec_nr = (s.bufs j).cur_sec_nr + if j = i then 1 else 0
  known : ∀ k pf, s.prefetches k = some pf → t.prefetches k = some pf
  request : t.prefetches s.issued
    = some ⟨i, (s.bufs i).cur_sec_nr, (s.bufs i).file, (s.bufs i).epoch, none, .sent⟩
  requests : ∀ k pf, t.prefetches k = some pf → s.prefetches k = some pf ∨
    k = s.issued ∧ pf.reply = none ∧ pf.stage = .sent
  table : ∀ j n k, (t.bufs j).ft_res_tab n = some k → (s.bufs j).ft_res_tab n = some k ∨
    j = i ∧ n = (s.bufs i).cur_sec_nr ∧ k = s.issued
  filled : ∀ j n len, Filled t j n len → Filled s j n len
  fresh : ∀ k, t.issued ≤ k → t.prefetches k = none

theorem submitted {s : State} (hfresh : ∀ k, s.issued ≤ k → s.prefetches k = none) (i : Fin 2) :
    Submitted s (s.submit i (s.bufs i).file) i := by
  have hbufs : (s.submit i (s.bufs i).file).bufs = Function.update s.bufs i { s.bufs i with
      onlink := (s.bufs i).onlink + 1
      cur_sec_nr := (s.bufs i).cur_sec_nr + 1
      ft_res_tab := Function.update (s.bufs i).ft_res_tab (s.bufs i).cur_sec_nr
        (some s.issued) } := rfl
  have hpfs : (s.submit i (s.bufs i).file).prefetches = Function.update s.prefetches s.issued
      (some ⟨i, (s.bufs i).cur_sec_nr, (s.bufs i).file, (s.bufs i).epoch, none, .sent⟩) := rfl
  have hbuf : ∀ j, SameArea (s.bufs j) ((s.submit i (s.bufs i).file).bufs j) ∧
      ((s.submit i (s.bufs i).file).bufs j).task = (s.bufs j).task ∧
      ((s.submit i (s.bufs i).file).bufs j).sec_bufferd = (s.bufs j).sec_bufferd ∧
      ((s.submit i (s.bufs i).file).bufs j).cur_sec_nr
        = (s.bufs j).cur_sec_nr + if j = i then 1 else 0 := by
    intro j
    rw [hbufs]
    by_cases hj : j = i
    · subst hj
      rw [Function.update_self, if_pos rfl]
      exact ⟨⟨rfl, rfl, rfl, rfl⟩, rfl, rfl, rfl⟩
    · rw [Function.update_of_ne hj, if_neg hj]
      exact ⟨.refl _, rfl, rfl, rfl⟩
  have hrequests : ∀ k pf, (s.submit i (s.bufs i).file).prefetches k = some pf →
      s.prefetches k = some pf ∨ k = s.issued ∧ pf.reply = none ∧ pf.stage = .sent := by
    intro k pf hpf
    rw [hpfs] at hpf
    rcases update_eq_some hpf with ⟨hk, rfl⟩ | ⟨-, hsame⟩
    · exact .inr ⟨hk, rfl, rfl⟩
    · exact .inl hsame
  refine ⟨fun j => (hbuf j).1, fun j => (hbuf j).2.1, fun j => (hbuf j).2.2.2, ?_, ?_, hrequests,
    ?_, ?_, ?_⟩
  · intro k pf hpf
    have hk : k ≠ s.issued := by
      rintro rfl
      rw [hfresh _ (Nat.le_refl _)] at hpf
      cases hpf
    rwa [hpfs, Function.update_of_ne hk]
  · rw [hpfs, Function.update_self]
  · intro j n k hentry
    rw [hbufs] at hentry
    by_cases hj : j = i
    · subst hj
      rw [Function.update_self] at hentry
      rcases update_eq_some hentry with ⟨hn, hk⟩ | ⟨-, hold⟩
      · exact .inr ⟨rfl, hn, hk⟩
      · exact .inl hold
    · rw [Function.update_of_ne hj] at hentry
      exact .inl hentry
  · rintro j n len (hmarked | ⟨k, pf, hpf, hidx, hnr, hstage⟩)
    · exact .inl ((hbuf j).2.2.1 ▸ hmarked)
    · rcases hrequests k pf hpf with hsame | ⟨-, -, hsent⟩
      · exact .inr ⟨k, pf, hsame, hidx, hnr, (hbuf j).2.1 ▸ hstage⟩
      · rw [hsent] at hstage
        cases hstage
  · intro k hk
    have hk' : s.issued < k := hk
    rw [hpfs, Function.update_of_ne hk'.ne']
    exact hfresh k hk'.le

theorem Submitted.awaits {s t : State} {i j : Fin 2} {n k : Nat} (h : Submitted s t i)
    (hnew : Awaits t j n k) :
    Awaits s j n k ∨ j = i ∧ n = (s.bufs i).cur_sec_nr ∧ k = s.issued := by
  rcases hnew with hentry | ⟨k', pf, hpf, hidx, hnr, hstage⟩
  · exact (h.table j n k hentry).imp_left .inl
  · rcases h.requests k' pf hpf with hsame | ⟨-, -, hsent⟩
    · exact .inl (.inr ⟨k', pf, hsame, hidx, hnr, h.task j ▸ hstage⟩)
    · rw [hsent] at hstage
      cases hstage

theorem Submitted.tasked {s t : State} {i : Fin 2} (h : Submitted s t i) (hs : Tasked s) :
    Tasked t where
  tasks := by
    intro k pf n hpf hn
    rw [h.task]
    rcases h.requests k pf hpf with hsame | ⟨-, -, hsent⟩
    · exact hs.tasks k pf n hsame hn
    · rw [hsent] at hn
      cases hn
  sound := by
    intro j
    obtain ⟨hmax, hcur⟩ := hs.sound j
    refine ⟨(h.area j).max_sec ▸ hmax, ?_⟩
    rw [(h.area j).sec_bg, h.cur_sec_nr]
    exact Nat.le_add_right_of_le hcur

/-- The request that was submitted is for the next sector of the task. -/
theorem Submitted.requestOk {s t : State} {i : Fin 2} (h : Submitted s t i)
    {written : FileName → Nat} (hsound : (s.bufs i).Sound)
    (hmore : (s.bufs i).cur_sec_nr < (s.bufs i).sec_bg + (s.bufs i).max_sec) :
    RequestOk written (t.bufs i) (s.bufs i).cur_sec_nr
      ⟨i, (s.bufs i).cur_sec_nr, (s.bufs i).file, (s.bufs i).epoch, none, .sent⟩ where
  inTask := by
    rw [BufArea.InTask, (h.area i).sec_bg, (h.area i).max_sec]
    exact ⟨hsound.cur_sec_ge, hmore⟩
  file_eq := (h.area i).file.symm
  sec_eq := rfl
  time_le := by
    intro rep hrep
    cases hrep

/-- The next sector of the task of buffer `i` is asked for. -/
theorem Synced.submit {s : State} (h : Synced s) {i : Fin 2}
    (hmore : (s.bufs i).cur_sec_nr < (s.bufs i).sec_bg + (s.bufs i).max_sec) :
    Synced (s.submit i (s.bufs i).file) := by
  have hsub := submitted h.fresh i
  have htasked := hsub.tasked h.tasked
  refine ⟨?_, ?_, ?_, hsub.fresh, htasked.tasks, htasked.sound, ?_, h.written_le⟩
  · intro j n len hnew
    exact (h.filled j n len (hsub.filled j n len hnew)).of_sameArea (hsub.area j)
  · intro j n k hnew
    rcases hsub.awaits hnew with hwas | ⟨rfl, rfl, rfl⟩
    · obtain ⟨pf, hpf, hok⟩ := h.awaits j n k hwas
      exact ⟨pf, hsub.known k pf hpf, hok.of_sameArea pf.stage (hsub.area j)⟩
    · exact ⟨_, hsub.request, hsub.requestOk (h.sound j) hmore⟩
  · intro k pf rep hpf hrep
    rcases hsub.requests k pf hpf with hsame | ⟨-, hnone, -⟩
    · exact h.replies k pf rep hsame hrep
    · rw [hnone] at hrep
      cases hrep
  · intro w wr j hw hcleared hfile
    obtain ⟨hnone, hunanswered⟩ := h.quiet w wr j hw hcleared ((hsub.area j).file.symm.trans hfile)
    refine ⟨fun n len hnew => hnone n len (hsub.filled j n len hnew), fun n k pf hnew hpf => ?_⟩
    rcases hsub.requests k pf hpf with hsame | ⟨-, hunsent, -⟩
    · rcases hsub.awaits hnew with hwas | ⟨-, -, rfl⟩
      · exact hunanswered n k pf hwas hsame
      · rw [h.fresh _ (Nat.le_refl _)] at hsame
        cases hsame
    · exact hunsent

/-- The IO proxy executes a write for which both buffers are quiet. -/
theorem Synced.exec {s : State} (h : Synced s) {f : FileName} {file : ByteFile}
    (hquiet : ∀ i, Quiet s i f) :
    Synced { s with
      files := Function.update s.files f file
      clock := s.clock + 1
      written := Function.update s.written f (s.clock + 1) } where
  filled := by
    intro i n len hfilled
    have hne : (s.bufs i).file ≠ f := fun hfile => (hquiet i hfile).1 n len hfilled
    obtain ⟨hin, hlen, hholds⟩ := h.filled i n len hfilled
    refine ⟨hin, ?_, ?_⟩
    · simpa only [Function.update_of_ne hne] using hlen
    · simpa only [Function.update_of_ne hne] using hholds
  awaits := by
    intro i n k hawaits
    obtain ⟨pf, hpf, hok⟩ := h.awaits i n k hawaits
    refine ⟨pf, hpf, hok.inTask, hok.file_eq, hok.sec_eq, fun rep hrep => ?_⟩
    have hne : pf.file ≠ f := by
      intro hfile
      have hnone := (hquiet i (hok.file_eq.symm.trans hfile)).2 n k pf hawaits hpf
      rw [hnone] at hrep
      cases hrep
    simpa only [Function.update_of_ne hne] using hok.time_le rep hrep
  replies := by
    intro k pf rep hpf hrep
    obtain ⟨htime, hbytes⟩ := h.replies k pf rep hpf hrep
    refine ⟨Nat.le_succ_of_le htime, fun hle => ?_⟩
    by_cases hfile : pf.file = f
    · -- the reply is older than this write
      simp only [hfile, Function.update_self] at hle
      omega
    · simp only [Function.update_of_ne hfile] at hle ⊢
      exact hbytes hle
  fresh := h.fresh
  tasks := h.tasks
  sound := h.sound
  quiet := h.quiet
  written_le := by
    intro f'
    by_cases hf : f' = f
    · simp only [hf, Function.update_self, Nat.le_refl]
    · simpa only [Function.update_of_ne hf] using Nat.le_succ_of_le (h.written_le f')

/-! ### `fetch_sector_remote` and `set_task` -/

@[simp] theorem submit_file (s : State) (i : Fin 2) (file : FileName) :
    ((s.submit i file).bufs i).file = (s.bufs i).file := by
  simp [State.submit, State.setBuf]

/-- What each round of the loop keeps, the loop keeps. -/
theorem fetchLoop_invariant {cfg : ReadAheadConfig} {i : Fin 2} {file : FileName}
    {P : State → Prop} (hround : ∀ s, P s → Fetches cfg (s.bufs i) → P (s.submit i file)) (n : Nat)
    {s : State} (h : P s) : P (fetchLoop cfg i file n s) := by
  induction n generalizing s with
  | zero => exact h
  | succ n ih =>
      rw [fetchLoop]
      split
      next hfetches => exact ih (hround s h hfetches)
      next => exact h

/-- What holds of the buffers whatever the readers do: they move cursors, set tasks and have sectors
fetched. -/
structure Steady (P : State → Prop) : Prop where
  sound : ∀ {s}, P s → ∀ i, (s.bufs i).Sound
  congr : ∀ {s t}, P s → t.bufs = s.bufs → t.prefetches = s.prefetches → t.issued = s.issued →
    t.writers = s.writers → t.files = s.files → t.clock = s.clock → t.written = s.written → P t
  cursor : ∀ {s} (i : Fin 2) (cursor : Nat), P s →
    P (s.setBuf i { s.bufs i with cursor := cursor })
  newTask : ∀ {s} {i : Fin 2} {b : BufArea}, P s → (∀ n, b.ft_res_tab n = none) →
    (∀ n, b.sec_bufferd n = none) → b.task = (s.bufs i).task + 1 → b.Sound → P (s.setBuf i b)
  submit : ∀ {s} {i : Fin 2}, P s → (s.bufs i).cur_sec_nr < (s.bufs i).sec_bg + (s.bufs i).max_sec →
    P (s.submit i (s.bufs i).file)

namespace Steady

variable {P : State → Prop}

theorem fetchSectorRemote (hP : Steady P) {cfg : ReadAheadConfig} {s : State} (h : P s)
    (i : Fin 2) : P (fetchSectorRemote cfg s i) := by
  refine (fetchLoop_invariant (P := fun t => P t ∧ (t.bufs i).file = (s.bufs i).file) ?_ _
    ⟨h, rfl⟩).1
  rintro t ⟨ht, hfile⟩ hfetches
  rw [← hfile]
  exact ⟨hP.submit ht hfetches.2, submit_file t i _⟩

theorem setTask (hP : Steady P) {cfg : ReadAheadConfig} {s : State} (h : P s) {file : FileName}
    {i : Fin 2} {sec_bg sec_max : Nat} {epoch : Option Nat} (hmax : sec_max < 2 ^ 14) :
    P (setTask cfg s file i sec_bg sec_max epoch).1 := by
  unfold ReadAhead.setTask
  dsimp only
  split
  next => exact h
  split
  next => exact h
  split
  next =>
    split
    next => exact hP.cursor i _ h
    next => exact h
  next =>
    apply hP.fetchSectorRemote
    exact hP.newTask h (fun _ => rfl) (fun _ => rfl) rfl ⟨hmax, Nat.le_refl _⟩

theorem nextFetch (hP : Steady P) {cfg : ReadAheadConfig} {s : State} (h : P s) (pf : Prefetch)
    (len : Nat) : P (nextFetch cfg s pf len) := by
  unfold ReadAhead.nextFetch
  dsimp only
  split
  next =>
    split
    next =>
      split
      next => exact hP.setTask h (hP.sound h pf.buf_idx).max_sec_lt
      next => exact hP.fetchSectorRemote h _
    next => exact hP.fetchSectorRemote h _
  next => exact h

/-- A read call may be in any state. -/
theorem setReader (hP : Steady P) {s : State} (h : P s) (r : Nat) (rd : Reader) :
    P (s.setReader r rd) :=
  hP.congr h rfl rfl rfl rfl rfl rfl rfl

theorem hit (hP : Steady P) {s : State} (h : P s) (r : Nat) (rd : Reader) (i : Fin 2) :
    P (hit s r rd i) := by
  unfold ReadAhead.hit
  dsimp only
  split
  next => exact hP.setReader h r _
  next => exact hP.setReader (hP.cursor i _ h) r _

theorem readStep (hP : Steady P) {cfg : ReadAheadConfig} {s t : State} (h : P s) {r : Nat}
    {rd : Reader} {a : Act} (hstep : readStep cfg s r rd a = some t) : P t := by
  unfold ReadAhead.readStep at hstep
  split at hstep
  next =>
    cases hstep
    unfold ReadAhead.status
    dsimp only
    split
    next => exact hP.setReader h r _
    split
    next => exact hP.congr h rfl rfl rfl rfl rfl rfl rfl
    split
    next => exact hP.congr h rfl rfl rfl rfl rfl rfl rfl
    split
    next => exact hP.congr h rfl rfl rfl rfl rfl rfl rfl
    next => exact hP.setReader h r _
  next i _ =>
    cases hstep
    unfold fetchCache
    split
    next =>
      split
      next => exact hP.setReader h r _
      next => exact hP.setReader h r _
    next => exact hP.hit h r rd i
    next => exact hP.setReader h r _
  next i _ =>
    cases hstep
    unfold woken
    split
    next => exact hP.hit h r rd i
    next => exact hP.setReader h r _
  next =>
    cases hstep
    exact hP.setReader (hP.setTask h cfg.readahead_lt) r _
  next =>
    cases hstep
    exact hP.setReader h r _
  next => cases hstep

end Steady

theorem steady_synced : Steady Synced where
  sound := fun h => h.sound
  congr := fun h => h.congr
  cursor := by
    intro s i cursor h
    have hsound := h.sound i
    exact h.of_forgets (forgets_setBuf h.tasked ⟨rfl, rfl, rfl, rfl⟩ rfl
      ⟨hsound.max_sec_lt, hsound.cur_sec_ge⟩ (fun _ _ htab => htab) (fun _ _ hsec => .inl hsec))
  newTask := fun h htab hsec htask hsound =>
    h.of_forgets (forgets_newTask h.tasked htab hsec htask hsound)
  submit := fun h hmore => h.submit hmore

/-! ### One step -/

/-- The buffer that the callback of prefetch `k` works on still has the task whose future it
took. -/
def OnTask (s : State) (k : Nat) : Prop :=
  ∀ pf n, s.prefetches k = some pf → pf.stage.task? = some n → n = (s.bufs pf.buf_idx).task

/-- No write on the file that prefetch `k` asks for is under way between its `clear_buf` and its
execution. -/
def NoPendingWrite (s : State) (k : Nat) : Prop :=
  ∀ pf w wr, s.prefetches k = some pf → s.writers w = some wr → writeFile wr.call = pf.file →
    ¬ wr.stage.Pending

/-- The condition under which the buffers stay in step: a callback copies and marks on the task
whose future it took; no prefetch is served while a write on its file is pending; a write finds its
path on the first buffer, or it is not on the second one either. -/
def BuffersOk (s : State) : Act → Prop
  | .serve k _ => NoPendingWrite s k
  | .copy k => OnTask s k
  | .mark k => OnTask s k
  | .startWrite _ c => c.rpath = (s.bufs 0).file.2 ∨ c.rpath ≠ (s.bufs 1).file.2
  | _ => True

/-- A callback that drops its reply. -/
theorem Synced.setIdle {s : State} (h : Synced s) {k : Nat} {pf : Prefetch} {stage : Stage}
    (hpf : s.prefetches k = some pf) (hidle : stage.task? = none) :
    Synced (s.setPrefetch k { pf with stage := stage }) := by
  refine h.of_forgets (forgets_setStage h.tasked hpf fun n hn => ?_)
  rw [hidle] at hn
  cases hn

theorem Synced.check {s t : State} (h : Synced s) {k : Nat} {pf : Prefetch}
    (hpf : s.prefetches k = some pf) (hstep : check s k pf = some t) : Synced t := by
  have hsound := h.sound pf.buf_idx
  unfold ReadAhead.check at hstep
  dsimp only at hstep
  generalize ((s.bufs pf.buf_idx).onlink + 2 ^ 64 - 1) % 2 ^ 64 = onlink at hstep
  split at hstep
  next => cases hstep
  split at hstep
  next =>
    cases hstep
    exact h.setIdle hpf rfl
  split at hstep
  next htab =>
    cases hstep
    have hcount := h.of_forgets (forgets_setBuf h.tasked (i := pf.buf_idx)
      (b := { s.bufs pf.buf_idx with onlink := onlink }) ⟨rfl, rfl, rfl, rfl⟩ rfl
      ⟨hsound.max_sec_lt, hsound.cur_sec_ge⟩ (fun _ _ htab => htab) (fun _ _ hsec => .inl hsec))
    exact hcount.setIdle hpf rfl
  next k' htab =>
    cases hstep
    -- the callback takes the future first; then the table may forget it
    have htaken : Synced (s.setPrefetch k
        { pf with stage := .taken k' (s.bufs pf.buf_idx).task }) := by
      refine h.of_forgets (forgets_setStage h.tasked hpf fun n hn => ?_)
      cases hn
      exact ⟨rfl, k', rfl, .inl htab⟩
    refine htaken.of_forgets (forgets_setBuf htaken.tasked ⟨rfl, rfl, rfl, rfl⟩ rfl
      ⟨hsound.max_sec_lt, hsound.cur_sec_ge⟩ (fun sec_nr k₁ hentry => ?_) (fun _ _ hsec => .inl hsec))
    dsimp only at hentry
    by_cases hsec : sec_nr = pf.sec_nr
    · rw [hsec, Function.update_self] at hentry
      cases hentry
    · rwa [Function.update_of_ne hsec] at hentry

theorem Synced.copy {s t : State} (h : Synced s) {k : Nat} {pf : Prefetch}
    (hpf : s.prefetches k = some pf) (hguard : OnTask s k) (hstep : copy s k pf = some t) :
    Synced t := by
  unfold ReadAhead.copy at hstep
  split at hstep
  next k' task hstage =>
    split at hstep
    next rep hrep =>
      cases hstep
      obtain rfl := hguard pf task hpf (by rw [hstage, Stage.task?])
      obtain ⟨pf', hpf', hrep⟩ := Option.bind_eq_some_iff.mp hrep
      have hawaits : Awaits s pf.buf_idx pf.sec_nr k' := .inr ⟨k, pf, hpf, rfl, rfl, hstage⟩
      obtain ⟨pf₀, hpf₀, hok⟩ := h.awaits _ _ _ hawaits
      rw [hpf'] at hpf₀
      cases hpf₀
      have htime := hok.time_le rep hrep
      have hbytes : rep.bytes = sectorBytes (s.files (s.bufs pf.buf_idx).file) pf.sec_nr := by
        rw [(h.replies k' pf' rep hpf' hrep).2 htime, hok.file_eq, hok.sec_eq]
      rw [hok.file_eq] at htime
      rw [hbytes]
      have hcopied : SectorOk s.files s.written
          ((s.setBuf pf.buf_idx ((s.bufs pf.buf_idx).receive pf.sec_nr
            (sectorBytes (s.files (s.bufs pf.buf_idx).file) pf.sec_nr) rep.time)).bufs pf.buf_idx)
          pf.sec_nr (sectorBytes (s.files (s.bufs pf.buf_idx).file) pf.sec_nr).length := by
        rw [setBuf_bufs_self]
        exact sectorOk_receive hok.inTask htime
      have hnext := (h.receive hok.inTask htime).setCopied (k := k) hpf hcopied ?_
      · rw [setBuf_bufs_self, receive_task] at hnext
        exact hnext
      · rw [setBuf_bufs_self, receive_file]
        intro w wr hw hcleared hfile
        have hnone := (h.quiet w wr pf.buf_idx hw hcleared hfile).2 _ _ _ hawaits hpf'
        rw [hnone] at hrep
        cases hrep
    next =>
      cases hstep
      exact h.setIdle hpf rfl
  next => cases hstep

theorem Synced.mark {s t : State} (h : Synced s) {k : Nat} {pf : Prefetch}
    (hpf : s.prefetches k = some pf) (hguard : OnTask s k) (hstep : mark s k pf = some t) :
    Synced t := by
  have hsound := h.sound pf.buf_idx
  unfold ReadAhead.mark at hstep
  split at hstep
  next len task hstage =>
    cases hstep
    obtain rfl := hguard pf task hpf (by rw [hstage, Stage.task?])
    have hmarked := h.of_forgets (forgets_setBuf h.tasked (i := pf.buf_idx) (b := { s.bufs pf.buf_idx with
      sec_bufferd := Function.update (s.bufs pf.buf_idx).sec_bufferd pf.sec_nr (some len) })
      ⟨rfl, rfl, rfl, rfl⟩ rfl ⟨hsound.max_sec_lt, hsound.cur_sec_ge⟩ (fun _ _ htab => htab)
      (fun n m hentry => ?_))
    · exact hmarked.setIdle hpf rfl
    · dsimp only at hentry
      by_cases hn : n = pf.sec_nr
      · rw [hn, Function.update_self, Option.some.injEq] at hentry
        subst hentry hn
        exact .inr ⟨k, pf, hpf, rfl, rfl, hstage⟩
      · rw [Function.update_of_ne hn] at hentry
        exact .inl hentry
  next => cases hstep

theorem Synced.next {cfg : ReadAheadConfig} {s t : State} (h : Synced s) {k : Nat} {pf : Prefetch}
    (hpf : s.prefetches k = some pf) (hstep : next cfg s k pf = some t) : Synced t := by
  unfold ReadAhead.next at hstep
  split at hstep
  next len hstage =>
    cases hstep
    exact steady_synced.nextFetch (h.setIdle hpf rfl) pf len
  next => cases hstep

/-- A cleared buffer is quiet for every file. -/
theorem quiet_clear {s : State} (h : Synced s) (i : Fin 2) (to_epoch : Nat) (f : FileName) :
    Quiet (s.setBuf i ((s.bufs i).clear to_epoch)) i f := by
  have hold : ∀ k pf n, s.prefetches k = some pf → pf.buf_idx = i → pf.stage.task? = some n →
      n ≠ ((s.bufs i).clear to_epoch).task := by
    rintro k pf n hpf rfl hn
    have hle := h.tasks k pf n hpf hn
    exact (Nat.lt_succ_of_le hle).ne
  intro _
  refine ⟨?_, ?_⟩
  · rintro n len (hmarked | ⟨k, pf, hpf, hidx, -, hstage⟩)
    · rw [setBuf_bufs_self] at hmarked
      cases hmarked
    · rw [setBuf_bufs_self] at hstage
      exact hold k pf _ hpf hidx (by rw [hstage, Stage.task?]) rfl
  · rintro n k pf (hentry | ⟨k', pf', hpf', hidx, -, hstage⟩)
    · rw [setBuf_bufs_self] at hentry
      cases hentry
    · rw [setBuf_bufs_self] at hstage
      exact absurd rfl (hold k' pf' _ hpf' hidx (by rw [hstage, Stage.task?]))

theorem forgets_clear {s : State} (h : Tasked s) (i : Fin 2) (to_epoch : Nat) :
    Forgets s (s.setBuf i ((s.bufs i).clear to_epoch)) :=
  forgets_newTask h (fun _ => rfl) (fun _ => rfl) rfl ⟨Nat.two_pow_pos 14, Nat.le_refl 0⟩

theorem Synced.startWrite {s t : State} (h : Synced s) {w : Nat} {c : WriteCall}
    (hguard : c.rpath = (s.bufs 0).file.2 ∨ c.rpath ≠ (s.bufs 1).file.2)
    (hstep : startWrite s w c = some t) : Synced t := by
  unfold ReadAhead.startWrite at hstep
  split at hstep
  next => cases hstep
  next =>
    dsimp only at hstep
    split at hstep
    next hother =>
      cases hstep
      refine h.setWriter fun i _ hfile => ?_
      -- neither buffer is on the path
      have hpath : c.rpath = (s.bufs i).file.2 := (congrArg Prod.snd hfile).symm
      rcases Fin.exists_fin_two.mp ⟨i, rfl⟩ with rfl | rfl
      · exact absurd hpath hother
      · exact absurd hpath (hguard.resolve_left hother)
    next =>
      cases hstep
      refine (h.of_forgets (forgets_clear h.tasked 0 _)).setWriter fun i hcleared => ?_
      rcases hcleared with hsent | ⟨rfl, -⟩
      · cases hsent
      · exact quiet_clear h 0 _ _

theorem Synced.writeStep {s t : State} (h : Synced s) {w : Nat} {wr : Writer} {a : Act}
    (hw : s.writers w = some wr) (hstep : writeStep s w wr a = some t) : Synced t := by
  unfold ReadAhead.writeStep at hstep
  split at hstep
  next to_epoch hstage =>
    cases hstep
    refine (h.of_forgets (forgets_clear h.tasked 1 to_epoch)).setWriter fun i _ => ?_
    rcases Fin.exists_fin_two.mp ⟨i, rfl⟩ with rfl | rfl
    · have hfirst := h.quiet w wr 0 hw (.inr ⟨rfl, by rw [hstage]; trivial⟩)
      exact hfirst.of_forgets (forgets_clear h.tasked 1 to_epoch)
    · exact quiet_clear h 1 _ _
  next ok hstage =>
    cases hstep
    refine (h.exec fun i => h.quiet w wr i hw (.inl hstage)).setWriter fun i hcleared => ?_
    exact hcleared.pending.elim
  next time hstage =>
    cases hstep
    have hdone : Synced (s.setWriter w { wr with stage := .returned }) :=
      h.setWriter fun _ hcleared => hcleared.pending.elim
    exact hdone.congr rfl rfl rfl rfl rfl rfl rfl
  next => cases hstep

/-- One step keeps the read-ahead in step with the IO proxies. -/
theorem synced_step {cfg : ReadAheadConfig} {s t : State} {a : Act} (h : Synced s)
    (hguard : BuffersOk s a) (hstep : step cfg s a = some t) : Synced t := by
  cases a with
  | serve k ok =>
      obtain ⟨pf, hpf, hserve⟩ := Option.bind_eq_some_iff.mp hstep
      unfold ReadAhead.serve at hserve
      split at hserve
      next =>
        cases hserve
        refine h.serve hpf (fun rep hrep => ?_) fun w wr hw hfile => hguard pf w wr hpf hw hfile
        cases ok with
        | false => cases hrep
        | true =>
            cases hrep
            rfl
      next => cases hserve
  | check k =>
      obtain ⟨pf, hpf, hcheck⟩ := Option.bind_eq_some_iff.mp hstep
      exact h.check hpf hcheck
  | copy k =>
      obtain ⟨pf, hpf, hcopy⟩ := Option.bind_eq_some_iff.mp hstep
      exact h.copy hpf hguard hcopy
  | mark k =>
      obtain ⟨pf, hpf, hmark⟩ := Option.bind_eq_some_iff.mp hstep
      exact h.mark hpf hguard hmark
  | next k =>
      obtain ⟨pf, hpf, hnext⟩ := Option.bind_eq_some_iff.mp hstep
      exact h.next hpf hnext
  | startRead r c =>
      simp only [step, startRead] at hstep
      split at hstep
      next => cases hstep
      next =>
        cases hstep
        exact steady_synced.setReader h r _
  | status r | fetch r ub | woken r ready | setTask r | plainRead r =>
      obtain ⟨rd, -, hread⟩ := Option.bind_eq_some_iff.mp hstep
      exact steady_synced.readStep h hread
  | startWrite w c => exact h.startWrite hguard hstep
  | clearSecond w | execWrite w ok | returnWrite w =>
      obtain ⟨wr, hw, hwrite⟩ := Option.bind_eq_some_iff.mp hstep
      exact h.writeStep hw hwrite

/-- Every run whose steps meet the condition keeps the read-ahead in step. -/
theorem synced_of_guarded {cfg : ReadAheadConfig} {files : FileName → ByteFile} {acts : List Act}
    {t : State} (hguard : Machine.Guarded (step cfg) BuffersOk (start files) acts)
    (hrun : Machine.run (step cfg) (start files) acts = some t) : Synced t :=
  Machine.run_invariant (fun _ _ _ => synced_step) (synced_start files) hguard hrun

end Gvds.ReadAhead
