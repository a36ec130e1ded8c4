/-
Module: Gvds.Proofs.WriteBehind
Layer: Proofs
Purpose: When the write-behind queue does what the calls would have done one after another. The
  buffers that are still on their way, taken in the order of the calls, are a log whose application
  to the IO proxies gives the sequential contents. A merge keeps the log as long as both buffers go
  to one node; an arrival keeps it as long as the arriving buffer is compatible with the earlier
  ones of the same file. The queue itself ensures neither.
Imports: Gvds.Lib.Machine, Gvds.Client.Queue
Trusted boundary: none
Main exports: pending, InOrder, drained_eq_sequential, reordered_writes_differ, Fresh,
  inOrder_of_fresh
-/
import Gvds.Lib.Machine
import Gvds.Client.Queue

namespace Gvds.WriteBehind

open FileWrite (Compatible)

/-! ### What a step does to the pending buffers -/

/-- The buffers whose write has not reached its IO proxy, in the order of the calls. -/
def pending (s : QueueState) : List Buffer :=
  s.processing ++ (s.dispatching ++ (s.buf_waiting_line ++ s.waiter.toList))

/-- A call is merged into the last waiting buffer, or its buffer becomes the last pending one. -/
theorem pending_queueBuffer (cfg : QueueConfig) {s : QueueState} (hidle : s.waiter = none)
    (b : Buffer) :
    (queueBuffer cfg s b).proxy = s.proxy ∧
      (pending (queueBuffer cfg s b) = pending s ++ [b] ∨
        ∃ front last, s.buf_waiting_line.getLast? = some last ∧ last.Merges b ∧
          pending s = front ++ [last] ∧
          pending (queueBuffer cfg s b) = front ++ [last.append b.buf]) := by
  have hpush : pending (pushBuffer s b) = pending s ++ [b] := by
    simp [pending, pushBuffer, hidle]
  have hwait : pending { s with waiter := some b } = pending s ++ [b] := by
    simp [pending, hidle]
  unfold queueBuffer
  cases hlast : s.buf_waiting_line.getLast? with
  | none =>
      simp only
      split
      · exact ⟨rfl, Or.inl hwait⟩
      · exact ⟨rfl, Or.inl hpush⟩
  | some last =>
      simp only
      split
      · rename_i hmerge
        refine ⟨rfl, Or.inr ⟨s.processing ++ (s.dispatching ++ s.buf_waiting_line.dropLast), last,
          rfl, hmerge, ?_, ?_⟩⟩
        · have hsplit := List.dropLast_append_getLast? last hlast
          simp only [pending, hidle, Option.toList_none, List.append_nil, List.append_assoc]
          rw [hsplit]
        · simp only [pending, hidle, Option.toList_none, List.append_nil, List.append_assoc]
      · split
        · exact ⟨rfl, Or.inl hwait⟩
        · exact ⟨rfl, Or.inl hpush⟩

/-- An arrival takes one buffer of a busy worker out and applies its write. -/
theorem pending_arrive {cfg : QueueConfig} {s t : QueueState} {i : Nat}
    (h : step cfg s (.arrive i) = some t) :
    ∃ front b rest, front = s.processing.take i ∧ s.processing[i]? = some b ∧
      pending s = front ++ b :: rest ∧ pending t = front ++ rest ∧ t.proxy = submit s.proxy b := by
  simp only [step] at h
  split at h
  · cases h
  · rename_i b hb
    cases h
    obtain ⟨hi, rfl⟩ := List.getElem?_eq_some_iff.mp hb
    refine ⟨s.processing.take i, s.processing[i], s.processing.drop (i + 1) ++
      (s.dispatching ++ (s.buf_waiting_line ++ s.waiter.toList)), rfl, hb, ?_, ?_, rfl⟩
    · rw [← List.cons_append, ← List.append_assoc, ← List.drop_eq_getElem_cons hi,
        List.take_append_drop]
      rfl
    · simp only [pending, List.eraseIdx_eq_take_drop_succ, List.append_assoc]

/-- The other steps only move the pending buffers on. -/
theorem pending_of_internal {cfg : QueueConfig} {s t : QueueState} {a : Act}
    (hwrite : ∀ c, a ≠ .write c) (harrive : ∀ i, a ≠ .arrive i) (h : step cfg s a = some t) :
    pending t = pending s ∧ t.proxy = s.proxy := by
  cases a with
  | write c => exact absurd rfl (hwrite c)
  | arrive i => exact absurd rfl (harrive i)
  | wakeUp =>
      simp only [step] at h
      split at h
      · cases h
      · rename_i b hb
        split at h
        · cases h
        · cases h
          simp [pending, pushBuffer, hb]
  | swap =>
      simp only [step] at h
      split at h
      · rename_i b bs hdispatching hwaiting
        cases h
        simp [pending, hdispatching, hwaiting]
      · cases h
  | handOut =>
      simp only [step] at h
      split at h
      · rename_i b bs idle hdispatching _
        cases h
        simp [pending, hdispatching]
      · cases h
  | complete i =>
      simp only [step] at h
      split at h
      · cases h
      · cases h
        exact ⟨rfl, rfl⟩

/-! ### The simulation of the sequential calls -/

/-- The calls one after another: a call writes its bytes at its offset, nothing else has an
effect. -/
def sequentialStep (files : FileName → ByteFile) : Act → FileName → ByteFile
  | .write c => FileWrite.apply files ⟨(c.iop, c.rpath), c.offset, c.buf⟩
  | .wakeUp => files
  | .swap => files
  | .handOut => files
  | .arrive _ => files
  | .complete _ => files

/-- What the run has to respect: a call is merged into a buffer for its own node only, and a buffer
reaches its IO proxy only when it is compatible with the earlier buffers that are still on their
way. -/
def InOrder (s : QueueState) : Act → Prop
  | .write c => ∀ last, s.buf_waiting_line.getLast? = some last → last.Merges c.toBuffer →
      last.dest = c.iop
  | .arrive i => ∀ b, s.processing[i]? = some b →
      ∀ b' ∈ s.processing.take i, b'.toWrite.Compatible b.toWrite
  | .wakeUp => True
  | .swap => True
  | .handOut => True
  | .complete _ => True

/-- The pending buffers lead from the IO proxies to the sequential contents, and none is a fake
one. -/
structure Leads (files : FileName → ByteFile) (s : QueueState) : Prop where
  log : WriteLog.apply s.proxy ((pending s).map Buffer.toWrite) = files
  path_ne : ∀ b ∈ pending s, b.path ≠ ""

/-- Merging a call into a buffer for the same node adds its write to the log. -/
theorem apply_merged {files : FileName → ByteFile} {last : Buffer} {c : WriteCall}
    (hmerge : last.Merges c.toBuffer) (hdest : last.dest = c.iop) :
    (last.append c.toBuffer.buf).toWrite.apply files =
      c.toBuffer.toWrite.apply (last.toWrite.apply files) := by
  obtain ⟨hpath, _, hoffset⟩ := hmerge
  simp only [Buffer.toWrite, Buffer.append, WriteCall.toBuffer] at *
  rw [FileWrite.apply_append, hoffset, hpath, hdest]

/-- A call adds its write at the end of the log. -/
theorem leads_write {cfg : QueueConfig} {files : FileName → ByteFile} {s t : QueueState}
    {c : WriteCall} (h : Leads files s) (hok : InOrder s (.write c))
    (hstep : step cfg s (.write c) = some t) : Leads (sequentialStep files (.write c)) t := by
  simp only [step] at hstep
  split at hstep
  · rename_i hidle
    cases hstep
    obtain ⟨hproxy, hpush | ⟨front, last, hlast, hmerge, hold, hnew⟩⟩ :=
      pending_queueBuffer cfg hidle c.toBuffer
    · refine ⟨?_, ?_⟩
      · rw [hproxy, hpush, List.map_append, WriteLog.apply_append, h.log]
        rfl
      · rw [hpush]
        intro b hb
        rcases List.mem_append.mp hb with hb | hb
        · exact h.path_ne b hb
        · rw [List.mem_singleton] at hb
          subst hb
          exact c.rpath_ne
    · refine ⟨?_, ?_⟩
      · have hlog := h.log
        rw [hold, List.map_append, WriteLog.apply_append] at hlog
        rw [hproxy, hnew, List.map_append, WriteLog.apply_append]
        simp only [List.map_cons, List.map_nil, WriteLog.apply_cons, WriteLog.apply_nil] at hlog ⊢
        rw [apply_merged hmerge (hok last hlast hmerge), hlog]
        rfl
      · rw [hnew]
        have hnames := h.path_ne
        rw [hold] at hnames
        intro b hb
        rcases List.mem_append.mp hb with hb | hb
        · exact hnames b (List.mem_append_left _ hb)
        · rw [List.mem_singleton] at hb
          subst hb
          exact hnames last (List.mem_append_right _ List.mem_cons_self)
  · cases hstep

/-- A buffer that arrives in order takes its write out of the log. -/
theorem leads_arrive {cfg : QueueConfig} {files : FileName → ByteFile} {s t : QueueState} {i : Nat}
    (h : Leads files s) (hok : InOrder s (.arrive i)) (hstep : step cfg s (.arrive i) = some t) :
    Leads files t := by
  obtain ⟨front, b, rest, hfront, hb, hold, hnew, hproxy⟩ := pending_arrive hstep
  have hnames := h.path_ne
  rw [hold] at hnames
  have hb_ne : b.path ≠ "" := hnames b (List.mem_append_right _ List.mem_cons_self)
  refine ⟨?_, fun b' hb' => hnames b' ?_⟩
  · have hcompatible : ∀ v ∈ front.map Buffer.toWrite, v.Compatible b.toWrite := by
      intro v hv
      obtain ⟨b', hb', rfl⟩ := List.mem_map.mp hv
      exact hok b hb b' (hfront ▸ hb')
    rw [← h.log, hold, hnew, hproxy, submit, if_neg hb_ne, List.map_append, List.map_append,
      List.map_cons, WriteLog.apply_move hcompatible]
  · rw [hnew] at hb'
    rcases List.mem_append.mp hb' with hb' | hb'
    · exact List.mem_append_left _ hb'
    · exact List.mem_append_right _ (List.mem_cons_of_mem _ hb')

/-- The step lemma of the simulation. -/
theorem leads_step {cfg : QueueConfig} {files : FileName → ByteFile} {s t : QueueState} {a : Act}
    (h : Leads files s) (hok : InOrder s a) (hstep : step cfg s a = some t) :
    Leads (sequentialStep files a) t := by
  have hinternal : (∀ c, a ≠ .write c) → (∀ i, a ≠ .arrive i) →
      sequentialStep files a = files → Leads (sequentialStep files a) t := by
    intro hwrite harrive hsame
    obtain ⟨hpending, hproxy⟩ := pending_of_internal hwrite harrive hstep
    rw [hsame]
    exact ⟨by rw [hpending, hproxy, h.log], by rw [hpending]; exact h.path_ne⟩
  cases a with
  | write c => exact leads_write h hok hstep
  | arrive i => exact leads_arrive h hok hstep
  | wakeUp => exact hinternal (by simp) (by simp) rfl
  | swap => exact hinternal (by simp) (by simp) rfl
  | handOut => exact hinternal (by simp) (by simp) rfl
  | complete i => exact hinternal (by simp) (by simp) rfl

/-- Once every buffer of a run in order has reached its IO proxy, the files hold what the calls
would have written one after another. -/
theorem drained_eq_sequential {cfg : QueueConfig} {files : FileName → ByteFile} {t : QueueState}
    {as : List Act} (hguard : Machine.Guarded (step cfg) InOrder (start cfg files) as)
    (hrun : Machine.run (step cfg) (start cfg files) as = some t) (hdrained : pending t = []) :
    t.proxy = as.foldl sequentialStep files := by
  have hstep : ∀ files s a t, Leads files s → InOrder s a → step cfg s a = some t →
      Leads (sequentialStep files a) t := fun _ _ _ _ h hok hstep => leads_step h hok hstep
  have hstart : Leads files (start cfg files) := ⟨rfl, by simp [pending, start]⟩
  have hlog := (Machine.run_simulation hstep hstart hguard hrun).log
  rw [hdrained] at hlog
  exact hlog

/-- The default configuration, over the gRPC transport. -/
def defaultConfig : QueueConfig where
  m_max_buf := 10240000
  m_max_worker := 1024
  use_udt := false

/-- A call that writes one byte into the file `s/f` of IO proxy 1. -/
def byteCall (offset : Nat) (b : UInt8) (h : offset < 2 ^ 32) : WriteCall where
  iop := 1
  rpath := "s/f"
  buf := [b]
  offset := offset
  rpath_ne := by decide
  size_lt := by simp
  range_lt := by simp only [List.length_singleton]; omega

theorem firstByte_lt : 0 < 2 ^ 32 := by decide

/-- Two adjacent calls that are merged, handed to a worker and written. -/
def mergedCalls : List Act :=
  [.write (byteCall 0 1 (by decide)), .write (byteCall 1 2 (by decide)), .swap, .handOut, .arrive 0]

/-- The merged calls leave the two bytes. -/
theorem drained_eq_sequential_merged :
    ∃ t, Machine.run (step defaultConfig) (start defaultConfig fun _ => ByteFile.empty)
        mergedCalls = some t ∧ pending t = [] ∧ (t.proxy (1, "s/f")).read 0 2 = [1, 2] := by
  have hruns : (Machine.run (step defaultConfig) (start defaultConfig fun _ => ByteFile.empty)
      mergedCalls).map pending = some [] := by
    decide
  obtain ⟨t, hrun, hdrained⟩ := Option.map_eq_some_iff.mp hruns
  have hguard : Machine.Guarded (step defaultConfig) InOrder
      (start defaultConfig fun _ => ByteFile.empty) mergedCalls := by
    refine ⟨fun last hlast => (nomatch hlast), fun s hs => ?_⟩
    obtain rfl := Option.some.inj hs
    refine ⟨fun last hlast _ => ?_, fun _ _ => ⟨trivial, fun _ _ => ⟨trivial, fun _ _ =>
      ⟨fun _ _ b hb => (nomatch hb), fun _ _ => trivial⟩⟩⟩⟩
    obtain rfl := Option.some.inj hlast
    rfl
  refine ⟨t, hrun, hdrained, ?_⟩
  rw [drained_eq_sequential hguard hrun hdrained]
  decide

/-- Two calls that write the same byte; the worker of the second one is faster. -/
def reorderedCalls : List Act :=
  [.write (byteCall 0 1 (by decide)), .write (byteCall 0 2 (by decide)), .swap, .handOut, .handOut,
    .arrive 1, .arrive 0]

/-- After the reordered calls the queue is drained and the file holds the byte of the first call. -/
theorem reordered_writes_differ :
    ∃ t, Machine.run (step defaultConfig) (start defaultConfig fun _ => ByteFile.empty)
        reorderedCalls = some t ∧ pending t = [] ∧
      t.proxy ≠ reorderedCalls.foldl sequentialStep fun _ => ByteFile.empty := by
  have hruns : (Machine.run (step defaultConfig) (start defaultConfig fun _ => ByteFile.empty)
      reorderedCalls).map (fun t => (pending t, (t.proxy (1, "s/f")).byte 0)) = some ([], 1) := by
    decide
  obtain ⟨t, hrun, hend⟩ := Option.map_eq_some_iff.mp hruns
  rw [Prod.mk.injEq] at hend
  refine ⟨t, hrun, hend.1, fun heq => ?_⟩
  have hbyte := hend.2
  rw [heq] at hbyte
  exact absurd hbyte (by decide)

/-! ### Calls that do not overlap what is on its way -/

/-- A call goes to the node that pending buffers of the same path go to, and is compatible with the
pending buffers of its file. -/
def Fresh (s : QueueState) : Act → Prop
  | .write c => ∀ b ∈ pending s,
      (b.path = c.rpath → b.dest = c.iop) ∧ b.toWrite.Compatible c.toBuffer.toWrite
  | .wakeUp => True
  | .swap => True
  | .handOut => True
  | .arrive _ => True
  | .complete _ => True

/-- The pending buffers are compatible with each other, earlier with later ones. -/
def Independent (s : QueueState) : Prop :=
  (pending s).Pairwise fun b b' => b.toWrite.Compatible b'.toWrite

/-- A buffer that is compatible with two adjacent ones is compatible with the merged one. -/
theorem compatible_append {b last : Buffer} {data : List UInt8} {off : Nat}
    (hlast : b.toWrite.Compatible last.toWrite)
    (hnext : b.toWrite.Compatible ⟨(last.dest, last.path), off, data⟩)
    (hoff : last.offset + last.buf.length = off) :
    b.toWrite.Compatible (last.append data).toWrite := by
  intro hfile i hi hi'
  subst hoff
  simp only [Buffer.toWrite, Buffer.append, ByteFile.InRange, List.length_append] at *
  by_cases hfront : i < last.offset + last.buf.length
  · rw [hlast hfile i hi ⟨hi'.1, hfront⟩, List.getD_append _ _ _ _ (by omega)]
  · have hvalue := hnext hfile i hi (by simp only [ByteFile.InRange]; omega)
    rw [List.getD_append_right _ _ _ _ (by omega), Nat.sub_sub]
    exact hvalue

/-- Every step with fresh calls keeps the pending buffers independent. -/
theorem independent_step {cfg : QueueConfig} {s t : QueueState} {a : Act} (h : Independent s)
    (hok : Fresh s a) (hstep : step cfg s a = some t) : Independent t := by
  have hinternal : (∀ c, a ≠ .write c) → (∀ i, a ≠ .arrive i) → Independent t := by
    intro hwrite harrive
    unfold Independent
    rw [(pending_of_internal hwrite harrive hstep).1]
    exact h
  cases a with
  | write c =>
      simp only [step] at hstep
      split at hstep
      · rename_i hidle
        cases hstep
        unfold Independent at *
        obtain ⟨_, hpush | ⟨front, last, hlast, hmerge, hold, hnew⟩⟩ :=
          pending_queueBuffer cfg hidle c.toBuffer
        · rw [hpush, List.pairwise_append]
          refine ⟨h, List.pairwise_singleton _ _, fun b hb b' hb' => ?_⟩
          rw [List.mem_singleton] at hb'
          subst hb'
          exact (hok b hb).2
        · rw [hold, List.pairwise_append] at h
          rw [hnew, List.pairwise_append]
          refine ⟨h.1, List.pairwise_singleton _ _, fun b hb b' hb' => ?_⟩
          rw [List.mem_singleton] at hb'
          subst hb'
          have hdest : last.dest = c.iop :=
            (hok last (by rw [hold]; simp)).1 hmerge.1
          refine compatible_append (h.2.2 b hb last List.mem_cons_self) ?_ hmerge.2.2
          have hcompatible := (hok b (by rw [hold]; exact List.mem_append_left _ hb)).2
          simp only [Buffer.toWrite, WriteCall.toBuffer] at hcompatible ⊢
          rw [hdest, hmerge.1]
          exact hcompatible
      · cases hstep
  | arrive i =>
      obtain ⟨front, b, rest, _, _, hold, hnew, _⟩ := pending_arrive hstep
      unfold Independent at *
      rw [hold] at h
      rw [hnew]
      exact h.sublist (List.Sublist.append_left (List.sublist_cons_self b rest) front)
  | wakeUp => exact hinternal (by simp) (by simp)
  | swap => exact hinternal (by simp) (by simp)
  | handOut => exact hinternal (by simp) (by simp)
  | complete i => exact hinternal (by simp) (by simp)

/-- A run of fresh calls is in order, whatever the dispatcher and the workers do. -/
theorem inOrder_of_fresh {cfg : QueueConfig} {files : FileName → ByteFile} {as : List Act}
    (hfresh : Machine.Guarded (step cfg) Fresh (start cfg files) as) :
    Machine.Guarded (step cfg) InOrder (start cfg files) as := by
  refine hfresh.of_invariant (fun s a t (hs : Independent s) hok hstep =>
    independent_step hs hok hstep) ?_ (by simp [Independent, pending, start])
  intro s a hs hok
  cases a with
  | write c =>
      intro last hlast hmerge
      refine (hok last ?_).1 hmerge.1
      have hmem := List.mem_of_getLast? hlast
      simp only [pending, List.mem_append]
      exact Or.inr (Or.inr (Or.inl hmem))
  | arrive i =>
      intro b hb b' hb'
      obtain ⟨hi, rfl⟩ := List.getElem?_eq_some_iff.mp hb
      unfold Independent pending at hs
      rw [← List.take_append_drop i s.processing, List.drop_eq_getElem_cons hi,
        List.append_assoc, List.pairwise_append] at hs
      exact hs.2.2 b' hb' _ List.mem_cons_self
  | wakeUp => trivial
  | swap => trivial
  | handOut => trivial
  | complete i => trivial

end Gvds.WriteBehind
