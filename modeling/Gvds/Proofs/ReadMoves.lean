/-
Module: Gvds.Proofs.ReadMoves
Layer: Proofs
Purpose: What one step does to the read calls and to the writes. A step of a read call moves it on,
  copies a buffered sector, or ends in the plain read; the callbacks touch no call at all. A copy
  from buffers that are in step with the IO proxy has the bytes of the file, read since its last
  write.
Imports: Gvds.Proofs.ReadAheadBuffers
Trusted boundary: as Gvds.Client.ReadAhead
Main exports: SameCalls, ReadMove, readStep_cases, copyFrom_spec
-/
import Gvds.Proofs.ReadAheadBuffers

namespace Gvds.ReadAhead

open WriteBehind (FileName WriteCall)

/-! ### Steps that touch no call -/

/-- The calls, the files and the times are the same. -/
structure SameCalls (s t : State) : Prop where
  readers : t.readers = s.readers
  writers : t.writers = s.writers
  files : t.files = s.files
  clock : t.clock = s.clock
  written : t.written = s.written
  returned : t.returned = s.returned

theorem SameCalls.refl (s : State) : SameCalls s s := ⟨rfl, rfl, rfl, rfl, rfl, rfl⟩

theorem SameCalls.trans {s t u : State} (hst : SameCalls s t) (htu : SameCalls t u) :
    SameCalls s u :=
  ⟨htu.readers.trans hst.readers, htu.writers.trans hst.writers, htu.files.trans hst.files,
    htu.clock.trans hst.clock, htu.written.trans hst.written, htu.returned.trans hst.returned⟩

theorem sameCalls_setBuf (s : State) (i : Fin 2) (b : BufArea) : SameCalls s (s.setBuf i b) :=
  ⟨rfl, rfl, rfl, rfl, rfl, rfl⟩

/-- `fetch_cache` of this call finds its sector in buffer `i`. -/
def HitIn (s : State) (rd : Reader) (i : Fin 2) : Prop :=
  (rd.pc = .fetch i ∨ rd.pc = .waiting i) ∧
    (s.bufs i).lookup rd.call.rpath (rd.cur_off / sectorSize) = .IN_BUFFER

/-- `fetch_cache` of this call has found its sector in no buffer. -/
def FallsOff (s : State) (rd : Reader) : Prop :=
  rd.pc = .fetch 1 ∧ (s.bufs 1).lookup rd.call.rpath (rd.cur_off / sectorSize) = .NOT_FOUND

/-- The steps that may copy a buffered sector. -/
def Act.Copies : Act → Prop
  | .fetch _ _ => True
  | .woken _ ready => ready = true
  | _ => False

/-- The read call that takes the step. -/
def Act.reader? : Act → Option Nat
  | .status r => some r
  | .fetch r _ => some r
  | .woken r _ => some r
  | .setTask r => some r
  | .plainRead r => some r
  | _ => none

/-- What a step can make of a read call: it goes elsewhere in the code; it copies a buffered sector;
it falls off the end of `fetch_cache`; it does the plain read. -/
inductive ReadMove (s : State) (rd : Reader) : Act → Reader → Prop where
  | goto (a : Act) (pc : ReadPc) (hpc : ∀ ret, pc ≠ .done ret) : ReadMove s rd a { rd with pc := pc }
  | hit (a : Act) (i : Fin 2) (hcopies : a.Copies) (hhit : HitIn s rd i) :
      ReadMove s rd a ((rd.copyFrom (s.bufs i)).afterStatus .IN_BUFFER)
  | fallOff (r : Nat) (ub : Status) (hoff : FallsOff s rd) :
      ReadMove s rd (.fetch r ub) (rd.afterStatus ub)
  | plain (a : Act) : ReadMove s rd a { rd with
      buf := rd.buf.store 0 (plainBytes s.files rd.call) none
      pc := .done (plainBytes s.files rd.call).length }

/-- The step of a read call, seen from the calls. -/
structure ReadStepped (s t : State) (r : Nat) (rd : Reader) (a : Act) : Prop where
  writers : t.writers = s.writers
  files : t.files = s.files
  written : t.written = s.written
  returned : t.returned = s.returned
  moved : ∃ rd', t.readers = Function.update s.readers r (some rd') ∧ ReadMove s rd a rd'

theorem SameCalls.setReader {s t : State} {r : Nat} {rd rd' : Reader} {a : Act}
    (h : SameCalls s t) (hmove : ReadMove s rd a rd') : ReadStepped s (t.setReader r rd') r rd a where
  writers := h.writers
  files := h.files
  written := h.written
  returned := h.returned
  moved := ⟨rd', by rw [State.setReader, h.readers], hmove⟩

@[simp] theorem copyFrom_call (rd : Reader) (b : BufArea) : (rd.copyFrom b).call = rd.call := by
  rw [Reader.copyFrom]

@[simp] theorem copyFrom_since (rd : Reader) (b : BufArea) : (rd.copyFrom b).since = rd.since := by
  rw [Reader.copyFrom]

@[simp] theorem afterStatus_call (rd : Reader) (st : Status) :
    (rd.afterStatus st).call = rd.call := by
  cases st <;> rfl

@[simp] theorem afterStatus_since (rd : Reader) (st : Status) :
    (rd.afterStatus st).since = rd.since := by
  cases st <;> rfl

@[simp] theorem afterStatus_buf (rd : Reader) (st : Status) : (rd.afterStatus st).buf = rd.buf := by
  cases st <;> rfl

theorem lookup_eq_inBuffer {b : BufArea} {filename : String} {sec_nr : Nat}
    (h : b.lookup filename sec_nr = .IN_BUFFER) :
    filename = b.file.2 ∧ ∃ len, b.sec_bufferd sec_nr = some len := by
  unfold BufArea.lookup at h
  split at h
  next => cases h
  next hname =>
    split at h
    next => cases h
    next =>
      split at h
      next hsome => exact ⟨not_not.mp hname, Option.isSome_iff_exists.mp hsome⟩
      next => cases h

/-- The offset is in the file or at its end, or it begins a sector. -/
def InFile (file : ByteFile) (off : Nat) : Prop := off ≤ file.size ∨ off % sectorSize = 0

theorem sectorSize_pos : 0 < sectorSize := by
  unfold sectorSize
  exact Nat.two_pow_pos 18

theorem sectorSize_lt : sectorSize < 2 ^ 64 := by
  unfold sectorSize
  omega

/-- A copy from buffers in step: the length is that of the file's bytes in this part of the request,
and each of them was read since the last write. The cells behind are as before. -/
theorem copyFrom_spec {s : State} (h : Synced s) {rd : Reader} {i : Fin 2}
    (hhit : HitIn s rd i) (hnode : (s.bufs i).file.1 = rd.call.iop)
    (hin : InFile (s.files rd.call.file) rd.cur_off) :
    let rd' := rd.copyFrom (s.bufs i)
    rd'.read_size = min rd.curSecLeft ((s.files rd.call.file).size - rd.cur_off) ∧
      (∀ j, j < rd'.read_size → ∃ time, s.written rd.call.file ≤ time ∧
        rd'.buf j = ⟨(s.files rd.call.file).byte (rd.cur_off + j), some time⟩) ∧
      ∀ j, rd'.read_size ≤ j → rd'.buf j = rd.buf j := by
  obtain ⟨hname, len, hlen⟩ := lookup_eq_inBuffer hhit.2
  have hfile : (s.bufs i).file = rd.call.file := Prod.ext hnode hname.symm
  obtain ⟨-, hlen_eq, hholds⟩ := h.filled i _ len (.inl hlen)
  rw [hfile] at hlen_eq hholds
  have hlen_eq' := hlen_eq
  rw [sectorBytes, ByteFile.read_length] at hlen_eq'
  have hsplit : rd.cur_off / sectorSize * sectorSize + rd.cur_off % sectorSize = rd.cur_off := by
    rw [Nat.mul_comm]
    exact Nat.div_add_mod rd.cur_off sectorSize
  have hoff : rd.cur_off % sectorSize < sectorSize := Nat.mod_lt _ sectorSize_pos
  have hpart : rd.curSecLeft ≤ sectorSize - rd.cur_off % sectorSize := by
    unfold Reader.curSecLeft
    rw [Nat.add_mul, Nat.one_mul]
    omega
  -- the difference does not wrap
  have hle : rd.cur_off % sectorSize ≤ len := by
    rcases hin with hsize | hzero
    · omega
    · omega
  have hlt := sectorSize_lt
  have hdiff : (len + 2 ^ 64 - rd.cur_off % sectorSize) % 2 ^ 64
      = len - rd.cur_off % sectorSize := by
    omega
  have hsize : (rd.copyFrom (s.bufs i)).read_size
      = min rd.curSecLeft ((s.files rd.call.file).size - rd.cur_off) := by
    simp only [Reader.copyFrom, hlen, Option.getD_some, hdiff]
    omega
  refine ⟨hsize, fun j hj => ?_, fun j hj => ?_⟩
  · have hj' : rd.cur_off % sectorSize + j
        < (sectorBytes (s.files rd.call.file) (rd.cur_off / sectorSize)).length := by
      rw [← hlen_eq]
      omega
    obtain ⟨time, htime, hcell⟩ := hholds _ hj'
    refine ⟨time, htime, ?_⟩
    have hcopied : (rd.copyFrom (s.bufs i)).buf j = (s.bufs i).buf
        ((s.bufs i).sectorAddr (rd.cur_off / sectorSize) + rd.cur_off % sectorSize + j) :=
      StampedMemory.copy_zero_of_lt hj
    rw [hcopied, Nat.add_assoc, hcell, sectorBytes, ByteFile.read_getD hj', ← Nat.add_assoc, hsplit]
  · exact StampedMemory.copy_of_not_lt (.inr ((Nat.zero_add _).le.trans hj))

end Gvds.ReadAhead
