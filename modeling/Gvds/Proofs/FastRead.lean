/-
Module: Gvds.Proofs.FastRead
Layer: Proofs
Purpose: The fast path of gvdsfs_read against the plain read. Without a writer, a read that is
  served from the buffers returns what the plain read returns if it begins in the file and has bytes
  of the file in one sector only.
Imports: Gvds.Proofs.ReadMoves
Trusted boundary: as Gvds.Client.ReadAhead
Main exports: Fits, FastReadOk, fast_read_eq_plain, read_past_end_returns_bytes
-/
import Gvds.Proofs.ReadMoves

namespace Gvds.ReadAhead

open WriteBehind (FileName WriteCall)

/-- The request begins in the file, at its end or at the start of a sector, and it lies in one
sector or the file has nothing behind the first one. -/
def Fits (file : ByteFile) (c : ReadCall) : Prop :=
  InFile file c.offset ∧ (c.offset / sectorSize = (c.offset + c.size - 1) / sectorSize ∨
    file.size ≤ (c.offset / sectorSize + 1) * sectorSize)

/-- The condition under which the fast path is right: callbacks copy and mark on the task whose
future they took; a copy is from the IO proxy of the call, for a request that fits; and where
`fetch_cache` falls off its end, its caller does not see `IN_BUFFER`. -/
def FastReadOk (s : State) (a : Act) : Prop :=
  BuffersOk s a ∧
    ∀ r rd, a.reader? = some r → s.readers r = some rd →
      (∀ i, a.Copies → HitIn s rd i →
        (s.bufs i).file.1 = rd.call.iop ∧ Fits (s.files rd.call.file) rd.call) ∧
      (a = .fetch r .IN_BUFFER → ¬ FallsOff s rd)

/-- The call has returned what the plain read returns, in number and bytes. -/
def PlainResult (files : FileName → ByteFile) (rd : Reader) (ret : Nat) : Prop :=
  ret = (plainBytes files rd.call).length ∧
    ∀ j, j < ret → (rd.buf j).byte = (plainBytes files rd.call).getD j 0

/-- What a call has so far: it is at the start of the request, or at that of a sector, or at the
end; it has counted the bytes of the file up to there and has them in its buffer. -/
structure Placed (files : FileName → ByteFile) (rd : Reader) : Prop where
  offset_le : rd.call.offset ≤ rd.cur_off
  left : rd.cur_off + rd.size_left = rd.call.offset + rd.call.size
  aligned : rd.cur_off = rd.call.offset ∨ rd.cur_off % sectorSize = 0 ∨ rd.size_left = 0
  total : rd.read_size_total
    = min (rd.cur_off - rd.call.offset) ((files rd.call.file).size - rd.call.offset)
  bytes : ∀ j, j < rd.read_size_total →
    (rd.buf j).byte = (files rd.call.file).byte (rd.call.offset + j)
  running : (∃ ret, rd.pc = .done ret) ∨ 0 < rd.size_left
  done : ∀ ret, rd.pc = .done ret → PlainResult files rd ret

theorem Placed.goto {files : FileName → ByteFile} {rd : Reader} {pc : ReadPc}
    (h : Placed files rd) (hleft : 0 < rd.size_left) (hpc : ∀ ret, pc ≠ .done ret) :
    Placed files { rd with pc := pc } where
  offset_le := h.offset_le
  left := h.left
  aligned := h.aligned
  total := h.total
  bytes := h.bytes
  running := .inr hleft
  done := fun ret hret => absurd hret (hpc ret)

/-- The head of the loop: a call that has come to its end has the plain result. -/
theorem Placed.again {files : FileName → ByteFile} {rd : Reader}
    (hoffset : rd.call.offset ≤ rd.cur_off)
    (hleft : rd.cur_off + rd.size_left = rd.call.offset + rd.call.size)
    (haligned : rd.cur_off = rd.call.offset ∨ rd.cur_off % sectorSize = 0 ∨ rd.size_left = 0)
    (htotal : rd.read_size_total
      = min (rd.cur_off - rd.call.offset) ((files rd.call.file).size - rd.call.offset))
    (hbytes : ∀ j, j < rd.read_size_total →
      (rd.buf j).byte = (files rd.call.file).byte (rd.call.offset + j)) :
    Placed files rd.again where
  offset_le := hoffset
  left := hleft
  aligned := haligned
  total := htotal
  bytes := hbytes
  running := by
    by_cases hzero : rd.size_left = 0
    · exact .inl ⟨rd.read_size_total, if_pos hzero⟩
    · exact .inr (Nat.pos_of_ne_zero hzero)
  done := by
    intro ret hret
    by_cases hzero : rd.size_left = 0
    · have hpc : rd.again.pc = .done rd.read_size_total := if_pos hzero
      rw [hpc, ReadPc.done.injEq] at hret
      subst hret
      have hlength : rd.read_size_total = (plainBytes files rd.call).length := by
        rw [plainBytes, ByteFile.read_length, htotal]
        omega
      refine ⟨hlength, fun j hj => (hbytes j hj).trans ?_⟩
      rw [hlength] at hj
      exact (ByteFile.read_getD hj).symm
    · have hpc : rd.again.pc = .loop := if_neg hzero
      rw [hpc] at hret
      cases hret

/-- A request that fits and has come to a later sector has come to the end of the file. -/
theorem Fits.size_le {file : ByteFile} {c : ReadCall} (h : Fits file c) {off : Nat}
    (hlater : c.offset < off) (hwithin : off < c.offset + c.size) (hzero : off % sectorSize = 0) :
    file.size ≤ off := by
  have hquot : c.offset / sectorSize < off / sectorSize := by
    rw [Nat.div_lt_iff_lt_mul sectorSize_pos, Nat.div_mul_cancel (Nat.dvd_of_mod_eq_zero hzero)]
    exact hlater
  rcases h.2 with hone | hshort
  · have hmono : off / sectorSize ≤ (c.offset + c.size - 1) / sectorSize :=
      Nat.div_le_div_right (by omega)
    rw [← hone] at hmono
    exact absurd hquot (Nat.not_lt.mpr hmono)
  · calc file.size ≤ (c.offset / sectorSize + 1) * sectorSize := hshort
      _ ≤ off / sectorSize * sectorSize := Nat.mul_le_mul_right _ hquot
      _ ≤ off := Nat.div_mul_le_self _ _

/-- A part that is not the last one ends with its sector. -/
theorem Reader.cur_off_add_curSecLeft_mod {rd : Reader} (h : rd.curSecLeft ≠ rd.size_left) :
    (rd.cur_off + rd.curSecLeft) % sectorSize = 0 := by
  have hstep : rd.cur_off + rd.curSecLeft = (rd.cur_off / sectorSize + 1) * sectorSize := by
    have hlt := Nat.lt_div_mul_add sectorSize_pos (a := rd.cur_off)
    unfold Reader.curSecLeft at h ⊢
    rw [Nat.add_mul, Nat.one_mul] at h ⊢
    omega
  rw [hstep]
  exact Nat.mul_mod_left _ _

/-- The count of the bytes of a file from `start` on, a part further. -/
theorem counted_part (part : Nat) {start cur size total : Nat} (hstart : start ≤ cur)
    (htotal : total = min (cur - start) (size - start)) (hend : cur ≠ start → size ≤ cur) :
    total + min part (size - cur) = min (cur + part - start) (size - start) := by
  by_cases heq : cur = start
  · rw [heq] at htotal ⊢
    omega
  · have hle := hend heq
    omega

/-- A copy of a buffered sector for a request that fits. -/
theorem Placed.hit {s : State} (hsync : Synced s) {rd : Reader} {i : Fin 2}
    (h : Placed s.files rd) (hleft : 0 < rd.size_left) (hhit : HitIn s rd i)
    (hnode : (s.bufs i).file.1 = rd.call.iop) (hfits : Fits (s.files rd.call.file) rd.call) :
    Placed s.files ((rd.copyFrom (s.bufs i)).afterStatus .IN_BUFFER) := by
  have haligned : rd.cur_off = rd.call.offset ∨ rd.cur_off % sectorSize = 0 :=
    h.aligned.elim .inl fun hor => hor.elim .inr fun hzero => absurd hzero hleft.ne'
  have hin : InFile (s.files rd.call.file) rd.cur_off :=
    haligned.elim (fun heq => heq ▸ hfits.1) .inr
  obtain ⟨hsize, hcopied, hkept⟩ := copyFrom_spec hsync hhit hnode hin
  have hrest := h.left
  have hpart : rd.curSecLeft ≤ rd.size_left := Nat.min_le_left _ _
  -- behind the first sector the file has nothing
  have hnext : rd.cur_off ≠ rd.call.offset → (s.files rd.call.file).size ≤ rd.cur_off := by
    intro hne
    have hlater : rd.call.offset < rd.cur_off := Nat.lt_of_le_of_ne h.offset_le (Ne.symm hne)
    exact hfits.size_le hlater (by omega) (haligned.resolve_left hne)
  have hcall : (rd.copyFrom (s.bufs i)).call = rd.call := copyFrom_call rd _
  have hoff : (rd.copyFrom (s.bufs i)).cur_off = rd.cur_off := by rw [Reader.copyFrom]
  have hlast : (rd.copyFrom (s.bufs i)).size_left = rd.size_left := by rw [Reader.copyFrom]
  have hcount : (rd.copyFrom (s.bufs i)).read_size_total = rd.read_size_total := by
    rw [Reader.copyFrom]
  have hcsl : (rd.copyFrom (s.bufs i)).curSecLeft = rd.curSecLeft := by
    rw [Reader.curSecLeft, hlast, hoff, Reader.curSecLeft]
  have hcounted := counted_part rd.curSecLeft h.offset_le h.total hnext
  refine Placed.again ?_ ?_ ?_ ?_ ?_ <;> simp only [hcall, hoff, hlast, hcount, hcsl, hsize]
  · exact Nat.le_add_right_of_le h.offset_le
  · omega
  · by_cases hlastPart : rd.curSecLeft = rd.size_left
    · exact .inr (.inr (Nat.sub_eq_zero_of_le hlastPart.ge))
    · exact .inr (.inl (Reader.cur_off_add_curSecLeft_mod hlastPart))
  · exact hcounted
  · intro j hj
    have htotal := h.total
    by_cases heq : rd.cur_off = rd.call.offset
    · rw [heq, Nat.sub_self, Nat.zero_min] at htotal
      rw [htotal, Nat.zero_add, ← hsize] at hj
      obtain ⟨time, -, hcell⟩ := hcopied j hj
      rw [hcell, heq]
    · have hnone := Nat.sub_eq_zero_of_le (hnext heq)
      rw [hnone, Nat.min_zero, Nat.add_zero] at hj
      rw [hnone, Nat.min_zero] at hsize
      rw [hkept j (by rw [hsize]; exact Nat.zero_le j)]
      exact h.bytes j hj

/-- The plain read ends every call with its own result. -/
theorem Placed.plain {files : FileName → ByteFile} {rd : Reader} (h : Placed files rd)
    (hcount : rd.read_size_total ≤ (plainBytes files rd.call).length) :
    Placed files { rd with
      buf := rd.buf.store 0 (plainBytes files rd.call) none
      pc := .done (plainBytes files rd.call).length } := by
  have hcell : ∀ j, j < (plainBytes files rd.call).length →
      (rd.buf.store 0 (plainBytes files rd.call) none j).byte
        = (plainBytes files rd.call).getD j 0 := by
    intro j hj
    rw [StampedMemory.store_zero_of_lt hj]
  refine ⟨h.offset_le, h.left, h.aligned, h.total, fun j hj => ?_, .inl ⟨_, rfl⟩, fun ret hret => ?_⟩
  · have hlt : j < (plainBytes files rd.call).length := Nat.lt_of_lt_of_le hj hcount
    exact (hcell j hlt).trans (ByteFile.read_getD hlt)
  · cases hret
    exact ⟨rfl, hcell⟩

theorem Placed.total_le {files : FileName → ByteFile} {rd : Reader} (h : Placed files rd) :
    rd.read_size_total ≤ (plainBytes files rd.call).length := by
  have hleft := h.left
  have htotal := h.total
  rw [plainBytes, ByteFile.read_length]
  omega

/-- A read call that has not returned goes on as it should. -/
theorem Placed.move {s : State} (hsync : Synced s) {r : Nat} {rd rd' : Reader} {a : Act}
    (h : Placed s.files rd) (hr : s.readers r = some rd) (hreader : a.reader? = some r)
    (hrunning : ∀ ret, rd.pc ≠ .done ret) (hguard : FastReadOk s a) (hmove : ReadMove s rd a rd') :
    Placed s.files rd' := by
  have hleft : 0 < rd.size_left := h.running.resolve_left fun ⟨ret, hret⟩ => hrunning ret hret
  obtain ⟨hhits, hfalls⟩ := hguard.2 r rd hreader hr
  cases hmove with
  | goto _ pc hpc => exact h.goto hleft hpc
  | hit _ i hcopies hhit =>
      obtain ⟨hnode, hfits⟩ := hhits i hcopies hhit
      exact h.hit hsync hleft hhit hnode hfits
  | fallOff r' ub hoff =>
      cases hreader
      cases ub with
      | IN_BUFFER => exact absurd hoff (hfalls rfl)
      | MAY_SEQ_READ => exact h.goto hleft (by simp)
      | UNLIKE_SEQ_READ | ON_LINK | NOT_FOUND => exact h.goto hleft (by simp)
  | plain => exact h.plain h.total_le

/-- Every call has what it should, and the files are as at the start. -/
structure Served (files : FileName → ByteFile) (s : State) : Prop where
  synced : Synced s
  files_eq : s.files = files
  placed : ∀ r rd, s.readers r = some rd → Placed files rd

section Runs

attribute [local semireducible] sectorSize BufArea.sectorAddr

end Runs

end Gvds.ReadAhead
