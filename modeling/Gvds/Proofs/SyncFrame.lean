/-
Module: Gvds.Proofs.SyncFrame
Layer: Proofs
Purpose: What sync_filedata does to the bytes that the local copy stores already. The holes are
  looked for but the whole range is asked for, and every answer is written as it comes: local data
  keeps its value exactly where the last answer that covers it brings the same byte.
Imports: Gvds.IoProxy.FileSync
Trusted boundary: as Gvds.IoProxy.FileSync
Main exports: pwriteAll_toByteFile, KeepsData, Spares, sync_filedata_keeps_data_iff,
  sync_filedata_overwrites_data
-/
import Gvds.IoProxy.FileSync

namespace Gvds.FileSync

open HvsFileHandler (DiskFile FindsHoles finds_holes_runs)
open MaximalRuns (Runs)

variable {B : Nat} [NeZero B]

/-- The contents after some calls of `pwrite` are those after the log of the accepted ones. -/
theorem pwriteAll_toByteFile (f : SparseFile B) (log : List (FileWrite Unit)) :
    (pwriteAll f log).toByteFile =
      WriteLog.apply (fun _ => f.toByteFile) (log.filter accepted) () := by
  unfold pwriteAll
  generalize log.filter accepted = log
  induction log generalizing f with
  | nil => rfl
  | cons w log ih =>
      have hfirst : (fun _ : Unit => (f.pwrite w.off w.data).toByteFile) =
          w.apply fun _ => f.toByteFile := by
        funext u
        cases u
        simp [FileWrite.apply]
      rw [List.foldl_cons, ih, WriteLog.apply_cons, hfirst]

/-- Every byte of the data ranges of `f` has the same value in `f'`. -/
def KeepsData (f : DiskFile B) (f' : SparseFile B) : Prop :=
  ∀ i, i < f.size → f.Stored i → f'.byte i = f.byte i

/-- Of the writes in a log that `pwrite` accepts, the last one over any byte of a data range of `f`
brings the byte that is there. -/
def Spares (f : DiskFile B) (log : List (FileWrite Unit)) : Prop :=
  ∀ i, i < f.size → f.Stored i →
    ∀ b, WriteLog.lastByte (log.filter accepted) () i = some b → b = f.byte i

/-- Some calls of `pwrite` keep the data of a file exactly if they spare it. -/
theorem keepsData_pwriteAll_iff {f : DiskFile B} {log : List (FileWrite Unit)} :
    KeepsData f (pwriteAll f.toSparseFile log) ↔ Spares f log := by
  have hbyte : ∀ i, (pwriteAll f.toSparseFile log).byte i = f.byte i ↔
      ∀ b, WriteLog.lastByte (log.filter accepted) () i = some b → b = f.byte i := by
    intro i
    rw [pwriteAll_toByteFile]
    exact WriteLog.apply_byte_eq_self_iff fun _ => f.toByteFile
  exact forall_congr' fun i => imp_congr_right fun _ => imp_congr_right fun _ => hbyte i

variable {ioproxys : UInt32 → Bool} {mcid : UInt8} {cids : Option (List UInt8)}
  {around : Int → UInt8} {replies : Nat → SyncReply} {f : DiskFile B} {off len : Nat}

/-- Nothing is asked for: the range has no hole, or the attribute of the space cannot be read. -/
def AsksNobody (cids : Option (List UInt8)) (f : DiskFile B) (off len : Nat) : Prop :=
  (∀ i, off ≤ i → i < min (addU64 off len) f.size → f.Stored i) ∨ cids.bind CenterIds.getxattr = none

/-- What `sync_filedata` leaves of the local copy. -/
theorem sync_filedata_cases {rounds : Nat} {f' : SparseFile B}
    (h : sync_filedata ioproxys mcid cids around replies f rounds off len = some f') :
    (AsksNobody cids f off len ∧ f' = f.toSparseFile) ∨
      ∃ ids, ¬ AsksNobody cids f off len ∧ cids.bind CenterIds.getxattr = some ids ∧
        f' = pwriteAll f.toSparseFile
          (replyWrites around replies (asked ioproxys mcid ids).length) := by
  obtain ⟨holes, hscan, heq⟩ := Option.map_eq_some_iff.mp h
  obtain ⟨holes', hfinds, hruns⟩ := finds_holes_runs f off (addU64 off len)
  have hfound : FindsHoles f off (addU64 off len) holes := ⟨rounds, hscan⟩
  have hsame := hfound.unique hfinds
  subst hsame
  have hnone : holes.length = 0 ↔
      ∀ i, off ≤ i → i < min (addU64 off len) f.size → f.Stored i := by
    constructor
    · intro hnil i hi hilim
      rw [List.length_eq_zero_iff] at hnil
      by_contra hhole
      obtain ⟨r, hr, -⟩ :=
        hruns.mem_range_iff.mpr ⟨hi, hilim, HvsFileHandler.DiskFile.not_stored_iff.mp hhole⟩
      rw [hnil] at hr
      cases hr
    · intro hall
      rw [List.length_eq_zero_iff]
      apply hruns.unique (MaximalRuns.runs_nil ?_)
      intro i hi hilim hhole
      exact HvsFileHandler.DiskFile.not_stored_iff.mpr hhole (hall i hi hilim)
  by_cases hempty : holes.length = 0
  · rw [if_pos hempty] at heq
    exact Or.inl ⟨Or.inl (hnone.mp hempty), heq.symm⟩
  · rw [if_neg hempty] at heq
    cases hattr : cids.bind CenterIds.getxattr with
    | none =>
        rw [hattr] at heq
        exact Or.inl ⟨Or.inr hattr, heq.symm⟩
    | some ids =>
        rw [hattr] at heq
        refine Or.inr ⟨ids, ?_, rfl, heq.symm⟩
        intro hnobody
        cases hnobody with
        | inl hall => exact hempty (hnone.mpr hall)
        | inr hnoattr =>
            rw [hattr] at hnoattr
            cases hnoattr

/-- `sync_filedata` returns, for every layout, every range and every set of replies. -/
theorem sync_filedata_returns (ioproxys : UInt32 → Bool) (mcid : UInt8)
    (cids : Option (List UInt8)) (around : Int → UInt8) (replies : Nat → SyncReply)
    (f : DiskFile B) (off len : Nat) :
    ∃ rounds f', sync_filedata ioproxys mcid cids around replies f rounds off len = some f' := by
  obtain ⟨holes, ⟨rounds, hscan⟩, -⟩ := finds_holes_runs f off (addU64 off len)
  exact ⟨rounds, _, Option.map_eq_some_iff.mpr ⟨holes, hscan, rfl⟩⟩

/-- When local data keeps its value. -/
theorem keepsData_iff {rounds : Nat} {f' : SparseFile B}
    (h : sync_filedata ioproxys mcid cids around replies f rounds off len = some f') :
    KeepsData f f' ↔ AsksNobody cids f off len ∨
      ∀ ids, cids.bind CenterIds.getxattr = some ids →
        Spares f (replyWrites around replies (asked ioproxys mcid ids).length) := by
  rcases sync_filedata_cases h with ⟨hnobody, rfl⟩ | ⟨ids, hasks, hattr, rfl⟩
  · exact ⟨fun _ => Or.inl hnobody, fun _ i _ _ => rfl⟩
  · rw [keepsData_pwriteAll_iff, hattr]
    simp only [hasks, false_or, Option.some.injEq, forall_eq']

/-- For every layout, every range and every set of replies: `sync_filedata` returns, and local data
keeps its value if and only if nobody is asked, or the last answer that covers a byte of local data
brings the byte that is there. -/
theorem sync_filedata_keeps_data_iff (B : Nat) [NeZero B] (ioproxys : UInt32 → Bool) (mcid : UInt8)
    (cids : Option (List UInt8)) (around : Int → UInt8) (replies : Nat → SyncReply)
    (f : DiskFile B) (off len : Nat) :
    (∃ rounds f', sync_filedata ioproxys mcid cids around replies f rounds off len = some f') ∧
      ∀ rounds f', sync_filedata ioproxys mcid cids around replies f rounds off len = some f' →
        (KeepsData f f' ↔ AsksNobody cids f off len ∨
          ∀ ids, cids.bind CenterIds.getxattr = some ids →
            Spares f (replyWrites around replies (asked ioproxys mcid ids).length)) :=
  ⟨sync_filedata_returns ioproxys mcid cids around replies f off len,
    fun _ _ h => keepsData_iff h⟩

/-- A copy of two pages: the first one holds a new version, the second one is a hole. -/
def updatedCopy : DiskFile pageSize where
  size := 2 * pageSize
  byte := fun i => if i < pageSize then 7 else 0
  beyond := fun i hi => if_neg (by unfold pageSize at *; omega)
  data := fun p => p == 0
  hole_zero := by
    intro i hi
    rw [beq_eq_false_iff_ne] at hi
    exact if_neg (by unfold pageSize at *; omega)
  data_lt := by
    intro p hp
    rw [beq_iff_eq.mp hp]
    decide
  size_lt := by decide

/-- That copy, and a peer that still holds a version of one byte. -/
theorem sync_filedata_keeps_data_iff_updated_copy :
    (∃ rounds f', sync_filedata (fun _ => true) 1 (some [1, 2]) (fun _ => 0)
        (fun _ => ⟨[(0, 1)], [5], 0⟩) updatedCopy rounds 0 8192 = some f') ∧
      ∀ rounds f', sync_filedata (fun _ => true) 1 (some [1, 2]) (fun _ => 0)
          (fun _ => ⟨[(0, 1)], [5], 0⟩) updatedCopy rounds 0 8192 = some f' →
        (KeepsData updatedCopy f' ↔ AsksNobody (some [1, 2]) updatedCopy 0 8192 ∨
          ∀ ids, (some [1, 2]).bind CenterIds.getxattr = some ids →
            Spares updatedCopy (replyWrites (fun _ => 0) (fun _ => ⟨[(0, 1)], [5], 0⟩)
              (asked (fun _ => true) 1 ids).length)) :=
  sync_filedata_keeps_data_iff pageSize (fun _ => true) 1 (some [1, 2]) (fun _ => 0)
    (fun _ => ⟨[(0, 1)], [5], 0⟩) updatedCopy 0 8192

/-- The first page of that copy is overwritten with the peer's old version. -/
theorem sync_filedata_overwrites_data :
    ¬ ∀ (B : Nat) [NeZero B] (ioproxys : UInt32 → Bool) (mcid : UInt8) (cids : Option (List UInt8))
        (around : Int → UInt8) (replies : Nat → SyncReply) (f : DiskFile B) (rounds off len : Nat)
        (f' : SparseFile B),
        sync_filedata ioproxys mcid cids around replies f rounds off len = some f' →
        KeepsData f f' := by
  intro h
  obtain ⟨rounds, f', hsync⟩ := sync_filedata_returns (fun _ => true) 1 (some [1, 2])
    (fun _ => 0) (fun _ => ⟨[(0, 1)], [5], 0⟩) updatedCopy 0 8192
  have hkeeps := h pageSize _ _ _ _ _ _ _ _ _ _ hsync
  cases (keepsData_iff hsync).mp hkeeps with
  | inl hnobody =>
      cases hnobody with
      | inl hall => exact absurd (hall 4096 (by decide) (by decide)) (by decide)
      | inr hnoattr => exact absurd hnoattr (by decide)
  | inr hspares =>
      have hbyte := hspares [1, 2] (by decide) 0 (by decide) (by decide) 5 (by decide)
      exact absurd hbyte (by decide)

end Gvds.FileSync
