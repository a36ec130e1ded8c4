/-
Module: Gvds.Proofs.PathEffects
Layer: Proofs
Purpose: What the requests on one path do to the others: which of them name what they named, and
  which files have the size they had. Only a write and a truncating open reach beyond their path,
  where the descriptor that FdManager keeps for it is open on another file.
Imports: Gvds.IoProxy.ProxyOp, Gvds.Proofs.WriteOffset
Trusted boundary: as Gvds.IoProxy.Kernel
Main exports: Kernel.Spares, IoProxy.Behind, IoProxy.Fits, IoProxy.doOpen_spec, IoProxy.doWrite_spec,
  IoProxy.node_moveName
-/
import Gvds.IoProxy.ProxyOp
import Gvds.Proofs.WriteOffset

namespace Gvds

variable {β : Type*}

namespace Kernel

/-- The path names what it named, and a file has the size it had. -/
structure Spares (k k' : Kernel β) (q : PathName) : Prop where
  node : k'.tree.node q = k.tree.node q
  size : ∀ i, k.tree.node q = some (.file i) → (k'.content i).size = (k.content i).size

theorem Spares.refl (k : Kernel β) (q : PathName) : Spares k k q := ⟨rfl, fun _ _ => rfl⟩

/-- Neither names nor contents are changed. -/
theorem Spares.of_eq {k k' : Kernel β} (htree : k'.tree = k.tree) (hcontent : k'.content = k.content)
    (q : PathName) : Spares k k' q :=
  ⟨by rw [htree], fun i _ => by rw [hcontent]⟩

/-- A file has one name, so a change of its contents is seen there only. -/
theorem spares_setContent {k : Kernel β} {p q : PathName} {i : Nat} (c : ByteFile)
    (hp : k.tree.node p = some (.file i)) (hq : q ≠ p) : Spares k (k.setContent i c) q where
  node := rfl
  size j hj := by
    have hne : j ≠ i := by
      rintro rfl
      exact hq (k.tree.inj q p j hj hp)
    have hsame : (k.setContent i c).content j = k.content j := Function.update_of_ne hne _ _
    rw [hsame]

theorem spares_sysOpen {k k' : Kernel β} {p q : PathName} {flags : BitVec 32} {fd : Nat}
    (h : k.sysOpen p flags = .ok (k', fd)) (hq : q ≠ p) : Spares k k' q := by
  obtain ⟨-, ⟨ino, hnode, rfl⟩ | ⟨x, d, rfl, hadd, -, rfl⟩⟩ := sysOpen_cases h
  · split
    · have hspares := spares_setContent ByteFile.empty hnode hq
      exact ⟨hspares.node, hspares.size⟩
    · exact ⟨rfl, fun _ _ => rfl⟩
  · refine ⟨FileTree.node_add_of_ne hq, fun i hi => ?_⟩
    have hne : i ≠ k.nextIno := (k.tree_lt q i hi).ne
    simp only [allocFd_content, makeFile]
    rw [Function.update_of_ne hne]

theorem spares_removeName {k : Kernel β} {p q : PathName} (hq : q ≠ p) :
    Spares k (k.removeName p) q :=
  ⟨FileTree.node_remove_of_ne hq, fun _ _ => rfl⟩

end Kernel

namespace IoProxy

open Kernel (Spares)

/-! ### The descriptor cache -/

@[simp] theorem fdmExpire_content (s : IoProxy β) (p : PathName) :
    (s.fdmExpire p).k.content = s.k.content := by
  unfold fdmExpire
  cases s.fdm.fds.lookup p <;> rfl

/-! ### Requests that stay at their path -/

theorem spares_withCall {s : IoProxy β} {r : Except Errno (Kernel β)} {q : PathName}
    (h : ∀ k', r = .ok k' → Spares s.k k' q) : Spares s.k (s.withCall r).1.k q := by
  cases r with
  | error e => exact Spares.refl s.k q
  | ok k' => exact h k' rfl

theorem spares_create (s : IoProxy β) {p q : PathName} (hq : q ≠ p) :
    Spares s.k (s.fdmCreate p).1.k q := by
  unfold fdmCreate
  cases hopen : s.k.sysOpen p (oCreat ||| oSync) with
  | error e => exact Spares.refl s.k q
  | ok r =>
      obtain ⟨k, fd⟩ := r
      have hspares := Kernel.spares_sysOpen hopen hq
      exact ⟨by simpa using hspares.node, by simpa using hspares.size⟩

theorem spares_unlink (s : IoProxy β) {p q : PathName} (hq : q ≠ p) :
    Spares s.k (s.fdmRemove p).1.k q := by
  have hexpire : Spares s.k (s.fdmExpire p).k q := Spares.of_eq (by simp) (by simp) q
  unfold fdmRemove
  cases hunlink : (s.fdmExpire p).k.sysUnlink p with
  | error e => simpa [hunlink] using hexpire
  | ok k =>
      obtain ⟨-, rfl⟩ := Kernel.sysUnlink_cases hunlink
      have hremove := Kernel.spares_removeName (k := (s.fdmExpire p).k) hq
      simp only [hunlink]
      exact ⟨hremove.node.trans hexpire.node, fun i hi => hexpire.size i hi⟩

theorem spares_truncate (s : IoProxy β) {p q : PathName} (size : Nat) (hq : q ≠ p) :
    Spares s.k (s.withCall (s.k.sysTruncate p size)).1.k q := by
  refine spares_withCall fun k' hk' => ?_
  obtain ⟨ino, hnode, rfl⟩ := Kernel.sysTruncate_cases hk'
  exact Kernel.spares_setContent _ hnode hq

theorem spares_mkdir (s : IoProxy β) {p q : PathName} (hq : q ≠ p) :
    Spares s.k (s.withCall (fsCreateDirectory s.k p)).1.k q := by
  refine spares_withCall fun k' hk' => ?_
  unfold fsCreateDirectory at hk'
  split at hk'
  · cases hk'
    exact Spares.refl s.k q
  · cases hk'
  · obtain ⟨-, x, d, rfl, rfl⟩ := Kernel.sysMkdir_cases hk'
    exact ⟨FileTree.node_add_of_ne hq, fun _ _ => rfl⟩

theorem spares_rmdir (s : IoProxy β) {p q : PathName} (hq : q ≠ p) :
    Spares s.k (s.withCall (fsRemove s.k p)).1.k q := by
  refine spares_withCall fun k' hk' => ?_
  unfold fsRemove at hk'
  split at hk'
  · cases hk'
    exact Spares.refl s.k q
  · obtain ⟨-, rfl⟩ := Kernel.sysUnlink_cases hk'
    exact Kernel.spares_removeName hq
  · obtain ⟨-, rfl⟩ := Kernel.sysRmdir_cases hk'
    exact Kernel.spares_removeName hq

/-! ### Opening and writing -/

/-- The open file behind the descriptor that is kept for a path. -/
def Behind (s : IoProxy β) (p : PathName) (file : OpenFile) : Prop :=
  ∃ fd, s.fdm.fds.lookup p = some fd ∧ s.k.fdTable.get fd = some file

/-- A write to an open file leaves its size as it is: there is nothing to write, it fits into the
file, or its range is none that a file can have. -/
def Fits (k : Kernel β) (file : OpenFile) (data : List UInt8) (off : Nat) : Prop :=
  let size := (k.content file.ino).size
  let pos := if file.append then size else off
  data = [] ∨ pos + data.length ≤ size ∨ 2 ^ 63 ≤ off + data.length ∨ 2 ^ 63 ≤ pos + data.length

/-- A plain open through the cache shows nothing to other paths, and the descriptor is kept. If it
was kept before, nothing has changed; else it is one of the file that the path names. -/
theorem fdmOpen_plain {s t : IoProxy β} {p : PathName} {fd : Nat} {flags : BitVec 32}
    (hflags : hasFlag flags oTrunc = false) (h : s.fdmOpen p flags = (t, .ok fd)) :
    t.fdm.fds.lookup p = some fd ∧
      ((s.fdm.fds.lookup p = some fd ∧ t.k = s.k) ∨
        (s.fdm.fds.lookup p = none ∧ (∀ q, q ≠ p → Spares s.k t.k q) ∧
          ∀ file q, t.k.fdTable.get fd = some file → q ≠ p →
            s.k.tree.node q ≠ some (.file file.ino))) := by
  refine ⟨lookup_fdmOpen h, ?_⟩
  obtain ⟨hp, rfl⟩ | ⟨hp, k, hopen, rfl⟩ := fdmOpen_cases h
  · left
    simp [hp, hflags]
  · right
    have hspares : ∀ q, q ≠ p → Spares s.k k q := fun q hq => Kernel.spares_sysOpen hopen hq
    refine ⟨hp, fun q hq => ?_, fun file q hfile hq hnode => ?_⟩
    · exact ⟨by simpa using (hspares q hq).node, by simpa using (hspares q hq).size⟩
    · have hget := get_of_get_checkAndExpire hfile
      obtain ⟨rfl, -⟩ := Kernel.sysOpen_cases hopen
      obtain ⟨ino, hnode', htable, hnames⟩ := Kernel.sysOpen_names hopen
      simp only at hget
      rw [htable, SlotTable.get_alloc_self, Option.some.injEq] at hget
      subst hget
      exact hq (k.tree.inj q p ino (hnames q _ hnode) hnode')

/-- `O_RDWR`, which do_op adds, has nothing to do with `O_TRUNC`. -/
theorem hasFlag_or_oRdwr_trunc (flags : BitVec 32) :
    hasFlag (flags ||| oRdwr) oTrunc = hasFlag flags oTrunc := by
  have hrdwr : oRdwr &&& oTrunc = 0#32 := by decide
  rw [hasFlag, hasFlag, BitVec.and_comm, BitVec.and_or_distrib_left, BitVec.and_comm oTrunc oRdwr,
    hrdwr, BitVec.or_zero, BitVec.and_comm]

/-- An open that fails has looked for a kept descriptor in vain. -/
theorem not_behind_of_error {s t : IoProxy β} {p : PathName} {flags : BitVec 32} {e : Errno}
    (h : s.fdmOpen p flags = (t, .error e)) (file : OpenFile) : ¬ Behind s p file := by
  rintro ⟨fd, hfd, -⟩
  simp [fdmOpen, hfd] at h

/-- An open shows another path nothing but that it empties the file behind the kept descriptor. -/
theorem doOpen_spec (s : IoProxy β) {p q : PathName} (mode : BitVec 32) (hq : q ≠ p) :
    (s.doOpen p mode).1.k.tree.node q = s.k.tree.node q ∧
      ((∀ i, s.k.tree.node q = some (.file i) →
          ((s.doOpen p mode).1.k.content i).size = (s.k.content i).size) ↔
        (hasFlag mode oTrunc = true → ∀ file, Behind s p file →
          s.k.tree.node q = some (.file file.ino) → (s.k.content file.ino).size = 0)) := by
  unfold doOpen
  cases hopen : s.fdmOpen p (mode ||| oRdwr) with
  | mk t r =>
      cases r with
      | error e =>
          rw [fdmOpen_error hopen]
          exact ⟨rfl, fun _ _ file hbehind => absurd hbehind (not_behind_of_error hopen file),
            fun _ _ _ => rfl⟩
      | ok fd =>
          dsimp only
          obtain ⟨hp, rfl⟩ | ⟨hp, k, hk, rfl⟩ := fdmOpen_cases hopen
          · simp only [hasFlag_or_oRdwr_trunc]
            by_cases htrunc : hasFlag mode oTrunc = true
            · simp only [htrunc, if_true, forall_const]
              cases hfile : s.k.fdTable.get fd with
              | none =>
                  have hsame : s.k.sysFtruncate fd = s.k := by simp [Kernel.sysFtruncate, hfile]
                  rw [hsame]
                  refine ⟨rfl, fun _ file hbehind => ?_, fun _ _ _ => rfl⟩
                  obtain ⟨fd', hfd', hget⟩ := hbehind
                  rw [hp, Option.some.injEq] at hfd'
                  subst hfd'
                  rw [hfile] at hget
                  cases hget
              | some file =>
                  have hempty : s.k.sysFtruncate fd = s.k.setContent file.ino ByteFile.empty := by
                    simp [Kernel.sysFtruncate, hfile]
                  rw [hempty]
                  refine ⟨rfl, fun hall file' hbehind hnode => ?_, fun hall i hi => ?_⟩
                  · obtain ⟨fd', hfd', hget⟩ := hbehind
                    rw [hp, Option.some.injEq] at hfd'
                    subst hfd'
                    rw [hfile, Option.some.injEq] at hget
                    subst hget
                    have hsize := hall file.ino hnode
                    simpa [Kernel.setContent, ByteFile.empty, eq_comm] using hsize
                  · by_cases hino : i = file.ino
                    · subst hino
                      have hzero := hall file ⟨fd, hp, hfile⟩ hi
                      simpa [Kernel.setContent, ByteFile.empty, eq_comm] using hzero
                    · simp [Kernel.setContent, hino]
            · simp [htrunc]
          · have hspares : Spares s.k k q := Kernel.spares_sysOpen hk hq
            refine ⟨by simpa using hspares.node, fun _ _ file hbehind => ?_, fun _ => ?_⟩
            · obtain ⟨fd', hfd', -⟩ := hbehind
              rw [hp] at hfd'
              cases hfd'
            · simpa using hspares.size

/-- The sync of a range finds the descriptor that has just been opened; nothing is sent for it. -/
theorem syncFiledata_kept {s : IoProxy β} {p : PathName} {fd : Nat}
    (hp : s.fdm.fds.lookup p = some fd) (off len : Nat) :
    (s.syncFiledata noPeers p off len).k = s.k ∧
      (s.syncFiledata noPeers p off len).fdm.fds.lookup p = some fd := by
  obtain ⟨hk, hfds⟩ := getFileHandler_cached hp
  unfold syncFiledata
  cases hget : s.getFileHandler p with
  | mk t r =>
      rw [hget] at hk hfds
      cases r with
      | none => exact ⟨hk, (hfds p).trans hp⟩
      | some fh => exact ⟨hk, (hfds p).trans hp⟩

theorem syncUnalignPage_kept {s : IoProxy β} {p : PathName} {fd : Nat}
    (hp : s.fdm.fds.lookup p = some fd) (off len : Nat) :
    (s.syncUnalignPage noPeers p off len).k = s.k := by
  unfold syncUnalignPage
  dsimp only
  by_cases hfirst : off % 4096 ≠ 0
  · obtain ⟨hk, hkept⟩ := syncFiledata_kept hp (off / 4096 * 4096) 4096
    rw [if_pos hfirst]
    split
    · rw [(syncFiledata_kept hkept _ _).1, hk]
    · exact hk
  · rw [if_neg hfirst]
    split
    · exact (syncFiledata_kept hp _ _).1
    · rfl

/-- A `pwrite` changes no names. -/
theorem storePiece_tree (k : Kernel β) (fd : Nat) (piece : Nat × List UInt8) :
    (storePiece k fd piece).tree = k.tree := by
  unfold storePiece
  cases h : k.sysPwrite fd piece.2 piece.1 with
  | error e => rfl
  | ok r =>
      obtain ⟨k', n⟩ := r
      obtain ⟨-, file, -, rfl⟩ := Kernel.sysPwrite_cases h
      rfl

/-- A `pwrite` changes no file but the one behind its descriptor. -/
theorem storePiece_content_of_ne {k : Kernel β} {fd i : Nat} (piece : Nat × List UInt8)
    (h : ∀ file, k.fdTable.get fd = some file → i ≠ file.ino) :
    (storePiece k fd piece).content i = k.content i := by
  unfold storePiece
  cases hwrite : k.sysPwrite fd piece.2 piece.1 with
  | error e => rfl
  | ok r =>
      obtain ⟨k', n⟩ := r
      obtain ⟨-, file, hfile, rfl⟩ := Kernel.sysPwrite_cases hwrite
      exact Function.update_of_ne (h file hfile) _ _

/-- What a `pwrite` does to the size of the file behind its descriptor. -/
theorem size_storePiece_iff {k : Kernel β} {fd off : Nat} {data : List UInt8} {file : OpenFile}
    (hfile : k.fdTable.get fd = some file) :
    ((storePiece k fd (off, data)).content file.ino).size = (k.content file.ino).size ↔
      Fits k file data off := by
  unfold storePiece Kernel.sysPwrite Fits
  simp only [hfile]
  generalize hp : (if file.append then (k.content file.ino).size else off) = pos
  by_cases hoff : off + data.length < 2 ^ 63
  · by_cases hpos : pos + data.length < 2 ^ 63
    · have hoff' : ¬ 2 ^ 63 ≤ off + data.length := by omega
      have hpos' : ¬ 2 ^ 63 ≤ pos + data.length := by omega
      simp only [hoff, hpos, if_true, Kernel.setContent, Function.update_self,
        ByteFile.size_write_eq_self_iff, hoff', hpos', or_false]
    · simp only [hoff, hpos, if_true, if_false, true_iff]
      exact Or.inr (Or.inr (Or.inr (not_lt.mp hpos)))
  · simp only [hoff, if_false, true_iff]
    exact Or.inr (Or.inr (Or.inl (not_lt.mp hoff)))

/-- A write is a `pwrite` to the descriptor that its open gives. -/
theorem doWrite_k {s t : IoProxy β} {p : PathName} {fd : Nat}
    (hopen : s.fdmOpen p oRdwr = (t, .ok fd)) (data : List UInt8) (off : Nat) :
    (s.doWrite noPeers p data off).1.k = storePiece t.k fd (off, data) := by
  have hsync : (t.syncUnalignPage noPeers p off data.length).k = t.k :=
    syncUnalignPage_kept (lookup_fdmOpen hopen) off data.length
  unfold doWrite storePiece
  simp only [hopen, hsync]
  cases t.k.sysPwrite fd data off with
  | error e => exact hsync
  | ok r => rfl

/-- A write shows another path nothing but what it does to the file behind the kept descriptor. -/
theorem doWrite_spec (s : IoProxy β) {p q : PathName} (data : List UInt8) (off : Nat) (hq : q ≠ p) :
    (s.doWrite noPeers p data off).1.k.tree.node q = s.k.tree.node q ∧
      ((∀ i, s.k.tree.node q = some (.file i) →
          ((s.doWrite noPeers p data off).1.k.content i).size = (s.k.content i).size) ↔
        ∀ file, Behind s p file → s.k.tree.node q = some (.file file.ino) →
          Fits s.k file data off) := by
  have hplain : hasFlag oRdwr oTrunc = false := by decide
  cases hopen : s.fdmOpen p oRdwr with
  | mk t r =>
      cases r with
      | error e =>
          have hsame : (s.doWrite noPeers p data off).1 = s := by
            simp [doWrite, hopen, fdmOpen_error hopen]
          rw [hsame]
          exact ⟨rfl, fun _ file hbehind => absurd hbehind (not_behind_of_error hopen file),
            fun _ _ _ => rfl⟩
      | ok fd =>
          rw [doWrite_k hopen, storePiece_tree]
          obtain ⟨-, ⟨hp, hk⟩ | ⟨hp, hspares, hown⟩⟩ := fdmOpen_plain hplain hopen
          · rw [hk]
            refine ⟨rfl, fun hall file hbehind hname => ?_, fun hall i hi => ?_⟩
            · obtain ⟨fd', hfd', hfile⟩ := hbehind
              rw [hp, Option.some.injEq] at hfd'
              subst hfd'
              exact (size_storePiece_iff hfile).mp (hall file.ino hname)
            · by_cases hino : ∃ file, s.k.fdTable.get fd = some file ∧ i = file.ino
              · obtain ⟨file, hfile, rfl⟩ := hino
                exact (size_storePiece_iff hfile).mpr (hall file ⟨fd, hp, hfile⟩ hi)
              · rw [storePiece_content_of_ne]
                exact fun file hfile heq => hino ⟨file, hfile, heq⟩
          · refine ⟨(hspares q hq).node, fun _ file hbehind => ?_, fun _ i hi => ?_⟩
            · obtain ⟨fd', hfd', -⟩ := hbehind
              rw [hp] at hfd'
              cases hfd'
            · -- the descriptor is one of the file of the path itself
              rw [storePiece_content_of_ne]
              · exact (hspares q hq).size i hi
              · rintro file hfile rfl
                exact hown file q hfile hq hi

/-! ### Moving names -/

/-- What is below the source of a move is not below its target. -/
theorem not_suffix_of_canMove {t : FileTree} {src dst rel : PathName} (h : t.CanMove src dst) :
    ¬ dst <:+ rel ++ src := by
  intro hsuffix
  obtain ⟨hsrc, hnot, hchildless, -⟩ := h
  cases List.suffix_or_suffix_of_suffix (List.suffix_append rel src) hsuffix with
  | inl hdst => exact hnot hdst
  | inr hbelow =>
      obtain ⟨up, rfl⟩ := hbelow
      by_cases hup : up = []
      · subst hup
        exact hnot List.suffix_rfl
      · rw [hchildless.node_append_eq_none up hup] at hsrc
        cases hsrc

/-- What a rename that the kernel makes does to the names. -/
theorem node_moveName {k : Kernel β} {src dst : PathName} (h : k.tree.CanMove src dst) :
    (∀ rel, (k.moveName src dst).tree.node (rel ++ dst) = k.tree.node (rel ++ src)) ∧
      (∀ rel, (k.moveName src dst).tree.node (rel ++ src) = none) ∧
      ∀ q, ¬ dst <:+ q → ¬ src <:+ q → (k.moveName src dst).tree.node q = k.tree.node q := by
  have hmove : ∀ r n, (k.moveName src dst).tree.node r = some n ↔
      ∃ q, k.tree.node q = some n ∧ FileTree.moved src dst q = some r := fun r n =>
    FileTree.node_move h
  refine ⟨fun rel => Option.ext fun n => ?_, fun rel => ?_, fun q hdst hsrc => Option.ext fun n => ?_⟩
  · rw [hmove]
    constructor
    · rintro ⟨q, hq, hmoved⟩
      obtain ⟨hnot, ⟨rel', rfl, heq⟩ | ⟨-, rfl⟩⟩ := FileTree.moved_eq_some hmoved
      · rw [List.append_cancel_right heq]
        exact hq
      · exact absurd (List.suffix_append rel dst) hnot
    · intro hn
      exact ⟨rel ++ src, hn, FileTree.moved_append (not_suffix_of_canMove h)⟩
  · cases hn : (k.moveName src dst).tree.node (rel ++ src) with
    | none => rfl
    | some n =>
        obtain ⟨q, hq, hmoved⟩ := (hmove _ _).mp hn
        obtain ⟨hnot, ⟨rel', rfl, heq⟩ | ⟨hnot', rfl⟩⟩ := FileTree.moved_eq_some hmoved
        · exact absurd (heq ▸ List.suffix_append rel' dst) (not_suffix_of_canMove h)
        · exact absurd (List.suffix_append rel src) hnot'
  · rw [hmove]
    constructor
    · rintro ⟨q', hq', hmoved⟩
      obtain ⟨-, ⟨rel, rfl, rfl⟩ | ⟨-, rfl⟩⟩ := FileTree.moved_eq_some hmoved
      · exact absurd (List.suffix_append rel dst) hdst
      · exact hq'
    · intro hn
      exact ⟨q, hn, FileTree.moved_of_not hdst hsrc⟩

end IoProxy

end Gvds
