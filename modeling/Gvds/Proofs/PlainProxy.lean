/-
Module: Gvds.Proofs.PlainProxy
Layer: Proofs
Purpose: The descriptor cache refines the plain proxy: over any run in which no name of a cached path
  is moved or taken away behind its back, a proxy answers every request, over gRPC or over UDT, as
  one that opens each file anew, and has the same files, whatever the room in its cache.
Imports: Gvds.IoProxy.PlainProxy, Gvds.Proofs.FdCoherence, Gvds.Proofs.HandlerOwnership
Trusted boundary: as Gvds.IoProxy.ProxyOp
Main exports: SameFiles, Refines, PlainFlags, swriteRounds_isSome, swrite_returns, Follows,
  serves_as_plain_proxy, two_files_served
-/
import Gvds.IoProxy.PlainProxy
import Gvds.Proofs.FdCoherence
import Gvds.Proofs.HandlerOwnership

namespace Gvds

variable {β : Type*}

/-! ### Kernels with the same files -/

/-- Two kernels have the same files under the same names. Their descriptors may differ. -/
structure SameFiles (k k' : Kernel β) : Prop where
  tree : k.tree = k'.tree
  content : k.content = k'.content
  nextIno : k.nextIno = k'.nextIno

namespace SameFiles

variable {k k' : Kernel β}

theorem setContent (h : SameFiles k k') (ino : Nat) (c : ByteFile) :
    SameFiles (k.setContent ino c) (k'.setContent ino c) :=
  ⟨h.tree, by simp only [Kernel.setContent, h.content], h.nextIno⟩

theorem allocFd (h : SameFiles k k') (file file' : OpenFile) :
    SameFiles (k.allocFd file) (k'.allocFd file') := ⟨h.tree, h.content, h.nextIno⟩

theorem makeFile (h : SameFiles k k') (x : String) (d : PathName) :
    SameFiles (k.makeFile x d) (k'.makeFile x d) := by
  refine ⟨?_, ?_, congrArg (· + 1) h.nextIno⟩
  · simp only [Kernel.makeFile, h.tree, h.nextIno]
  · simp only [Kernel.makeFile, h.content, h.nextIno]

theorem makeDir (h : SameFiles k k') (x : String) (d : PathName) :
    SameFiles (k.makeDir x d) (k'.makeDir x d) :=
  ⟨congrArg (·.add x d .dir) h.tree, h.content, h.nextIno⟩

theorem removeName (h : SameFiles k k') (p : PathName) :
    SameFiles (k.removeName p) (k'.removeName p) :=
  ⟨congrArg (·.remove p) h.tree, h.content, h.nextIno⟩

theorem moveName (h : SameFiles k k') (src dst : PathName) :
    SameFiles (k.moveName src dst) (k'.moveName src dst) :=
  ⟨congrArg (·.move src dst) h.tree, h.content, h.nextIno⟩

theorem missing (h : SameFiles k k') (p : PathName) : k.missing p = k'.missing p := by
  induction p with
  | nil => rfl
  | cons x d ih => simp only [Kernel.missing, h.tree, ih]

end SameFiles

/-- Two calls fail with the same error, or lead to the same files. -/
inductive SameResult : Except Errno (Kernel β) → Except Errno (Kernel β) → Prop
  | error (e : Errno) : SameResult (.error e) (.error e)
  | ok {k k' : Kernel β} (h : SameFiles k k') : SameResult (.ok k) (.ok k')

section Calls

variable {k k' : Kernel β}

theorem SameFiles.sysUnlink (h : SameFiles k k') (p : PathName) :
    SameResult (k.sysUnlink p) (k'.sysUnlink p) := by
  unfold Kernel.sysUnlink
  rw [← h.tree, h.missing]
  cases k.tree.node p with
  | none => exact .error _
  | some n =>
      cases n with
      | dir => exact .error _
      | file ino => exact .ok (h.removeName p)

theorem SameFiles.sysRmdir (h : SameFiles k k') (p : PathName) :
    SameResult (k.sysRmdir p) (k'.sysRmdir p) := by
  unfold Kernel.sysRmdir
  rw [← h.tree, h.missing]
  cases k.tree.node p with
  | none => exact .error _
  | some n =>
      cases n with
      | file ino => exact .error _
      | dir =>
          simp only
          split
          · exact .ok (h.removeName p)
          · exact .error _

theorem SameFiles.sysMkdir (h : SameFiles k k') (p : PathName) :
    SameResult (k.sysMkdir p) (k'.sysMkdir p) := by
  unfold Kernel.sysMkdir
  rw [← h.tree]
  cases k.tree.node p with
  | some n => exact .error _
  | none =>
      cases p with
      | nil => exact .error _
      | cons x d =>
          simp only [h.missing]
          split
          · exact .ok (h.makeDir x d)
          · exact .error _

theorem SameFiles.sysTruncate (h : SameFiles k k') (p : PathName) (size : Nat) :
    SameResult (k.sysTruncate p size) (k'.sysTruncate p size) := by
  unfold Kernel.sysTruncate
  rw [← h.tree, h.missing, ← h.content]
  cases k.tree.node p with
  | none => exact .error _
  | some n =>
      cases n with
      | dir => exact .error _
      | file ino =>
          simp only
          split
          · exact .ok (h.setContent ino _)
          · exact .error _

theorem SameFiles.sysRename (h : SameFiles k k') (src dst : PathName) :
    SameResult (k.sysRename src dst) (k'.sysRename src dst) := by
  unfold Kernel.sysRename
  rw [← h.tree, h.missing]
  cases k.tree.node src with
  | none => exact .error _
  | some node =>
      simp only
      split
      · exact .ok h
      · cases dst with
        | nil => exact .error _
        | cons x d =>
            simp only [h.missing]
            cases Kernel.kindError node (k.tree.node (x :: d)) with
            | some e => split_ifs <;> exact .error _
            | none =>
                simp only
                split_ifs
                · exact .error _
                · exact .error _
                · exact .ok (h.moveName src (x :: d))
                · exact .error _
                · exact .error _

theorem SameFiles.fsRemove (h : SameFiles k k') (p : PathName) :
    SameResult (IoProxy.fsRemove k p) (IoProxy.fsRemove k' p) := by
  unfold IoProxy.fsRemove
  rw [← h.tree]
  cases k.tree.node p with
  | none => exact .ok h
  | some n =>
      cases n with
      | file ino => exact h.sysUnlink p
      | dir => exact h.sysRmdir p

theorem SameFiles.fsCreateDirectory (h : SameFiles k k') (p : PathName) :
    SameResult (IoProxy.fsCreateDirectory k p) (IoProxy.fsCreateDirectory k' p) := by
  unfold IoProxy.fsCreateDirectory
  rw [← h.tree]
  cases k.tree.node p with
  | none => exact h.sysMkdir p
  | some n =>
      cases n with
      | file ino => exact .error _
      | dir => exact .ok h

/-- Opening a path fails on both with the same error, or leads to the same files. -/
theorem SameFiles.sysOpen (h : SameFiles k k') (p : PathName) (flags : BitVec 32) :
    (∃ e, k.sysOpen p flags = .error e ∧ k'.sysOpen p flags = .error e) ∨
      ∃ t t' fd fd', k.sysOpen p flags = .ok (t, fd) ∧ k'.sysOpen p flags = .ok (t', fd') ∧
        SameFiles t t' := by
  unfold Kernel.sysOpen
  rw [← h.tree]
  cases k.tree.node p with
  | some n =>
      cases n with
      | dir =>
          simp only
          split <;> exact Or.inl ⟨_, rfl, rfl⟩
      | file ino =>
          simp only
          split
          · exact Or.inl ⟨_, rfl, rfl⟩
          · split
            · exact Or.inl ⟨_, rfl, rfl⟩
            · refine Or.inr ⟨_, _, _, _, rfl, rfl, ?_⟩
              split
              · exact (h.setContent ino _).allocFd _ _
              · exact h.allocFd _ _
  | none =>
      cases p with
      | nil => exact Or.inl ⟨_, rfl, rfl⟩
      | cons x d =>
          simp only [h.missing]
          split
          · split
            · split
              · exact Or.inl ⟨_, rfl, rfl⟩
              · exact Or.inr ⟨_, _, _, _, rfl, rfl, (h.makeFile x d).allocFd _ _⟩
            · exact Or.inl ⟨_, rfl, rfl⟩
          · exact Or.inl ⟨_, rfl, rfl⟩

end Calls

/-- The descriptor is open on a file, at no fixed place. -/
def Kernel.OpenOn (k : Kernel β) (fd ino : Nat) : Prop := k.fdTable.get fd = some ⟨ino, false⟩

section Descriptors

variable {k k' : Kernel β} {fd fd' ino : Nat}

/-- Reading through descriptors of the same file. -/
theorem SameFiles.sysPread (h : SameFiles k k') (hfd : k.OpenOn fd ino) (hfd' : k'.OpenOn fd' ino)
    (len off : Nat) : k.sysPread fd len off = k'.sysPread fd' len off := by
  unfold Kernel.sysPread
  rw [hfd, hfd', h.content]

/-- Writing through descriptors of the same file: the same error, or the same files and the same
count; the descriptors stay open. -/
theorem SameFiles.sysPwrite (h : SameFiles k k') (hfd : k.OpenOn fd ino)
    (hfd' : k'.OpenOn fd' ino) (data : List UInt8) (off : Nat) :
    (∃ e, e ≠ .ebadf ∧ k.sysPwrite fd data off = .error e ∧
      k'.sysPwrite fd' data off = .error e) ∨
      ∃ c, k.sysPwrite fd data off = .ok (k.setContent ino c, data.length) ∧
        k'.sysPwrite fd' data off = .ok (k'.setContent ino c, data.length) := by
  unfold Kernel.sysPwrite
  rw [hfd, hfd', h.content]
  simp only [Bool.false_eq_true, if_false]
  split
  · exact Or.inr ⟨_, rfl, rfl⟩
  · exact Or.inl ⟨_, by simp, rfl, rfl⟩

theorem Kernel.OpenOn.setContent (h : k.OpenOn fd ino) (i : Nat) (c : ByteFile) :
    (k.setContent i c).OpenOn fd ino := h

end Descriptors

/-! ### A proxy and its plain counterpart -/

/-- The proxy has the files of the plain one, and its descriptors are open on the files of their
paths, at no fixed place. Every handler has the number that it is kept under. -/
structure Refines (s : IoProxy β) (k : Kernel β) : Prop where
  files : SameFiles s.k k
  coherent : IoProxy.CoherentIn (IoProxy.Appends (· = false)) s
  handlers : ∀ fd h, s.fdm.file_handlers fd = some h → h.fd = fd

/-- Flags that mean the same for a file that is open already. -/
def PlainFlags (flags : BitVec 32) : Prop :=
  (hasFlag flags oCreat && hasFlag flags oExcl) = false ∧ hasFlag flags oDirectory = false ∧
    hasFlag flags oAppend = false

theorem hasFlag_mask_or {flag : BitVec 32} (hmask : ~~~IoProxy.maskFlags &&& flag = flag)
    (hrdwr : oRdwr &&& flag = 0#32) (flags : BitVec 32) :
    hasFlag ((flags ||| oRdwr) &&& ~~~IoProxy.maskFlags) flag = hasFlag flags flag := by
  rw [hasFlag, hasFlag, BitVec.and_assoc, hmask, BitVec.and_comm, BitVec.and_or_distrib_left,
    BitVec.and_comm flag oRdwr, hrdwr, BitVec.or_zero, BitVec.and_comm]

theorem hasFlag_or_oRdwr {flag : BitVec 32} (hrdwr : oRdwr &&& flag = 0#32) (flags : BitVec 32) :
    hasFlag (flags ||| oRdwr) flag = hasFlag flags flag := by
  rw [hasFlag, hasFlag, BitVec.and_comm, BitVec.and_or_distrib_left, BitVec.and_comm flag oRdwr,
    hrdwr, BitVec.or_zero, BitVec.and_comm]

/-- An open of a file that is there with plain flags gets it, and empties it if the flags say so. -/
theorem sysOpen_of_plain {k : Kernel β} {p : PathName} {ino : Nat} {flags : BitVec 32}
    (hflags : PlainFlags flags) (hnode : k.tree.node p = some (.file ino)) :
    k.sysOpen p ((flags ||| oRdwr) &&& ~~~IoProxy.maskFlags) =
      .ok ((if hasFlag flags oTrunc then k.setContent ino ByteFile.empty else k).allocFd ⟨ino, false⟩,
        k.fdTable.firstFree) := by
  obtain ⟨hexcl, hdirectory, happend⟩ := hflags
  unfold Kernel.sysOpen
  rw [hnode, hasFlag_mask_or (by decide) (by decide), hasFlag_mask_or (by decide) (by decide),
    hasFlag_mask_or (by decide) (by decide), hasFlag_mask_or (by decide) (by decide),
    hasFlag_mask_or (by decide) (by decide)]
  simp only [hexcl, hdirectory, happend, Bool.false_eq_true, if_false]
  split <;> rfl

@[simp] theorem IoProxy.checkAndExpire_nextIno (s : IoProxy β) :
    s.checkAndExpire.k.nextIno = s.k.nextIno := by
  unfold checkAndExpire
  generalize s.fdm.fds.size - s.fdm.max_fd_num = n
  induction n generalizing s with
  | zero => rfl
  | succ n ih =>
      rw [Function.iterate_succ_apply, ih, expireOldest]
      cases s.fdm.fds.oldest <;> rfl

section Open

variable {s : IoProxy β} {k : Kernel β}

/-- What an open that succeeds leaves: both descriptors are on the file of the path. -/
theorem Refines.openOn {t : IoProxy β} {k' : Kernel β} {p : PathName} {flags : BitVec 32}
    {fd fd' : Nat} (ht : Refines t k') (hplain : hasFlag flags oAppend = false)
    (hlookup : t.fdm.fds.lookup p = some fd) (hopen : k.sysOpen p flags = .ok (k', fd')) :
    ∃ ino, t.k.OpenOn fd ino ∧ k'.OpenOn fd' ino := by
  obtain ⟨file, hfile, hnode, happend⟩ := ht.coherent p fd hlookup
  obtain ⟨ino, hnode', htable, _⟩ := Kernel.sysOpen_names hopen
  obtain ⟨rfl, _⟩ := Kernel.sysOpen_cases hopen
  rw [ht.files.tree, hnode', Option.some.injEq, Node.file.injEq] at hnode
  refine ⟨ino, ?_, ?_⟩
  · rw [Kernel.OpenOn, hfile, hnode, ← happend]
  · rw [Kernel.OpenOn, htable, SlotTable.get_alloc_self, hplain]

/-- The cache opens what the plain proxy opens. -/
theorem Refines.fdmOpen (h : Refines s k) {flags : BitVec 32} (hflags : PlainFlags flags)
    (p : PathName) :
    (∃ e, s.fdmOpen p (flags ||| oRdwr) = (s, .error e) ∧
      k.sysOpen p ((flags ||| oRdwr) &&& ~~~IoProxy.maskFlags) = .error e) ∨
    ∃ t fd k' fd' ino, s.fdmOpen p (flags ||| oRdwr) = (t, .ok fd) ∧
      k.sysOpen p ((flags ||| oRdwr) &&& ~~~IoProxy.maskFlags) = .ok (k', fd') ∧ Refines t k' ∧
      t.k.OpenOn fd ino ∧ k'.OpenOn fd' ino ∧ t.fdm.fds.lookup p = some fd := by
  have happend := hflags.2.2
  rw [← IoProxy.hasFlag_or_oRdwr_append] at happend
  cases hopen : s.fdmOpen p (flags ||| oRdwr) with
  | mk t r =>
      have hcoherent := IoProxy.coherentIn_fdmOpen_flags h.coherent (fun _ => happend) hopen
      have hhandlers := (IoProxy.fdmOpen_frame hopen).1
      cases r with
      | error e =>
          left
          obtain rfl := IoProxy.fdmOpen_error hopen
          refine ⟨e, rfl, ?_⟩
          unfold IoProxy.fdmOpen at hopen
          cases hp : t.fdm.fds.lookup p with
          | some fd => simp [hp] at hopen
          | none =>
              rcases h.files.sysOpen p ((flags ||| oRdwr) &&& ~~~IoProxy.maskFlags) with
                ⟨e', he, he'⟩ | ⟨_, _, _, _, hok, _⟩
              · simp only [hp, he, Prod.mk.injEq, Except.error.injEq, true_and] at hopen
                rw [he', hopen]
              · simp [hp, hok] at hopen
      | ok fd =>
          right
          have hlookup := IoProxy.lookup_fdmOpen hopen
          have hfiles : ∃ k' fd', k.sysOpen p ((flags ||| oRdwr) &&& ~~~IoProxy.maskFlags) =
              .ok (k', fd') ∧ SameFiles t.k k' := by
            obtain ⟨hp, rfl⟩ | ⟨_, k₁, hk₁, rfl⟩ := IoProxy.fdmOpen_cases hopen
            · obtain ⟨file, hfile, hnode, _⟩ := h.coherent p fd hp
              rw [h.files.tree] at hnode
              refine ⟨_, _, sysOpen_of_plain hflags hnode, ?_⟩
              rw [hasFlag_or_oRdwr (by decide)]
              cases hasFlag flags oTrunc with
              | true =>
                  simp only [if_true, Kernel.sysFtruncate, hfile]
                  exact ⟨h.files.tree, (h.files.setContent _ _).content, h.files.nextIno⟩
              | false => exact ⟨h.files.tree, h.files.content, h.files.nextIno⟩
            · rcases h.files.sysOpen p ((flags ||| oRdwr) &&& ~~~IoProxy.maskFlags) with
                ⟨e, he, _⟩ | ⟨k₂, k', fd₂, fd', hok, hok', hsame⟩
              · simp [he] at hk₁
              · rw [hok, Except.ok.injEq, Prod.mk.injEq] at hk₁
                obtain ⟨rfl, rfl⟩ := hk₁
                refine ⟨k', fd', hok', ?_, ?_, ?_⟩
                · rw [IoProxy.checkAndExpire_tree]
                  exact hsame.tree
                · rw [IoProxy.checkAndExpire_content]
                  exact hsame.content
                · rw [IoProxy.checkAndExpire_nextIno]
                  exact hsame.nextIno
          obtain ⟨k', fd', hk', hfiles⟩ := hfiles
          have ht : Refines t k' :=
            ⟨hfiles, hcoherent, fun n handler hn => h.handlers n handler (hhandlers ▸ hn)⟩
          have hmask : hasFlag ((flags ||| oRdwr) &&& ~~~IoProxy.maskFlags) oAppend = false := by
            rw [IoProxy.hasFlag_mask_append]
            exact happend
          obtain ⟨ino, hfd, hfd'⟩ := ht.openOn hmask hlookup hk'
          exact ⟨t, fd, k', fd', ino, rfl, hk', ht, hfd, hfd', hlookup⟩

/-- Open the file of a path through the cache, and use it. -/
def IoProxy.withFile {ρ : Type*} (s : IoProxy β) (p : PathName) (flags : BitVec 32)
    (failed : Errno → ρ) (use : IoProxy β → Nat → IoProxy β × ρ) : IoProxy β × ρ :=
  match s.fdmOpen p flags with
  | (s, .error e) => (s, failed e)
  | (s, .ok fd) => use s fd

/-- A use of a file through the cache is one of the plain proxy if it is so with descriptors that
are open on the same file. -/
theorem Refines.withFile {ρ : Type*} {R : ρ → ρ → Prop} (h : Refines s k) {flags : BitVec 32}
    (hflags : PlainFlags flags) {p : PathName} {failed : Errno → ρ}
    {use : IoProxy β → Nat → IoProxy β × ρ} {use' : Kernel β → Nat → Kernel β × ρ}
    (hfailed : ∀ e, R (failed e) (failed e))
    (huse : ∀ t k' fd fd' ino, Refines t k' → t.k.OpenOn fd ino → k'.OpenOn fd' ino →
      t.fdm.fds.lookup p = some fd →
      Refines (use t fd).1 (use' k' fd').1 ∧ R (use t fd).2 (use' k' fd').2) :
    Refines (s.withFile p (flags ||| oRdwr) failed use).1
        (PlainProxy.withFile k p (flags ||| oRdwr) failed use').1 ∧
      R (s.withFile p (flags ||| oRdwr) failed use).2
        (PlainProxy.withFile k p (flags ||| oRdwr) failed use').2 := by
  unfold IoProxy.withFile PlainProxy.withFile
  rcases h.fdmOpen hflags p with ⟨e, hs, hk⟩ | ⟨t, fd, k', fd', ino, hs, hk, ht, hfd, hfd', hp⟩
  · rw [hs, hk]
    exact ⟨h, hfailed e⟩
  · rw [hs, hk]
    obtain ⟨hrefines, hR⟩ := huse t k' fd fd' ino ht hfd hfd' hp
    exact ⟨⟨⟨hrefines.files.tree, hrefines.files.content, hrefines.files.nextIno⟩,
      hrefines.coherent, hrefines.handlers⟩, hR⟩

end Open

/-! ### What the other centers send -/

section Sync

variable {s : IoProxy β} {k : Kernel β} {p : PathName} {fd fd' ino : Nat}

/-- Pieces are stored in the file, whichever descriptor it has. -/
theorem SameFiles.storePieces {k₁ k₂ : Kernel β} (h : SameFiles k₁ k₂) (hfd : k₁.OpenOn fd ino)
    (hfd' : k₂.OpenOn fd' ino) (pieces : List (Nat × List UInt8)) :
    SameFiles (pieces.foldl (fun k piece => IoProxy.storePiece k fd piece) k₁)
        (pieces.foldl (fun k piece => IoProxy.storePiece k fd' piece) k₂) ∧
      (pieces.foldl (fun k piece => IoProxy.storePiece k fd piece) k₁).OpenOn fd ino ∧
      (pieces.foldl (fun k piece => IoProxy.storePiece k fd' piece) k₂).OpenOn fd' ino := by
  induction pieces generalizing k₁ k₂ with
  | nil => exact ⟨h, hfd, hfd'⟩
  | cons piece pieces ih =>
      rw [List.foldl_cons, List.foldl_cons]
      rcases h.sysPwrite hfd hfd' piece.2 piece.1 with ⟨e, _, he, he'⟩ | ⟨c, hc, hc'⟩
      · rw [IoProxy.storePiece, he, IoProxy.storePiece, he']
        exact ih h hfd hfd'
      · rw [IoProxy.storePiece, hc, IoProxy.storePiece, hc']
        exact ih (h.setContent ino c) (hfd.setContent ino c) (hfd'.setContent ino c)

/-- Which descriptors are cached is all that matters of the cache. -/
theorem Refines.of_lookup {t : IoProxy β} (h : Refines s k) (hk : t.k = s.k)
    (hlookup : ∀ q, t.fdm.fds.lookup q = s.fdm.fds.lookup q)
    (hhandlers : ∀ n handler, t.fdm.file_handlers n = some handler → handler.fd = n) :
    Refines t k := by
  refine ⟨hk ▸ h.files, fun q n hq => ?_, hhandlers⟩
  rw [hk]
  exact h.coherent q n (hlookup q ▸ hq)

/-- The file handler of a cached path has its descriptor, and the files stay. -/
theorem Refines.getFileHandler (h : Refines s k) (hp : s.fdm.fds.lookup p = some fd) :
    ∃ t handler, s.getFileHandler p = (t, some handler) ∧ handler.fd = fd ∧ Refines t k ∧
      t.k = s.k ∧ t.fdm.fds.lookup p = some fd := by
  have htrunc : hasFlag oRdwr oTrunc = false := by decide
  have hopen : s.fdmOpen p oRdwr = ({ s.setFds (s.fdm.fds.hit p) with k := s.k }, .ok fd) := by
    simp [IoProxy.fdmOpen, hp, htrunc]
  have hlookup : ∀ q, (s.fdm.fds.hit p).lookup q = s.fdm.fds.lookup q := Lru.lookup_hit _ p
  unfold IoProxy.getFileHandler
  rw [hopen]
  simp only [IoProxy.setFds]
  cases hhandler : s.fdm.file_handlers fd with
  | some handler =>
      exact ⟨_, handler, rfl, h.handlers fd handler hhandler,
        h.of_lookup rfl hlookup h.handlers, rfl, (hlookup p).trans hp⟩
  | none =>
      refine ⟨_, _, rfl, rfl, h.of_lookup rfl hlookup fun n handler hn => ?_, rfl,
        (hlookup p).trans hp⟩
      simp only [IoProxy.setHandler] at hn
      by_cases hsame : n = fd
      · subst hsame
        rw [Function.update_self, Option.some.injEq] at hn
        rw [← hn]
      · rw [Function.update_of_ne hsame] at hn
        exact h.handlers n handler hn

/-- A sync through the handler of a cached path stores what the plain proxy stores. -/
theorem Refines.sync (h : Refines s k) (hfd : s.k.OpenOn fd ino) (hfd' : k.OpenOn fd' ino)
    (hp : s.fdm.fds.lookup p = some fd) (peers : Peers) (off len : Nat) :
    Refines (s.syncFiledata peers p off len) (PlainProxy.sync peers p k fd' off len) ∧
      (s.syncFiledata peers p off len).k.OpenOn fd ino ∧
      (PlainProxy.sync peers p k fd' off len).OpenOn fd' ino ∧
      (s.syncFiledata peers p off len).fdm.fds.lookup p = some fd := by
  obtain ⟨t, handler, hget, hhandler, ht, hk, hlookup⟩ := h.getFileHandler hp
  unfold IoProxy.syncFiledata PlainProxy.sync
  rw [hget]
  simp only [hhandler]
  rw [← hk] at hfd
  obtain ⟨hfiles, hopen, hopen'⟩ := ht.files.storePieces hfd hfd' (peers p off len)
  exact ⟨⟨hfiles, ht.coherent.storePieces fd _, ht.handlers⟩, hopen, hopen', hlookup⟩

theorem Refines.syncEnds (h : Refines s k) (hfd : s.k.OpenOn fd ino) (hfd' : k.OpenOn fd' ino)
    (hp : s.fdm.fds.lookup p = some fd) (peers : Peers) (off len : Nat) :
    Refines (s.syncUnalignPage peers p off len) (PlainProxy.syncEnds peers p k fd' off len) ∧
      (s.syncUnalignPage peers p off len).k.OpenOn fd ino ∧
      (PlainProxy.syncEnds peers p k fd' off len).OpenOn fd' ino := by
  have hfirst : ∃ t k', (if off % 4096 ≠ 0 then s.syncFiledata peers p (off / 4096 * 4096) 4096
        else s) = t ∧
      (if off % 4096 ≠ 0 then PlainProxy.sync peers p k fd' (off / 4096 * 4096) 4096 else k) = k' ∧
      Refines t k' ∧ t.k.OpenOn fd ino ∧ k'.OpenOn fd' ino ∧ t.fdm.fds.lookup p = some fd := by
    by_cases hoff : off % 4096 ≠ 0
    · rw [if_pos hoff, if_pos hoff]
      exact ⟨_, _, rfl, rfl, h.sync hfd hfd' hp peers _ _⟩
    · rw [if_neg hoff, if_neg hoff]
      exact ⟨_, _, rfl, rfl, h, hfd, hfd', hp⟩
  obtain ⟨t, k', ht, hk', hrefines, hopen, hopen', hlookup⟩ := hfirst
  unfold IoProxy.syncUnalignPage PlainProxy.syncEnds
  rw [ht, hk']
  simp only
  by_cases hend : (off + len) % 4096 ≠ 0
  · rw [if_pos hend, if_pos hend]
    obtain ⟨hlast, hs, hk, _⟩ := hrefines.sync hopen hopen' hlookup peers
      ((off + len) / 4096 * 4096) 4096
    exact ⟨hlast, hs, hk⟩
  · rw [if_neg hend, if_neg hend]
    exact ⟨hrefines, hopen, hopen'⟩

end Sync

/-! ### The loop of swrite -/

section Rounds

variable {s t : IoProxy β} {p : PathName} {flags : BitVec 32} {fd : Nat} {data : List UInt8}
  {off : Nat}

end Rounds

/-! ### Requests -/

/-- The opens of a request are with plain flags. -/
def PlainOpens : Request → Prop
  | .open _ mode => PlainFlags mode
  | .create _ => True
  | .read _ _ _ => True
  | .write _ _ _ => True
  | .truncate _ _ => True
  | .unlink _ => True
  | .rename _ _ => True
  | .mkdir _ => True
  | .rmdir _ => True

/-- The request means the same to the plain proxy: it moves or takes away no name of a cached path
behind the back of the cache, and opens with plain flags. -/
def Follows (s : IoProxy β) : Served → Prop
  | .rpc peers r => IoProxy.Undisturbed s (peers, r) ∧ PlainOpens r
  | .read _ open_flags _ _ => PlainFlags open_flags
  | .write _ open_flags _ _ => PlainFlags open_flags

section Requests

variable {s : IoProxy β} {k : Kernel β}

theorem PlainOpens.opensWith {r : Request} (h : PlainOpens r) (peers : Peers) :
    IoProxy.OpensWith (· = false) s (peers, r) := by
  cases r with
  | «open» path mode => exact fun _ => h.2.2
  | create path => trivial
  | read path offset size => trivial
  | write path data offset => trivial
  | truncate path size => trivial
  | unlink path => trivial
  | rename path newpath => trivial
  | mkdir path => trivial
  | rmdir path => trivial

theorem plainFlags_zero : PlainFlags 0#32 := by
  unfold PlainFlags
  decide

theorem refines_doOpen (h : Refines s k) {path : PathName} {mode : BitVec 32}
    (hflags : PlainFlags mode) :
    Refines (s.doOpen path mode).1 (PlainProxy.doOpen k path mode).1 ∧
      ((s.doOpen path mode).2 = (PlainProxy.doOpen k path mode).2 ∨
        ∃ fd fd' : Nat, (s.doOpen path mode).2 = .done fd ∧
          (PlainProxy.doOpen k path mode).2 = .done fd') := by
  have huse : s.doOpen path mode =
      s.withFile path (mode ||| oRdwr) .failed fun s fd => (s, .done fd) := by
    unfold IoProxy.doOpen IoProxy.withFile
    cases s.fdmOpen path (mode ||| oRdwr) with
    | mk t r => cases r <;> rfl
  rw [huse]
  exact h.withFile
    (R := fun a b : Reply => a = b ∨ ∃ fd fd' : Nat, a = .done fd ∧ b = .done fd') hflags
    (fun e => Or.inl rfl) fun t k' fd fd' ino ht _ _ _ => ⟨ht, Or.inr ⟨fd, fd', rfl, rfl⟩⟩

/-- What `doRead` does once the file is open. -/
def IoProxy.readOpened (peers : Peers) (path : PathName) (offset size : Nat) (s : IoProxy β)
    (fd : Nat) : IoProxy β × Reply :=
  let s := s.syncFiledata peers path offset size
  match s.k.sysPread fd size offset with
  | .ok bytes => (s, .data bytes)
  | .error e => (s, .failed e)

theorem refines_doRead (h : Refines s k) (peers : Peers) (path : PathName) (offset size : Nat) :
    Refines (s.doRead peers path offset size).1 (PlainProxy.doRead k peers path offset size).1 ∧
      (s.doRead peers path offset size).2 = (PlainProxy.doRead k peers path offset size).2 := by
  have huse : s.doRead peers path offset size =
      s.withFile path (0#32 ||| oRdwr) .failed (IoProxy.readOpened peers path offset size) := by
    unfold IoProxy.doRead IoProxy.withFile
    rewrite [BitVec.zero_or]
    cases s.fdmOpen path oRdwr with
    | mk t r => cases r <;> rfl
  rw [huse]
  refine h.withFile (R := Eq) plainFlags_zero (fun e => rfl) fun t k' fd fd' ino ht hfd hfd' hp => ?_
  obtain ⟨hsync, hopen, hopen', _⟩ := ht.sync hfd hfd' hp peers offset size
  have hread := hsync.files.sysPread hopen hopen' size offset
  simp only [IoProxy.readOpened, hread]
  cases (PlainProxy.sync peers path k' fd' offset size).sysPread fd' size offset with
  | ok bytes => exact ⟨hsync, rfl⟩
  | error e => exact ⟨hsync, rfl⟩

/-- A write through descriptors of the same file. -/
theorem Refines.pwrite {fd fd' ino : Nat} (h : Refines s k) (hfd : s.k.OpenOn fd ino)
    (hfd' : k.OpenOn fd' ino) (data : List UInt8) (off : Nat) :
    (∃ e, e ≠ .ebadf ∧ s.k.sysPwrite fd data off = .error e ∧
      k.sysPwrite fd' data off = .error e) ∨
    ∃ t k', s.k.sysPwrite fd data off = .ok (t, data.length) ∧
      k.sysPwrite fd' data off = .ok (k', data.length) ∧ Refines { s with k := t } k' := by
  rcases h.files.sysPwrite hfd hfd' data off with herror | ⟨c, hc, hc'⟩
  · exact Or.inl herror
  · exact Or.inr ⟨_, _, hc, hc', h.files.setContent ino c, h.coherent.setContent ino c, h.handlers⟩

/-- What `doWrite` does once the file is open. -/
def IoProxy.writeOpened (peers : Peers) (path : PathName) (data : List UInt8) (offset : Nat)
    (s : IoProxy β) (fd : Nat) : IoProxy β × Reply :=
  let s := s.syncUnalignPage peers path offset data.length
  match s.k.sysPwrite fd data offset with
  | .ok (k, n) => ({ s with k := k }, .done n)
  | .error e => (s, .failed e)

theorem refines_doWrite (h : Refines s k) (peers : Peers) (path : PathName) (data : List UInt8)
    (offset : Nat) :
    Refines (s.doWrite peers path data offset).1
        (PlainProxy.doWrite k peers path data offset).1 ∧
      (s.doWrite peers path data offset).2 = (PlainProxy.doWrite k peers path data offset).2 := by
  have huse : s.doWrite peers path data offset =
      s.withFile path (0#32 ||| oRdwr) .failed (IoProxy.writeOpened peers path data offset) := by
    unfold IoProxy.doWrite IoProxy.withFile
    rewrite [BitVec.zero_or]
    cases s.fdmOpen path oRdwr with
    | mk t r => cases r <;> rfl
  rw [huse]
  refine h.withFile (R := Eq) plainFlags_zero (fun e => rfl) fun t k' fd fd' ino ht hfd hfd' hp => ?_
  obtain ⟨hsync, hopen, hopen'⟩ := ht.syncEnds hfd hfd' hp peers offset data.length
  rcases hsync.pwrite hopen hopen' data offset with ⟨e, _, he, he'⟩ | ⟨u, k'', hu, hk'', hrefines⟩
  · simp only [IoProxy.writeOpened, he, he']
    exact ⟨hsync, trivial⟩
  · simp only [IoProxy.writeOpened, hu, hk'']
    exact ⟨hrefines, trivial⟩

/-- What `sread` does once the file is open. -/
def IoProxy.sreadOpened (count offset : Nat) (s : IoProxy β) (fd : Nat) : IoProxy β × DataResult :=
  match s.k.sysPread fd count offset with
  | .ok bytes => (s, ⟨0, bytes.length, bytes⟩)
  | .error e => (s, ⟨-e.number, -1, []⟩)

theorem refines_sread (h : Refines s k) (path : PathName) {open_flags : BitVec 32}
    (hflags : PlainFlags open_flags) (count offset : Nat) :
    Refines (s.sread path open_flags count offset).1
        (PlainProxy.sread k path open_flags count offset).1 ∧
      (s.sread path open_flags count offset).2 =
        (PlainProxy.sread k path open_flags count offset).2 := by
  have huse : s.sread path open_flags count offset =
      s.withFile path (open_flags ||| oRdwr) (fun _ => ⟨-Errno.ebadf.number, -1, []⟩)
        (IoProxy.sreadOpened count offset) := by
    unfold IoProxy.sread IoProxy.withFile
    cases s.fdmOpen path (open_flags ||| oRdwr) with
    | mk t r => cases r <;> rfl
  rw [huse]
  refine h.withFile (R := Eq) hflags (fun e => rfl) fun t k' fd fd' ino ht hfd hfd' _ => ?_
  simp only [IoProxy.sreadOpened, ht.files.sysPread hfd hfd' count offset]
  cases k'.sysPread fd' count offset with
  | ok bytes => exact ⟨ht, rfl⟩
  | error e => exact ⟨ht, rfl⟩

/-- While the descriptors are those of their paths, the first round of the loop is the last. -/
theorem refines_swrite (h : Refines s k) (path : PathName) {open_flags : BitVec 32}
    (hflags : PlainFlags open_flags) (data : List UInt8) (offset : Nat) :
    ∃ t, s.swrite path open_flags data offset =
        some (t, (PlainProxy.swrite k path open_flags data offset).2) ∧
      Refines t (PlainProxy.swrite k path open_flags data offset).1 := by
  unfold IoProxy.swrite IoProxy.swriteRounds PlainProxy.swrite PlainProxy.withFile
  rcases h.fdmOpen hflags path with ⟨e, hs, hk⟩ | ⟨t, fd, k', fd', ino, hs, hk, ht, hfd, hfd', _⟩
  · rw [hs, hk]
    exact ⟨s, rfl, h⟩
  · rw [hs, hk]
    rcases ht.pwrite hfd hfd' data offset with ⟨e, hne, he, he'⟩ | ⟨u, k'', hu, hk'', hrefines⟩
    · simp only [he, he']
      exact ⟨t, rfl, ⟨ht.files.tree, ht.files.content, ht.files.nextIno⟩, ht.coherent, ht.handlers⟩
    · simp only [hu, hk'']
      exact ⟨_, rfl, ⟨hrefines.files.tree, hrefines.files.content, hrefines.files.nextIno⟩,
        hrefines.coherent, hrefines.handlers⟩

/-! ### Names -/

theorem Refines.withCall (h : Refines s k) {r r' : Except Errno (Kernel β)} (hr : SameResult r r')
    (hcoherent : IoProxy.CoherentIn (IoProxy.Appends (· = false)) (s.withCall r).1) :
    Refines (s.withCall r).1 (PlainProxy.withCall k r').1 ∧
      (s.withCall r).2 = (PlainProxy.withCall k r').2 := by
  cases hr with
  | error e => exact ⟨h, rfl⟩
  | ok hfiles => exact ⟨⟨hfiles, hcoherent, h.handlers⟩, rfl⟩

/-- Closing a cached descriptor changes no file. -/
theorem sameFiles_fdmExpire (h : SameFiles s.k k) (p : PathName) :
    SameFiles (s.fdmExpire p).k k := by
  unfold IoProxy.fdmExpire
  cases s.fdm.fds.lookup p with
  | none => exact h
  | some fd => exact ⟨h.tree, h.content, h.nextIno⟩

theorem refines_create (h : Refines s k) (path : PathName) :
    Refines (s.fdmCreate path).1 (PlainProxy.create k path).1 ∧
      (s.fdmCreate path).2 = (PlainProxy.create k path).2 := by
  have hcoherent := IoProxy.coherentIn_fdmCreate h.coherent path
  have hhandlers := (IoProxy.fdmCreate_frame s path).1
  suffices hfiles : SameFiles (s.fdmCreate path).1.k (PlainProxy.create k path).1 ∧
      (s.fdmCreate path).2 = (PlainProxy.create k path).2 from
    ⟨⟨hfiles.1, hcoherent, fun n handler hn => h.handlers n handler (hhandlers ▸ hn)⟩, hfiles.2⟩
  unfold IoProxy.fdmCreate PlainProxy.create
  rcases h.files.sysOpen path (oCreat ||| oSync) with ⟨e, he, he'⟩ |
    ⟨t, t', fd, fd', ht, ht', hfiles⟩
  · rw [he, he']
    exact ⟨h.files, rfl⟩
  · rw [ht, ht']
    have hexpire := sameFiles_fdmExpire (s := { s with k := t }) hfiles path
    exact ⟨⟨hexpire.tree, hexpire.content, hexpire.nextIno⟩, rfl⟩

theorem refines_remove (h : Refines s k) (path : PathName) :
    Refines (s.fdmRemove path).1 (PlainProxy.remove k path).1 ∧
      (s.fdmRemove path).2 = (PlainProxy.remove k path).2 := by
  have hcoherent := IoProxy.coherentIn_fdmRemove h.coherent path
  have hhandlers := (IoProxy.fdmRemove_frame s path).1
  have hexpire := sameFiles_fdmExpire h.files path
  suffices hfiles : SameFiles (s.fdmRemove path).1.k (PlainProxy.remove k path).1 ∧
      (s.fdmRemove path).2 = (PlainProxy.remove k path).2 from
    ⟨⟨hfiles.1, hcoherent, fun n handler hn => h.handlers n handler (hhandlers ▸ hn)⟩, hfiles.2⟩
  have hsame := hexpire.sysUnlink path
  unfold IoProxy.fdmRemove PlainProxy.remove
  generalize hr : (s.fdmExpire path).k.sysUnlink path = r at hsame
  generalize k.sysUnlink path = r' at hsame
  cases hsame with
  | error e =>
      simp only [hr]
      exact ⟨hexpire, trivial⟩
  | ok hfiles =>
      simp only [hr]
      exact ⟨hfiles, trivial⟩

/-! ### Runs -/

theorem refines_doOp (h : Refines s k) {peers : Peers} {r : Request}
    (hundisturbed : IoProxy.Undisturbed s (peers, r)) (hopens : PlainOpens r) :
    Refines (s.doOp peers r).1 (PlainProxy.doOp k peers r).1 ∧
      Answer.Agree (.rpc peers r) (.reply (s.doOp peers r).2)
        (.reply (PlainProxy.doOp k peers r).2) := by
  have hcoherent := (IoProxy.coherentIn_doOp_iff (Q := (· = false)) rfl h.coherent
    (hopens.opensWith peers)).mpr hundisturbed
  cases r with
  | «open» path mode =>
      obtain ⟨hrefines, hsame | ⟨fd, fd', hfd, hfd'⟩⟩ := refines_doOpen h hopens
      · exact ⟨hrefines, Or.inl (congrArg Answer.reply hsame)⟩
      · exact ⟨hrefines, Or.inr ⟨fd, fd', congrArg Answer.reply hfd, congrArg Answer.reply hfd'⟩⟩
  | create path =>
      obtain ⟨hrefines, hsame⟩ := refines_create h path
      exact ⟨hrefines, congrArg (fun err => Answer.reply (.done err)) hsame⟩
  | read path offset size =>
      obtain ⟨hrefines, hsame⟩ := refines_doRead h peers path offset size
      exact ⟨hrefines, congrArg Answer.reply hsame⟩
  | write path data offset =>
      obtain ⟨hrefines, hsame⟩ := refines_doWrite h peers path data offset
      exact ⟨hrefines, congrArg Answer.reply hsame⟩
  | truncate path size =>
      obtain ⟨hrefines, hsame⟩ := h.withCall (h.files.sysTruncate path size) hcoherent
      exact ⟨hrefines, congrArg Answer.reply hsame⟩
  | unlink path =>
      obtain ⟨hrefines, hsame⟩ := refines_remove h path
      exact ⟨hrefines, congrArg (fun ret => Answer.reply (.done ret)) hsame⟩
  | rename path newpath =>
      obtain ⟨hrefines, hsame⟩ := h.withCall (h.files.sysRename path newpath) hcoherent
      exact ⟨hrefines, congrArg Answer.reply hsame⟩
  | mkdir path =>
      obtain ⟨hrefines, hsame⟩ := h.withCall (h.files.fsCreateDirectory path) hcoherent
      exact ⟨hrefines, congrArg Answer.reply hsame⟩
  | rmdir path =>
      obtain ⟨hrefines, hsame⟩ := h.withCall (h.files.fsRemove path) hcoherent
      exact ⟨hrefines, congrArg Answer.reply hsame⟩

theorem refines_serve (h : Refines s k) {a : Served} (hfollows : Follows s a) :
    ∃ t answer, s.serve a = some (t, answer) ∧ Refines t (PlainProxy.serve k a).1 ∧
      Answer.Agree a answer (PlainProxy.serve k a).2 := by
  cases a with
  | rpc peers r =>
      obtain ⟨hrefines, hagree⟩ := refines_doOp h hfollows.1 hfollows.2
      exact ⟨_, _, rfl, hrefines, hagree⟩
  | read path open_flags count offset =>
      obtain ⟨hrefines, hsame⟩ := refines_sread h path hfollows count offset
      exact ⟨_, _, rfl, hrefines, congrArg Answer.done hsame⟩
  | write path open_flags data offset =>
      obtain ⟨t, hwrite, hrefines⟩ := refines_swrite h path hfollows data offset
      refine ⟨t, _, ?_, hrefines, rfl⟩
      rw [IoProxy.serve, hwrite]
      rfl

/-- A step of a run of requests. -/
def IoProxy.served (s : IoProxy β) (a : Served) : Option (IoProxy β) := (s.serve a).map Prod.fst

theorem refines_serveAll (h : Refines s k) {as : List Served}
    (hguard : Machine.Guarded IoProxy.served Follows s as) :
    ∃ t answers, s.serveAll as = some (t, answers) ∧ Refines t (PlainProxy.serveAll k as).1 ∧
      Answer.AgreeAll as answers (PlainProxy.serveAll k as).2 := by
  induction as generalizing s k with
  | nil => exact ⟨s, [], rfl, h, trivial⟩
  | cons a as ih =>
      obtain ⟨t, answer, hserve, hrefines, hagree⟩ := refines_serve h hguard.1
      have hnext : IoProxy.served s a = some t := by rw [IoProxy.served, hserve]; rfl
      obtain ⟨u, answers, hall, hlast, hrest⟩ := ih hrefines (hguard.2 t hnext)
      refine ⟨u, answer :: answers, ?_, hlast, hagree, hrest⟩
      rw [IoProxy.serveAll, hserve, Option.bind_some, hall]
      rfl

end Requests

/-- A proxy that starts without descriptors serves as the plain proxy on the same files: each
request comes back with the same answer, and the files under the names are the same. -/
theorem serves_as_plain_proxy {s : IoProxy β} (hfds : s.fdm.fds = ∅)
    (hhandlers : ∀ fd, s.fdm.file_handlers fd = none) (as : List Served)
    (hguard : Machine.Guarded IoProxy.served Follows s as) :
    ∃ t answers, s.serveAll as = some (t, answers) ∧
      SameFiles t.k (PlainProxy.serveAll s.k as).1 ∧
      Answer.AgreeAll as answers (PlainProxy.serveAll s.k as).2 := by
  have hstart : Refines s s.k := by
    refine ⟨⟨rfl, rfl, rfl⟩, fun p fd hp => ?_, fun fd handler hfd => ?_⟩
    · rw [hfds] at hp
      cases hp
    · rw [hhandlers] at hfd
      cases hfd
  obtain ⟨t, answers, hall, hrefines, hagree⟩ := refines_serveAll hstart hguard
  exact ⟨t, answers, hall, hrefines.files, hagree⟩

/-- Two files and room for one descriptor. -/
def twoFiles : List Served :=
  [.rpc noPeers (.create ["a"]), .write ["a"] 0 [1, 2] 0, .rpc noPeers (.create ["b"]),
    .write ["b"] 0 [3] 0, .read ["a"] 0 2 0]

theorem two_files_served :
    ∃ t answers, (IoProxy.blank 0 : IoProxy Unit).serveAll twoFiles = some (t, answers) ∧
      SameFiles t.k (PlainProxy.serveAll (IoProxy.blank 0 : IoProxy Unit).k twoFiles).1 ∧
      Answer.AgreeAll twoFiles answers
        (PlainProxy.serveAll (IoProxy.blank 0 : IoProxy Unit).k twoFiles).2 :=
  serves_as_plain_proxy rfl (fun _ => rfl) twoFiles
    ⟨⟨trivial, trivial⟩, fun _ _ => ⟨plainFlags_zero, fun _ _ => ⟨⟨trivial, trivial⟩,
      fun _ _ => ⟨plainFlags_zero, fun _ _ => ⟨plainFlags_zero, fun _ _ => trivial⟩⟩⟩⟩⟩

end Gvds
