/-
Module: Gvds.Proofs.FdCoherence
Layer: Proofs
Purpose: Which requests keep the descriptor cache coherent. Renames and rmdir change names without
  telling FdManager, so the cache stays coherent exactly where they do not concern a cached path;
  every other request keeps it coherent. Along runs of such requests a cached descriptor acts on the
  file that a fresh open of its path would give.
Imports: Gvds.Lib.Machine, Gvds.IoProxy.ProxyOp, Gvds.Proofs.FdCache
Trusted boundary: as Gvds.IoProxy.Kernel
Main exports: IoProxy.handle, IoProxy.Undisturbed, IoProxy.coherent_doOp_iff,
  IoProxy.cached_eq_fresh
-/
import Gvds.Lib.Machine
import Gvds.IoProxy.ProxyOp
import Gvds.Proofs.FdCache

namespace Gvds.IoProxy

variable {β : Type*} {Q : Bool → Prop}

/-- Every (path, descriptor) entry of the cache refers to the file that its path names. -/
def Coherent (s : IoProxy β) : Prop :=
  ∀ p fd, s.fdm.fds.lookup p = some fd →
    ∃ file, s.k.fdTable.get fd = some file ∧ s.k.tree.node p = some (.file file.ino)

/-- `Q` holds of whether the writes through a descriptor go to the end of its file. -/
def Appends (Q : Bool → Prop) (_ : Nat) (file : OpenFile) : Prop := Q file.append

theorem coherentIn_true_iff {s : IoProxy β} :
    CoherentIn (Appends fun _ => True) s ↔ Coherent s := by
  simp [CoherentIn, Coherent, Appends]

/-- The server handles one request after another; what the peers of a replicated space send to each
of them is part of the run. -/
def handle (s : IoProxy β) (a : Peers × Request) : Option (IoProxy β) := some (s.doOp a.1 a.2).1

/-- The request changes the meaning of no cached path: a rename that the kernel makes concerns no
cached path, neither at or below its source nor at its target, and rmdir is not used on a cached
path. -/
def Undisturbed (s : IoProxy β) (a : Peers × Request) : Prop :=
  match a.2 with
  | .rename path newpath =>
      s.k.CanRename path newpath →
        ∀ p, (s.fdm.fds.lookup p).isSome → ¬ newpath <:+ p ∧ ¬ path <:+ p
  | .rmdir path => s.fdm.fds.lookup path = none
  | _ => True

/-- An open that misses the cache has an append flag that `Q` allows. -/
def OpensWith (Q : Bool → Prop) (s : IoProxy β) (a : Peers × Request) : Prop :=
  match a.2 with
  | .open path mode => s.fdm.fds.lookup path = none → Q (hasFlag mode oAppend)
  | _ => True

theorem opensWith_true (s : IoProxy β) (a : Peers × Request) : OpensWith (fun _ => True) s a := by
  obtain ⟨peers, r⟩ := a
  cases r <;> simp [OpensWith]

/-- Every cached descriptor is open on the file that a fresh open of its path gives. -/
def ActsAsFresh (s : IoProxy β) : Prop :=
  ∀ p fd, s.fdm.fds.lookup p = some fd →
    ∃ file k' fd' file', s.k.fdTable.get fd = some file ∧ s.k.sysOpen p oRdwr = .ok (k', fd') ∧
      k'.fdTable.get fd' = some file' ∧ file'.ino = file.ino

/-! ### The flags of the opens -/

/-- Neither the access mode that do_op adds nor the flags that `FdManager::open` drops have to do
with `O_APPEND`. -/
@[simp] theorem hasFlag_mask_append (flags : BitVec 32) :
    hasFlag (flags &&& ~~~maskFlags) oAppend = hasFlag flags oAppend := by
  have hmask : ~~~maskFlags &&& oAppend = oAppend := by decide
  rw [hasFlag, hasFlag, BitVec.and_assoc, hmask]

@[simp] theorem hasFlag_or_oRdwr_append (flags : BitVec 32) :
    hasFlag (flags ||| oRdwr) oAppend = hasFlag flags oAppend := by
  have hrdwr : oRdwr &&& oAppend = 0#32 := by decide
  rw [hasFlag, hasFlag, BitVec.and_comm, BitVec.and_or_distrib_left, BitVec.and_comm oAppend oRdwr,
    hrdwr, BitVec.or_zero, BitVec.and_comm]

/-- A miss opens a descriptor for appending exactly if the flags say so. -/
theorem append_of_sysOpen {k k' : Kernel β} {p : PathName} {flags : BitVec 32} {fd : Nat}
    {file : OpenFile} (hopen : k.sysOpen p (flags &&& ~~~maskFlags) = .ok (k', fd))
    (hfile : k'.fdTable.get fd = some file) : file.append = hasFlag flags oAppend := by
  obtain ⟨rfl, -⟩ := Kernel.sysOpen_cases hopen
  obtain ⟨ino, _, htable, _⟩ := Kernel.sysOpen_names hopen
  rw [htable, SlotTable.get_alloc_self, Option.some.injEq] at hfile
  rw [← hfile, hasFlag_mask_append]

theorem coherentIn_fdmOpen_flags {s t : IoProxy β} (h : CoherentIn (Appends Q) s) {p : PathName}
    {flags : BitVec 32} (hQ : s.fdm.fds.lookup p = none → Q (hasFlag flags oAppend))
    {r : Except Errno Nat} (hopen : s.fdmOpen p flags = (t, r)) : CoherentIn (Appends Q) t := by
  refine coherentIn_fdmOpen h (fun hp k fd file hk hfile => ?_) hopen
  unfold Appends
  rw [append_of_sysOpen hk hfile]
  exact hQ hp

/-- The opens that the proxy makes for itself are not for appending. -/
theorem coherentIn_fdmOpen_oRdwr {s t : IoProxy β} (hQ : Q false) (h : CoherentIn (Appends Q) s)
    {p : PathName} {r : Except Errno Nat} (hopen : s.fdmOpen p oRdwr = (t, r)) :
    CoherentIn (Appends Q) t := by
  have hplain : hasFlag oRdwr oAppend = false := by decide
  refine coherentIn_fdmOpen_flags h (fun _ => ?_) hopen
  rw [hplain]
  exact hQ

theorem coherentIn_getFileHandler {s : IoProxy β} (hQ : Q false) (h : CoherentIn (Appends Q) s)
    (p : PathName) : CoherentIn (Appends Q) (s.getFileHandler p).1 := by
  unfold getFileHandler
  cases hopen : s.fdmOpen p oRdwr with
  | mk t r =>
      have ht := coherentIn_fdmOpen_oRdwr hQ h hopen
      cases r with
      | error e => exact ht
      | ok fd =>
          cases hfd : t.fdm.file_handlers fd with
          | some fh => simpa [hfd] using ht
          | none =>
              simp only [hfd]
              exact ht

/-! ### The replica sync -/

/-- The sync changes contents only. -/
theorem storePiece_cases (k : Kernel β) (fd : Nat) (piece : Nat × List UInt8) :
    storePiece k fd piece = k ∨ ∃ ino c, storePiece k fd piece = k.setContent ino c := by
  unfold storePiece
  cases h : k.sysPwrite fd piece.2 piece.1 with
  | error e => exact Or.inl rfl
  | ok r =>
      obtain ⟨k', n⟩ := r
      obtain ⟨_, file, _, rfl⟩ := Kernel.sysPwrite_cases h
      exact Or.inr ⟨_, _, rfl⟩

/-- Coherence does not depend on contents. -/
theorem CoherentIn.setContent {s : IoProxy β} (h : CoherentIn (Appends Q) s) (ino : Nat)
    (c : ByteFile) :
    CoherentIn (Appends Q) { s with k := s.k.setContent ino c } := h

theorem CoherentIn.storePieces {s : IoProxy β} (h : CoherentIn (Appends Q) s) (fd : Nat)
    (pieces : List (Nat × List UInt8)) :
    CoherentIn (Appends Q) { s with k := pieces.foldl (fun k piece => storePiece k fd piece) s.k } := by
  induction pieces generalizing s with
  | nil => exact h
  | cons piece pieces ih =>
      have hone : CoherentIn (Appends Q) { s with k := storePiece s.k fd piece } := by
        obtain hsame | ⟨ino, c, hset⟩ := storePiece_cases s.k fd piece
        · rw [hsame]
          exact h
        · rw [hset]
          exact h.setContent ino c
      exact ih hone

theorem coherentIn_syncFiledata {s : IoProxy β} (hQ : Q false) (h : CoherentIn (Appends Q) s)
    (peers : Peers)
    (p : PathName) (off len : Nat) : CoherentIn (Appends Q) (s.syncFiledata peers p off len) := by
  unfold syncFiledata
  have hfh := coherentIn_getFileHandler hQ h p
  cases hget : s.getFileHandler p with
  | mk t r =>
      rw [hget] at hfh
      cases r with
      | none => exact hfh
      | some fh => exact hfh.storePieces fh.fd _

theorem coherentIn_syncUnalignPage {s : IoProxy β} (hQ : Q false) (h : CoherentIn (Appends Q) s)
    (peers : Peers) (p : PathName) (off len : Nat) :
    CoherentIn (Appends Q) (s.syncUnalignPage peers p off len) := by
  unfold syncUnalignPage
  have hfirst : CoherentIn (Appends Q)
      (if off % 4096 ≠ 0 then s.syncFiledata peers p (off / 4096 * 4096) 4096 else s) := by
    split
    · exact coherentIn_syncFiledata hQ h peers p _ _
    · exact h
  simp only
  split
  · exact coherentIn_syncFiledata hQ hfirst peers p _ _
  · exact hfirst

/-! ### One request -/

theorem coherentIn_doOpen {s : IoProxy β} (h : CoherentIn (Appends Q) s) {p : PathName}
    {mode : BitVec 32} (hQ : s.fdm.fds.lookup p = none → Q (hasFlag mode oAppend)) :
    CoherentIn (Appends Q) (s.doOpen p mode).1 := by
  unfold doOpen
  rw [← hasFlag_or_oRdwr_append] at hQ
  cases hopen : s.fdmOpen p (mode ||| oRdwr) with
  | mk t r =>
      have ht := coherentIn_fdmOpen_flags h hQ hopen
      cases r with
      | ok fd => exact ht
      | error e => exact ht

theorem coherentIn_doRead {s : IoProxy β} (hQ : Q false) (h : CoherentIn (Appends Q) s)
    (peers : Peers)
    (p : PathName) (offset size : Nat) : CoherentIn (Appends Q) (s.doRead peers p offset size).1 := by
  unfold doRead
  cases hopen : s.fdmOpen p oRdwr with
  | mk t r =>
      have ht := coherentIn_fdmOpen_oRdwr hQ h hopen
      cases r with
      | error e => exact ht
      | ok fd =>
          have hsync := coherentIn_syncFiledata hQ ht peers p offset size
          cases hread : (t.syncFiledata peers p offset size).k.sysPread fd size offset with
          | ok bytes =>
              simp only [hread]
              exact hsync
          | error e =>
              simp only [hread]
              exact hsync

theorem coherentIn_doWrite {s : IoProxy β} (hQ : Q false) (h : CoherentIn (Appends Q) s)
    (peers : Peers) (p : PathName) (data : List UInt8) (offset : Nat) :
    CoherentIn (Appends Q) (s.doWrite peers p data offset).1 := by
  unfold doWrite
  cases hopen : s.fdmOpen p oRdwr with
  | mk t r =>
      have ht := coherentIn_fdmOpen_oRdwr hQ h hopen
      cases r with
      | error e => exact ht
      | ok fd =>
          have hsync := coherentIn_syncUnalignPage hQ ht peers p offset data.length
          cases hwrite :
              (t.syncUnalignPage peers p offset data.length).k.sysPwrite fd data offset with
          | error e =>
              simp only [hwrite]
              exact hsync
          | ok r =>
              obtain ⟨k, n⟩ := r
              obtain ⟨_, file, _, rfl⟩ := Kernel.sysPwrite_cases hwrite
              simp only [hwrite]
              exact hsync.setContent _ _

/-- A request that is one system call: coherence is up to the call, if it succeeds. -/
theorem coherentIn_withCall_iff {s : IoProxy β} (h : CoherentIn (Appends Q) s)
    (r : Except Errno (Kernel β)) :
    CoherentIn (Appends Q) (s.withCall r).1 ↔
      ∀ k, r = .ok k → CoherentIn (Appends Q) { s with k := k } := by
  cases r with
  | error e => simpa [withCall] using h
  | ok k => simp [withCall]

theorem coherentIn_mkdir {s : IoProxy β} (h : CoherentIn (Appends Q) s) {p : PathName}
    {k : Kernel β}
    (hmkdir : fsCreateDirectory s.k p = .ok k) : CoherentIn (Appends Q) { s with k := k } := by
  unfold fsCreateDirectory at hmkdir
  split at hmkdir
  · cases hmkdir
    exact h
  · cases hmkdir
  · obtain ⟨hnode, x, d, rfl, rfl⟩ := Kernel.sysMkdir_cases hmkdir
    refine h.of_subset fun q fd hq => ⟨hq, rfl, fun i hi => ?_⟩
    have hne : q ≠ x :: d := by
      intro heq
      rw [heq, hnode] at hi
      cases hi
    exact (FileTree.node_add_of_ne hne).trans hi

/-- A move of names keeps the cache coherent exactly where it concerns no cached path. -/
theorem coherentIn_moveName_iff {s : IoProxy β} (h : CoherentIn (Appends Q) s) {src dst : PathName}
    (hmove : s.k.tree.CanMove src dst) :
    CoherentIn (Appends Q) { s with k := s.k.moveName src dst } ↔
      ∀ p, (s.fdm.fds.lookup p).isSome → ¬ dst <:+ p ∧ ¬ src <:+ p := by
  constructor
  · intro ht p hp
    obtain ⟨fd, hfd⟩ := Option.isSome_iff_exists.mp hp
    obtain ⟨file, hfile, hnode, _⟩ := h p fd hfd
    obtain ⟨file', hfile', hnode', _⟩ := ht p fd hfd
    have hsame : file' = file := Option.some.inj (hfile'.symm.trans hfile)
    subst hsame
    exact (FileTree.node_move_file_iff hmove hnode).mp hnode'
  · intro hout
    refine h.of_subset fun q fd hq => ⟨hq, rfl, fun i hi => ?_⟩
    exact (FileTree.node_move_file_iff hmove hi).mpr (hout q (by simp [hq]))

theorem coherentIn_rename_iff {s : IoProxy β} (h : CoherentIn (Appends Q) s) (src dst : PathName) :
    (∀ k, s.k.sysRename src dst = .ok k → CoherentIn (Appends Q) { s with k := k }) ↔
      (s.k.CanRename src dst →
        ∀ p, (s.fdm.fds.lookup p).isSome → ¬ dst <:+ p ∧ ¬ src <:+ p) := by
  constructor
  · intro hall hcan
    exact (coherentIn_moveName_iff h hcan.1).mp (hall _ (Kernel.sysRename_of_canRename hcan))
  · intro hout k hk
    obtain ⟨_, rfl⟩ | ⟨hcan, rfl⟩ := Kernel.sysRename_cases hk
    · exact h
    · exact (coherentIn_moveName_iff h hcan.1).mpr (hout hcan)

/-- Taking away a name that is not cached keeps the cache coherent. -/
theorem coherentIn_removeName {s : IoProxy β} (h : CoherentIn (Appends Q) s) {p : PathName}
    (hp : s.fdm.fds.lookup p = none) : CoherentIn (Appends Q) { s with k := s.k.removeName p } := by
  refine h.of_subset fun q fd hq => ⟨hq, rfl, fun i hi => ?_⟩
  have hne : q ≠ p := by
    intro heq
    subst heq
    simp only at hq
    rw [hp] at hq
    cases hq
  exact (FileTree.node_remove_of_ne hne).trans hi

/-- Taking away the name of a cached file does not. -/
theorem not_coherentIn_removeName {s : IoProxy β} {p : PathName} {i fd : Nat}
    (hnode : s.k.tree.node p = some (.file i)) (hp : s.fdm.fds.lookup p = some fd) :
    ¬ CoherentIn (Appends Q) { s with k := s.k.removeName p } := by
  intro ht
  have hroot : p ≠ [] := by
    intro heq
    rw [heq] at hnode
    exact absurd (s.k.tree.root.symm.trans hnode) (by simp)
  obtain ⟨file, _, hafter, _⟩ := ht p fd hp
  simp only [Kernel.removeName_tree] at hafter
  rw [FileTree.node_remove_self hroot (FileTree.childless_of_file hnode)] at hafter
  cases hafter

/-- A cached path names a file, so rmdir goes wrong on a cached path and on nothing else. -/
theorem coherentIn_rmdir_iff {s : IoProxy β} (h : CoherentIn (Appends Q) s) (p : PathName) :
    (∀ k, fsRemove s.k p = .ok k → CoherentIn (Appends Q) { s with k := k }) ↔
      s.fdm.fds.lookup p = none := by
  cases hp : s.fdm.fds.lookup p with
  | some fd =>
      obtain ⟨file, _, hnode, _⟩ := h p fd hp
      have hremove : fsRemove s.k p = .ok (s.k.removeName p) := by
        simp [fsRemove, hnode, Kernel.sysUnlink]
      refine iff_of_false (fun hall => ?_) (by simp)
      exact not_coherentIn_removeName hnode hp (hall _ hremove)
  | none =>
      refine iff_of_true (fun k hk => ?_) rfl
      unfold fsRemove at hk
      split at hk
      · cases hk
        exact h
      · obtain ⟨_, rfl⟩ := Kernel.sysUnlink_cases hk
        exact coherentIn_removeName h hp
      · obtain ⟨_, rfl⟩ := Kernel.sysRmdir_cases hk
        exact coherentIn_removeName h hp

/-- The exact condition under which a request keeps the cache coherent. -/
theorem coherentIn_doOp_iff {s : IoProxy β} (hQ : Q false) (h : CoherentIn (Appends Q) s)
    {a : Peers × Request} (hflags : OpensWith Q s a) :
    CoherentIn (Appends Q) (s.doOp a.1 a.2).1 ↔ Undisturbed s a := by
  obtain ⟨peers, r⟩ := a
  cases r with
  | «open» p mode => exact iff_of_true (coherentIn_doOpen h hflags) trivial
  | create p => exact iff_of_true (coherentIn_fdmCreate h p) trivial
  | read p offset size => exact iff_of_true (coherentIn_doRead hQ h peers p offset size) trivial
  | write p data offset => exact iff_of_true (coherentIn_doWrite hQ h peers p data offset) trivial
  | truncate p size =>
      refine iff_of_true ((coherentIn_withCall_iff h _).mpr fun k hk => ?_) trivial
      obtain ⟨ino, _, rfl⟩ := Kernel.sysTruncate_cases hk
      exact h.setContent ino _
  | unlink p => exact iff_of_true (coherentIn_fdmRemove h p) trivial
  | rename p newpath =>
      exact (coherentIn_withCall_iff h _).trans (coherentIn_rename_iff h p newpath)
  | mkdir p =>
      refine iff_of_true ((coherentIn_withCall_iff h _).mpr fun k hk => ?_) trivial
      exact coherentIn_mkdir h hk
  | rmdir p => exact (coherentIn_withCall_iff h _).trans (coherentIn_rmdir_iff h p)

/-! ### Runs -/

/-- Along every run from an empty cache whose requests leave the cached paths alone and open new
descriptors as `Q` allows, the cache is coherent. -/
theorem coherentIn_run {s t : IoProxy β} (hQ : Q false) (hs : s.fdm.fds = ∅)
    {as : List (Peers × Request)}
    (hguard : Machine.Guarded handle (fun s a => Undisturbed s a ∧ OpensWith Q s a) s as)
    (hrun : Machine.run handle s as = some t) : CoherentIn (Appends Q) t := by
  have hempty : CoherentIn (Appends Q) s := by
    intro p fd hp
    rw [hs] at hp
    cases hp
  have hstep : ∀ (u : IoProxy β) a v, CoherentIn (Appends Q) u → Undisturbed u a ∧ OpensWith Q u a →
      handle u a = some v → CoherentIn (Appends Q) v := by
    intro u a v hu hok hv
    cases hv
    exact (coherentIn_doOp_iff hQ hu hok.2).mpr hok.1
  exact Machine.run_invariant hstep hempty hguard hrun

/-- A cached descriptor of a coherent cache is open on what a fresh open gives. -/
theorem Coherent.actsAsFresh {s : IoProxy β} (h : Coherent s) : ActsAsFresh s := by
  intro p fd hp
  obtain ⟨file, hfile, hnode⟩ := h p fd hp
  refine ⟨file, s.k.allocFd ⟨file.ino, false⟩, s.k.fdTable.firstFree, ⟨file.ino, false⟩, hfile, ?_,
    SlotTable.get_alloc_self _ _, rfl⟩
  simp [Kernel.sysOpen, hnode, hasFlag, oRdwr, oCreat, oDirectory, oTrunc, oAppend]

/-- Along every run from an empty cache whose requests leave the cached paths alone, the cache is
coherent, and its descriptors act on the files that fresh opens would give. -/
theorem cached_eq_fresh {s t : IoProxy β} (hs : s.fdm.fds = ∅) (as : List (Peers × Request))
    (hguard : Machine.Guarded handle Undisturbed s as) (hrun : Machine.run handle s as = some t) :
    Coherent t ∧ ActsAsFresh t := by
  have hboth := hguard.mono fun u a hu => And.intro hu (opensWith_true u a)
  have ht := coherentIn_true_iff.mp (coherentIn_run trivial hs hboth hrun)
  exact ⟨ht, ht.actsAsFresh⟩

/-- The guard of a rename, checked on the keys of the cache. -/
theorem undisturbed_rename {s : IoProxy β} {peers : Peers} {src dst : PathName}
    (h : ∀ p ∈ s.fdm.fds.keys, ¬ dst <:+ p ∧ ¬ src <:+ p) :
    Undisturbed s (peers, .rename src dst) :=
  fun _ p hp => h p (AList.mem_keys.mp (AList.lookup_isSome.mp hp))

/-- One file is cached while another one is renamed. -/
theorem cached_eq_fresh_beside_rename :
    ∃ t, Machine.run handle (blank 499 : IoProxy Unit)
        [(noPeers, .create ["a"]), (noPeers, .open ["a"] oRdonly), (noPeers, .create ["b"]),
          (noPeers, .rename ["b"] ["c"])] = some t ∧
      t.fdm.fds.lookup ["a"] = some 0 ∧ Coherent t ∧ ActsAsFresh t := by
  refine ⟨_, rfl, by decide, cached_eq_fresh (s := blank 499) rfl
    [(noPeers, .create ["a"]), (noPeers, .open ["a"] oRdonly), (noPeers, .create ["b"]),
      (noPeers, .rename ["b"] ["c"])] ?_ rfl⟩
  refine ⟨trivial, fun _ h₁ => ⟨trivial, fun _ h₂ => ⟨trivial, fun _ h₃ => ⟨?_, fun _ _ => trivial⟩⟩⟩⟩
  cases h₁
  cases h₂
  cases h₃
  exact undisturbed_rename (by decide)

/-- A rename of a cached file: the old path is still served by the descriptor of the file that has
another name now, though nothing has the old name any more. -/
theorem renamed_file_still_cached :
    ∃ t, Machine.run handle (blank 499 : IoProxy Unit)
        [(noPeers, .create ["a"]), (noPeers, .open ["a"] oRdonly),
          (noPeers, .rename ["a"] ["b"])] = some t ∧
      t.fdm.fds.lookup ["a"] = some 0 ∧ ¬ Coherent t ∧ ¬ ActsAsFresh t := by
  have hgone : ∀ ino, some (Node.file ino) ≠ none := fun _ => Option.some_ne_none _
  refine ⟨_, rfl, by decide, fun h => ?_, fun h => ?_⟩
  · obtain ⟨file, _, hnode⟩ := h ["a"] 0 (by decide)
    exact hgone _ hnode.symm
  · obtain ⟨_, k', fd', _, _, hopen, _⟩ := h ["a"] 0 (by decide)
    obtain ⟨_, ⟨ino, hnode, _⟩ | ⟨_, _, _, _, hcreat, _⟩⟩ := Kernel.sysOpen_cases hopen
    · exact hgone _ hnode.symm
    · exact absurd hcreat (by decide)

end Gvds.IoProxy
