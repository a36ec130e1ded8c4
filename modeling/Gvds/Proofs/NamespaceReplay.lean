/-
Module: Gvds.Proofs.NamespaceReplay
Layer: Proofs
Purpose: What the peers of a replicated space see. Each request changes the names as a change of the
  picture of the tree, at the origin and at a peer alike, so the peers have the origin's tree if the
  requests stand on the queue in the order in which they were executed, up to requests that commute.
  Nothing in the code makes it so: two requests on one path may be queued the other way round.
Imports: Gvds.Lib.FileNames, Gvds.Lib.Machine, Gvds.Proofs.FdCache, Gvds.IoProxy.SpaceWorkers
Trusted boundary: as Gvds.IoProxy.SpaceWorkers
Main exports: names_doOp, Start, SameTree, Orderly, Replaying, replaying_step, peers_follow,
  create_overtakes_unlink
-/
import Gvds.Lib.FileNames
import Gvds.Lib.Machine
import Gvds.Proofs.FdCache
import Gvds.IoProxy.SpaceWorkers

namespace Gvds

variable {β : Type*}

/-! ### What the system calls do to the names -/

namespace Kernel

/-- Making a file adds its name to the picture. -/
theorem names_makeFile {k : Kernel β} {x : String} {d : PathName} (hd : k.tree.node d = some .dir)
    (hx : k.tree.node (x :: d) = none) :
    (k.makeFile x d).tree.names = Function.update k.tree.names (x :: d) (some .file) :=
  FileTree.names_add (canAdd_nextIno hd hx)

/-- Making a directory adds its name to the picture. -/
theorem names_makeDir {k : Kernel β} {x : String} {d : PathName} (hd : k.tree.node d = some .dir)
    (hx : k.tree.node (x :: d) = none) :
    (k.makeDir x d).tree.names = Function.update k.tree.names (x :: d) (some .dir) :=
  FileTree.names_add ⟨hd, hx, Or.inl rfl⟩

/-- A name can be added where its parent is a directory. -/
theorem canAdd_names_iff {k : Kernel β} {p : PathName} :
    k.tree.names.CanAdd p ↔ p ≠ [] ∧ k.tree.node p = none ∧ k.tree.node p.tail = some .dir := by
  rw [FileNames.CanAdd, FileTree.names_eq_none_iff, FileTree.names_eq_dir_iff]

/-- A call performs a change of names: it makes the change, or fails where the change cannot be
made. -/
def Performs (k : Kernel β) (c : NameChange) : Except Errno (Kernel β) → Prop
  | .ok k' => k'.tree.names = c.apply k.tree.names
  | .error _ => c.apply k.tree.names = k.tree.names

theorem performs_sysUnlink (k : Kernel β) (p : PathName) :
    Performs k (.unlink p) (k.sysUnlink p) := by
  unfold sysUnlink
  cases hp : k.tree.node p with
  | none =>
      have hfile : k.tree.names p ≠ some .file := by simp [FileTree.names, hp]
      simp [Performs, NameChange.apply, hfile]
  | some n =>
      cases n with
      | dir =>
          have hfile : k.tree.names p ≠ some .file := by simp [FileTree.names, hp, Node.kind]
          simp [Performs, NameChange.apply, hfile]
      | file i =>
          have hfile : k.tree.names p = some .file := FileTree.names_eq_file_iff.mpr ⟨i, hp⟩
          have hne : p ≠ [] := fun heq => by simp [heq, FileTree.names_root] at hfile
          simp only [Performs, NameChange.apply, hfile, if_true, removeName_tree]
          exact FileTree.names_remove hne (FileTree.childless_of_file hp)

/-- Removing a directory performs a removal. -/
theorem performs_sysRmdir {k : Kernel β} {p : PathName} (hp : k.tree.node p = some .dir) :
    Performs k (.remove p) (k.sysRmdir p) := by
  have hnames : k.tree.names p = some .dir := FileTree.names_eq_dir_iff.mpr hp
  have hcan : k.tree.names.CanRemove p ↔ p ≠ [] ∧ k.tree.Childless p := by
    simp [FileNames.CanRemove, hnames, FileTree.childless_names_iff]
  simp only [sysRmdir, hp]
  by_cases hempty : k.tree.Childless p
  · simp only [hempty, if_true, Performs, NameChange.apply, hcan, and_true, removeName_tree]
    split
    · rename_i hne
      exact FileTree.names_remove hne hempty
    · rename_i hroot
      rw [FileTree.remove, dif_neg fun h => hroot h.1]
  · simp [hempty, Performs, NameChange.apply, hcan]

theorem performs_sysTruncate (k : Kernel β) (p : PathName) (size : Nat) :
    Performs k .keep (k.sysTruncate p size) := by
  cases h : k.sysTruncate p size with
  | error e => rfl
  | ok k' =>
      obtain ⟨ino, _, rfl⟩ := sysTruncate_cases h
      rfl

/-- Names that the kernel can move are those that the picture says can be moved. -/
theorem canMove_names_iff {k : Kernel β} {src dst : PathName} :
    k.tree.names.CanMove src dst ↔ k.CanRename src dst := by
  have hkind : (k.tree.node src).isSome →
      ((k.tree.names dst = none ∨ k.tree.names dst = k.tree.names src) ↔
        ∀ n, k.tree.node src = some n → kindError n (k.tree.node dst) = none) := by
    intro hsome
    obtain ⟨n, hn⟩ := Option.isSome_iff_exists.mp hsome
    simp only [hn, Option.some.injEq, forall_eq', FileTree.names, Option.map_some]
    cases hdst : k.tree.node dst with
    | none => cases n <;> simp [kindError]
    | some m => cases n <;> cases m <;> simp [kindError, Node.kind]
  have hsrc : (k.tree.names src).isSome = (k.tree.node src).isSome := by simp [FileTree.names]
  unfold FileNames.CanMove CanRename FileTree.CanMove
  rw [FileTree.childless_names_iff, FileTree.names_eq_dir_iff, hsrc]
  constructor
  · rintro ⟨hsome, hbelow, hempty, hne, hdir, hk⟩
    exact ⟨⟨hsome, hbelow, hempty, hne, hdir⟩, (hkind hsome).mp hk⟩
  · rintro ⟨⟨hsome, hbelow, hempty, hne, hdir⟩, hk⟩
    exact ⟨hsome, hbelow, hempty, hne, hdir, (hkind hsome).mpr hk⟩

theorem performs_sysRename (k : Kernel β) (src dst : PathName) :
    Performs k (.rename src dst) (k.sysRename src dst) := by
  by_cases hcan : k.CanRename src dst
  · simp only [sysRename_of_canRename hcan, Performs, NameChange.apply, canMove_names_iff.mpr hcan,
      if_true, moveName_tree]
    exact FileTree.names_move hcan.1
  · have hkeep : NameChange.apply k.tree.names (.rename src dst) = k.tree.names := by
      simp [NameChange.apply, mt canMove_names_iff.mp hcan]
    cases h : k.sysRename src dst with
    | error e => exact hkeep
    | ok k' =>
        obtain ⟨_, rfl⟩ | ⟨hmove, _⟩ := sysRename_cases h
        · exact hkeep.symm
        · exact absurd hmove hcan

/-- Opening with `O_CREAT` performs the addition of a file. -/
theorem performs_sysOpen (k : Kernel β) (p : PathName) :
    Performs k (.add p .file) ((k.sysOpen p (oCreat ||| oSync)).map Prod.fst) := by
  have hcreat : hasFlag (oCreat ||| oSync) oCreat = true := by decide
  have hexcl : hasFlag (oCreat ||| oSync) oExcl = false := by decide
  have hdirectory : hasFlag (oCreat ||| oSync) oDirectory = false := by decide
  have htrunc : hasFlag (oCreat ||| oSync) oTrunc = false := by decide
  unfold sysOpen
  cases hp : k.tree.node p with
  | some n =>
      have hcan : ¬ k.tree.names.CanAdd p := fun h => by
        rw [(canAdd_names_iff.mp h).2.1] at hp
        cases hp
      cases n with
      | dir => simp [hcreat, hexcl, Performs, NameChange.apply, hcan, Except.map]
      | file i =>
          simp [hcreat, hexcl, hdirectory, htrunc, Performs, NameChange.apply, hcan, Except.map]
  | none =>
      cases p with
      | nil =>
          have hcan : ¬ k.tree.names.CanAdd [] := fun h => (canAdd_names_iff.mp h).1 rfl
          simp [Performs, NameChange.apply, hcan, Except.map]
      | cons x d =>
          by_cases hd : k.tree.node d = some .dir
          · have hcan : k.tree.names.CanAdd (x :: d) :=
              canAdd_names_iff.mpr ⟨List.cons_ne_nil x d, hp, hd⟩
            simp only [hd, hcreat, hdirectory, if_true, Except.map, Performs, NameChange.apply, hcan,
              Bool.false_eq_true, if_false, allocFd_tree]
            exact names_makeFile hd hp
          · have hcan : ¬ k.tree.names.CanAdd (x :: d) := fun h => hd (canAdd_names_iff.mp h).2.2
            simp [hd, Performs, NameChange.apply, hcan, Except.map]

end Kernel

namespace IoProxy

open Kernel (Performs)

/-- `fs::remove` performs a removal. -/
theorem performs_fsRemove (k : Kernel β) (p : PathName) :
    Performs k (.remove p) (fsRemove k p) := by
  unfold fsRemove
  cases hp : k.tree.node p with
  | none =>
      have hcan : ¬ k.tree.names.CanRemove p := by simp [FileNames.CanRemove, FileTree.names, hp]
      simp [Performs, NameChange.apply, hcan]
  | some n =>
      cases n with
      | dir => exact Kernel.performs_sysRmdir hp
      | file i =>
          have hfile : k.tree.names p = some .file := FileTree.names_eq_file_iff.mpr ⟨i, hp⟩
          have hsame : NameChange.apply k.tree.names (.remove p) =
              NameChange.apply k.tree.names (.unlink p) := by
            simp [NameChange.apply, FileNames.CanRemove, hfile]
          have hunlink := Kernel.performs_sysUnlink k p
          unfold Performs at hunlink ⊢
          rw [hsame]
          exact hunlink

/-- `fs::create_directory` performs the addition of a directory. -/
theorem performs_fsCreateDirectory (k : Kernel β) (p : PathName) :
    Performs k (.add p .dir) (fsCreateDirectory k p) := by
  have hkeep : ∀ n, k.tree.node p = some n → ¬ k.tree.names.CanAdd p := by
    intro n hn h
    rw [(Kernel.canAdd_names_iff.mp h).2.1] at hn
    cases hn
  unfold fsCreateDirectory
  cases hp : k.tree.node p with
  | some n =>
      have hcan := hkeep n hp
      cases n <;> simp [Performs, NameChange.apply, hcan]
  | none =>
      cases p with
      | nil =>
          have hcan : ¬ k.tree.names.CanAdd [] := fun h => (Kernel.canAdd_names_iff.mp h).1 rfl
          simp [Kernel.sysMkdir, hp, Performs, NameChange.apply, hcan]
      | cons x d =>
          by_cases hd : k.tree.node d = some .dir
          · have hcan : k.tree.names.CanAdd (x :: d) :=
              Kernel.canAdd_names_iff.mpr ⟨List.cons_ne_nil x d, hp, hd⟩
            simp only [Kernel.sysMkdir, hp, hd, if_true, Performs, NameChange.apply, hcan]
            exact Kernel.names_makeDir hd hp
          · have hcan : ¬ k.tree.names.CanAdd (x :: d) :=
              fun h => hd (Kernel.canAdd_names_iff.mp h).2.2
            simp [Kernel.sysMkdir, hp, hd, Performs, NameChange.apply, hcan]

end IoProxy

namespace SpaceWorkers

open IoProxy (doOp withCall fdmCreate fdmRemove fdmExpire_tree performs_fsCreateDirectory
  performs_fsRemove)
open ReplicaQueue (handle_replica_async rewrite)

/-! ### What the requests do to the names -/

/-- The change of names that a request stands for. -/
def SpaceOp.change : SpaceOp → NameChange
  | .create path => .add path .file
  | .unlink path => .unlink path
  | .mkdir path => .add path .dir
  | .rmdir path => .remove path
  | .rename path newpath => .rename path newpath
  | .truncate _ _ => .keep
  | .setxattr _ _ _ => .keep

/-- The names that a center has. -/
def names (s : IoProxy β) : FileNames := s.k.tree.names

/-- The result of `do_op` performs a change of names. -/
def Performed (s : IoProxy β) (c : NameChange) (r : IoProxy β × Reply) : Prop :=
  names r.1 = c.apply (names s) ∧ (errCode r.2 < 0 → c.apply (names s) = names s)

theorem performed_withCall {s : IoProxy β} {c : NameChange} {r : Except Errno (Kernel β)}
    (h : Kernel.Performs s.k c r) : Performed s c (s.withCall r) := by
  cases r with
  | ok k => exact ⟨h, fun herr => absurd herr (by simp [withCall, errCode])⟩
  | error e => exact ⟨h.symm, fun _ => h⟩

theorem performed_create (s : IoProxy β) (p : PathName) :
    Performed s (.add p .file) (s.doOp noPeers (.create p)) := by
  have hopen := Kernel.performs_sysOpen s.k p
  simp only [doOp, fdmCreate]
  cases h : s.k.sysOpen p (oCreat ||| oSync) with
  | error e =>
      rw [h] at hopen
      exact ⟨hopen.symm, fun _ => hopen⟩
  | ok r =>
      rw [h] at hopen
      refine ⟨?_, fun herr => absurd herr (by simp [errCode])⟩
      simp only [names, Kernel.sysClose_tree, fdmExpire_tree]
      exact hopen

theorem performed_unlink (s : IoProxy β) (p : PathName) :
    Performed s (.unlink p) (s.doOp noPeers (.unlink p)) := by
  have hunlink := Kernel.performs_sysUnlink (s.fdmExpire p).k p
  simp only [doOp, fdmRemove]
  cases h : (s.fdmExpire p).k.sysUnlink p with
  | error e =>
      rw [h] at hunlink
      simp only [Kernel.Performs, fdmExpire_tree] at hunlink
      refine ⟨?_, fun _ => hunlink⟩
      simp only [names, fdmExpire_tree]
      exact hunlink.symm
  | ok k =>
      rw [h] at hunlink
      simp only [Kernel.Performs, fdmExpire_tree] at hunlink
      exact ⟨hunlink, fun herr => absurd herr (by simp [errCode])⟩

/-- Every request performs its change of names. -/
theorem performed_doOp (s : IoProxy β) {op : SpaceOp} {r : Request} (h : op.toRequest = some r) :
    Performed s op.change (s.doOp noPeers r) := by
  cases op with
  | create path =>
      cases h
      exact performed_create s path
  | unlink path =>
      cases h
      exact performed_unlink s path
  | mkdir path =>
      cases h
      exact performed_withCall (performs_fsCreateDirectory s.k path)
  | rmdir path =>
      cases h
      exact performed_withCall (performs_fsRemove s.k path)
  | rename path newpath =>
      cases h
      exact performed_withCall (Kernel.performs_sysRename s.k path newpath)
  | truncate path size =>
      cases h
      exact performed_withCall (Kernel.performs_sysTruncate s.k path size)
  | setxattr path name data => cases h

/-- A peer that executes a request makes its change of names. -/
theorem names_executeAtPeer (s : IoProxy β) (op : SpaceOp) :
    names (executeAtPeer s op) = op.change.apply (names s) := by
  unfold executeAtPeer
  cases h : op.toRequest with
  | some r => exact (performed_doOp s h).1
  | none =>
      cases op with
      | setxattr path name data => rfl
      | _ => cases h

/-! ### What is compared -/

/-- Every peer has the names that the origin has in the space. -/
def SameTree (cfg : Config) (s : State β) : Prop :=
  ∀ c ∈ cfg.ids, c ≠ cfg.mcid → ∀ p, [cfg.space] <:+ p → names (s.peer c) p = names s.origin p

/-- The space has just been replicated: the peers have its tree, and nothing was executed since. -/
structure Start (cfg : Config) (s : State β) : Prop where
  space : s.origin.k.tree.node [cfg.space] = some .dir
  cids : s.cids = some cfg.ids
  workers : s.workers = []
  queue : s.queue = []
  applied : ∀ c, s.applied c = 0
  same : SameTree cfg s

/-- All workers are done, and every peer has executed the whole queue. -/
def Delivered (cfg : Config) (s : State β) : Prop :=
  s.workers = [] ∧ ∀ c ∈ cfg.ids, c ≠ cfg.mcid → s.applied c = s.queue.length

/-- The effect of a request on the names. -/
noncomputable def SpaceOp.apply (n : FileNames) (op : SpaceOp) : FileNames := op.change.apply n

/-- The worker has executed its request with success, or is past the look at the outcome. -/
def Worker.live (w : Worker) : Bool :=
  match w.stage with
  | .executed err_code => decide (0 ≤ err_code)
  | .accepted _ => true

/-- The step keeps the queue in line with the order of execution. The space's own directory is not
removed and its list of centers is not overwritten; and a worker puts its request on the queue
before those that executed theirs earlier only if the two requests commute. -/
def Orderly (cfg : Config) (s : State β) : Act → Prop
  | .execute op xattr =>
      (op = .rmdir [cfg.space] → ¬ s.origin.k.tree.Childless [cfg.space]) ∧
        ∀ data, op = .setxattr [cfg.space] "user.gvds.r.c" data → xattr = false
  | .check _ => True
  | .enqueue i =>
      ∀ w, s.workers[i]? = some w → ∀ v ∈ s.workers.take i, v.live = true →
        Replay.Commute SpaceOp.apply v.op w.op
  | .deliver _ => True

/-- Requests on different subtrees commute. -/
theorem commute_of_apart {a b : SpaceOp} (h : a.change.Apart b.change) :
    Replay.Commute SpaceOp.apply a b :=
  NameChange.commute_of_apart h

/-! ### The space within the tree -/

/-- The paths of the space, and the root. -/
def scope (cfg : Config) : Set PathName := { p | [cfg.space] <:+ p ∨ p = [] }

/-- A change of names is about the paths of the request. -/
theorem change_paths (op : SpaceOp) : ∀ p ∈ op.change.paths, p ∈ op.paths := by
  cases op <;> simp [SpaceOp.change, NameChange.paths, SpaceOp.paths]

/-- A request on the space reads nothing outside. -/
theorem reads_subset_scope {cfg : Config} {op : SpaceOp} (h : InSpace cfg op) :
    op.change.reads ⊆ scope cfg := by
  rintro q ⟨p, hp, hq⟩
  have hspace := h p (change_paths op p hp)
  rcases hq with hq | rfl
  · exact Or.inl (hspace.trans hq)
  · obtain ⟨rel, rfl⟩ := hspace
    cases rel with
    | nil => exact Or.inr rfl
    | cons x rel => exact Or.inl ⟨rel, rfl⟩

/-- Names that agree on the space still do after the same request. -/
theorem apply_congr {cfg : Config} {op : SpaceOp} (h : InSpace cfg op) {n m : FileNames}
    (hsame : ∀ p ∈ scope cfg, n p = m p) : ∀ p ∈ scope cfg, op.apply n p = op.apply m p :=
  op.change.within.congr_on (reads_subset_scope h) hsame

/-- A request that is no successful rmdir of the space's directory leaves that directory there. -/
theorem space_apply {cfg : Config} {op : SpaceOp} {t : FileTree} (h : InSpace cfg op)
    (hspace : t.names [cfg.space] = some .dir)
    (hrmdir : op = .rmdir [cfg.space] → ¬ t.Childless [cfg.space]) :
    op.change.apply t.names [cfg.space] = some .dir := by
  have hupdate : ∀ (p : PathName) (value : Option NodeKind), p ≠ [cfg.space] →
      Function.update t.names p value [cfg.space] = some .dir := fun p value hne => by
    rw [Function.update_of_ne hne.symm, hspace]
  have hadd : ∀ p kind, NameChange.apply t.names (.add p kind) [cfg.space] = some .dir := by
    intro p kind
    simp only [NameChange.apply]
    split
    · rename_i hcan
      exact hupdate p _ fun heq => by simp [heq, FileNames.CanAdd, hspace] at hcan
    · exact hspace
  cases op with
  | create path => exact hadd path .file
  | mkdir path => exact hadd path .dir
  | unlink path =>
      simp only [SpaceOp.change, NameChange.apply]
      split
      · rename_i hfile
        exact hupdate path _ fun heq => by simp [heq, hspace] at hfile
      · exact hspace
  | rmdir path =>
      simp only [SpaceOp.change, NameChange.apply]
      split
      · rename_i hcan
        refine hupdate path _ fun heq => ?_
        subst heq
        rcases hcan with hfile | ⟨_, _, hempty⟩
        · simp [hspace] at hfile
        · exact hrmdir rfl (FileTree.childless_names_iff.mp hempty)
      · exact hspace
  | truncate path size => exact hspace
  | setxattr path name data => exact hspace
  | rename path newpath =>
      simp only [SpaceOp.change, NameChange.apply]
      split
      · rename_i hcan
        obtain ⟨hsome, hbelow, hempty, _, _, _⟩ := hcan
        have hsrc : [cfg.space] <:+ path := h path (by simp [SpaceOp.paths])
        have hdst : [cfg.space] <:+ newpath := h newpath (by simp [SpaceOp.paths])
        have hnotdst : ¬ newpath <:+ [cfg.space] := by
          intro hsuffix
          have heq : newpath = [cfg.space] := hsuffix.eq_of_length_le hdst.length_le
          subst heq
          obtain ⟨rel, rfl⟩ := hsrc
          have hne : rel ≠ [] := fun hnil => hbelow (by simp [hnil])
          have hnone := (FileTree.childless_names_iff.mp hempty).node_append_eq_none rel hne
          simp [FileTree.names_eq_none_iff.mpr hnone] at hsome
        have hnotsrc : ¬ path <:+ [cfg.space] := fun hsuffix => hbelow (hsuffix.trans hdst)
        simpa [FileNames.moved, hnotdst, hnotsrc] using hspace
      · exact hspace

/-! ### The queue -/

/-- What stands on the queue for a request: the centers of the space, and only a request that
changes no name is skipped by the flusher. -/
def Entry (cfg : Config) (op : SpaceOp) (r : ReplicaQueue.OpRequest) : Prop :=
  r.extra = cfg.ids ∧ (rewrite cfg.mcid r = none → op.change = .keep)

theorem intercalate_ne_empty (sep : String) {first : String} (h : first ≠ "") (rest : List String) :
    sep.intercalate (first :: rest) ≠ "" := by
  cases rest with
  | nil => rwa [String.intercalate_singleton]
  | cons second rest =>
      rw [String.intercalate_cons_cons]
      simp [h]

/-- The path of a request on the space is not empty. -/
theorem filepath_ne_empty {cfg : Config} {op : SpaceOp} (h : InSpace cfg op) :
    op.toOpRequest.filepath ≠ "" := by
  have hmem : op.filepath ∈ op.paths := by cases op <;> simp [SpaceOp.filepath, SpaceOp.paths]
  obtain ⟨rel, hrel⟩ := h op.filepath hmem
  simp only [SpaceOp.toOpRequest, ← hrel, List.reverse_append, List.reverse_singleton,
    List.singleton_append]
  exact intercalate_ne_empty "/" cfg.space_ne _

/-- A successful request on a replicated space is queued, one that failed is not. -/
theorem handle_space {cfg : Config} {op : SpaceOp} (h : InSpace cfg op) (err_code : Int) :
    handle_replica_async op.toOpRequest err_code (some cfg.ids) =
      if err_code < 0 then none else some { op.toOpRequest with extra := cfg.ids } := by
  have hroute : ReplicaQueue.route op.toOpRequest.type = .change := by cases op <;> rfl
  have htwo : ¬ cfg.ids.length < 2 := Nat.not_lt.mpr cfg.replicated
  have hextra : op.toOpRequest.extra.length = 0 := rfl
  simp only [handle_replica_async, filepath_ne_empty h, hroute, hextra, ReplicaQueue.enqueue, htwo,
    ne_eq, not_true_eq_false, if_false, Option.bind_some]

theorem entry_space (cfg : Config) (op : SpaceOp) :
    Entry cfg op { op.toOpRequest with extra := cfg.ids } := by
  refine ⟨rfl, fun hnone => ?_⟩
  cases op with
  | setxattr path name data => rfl
  | truncate path size => rfl
  | _ => simp [rewrite, SpaceOp.toOpRequest, SpaceOp.type, ReplicaQueue.ownAttribute] at hnone

/-! ### The invariant -/

/-- The names that a list of requests makes of others. -/
noncomputable def replay (n : FileNames) (ops : List SpaceOp) : FileNames :=
  ops.foldl SpaceOp.apply n

/-- The requests that were executed and are still to be queued. -/
def pending (ws : List Worker) : List SpaceOp := (ws.filter Worker.live).map Worker.op

/-- The origin has the names that the queue and the pending requests make of those at the start, and
each peer has those that its part of the queue makes. -/
structure Replaying (cfg : Config) (n : FileNames) (s : State β) : Prop where
  space : names s.origin [cfg.space] = some .dir
  cids : s.cids = some cfg.ids
  workers : ∀ w ∈ s.workers, InSpace cfg w.op ∧ ∀ r, w.stage = .accepted r → Entry cfg w.op r
  queue : ∀ e ∈ s.queue, InSpace cfg e.1 ∧ Entry cfg e.1 e.2
  applied : ∀ c, s.applied c ≤ s.queue.length
  origin : ∀ p ∈ scope cfg,
    names s.origin p = replay n (s.queue.map Prod.fst ++ pending s.workers) p
  peer : ∀ c ∈ cfg.ids, c ≠ cfg.mcid → ∀ p ∈ scope cfg,
    names (s.peer c) p = replay n ((s.queue.take (s.applied c)).map Prod.fst) p

theorem names_root (s : IoProxy β) : names s [] = some .dir := FileTree.names_root

theorem replaying_start {cfg : Config} {s : State β} (h : Start cfg s) :
    Replaying cfg (names s.origin) s where
  space := FileTree.names_eq_dir_iff.mpr h.space
  cids := h.cids
  workers := by simp [h.workers]
  queue := by simp [h.queue]
  applied c := by simp [h.applied]
  origin p _ := by simp [h.queue, h.workers, pending, replay]
  peer c hc hne p hp := by
    simp only [h.queue, List.take_nil, List.map_nil, replay, List.foldl_nil]
    rcases hp with hp | rfl
    · exact h.same c hc hne p hp
    · rw [names_root, names_root]

theorem replay_concat (n : FileNames) (ops : List SpaceOp) (op : SpaceOp) :
    replay n (ops ++ [op]) = op.apply (replay n ops) := by
  simp [replay]

theorem pending_append (l r : List Worker) : pending (l ++ r) = pending l ++ pending r := by
  simp [pending]

/-- A worker that has executed its request joins the pending ones if it succeeded. -/
theorem Replaying.addWorker {cfg : Config} {n : FileNames} {s s' : State β} (h : Replaying cfg n s)
    {op : SpaceOp} {err_code : Int} (hop : InSpace cfg op)
    (hnames : names s'.origin = op.change.apply (names s.origin))
    (herr : err_code < 0 → op.change.apply (names s.origin) = names s.origin)
    (hspace : names s'.origin [cfg.space] = some .dir) (hcids : s'.cids = some cfg.ids)
    (hworkers : s'.workers = s.workers) (hqueue : s'.queue = s.queue) (hpeer : s'.peer = s.peer)
    (happlied : s'.applied = s.applied) :
    Replaying cfg n (SpaceWorkers.addWorker s' op err_code) where
  space := hspace
  cids := hcids
  workers w hw := by
    simp only [SpaceWorkers.addWorker, hworkers, List.mem_append, List.mem_singleton] at hw
    rcases hw with hw | rfl
    · exact h.workers w hw
    · exact ⟨hop, fun r hr => by cases hr⟩
  queue := by
    simp only [SpaceWorkers.addWorker, hqueue]
    exact h.queue
  applied := by
    simp only [SpaceWorkers.addWorker, hqueue, happlied]
    exact h.applied
  origin p hp := by
    simp only [SpaceWorkers.addWorker, hqueue, hworkers, pending_append, hnames]
    by_cases hlive : err_code < 0
    · have hnone : pending [⟨op, .executed err_code⟩] = [] := by
        simp [pending, Worker.live, hlive]
      rw [hnone, List.append_nil, herr hlive]
      exact h.origin p hp
    · have hone : pending [⟨op, .executed err_code⟩] = [op] := by
        simp [pending, Worker.live, Int.not_lt.mp hlive]
      rw [hone, ← List.append_assoc, replay_concat]
      exact apply_congr hop h.origin p hp
  peer := by
    simp only [SpaceWorkers.addWorker, hqueue, hpeer, happlied]
    exact h.peer

/-- A setting of attributes changes no name, and the centers of the space only where it is told
to. -/
theorem doSetxattr_cases {cfg : Config} {s s' : State β} {path : PathName} {name : String}
    {data : List UInt8} {xattr : Bool} {err_code : Int}
    (hlist : ∀ d, SpaceOp.setxattr path name data = .setxattr [cfg.space] "user.gvds.r.c" d →
      xattr = false) (h : doSetxattr cfg s path name data xattr = some (s', err_code)) :
    s' = s := by
  unfold doSetxattr at h
  split at h
  · split at h
    · cases h
      rfl
    · cases h
  · split at h
    · rename_i htaken
      cases h
      have hnot : ¬ (path = [cfg.space] ∧ name = "user.gvds.r.c") := by
        rintro ⟨rfl, rfl⟩
        simp [hlist data rfl] at htaken
      simp only [hnot, if_false]
    · cases h
      rfl

/-- A worker executes a request by calls on names and contents, or sets an attribute. -/
theorem execute_cases {cfg : Config} {s t : State β} {op : SpaceOp} {xattr : Bool}
    (h : execute cfg s op xattr = some t) :
    (∃ r, op.toRequest = some r ∧
      t = addWorker
        { s with
          origin := (s.origin.doOp noPeers r).1
          cids :=
            if (s.origin.doOp noPeers r).1.k.tree.node [cfg.space] = some .dir then s.cids else none }
        op (errCode (s.origin.doOp noPeers r).2)) ∨
      ∃ path name data s' err_code, op = .setxattr path name data ∧
        doSetxattr cfg s path name data xattr = some (s', err_code) ∧ t = addWorker s' op err_code := by
  cases op with
  | setxattr path name data =>
      obtain ⟨⟨s', err_code⟩, hset, rfl⟩ := Option.map_eq_some_iff.mp h
      exact Or.inr ⟨path, name, data, s', err_code, rfl, hset, rfl⟩
  | create path => exact Or.inl ⟨_, rfl, (Option.some.inj h).symm⟩
  | unlink path => exact Or.inl ⟨_, rfl, (Option.some.inj h).symm⟩
  | mkdir path => exact Or.inl ⟨_, rfl, (Option.some.inj h).symm⟩
  | rmdir path => exact Or.inl ⟨_, rfl, (Option.some.inj h).symm⟩
  | rename path newpath => exact Or.inl ⟨_, rfl, (Option.some.inj h).symm⟩
  | truncate path size => exact Or.inl ⟨_, rfl, (Option.some.inj h).symm⟩

theorem replaying_execute {cfg : Config} {n : FileNames} {s t : State β} (h : Replaying cfg n s)
    {op : SpaceOp} {xattr : Bool} (hop : InSpace cfg op) (hok : Orderly cfg s (.execute op xattr))
    (hstep : execute cfg s op xattr = some t) : Replaying cfg n t := by
  rcases execute_cases hstep with ⟨r, hr, rfl⟩ | ⟨path, name, data, s', err_code, rfl, hset, rfl⟩
  · obtain ⟨hnames, herr⟩ := performed_doOp s.origin hr
    have hdir : names (s.origin.doOp noPeers r).1 [cfg.space] = some .dir := by
      rw [hnames]
      exact space_apply hop h.space hok.1
    refine h.addWorker hop hnames herr hdir ?_ rfl rfl rfl rfl
    simp [FileTree.names_eq_dir_iff.mp hdir, h.cids]
  · obtain rfl := doSetxattr_cases hok.2 hset
    exact h.addWorker hop rfl (fun _ => rfl) h.space h.cids rfl rfl rfl rfl

/-- A worker of the list stands between those before and those behind it. -/
theorem workers_split {ws : List Worker} {i : Nat} {w : Worker} (h : ws[i]? = some w) :
    ws = ws.take i ++ w :: ws.drop (i + 1) ∧ ws.eraseIdx i = ws.take i ++ ws.drop (i + 1) ∧
      ∀ v, ws.set i v = ws.take i ++ v :: ws.drop (i + 1) := by
  obtain ⟨hlt, rfl⟩ := List.getElem?_eq_some_iff.mp h
  refine ⟨?_, List.eraseIdx_eq_take_drop_succ ws i, fun v => ?_⟩
  · rw [← List.drop_eq_getElem_cons hlt, List.take_append_drop]
  · rw [List.set_eq_take_append_cons_drop, if_pos hlt]

theorem replaying_check {cfg : Config} {n : FileNames} {s : State β} (h : Replaying cfg n s)
    {i : Nat} {op : SpaceOp} {err_code : Int} (hi : s.workers[i]? = some ⟨op, .executed err_code⟩) :
    Replaying cfg n (check s i op err_code) := by
  obtain ⟨hsplit, herase, hset⟩ := workers_split hi
  have hop : InSpace cfg op := (h.workers _ (List.mem_of_getElem? hi)).1
  have horigin := h.origin
  rw [hsplit, pending_append] at horigin
  have hhandle := handle_space hop err_code
  rw [← h.cids] at hhandle
  unfold check
  rw [hhandle]
  by_cases herr : err_code < 0
  · -- a request that failed was not among the pending ones
    have hfailed : pending (⟨op, .executed err_code⟩ :: s.workers.drop (i + 1)) =
        pending (s.workers.drop (i + 1)) := by
      simp [pending, Worker.live, herr]
    simp only [herr, if_true]
    refine { h with
      workers := fun w hw => h.workers w (List.mem_of_mem_eraseIdx hw)
      origin := fun p hp => ?_ }
    simp only [herase, pending_append]
    rw [horigin p hp, hfailed]
  · have hlive : pending (⟨op, .executed err_code⟩ :: s.workers.drop (i + 1)) =
        op :: pending (s.workers.drop (i + 1)) := by
      simp [pending, Worker.live, Int.not_lt.mp herr]
    simp only [herr, if_false]
    refine { h with
      workers := fun w hw => ?_
      origin := fun p hp => ?_ }
    · rcases List.mem_or_eq_of_mem_set hw with hw | rfl
      · exact h.workers w hw
      · refine ⟨hop, fun r hr => ?_⟩
        cases hr
        exact entry_space cfg op
    · have haccepted : ∀ r, pending (⟨op, .accepted r⟩ :: s.workers.drop (i + 1)) =
          op :: pending (s.workers.drop (i + 1)) := fun r => by
        simp [pending, List.filter_cons, Worker.live]
      simp only [hset, pending_append, haccepted]
      rw [horigin p hp, hlive]

theorem replaying_enqueue {cfg : Config} {n : FileNames} {s : State β} (h : Replaying cfg n s)
    {i : Nat} {op : SpaceOp} {r : ReplicaQueue.OpRequest}
    (hi : s.workers[i]? = some ⟨op, .accepted r⟩) (hok : Orderly cfg s (.enqueue i)) :
    Replaying cfg n
      { s with workers := s.workers.eraseIdx i, queue := s.queue ++ [(op, r)] } := by
  obtain ⟨hsplit, herase, -⟩ := workers_split hi
  obtain ⟨hop, hentry⟩ := h.workers _ (List.mem_of_getElem? hi)
  have hcommute : ∀ b ∈ pending (s.workers.take i), Replay.Commute SpaceOp.apply b op := by
    intro b hb
    obtain ⟨v, hv, rfl⟩ := List.mem_map.mp hb
    obtain ⟨hmem, hlive⟩ := List.mem_filter.mp hv
    exact hok _ hi v hmem hlive
  have hpending : pending s.workers =
      pending (s.workers.take i) ++ op :: pending (s.workers.drop (i + 1)) := by
    conv_lhs => rw [hsplit, pending_append]
    simp [pending, List.filter_cons, Worker.live]
  refine { h with
    workers := fun w hw => h.workers w (List.mem_of_mem_eraseIdx hw)
    queue := fun e he => ?_
    applied := fun c => ?_
    origin := fun p hp => ?_
    peer := fun c hc hne p hp => ?_ }
  · rcases List.mem_append.mp he with he | he
    · exact h.queue e he
    · rw [List.mem_singleton.mp he]
      exact ⟨hop, hentry r rfl⟩
  · have := h.applied c
    simp only [List.length_append]
    omega
  · -- the request overtakes those that commute with it
    have hmove : replay n (s.queue.map Prod.fst ++ pending s.workers) =
        replay n ((s.queue ++ [(op, r)]).map Prod.fst ++ pending (s.workers.eraseIdx i)) := by
      rw [hpending, herase, pending_append]
      simp only [replay, List.map_append, List.map_cons, List.map_nil, List.foldl_append]
      rw [← List.foldl_append, Replay.foldl_move hcommute]
      simp
    rw [h.origin p hp, hmove]
  · rw [List.take_append_of_le_length (h.applied c)]
    exact h.peer c hc hne p hp

theorem replaying_deliver {cfg : Config} {n : FileNames} {s : State β} (h : Replaying cfg n s)
    {c : UInt8} {op : SpaceOp} {r : ReplicaQueue.OpRequest}
    (hnext : s.queue[s.applied c]? = some (op, r)) : Replaying cfg n (deliver cfg s c op r) := by
  obtain ⟨hop, hentry⟩ := h.queue _ (List.mem_of_getElem? hnext)
  have hextra : r.extra = cfg.ids := hentry.1
  have hkeep : rewrite cfg.mcid r = none → op.change = .keep := hentry.2
  obtain ⟨hlt, -⟩ := List.getElem?_eq_some_iff.mp hnext
  have happlied : (deliver cfg s c op r).applied c = s.applied c + 1 := Function.update_self ..
  refine { h with
    applied := fun d => ?_
    peer := fun d hd hne p hp => ?_ }
  · by_cases hdc : d = c
    · subst hdc
      rw [happlied]
      exact hlt
    · simpa [deliver, hdc] using h.applied d
  · by_cases hdc : d = c
    · subst hdc
      have hnames : names ((deliver cfg s d op r).peer d) = op.apply (names (s.peer d)) := by
        simp only [deliver, Function.update_self, hextra, hd, hne, ne_eq, not_false_eq_true, decide_true,
          Bool.and_true]
        cases hrewrite : rewrite cfg.mcid r with
        | some r' => exact names_executeAtPeer (s.peer d) op
        | none => simp [SpaceOp.apply, hkeep hrewrite, NameChange.apply]
      have hqueue : (deliver cfg s d op r).queue = s.queue := rfl
      rw [hnames, happlied, hqueue, List.take_add_one, hnext, Option.toList_some, List.map_append,
        List.map_singleton, replay_concat]
      exact apply_congr hop (h.peer d hd hne) p hp
    · simpa [deliver, hdc] using h.peer d hd hne p hp

/-- Every orderly step keeps the invariant. -/
theorem replaying_step {cfg : Config} {n : FileNames} (s : State β) (a : Act) (t : State β)
    (h : Replaying cfg n s) (hok : Orderly cfg s a) (hstep : step cfg s a = some t) :
    Replaying cfg n t := by
  cases a with
  | execute op xattr =>
      simp only [step] at hstep
      split at hstep
      · rename_i hop
        exact replaying_execute h hop hok hstep
      · cases hstep
  | check i =>
      simp only [step] at hstep
      split at hstep
      · rename_i hi
        cases hstep
        exact replaying_check h hi
      · cases hstep
  | enqueue i =>
      simp only [step] at hstep
      split at hstep
      · rename_i hi
        cases hstep
        exact replaying_enqueue h hi hok
      · cases hstep
  | deliver c =>
      simp only [step] at hstep
      split at hstep
      · rename_i hnext
        cases hstep
        exact replaying_deliver h hnext
      · cases hstep

/-! ### Runs -/

/-- When an orderly run has delivered everything, the peers have the origin's tree. -/
theorem peers_follow (cfg : Config) {s t : State β} (hs : Start cfg s) (as : List Act)
    (hguard : Machine.Guarded (step cfg) (Orderly cfg) s as)
    (hrun : Machine.run (step cfg) s as = some t) (hdone : Delivered cfg t) : SameTree cfg t := by
  have h := Machine.run_invariant replaying_step (replaying_start hs) hguard hrun
  intro c hc hne p hp
  have hscope : p ∈ scope cfg := Or.inl hp
  rw [h.peer c hc hne p hscope, h.origin p hscope, hdone.2 c hc hne, List.take_length, hdone.1]
  simp [pending]

theorem workers_doSetxattr {cfg : Config} {s s' : State β} {path : PathName} {name : String}
    {data : List UInt8} {xattr : Bool} {err_code : Int}
    (h : doSetxattr cfg s path name data xattr = some (s', err_code)) : s'.workers = s.workers := by
  unfold doSetxattr at h
  split at h
  · split at h
    · cases h
      rfl
    · cases h
  · split at h
    · cases h
      rfl
    · cases h
      rfl

/-- The workers after a step are those before it, and the one that has executed a request. -/
theorem mem_workers_step {cfg : Config} {s t : State β} {a : Act} (hstep : step cfg s a = some t)
    {w : Worker} (hw : w ∈ t.workers) :
    (∃ v ∈ s.workers, w.op = v.op) ∨ ∃ xattr, a = .execute w.op xattr := by
  cases a with
  | execute op xattr =>
      simp only [step] at hstep
      split at hstep
      · have hlast : ∀ s' err_code, s'.workers = s.workers → t = addWorker s' op err_code →
            (∃ v ∈ s.workers, w.op = v.op) ∨ ∃ x, Act.execute op xattr = .execute w.op x := by
          rintro s' err_code hworkers rfl
          simp only [addWorker, hworkers, List.mem_append, List.mem_singleton] at hw
          rcases hw with hw | rfl
          · exact Or.inl ⟨w, hw, rfl⟩
          · exact Or.inr ⟨xattr, rfl⟩
        rcases execute_cases hstep with ⟨r, _, ht⟩ | ⟨path, name, data, s', err_code, _, hset, ht⟩
        · refine hlast _ _ ?_ ht
          rfl
        · exact hlast s' err_code (workers_doSetxattr hset) ht
      · cases hstep
  | check i =>
      simp only [step] at hstep
      split at hstep
      · rename_i op err_code hi
        cases hstep
        unfold check at hw
        split at hw
        · exact Or.inl ⟨w, List.mem_of_mem_eraseIdx hw, rfl⟩
        · rcases List.mem_or_eq_of_mem_set hw with hw | rfl
          · exact Or.inl ⟨w, hw, rfl⟩
          · exact Or.inl ⟨_, List.mem_of_getElem? hi, rfl⟩
      · cases hstep
  | enqueue i =>
      simp only [step] at hstep
      split at hstep
      · cases hstep
        exact Or.inl ⟨w, List.mem_of_mem_eraseIdx hw, rfl⟩
      · cases hstep
  | deliver c =>
      simp only [step] at hstep
      split at hstep
      · cases hstep
        exact Or.inl ⟨w, hw, rfl⟩
      · cases hstep

/-- Where all requests commute and none concerns the space itself, every run is orderly. -/
theorem guarded_of_commute {cfg : Config} {O : List SpaceOp} {s : State β} {as : List Act}
    (hO : ∀ a ∈ O, ∀ b ∈ O, Replay.Commute SpaceOp.apply a b)
    (hspace : ∀ a ∈ O, a.filepath ≠ [cfg.space]) (hs : s.workers = [])
    (has : ∀ a ∈ as, ∀ op xattr, a = .execute op xattr → op ∈ O) :
    Machine.Guarded (step cfg) (Orderly cfg) s as := by
  have hstep : ∀ (u : State β) a t, (∀ w ∈ u.workers, w.op ∈ O) →
      (∀ op xattr, a = .execute op xattr → op ∈ O) → step cfg u a = some t →
        ∀ w ∈ t.workers, w.op ∈ O := by
    intro u a t hu hok hstep w hw
    rcases mem_workers_step hstep hw with ⟨v, hv, heq⟩ | ⟨xattr, heq⟩
    · rw [heq]
      exact hu v hv
    · exact hok _ _ heq
  have horderly : ∀ (u : State β) a, (∀ w ∈ u.workers, w.op ∈ O) →
      (∀ op xattr, a = .execute op xattr → op ∈ O) → Orderly cfg u a := by
    intro u a hu hok
    cases a with
    | execute op xattr =>
        have hne := hspace op (hok op xattr rfl)
        refine ⟨fun heq => ?_, fun data heq => ?_⟩
        · subst heq
          exact absurd rfl hne
        · subst heq
          exact absurd rfl hne
    | check i => trivial
    | enqueue i =>
        intro w hw v hv _
        exact hO v.op (hu v (List.mem_of_mem_take hv)) w.op (hu w (List.mem_of_getElem? hw))
    | deliver c => trivial
  have hnone : ∀ w ∈ s.workers, w.op ∈ O := by simp [hs]
  exact Machine.Guarded.of_invariant hstep horderly hnone (Machine.Guarded.of_forall has)

theorem exampleName_ne : "s" ≠ "" := by decide

/-- A space of two centers. -/
def twoCenters : Config where
  space := "s"
  ids := [1, 2]
  mcid := 1
  space_ne := exampleName_ne
  replicated := Nat.le_refl 2

/-- A center that has the directory of the space and nothing else. -/
def emptySpace : IoProxy Unit := ((IoProxy.blank 499).doOp noPeers (.mkdir ["s"])).1

/-- Both centers have the empty space. -/
def bothEmpty : State Unit where
  origin := emptySpace
  cids := some [1, 2]
  workers := []
  queue := []
  peer := fun _ => emptySpace
  applied := fun _ => 0

theorem start_bothEmpty : Start twoCenters bothEmpty where
  space := rfl
  cids := rfl
  workers := rfl
  queue := rfl
  applied _ := rfl
  same _ _ _ _ _ := rfl

theorem delivered_twoCenters {s : State Unit} (hworkers : s.workers = [])
    (hpeer : s.applied 2 = s.queue.length) : Delivered twoCenters s := by
  refine ⟨hworkers, fun c hc hne => ?_⟩
  rcases List.mem_pair.mp hc with rfl | rfl
  · exact absurd rfl hne
  · exact hpeer

/-- Two files that are queued in the other order. -/
theorem peers_follow_two_files :
    ∃ t, Machine.run (step twoCenters) bothEmpty
        [.execute (.create ["f", "s"]) true, .execute (.create ["g", "s"]) true, .check 0, .check 1,
          .enqueue 1, .enqueue 0, .deliver 2, .deliver 2] = some t ∧
      names (t.peer 2) ["f", "s"] = some .file ∧ SameTree twoCenters t := by
  refine ⟨_, rfl, by decide, peers_follow twoCenters start_bothEmpty
    [.execute (.create ["f", "s"]) true, .execute (.create ["g", "s"]) true, .check 0, .check 1,
      .enqueue 1, .enqueue 0, .deliver 2, .deliver 2] ?_ rfl (delivered_twoCenters rfl rfl)⟩
  refine guarded_of_commute (O := [.create ["f", "s"], .create ["g", "s"]]) ?_ (by decide) rfl ?_
  · intro a ha b hb
    by_cases hab : a = b
    · subst hab
      exact fun _ => rfl
    · refine commute_of_apart ?_
      revert a b
      decide
  · intro a ha op xattr heq
    subst heq
    simp at ha
    rcases ha with ⟨rfl, _⟩ | ⟨rfl, _⟩ <;> simp

/-- A file is there; one worker unlinks it, another one makes it anew, and the second is the first
to queue its request. All requests succeed everywhere, and the peer has no such file in the end. -/
theorem create_overtakes_unlink :
    ∃ t, Start twoCenters bothEmpty ∧
      Machine.run (step twoCenters) bothEmpty
        [.execute (.create ["f", "s"]) true, .check 0, .enqueue 0, .deliver 2,
          .execute (.unlink ["f", "s"]) true, .execute (.create ["f", "s"]) true, .check 0, .check 1,
          .enqueue 1, .enqueue 0, .deliver 2, .deliver 2] = some t ∧
      Delivered twoCenters t ∧ ¬ SameTree twoCenters t := by
  refine ⟨_, start_bothEmpty, rfl, delivered_twoCenters rfl rfl, fun h => ?_⟩
  exact absurd (h 2 (by decide) (by decide) ["f", "s"] (by decide)) (by decide)

end SpaceWorkers

end Gvds
