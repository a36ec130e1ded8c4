/-
Module: Gvds.IoProxy.Kernel
Layer: IoProxy
Purpose: The system calls that the IO proxy makes on its local file system: names, contents, the
  replica attributes of files, and the descriptor table, whose numbers are the smallest free ones. A
  descriptor refers to its file for as long as it is open, whatever happens to the file's name.
Imports: Gvds.Lib.ByteFile, Gvds.Lib.FileTree, Gvds.Lib.SlotTable, Mathlib.Logic.Function.Basic,
  Mathlib.Algebra.Order.Ring.Nat
Trusted boundary: Linux; no resource limit is hit, the proxy runs as root and nobody else changes
  its data directory. Symbolic and hard links do not occur (the proxy makes none)
Main exports: Errno, OpenFile, Kernel, Kernel.sysOpen, Kernel.sysClose, Kernel.sysPwrite,
  Kernel.sysUnlink, Kernel.sysRename
-/
import Gvds.Lib.ByteFile
import Gvds.Lib.FileTree
import Gvds.Lib.SlotTable
import Mathlib.Logic.Function.Basic
import Mathlib.Algebra.Order.Ring.Nat

namespace Gvds

/-- The error numbers that the calls below return. -/
inductive Errno where
  | enoent
  | eexist
  | enotdir
  | eisdir
  | enotempty
  | einval
  | ebadf
  | efbig
deriving DecidableEq

/-- The flag bits of `open(2)` that matter here. -/
def oCreat : BitVec 32 := 0x40#32
def oExcl : BitVec 32 := 0x80#32
def oTrunc : BitVec 32 := 0x200#32
def oAppend : BitVec 32 := 0x400#32
def oDsync : BitVec 32 := 0x1000#32
def oDirect : BitVec 32 := 0x4000#32
def oDirectory : BitVec 32 := 0x10000#32
def oSync : BitVec 32 := 0x101000#32
def oRdonly : BitVec 32 := 0x0#32
def oWronly : BitVec 32 := 0x1#32
def oRdwr : BitVec 32 := 0x2#32

/-- `flags & flag`, as a condition. -/
def hasFlag (flags flag : BitVec 32) : Bool := flags &&& flag != 0

/-- An open file: the file itself, not its name, and whether writes go to its end. -/
structure OpenFile where
  ino : Nat
  append : Bool
deriving DecidableEq

/-- The state of the local file system and of the process's descriptors. A file keeps its contents
and its replica attributes (one bitmap for each center) under its inode number. -/
structure Kernel (β : Type*) where
  tree : FileTree
  content : Nat → ByteFile
  replicaAttr : Nat → Int → Option β
  nextIno : Nat
  fdTable : SlotTable OpenFile
  tree_lt : ∀ p i, tree.node p = some (.file i) → i < nextIno

namespace Kernel

variable {β : Type*}

/-- An empty directory, and no descriptor in use. -/
def blank : Kernel β where
  tree := FileTree.empty
  content := fun _ => ByteFile.empty
  replicaAttr := fun _ _ => none
  nextIno := 0
  fdTable := []
  tree_lt := by
    intro p i hp
    cases p with
    | nil => cases hp
    | cons x d =>
        rw [FileTree.node_empty_of_ne (List.cons_ne_nil x d)] at hp
        cases hp

/-- Why the path cannot be resolved: some part of it is missing, or is no directory. -/
def missing (k : Kernel β) : PathName → Errno
  | [] => .enoent
  | _ :: d =>
      match k.tree.node d with
      | some .dir => .enoent
      | some (.file _) => .enotdir
      | none => k.missing d

/-- Allocate the smallest free descriptor for an open file. -/
def allocFd (k : Kernel β) (file : OpenFile) : Kernel β :=
  { k with fdTable := k.fdTable.alloc file }

/-- Replace the contents of a file. -/
def setContent (k : Kernel β) (ino : Nat) (c : ByteFile) : Kernel β :=
  { k with content := Function.update k.content ino c }

/-- Make the empty file `x` in directory `d`, if that is possible. -/
def makeFile (k : Kernel β) (x : String) (d : PathName) : Kernel β :=
  { k with
    tree := k.tree.add x d (.file k.nextIno)
    content := Function.update k.content k.nextIno ByteFile.empty
    replicaAttr := Function.update k.replicaAttr k.nextIno fun _ => none
    nextIno := k.nextIno + 1
    tree_lt := by
      intro p i hp
      by_cases hpx : p = x :: d
      · subst hpx
        by_cases hadd : k.tree.CanAdd x d (.file k.nextIno)
        · rw [FileTree.node_add_self hadd] at hp
          cases hp
          exact Nat.lt_succ_self _
        · rw [FileTree.add, dif_neg hadd] at hp
          exact Nat.lt_succ_of_lt (k.tree_lt _ _ hp)
      · rw [FileTree.node_add_of_ne hpx] at hp
        exact Nat.lt_succ_of_lt (k.tree_lt _ _ hp) }

/-- Make the directory `x` in directory `d`, if that is possible. -/
def makeDir (k : Kernel β) (x : String) (d : PathName) : Kernel β :=
  { k with
    tree := k.tree.add x d .dir
    tree_lt := by
      intro p i hp
      by_cases hpx : p = x :: d
      · subst hpx
        by_cases hadd : k.tree.CanAdd x d .dir
        · rw [FileTree.node_add_self hadd] at hp
          cases hp
        · rw [FileTree.add, dif_neg hadd] at hp
          exact k.tree_lt _ _ hp
      · rw [FileTree.node_add_of_ne hpx] at hp
        exact k.tree_lt _ _ hp }

/-- Take away a name. -/
def removeName (k : Kernel β) (path : PathName) : Kernel β :=
  { k with
    tree := k.tree.remove path
    tree_lt := fun p i hp => k.tree_lt p i (FileTree.node_of_node_remove hp) }

/-- Replace the name `dst` by what `src` names. -/
def moveName (k : Kernel β) (src dst : PathName) : Kernel β :=
  { k with
    tree := k.tree.move src dst
    tree_lt := by
      intro p i hp
      obtain ⟨q, hq⟩ := FileTree.node_of_node_move hp
      exact k.tree_lt q i hq }

/-- `open(2)` with access mode `O_RDWR`, or with `O_CREAT`: neither opens a directory. The result is
the descriptor number. -/
def sysOpen (k : Kernel β) (path : PathName) (flags : BitVec 32) : Except Errno (Kernel β × Nat) :=
  match k.tree.node path with
  | some .dir =>
      if hasFlag flags oCreat && hasFlag flags oExcl then .error .eexist else .error .eisdir
  | some (.file ino) =>
      if hasFlag flags oCreat && hasFlag flags oExcl then .error .eexist
      else if hasFlag flags oDirectory then .error .enotdir
      else
        let k := if hasFlag flags oTrunc then k.setContent ino ByteFile.empty else k
        .ok (k.allocFd ⟨ino, hasFlag flags oAppend⟩, k.fdTable.firstFree)
  | none =>
      match path with
      | [] => .error .enoent
      | x :: d =>
          if k.tree.node d = some .dir then
            if hasFlag flags oCreat then
              if hasFlag flags oDirectory then .error .einval
              else
                .ok ((k.makeFile x d).allocFd ⟨k.nextIno, hasFlag flags oAppend⟩,
                  k.fdTable.firstFree)
            else .error .enoent
          else .error (k.missing (x :: d))

/-- `close(2)`. -/
def sysClose (k : Kernel β) (fd : Nat) : Kernel β :=
  { k with fdTable := k.fdTable.free fd }

/-- `ftruncate(2)` to length 0. -/
def sysFtruncate (k : Kernel β) (fd : Nat) : Kernel β :=
  match k.fdTable.get fd with
  | some file => k.setContent file.ino ByteFile.empty
  | none => k

/-- `pread(2)`. -/
def sysPread (k : Kernel β) (fd len off : Nat) : Except Errno (List UInt8) :=
  match k.fdTable.get fd with
  | none => .error .ebadf
  | some file =>
      if off + len < 2 ^ 63 then .ok ((k.content file.ino).read off len) else .error .einval

/-- `pwrite(2)`. On a descriptor opened with `O_APPEND` the data goes to the end of the file
whatever the offset. -/
def sysPwrite (k : Kernel β) (fd : Nat) (data : List UInt8) (off : Nat) :
    Except Errno (Kernel β × Nat) :=
  match k.fdTable.get fd with
  | none => .error .ebadf
  | some file =>
      let c := k.content file.ino
      let pos := if file.append then c.size else off
      if off + data.length < 2 ^ 63 then
        if pos + data.length < 2 ^ 63 then
          .ok (k.setContent file.ino (c.write pos data), data.length)
        else .error .efbig
      else .error .einval

/-- `unlink(2)`. -/
def sysUnlink (k : Kernel β) (path : PathName) : Except Errno (Kernel β) :=
  match k.tree.node path with
  | none => .error (k.missing path)
  | some .dir => .error .eisdir
  | some (.file _) => .ok (k.removeName path)

/-- `rmdir(2)`. -/
def sysRmdir (k : Kernel β) (path : PathName) : Except Errno (Kernel β) :=
  match k.tree.node path with
  | none => .error (k.missing path)
  | some (.file _) => .error .enotdir
  | some .dir =>
      if k.tree.Childless path then .ok (k.removeName path)
      else .error .enotempty

/-- `mkdir(2)`. -/
def sysMkdir (k : Kernel β) (path : PathName) : Except Errno (Kernel β) :=
  match k.tree.node path with
  | some _ => .error .eexist
  | none =>
      match path with
      | [] => .error .eexist
      | x :: d =>
          if k.tree.node d = some .dir then .ok (k.makeDir x d)
          else .error (k.missing (x :: d))

/-- `truncate(2)`. -/
def sysTruncate (k : Kernel β) (path : PathName) (size : Nat) : Except Errno (Kernel β) :=
  match k.tree.node path with
  | none => .error (k.missing path)
  | some .dir => .error .eisdir
  | some (.file ino) =>
      if size < 2 ^ 63 then .ok (k.setContent ino ((k.content ino).truncate size))
      else .error .einval

/-- A file does not replace a directory, nor a directory a file. -/
def kindError : Node → Option Node → Option Errno
  | .file _, some .dir => some .eisdir
  | .dir, some (.file _) => some .enotdir
  | _, _ => none

/-- The kernel moves `src` to `dst`: the names allow it, and what stands at `dst` is of the same
kind. -/
def CanRename (k : Kernel β) (src dst : PathName) : Prop :=
  k.tree.CanMove src dst ∧
    ∀ n, k.tree.node src = some n → kindError n (k.tree.node dst) = none

/-- `rename(2)`. -/
def sysRename (k : Kernel β) (src dst : PathName) : Except Errno (Kernel β) :=
  match k.tree.node src with
  | none => .error (k.missing src)
  | some node =>
      if src = dst then .ok k
      else
        match dst with
        | [] => .error .enotempty
        | x :: d =>
            if k.tree.node d = some .dir then
              if src <:+ x :: d then .error .einval
              else if x :: d <:+ src then .error .enotempty
              else
                match kindError node (k.tree.node (x :: d)) with
                | some e => .error e
                | none =>
                    if k.tree.Childless (x :: d) then .ok (k.moveName src (x :: d))
                    else .error .enotempty
            else .error (k.missing (x :: d))

/-! ### What the calls do -/

@[simp] theorem allocFd_tree (k : Kernel β) (file : OpenFile) : (k.allocFd file).tree = k.tree :=
  rfl

@[simp] theorem allocFd_content (k : Kernel β) (file : OpenFile) :
    (k.allocFd file).content = k.content := rfl

@[simp] theorem allocFd_replicaAttr (k : Kernel β) (file : OpenFile) :
    (k.allocFd file).replicaAttr = k.replicaAttr := rfl

@[simp] theorem allocFd_fdTable (k : Kernel β) (file : OpenFile) :
    (k.allocFd file).fdTable = k.fdTable.alloc file := rfl

@[simp] theorem sysClose_tree (k : Kernel β) (fd : Nat) : (k.sysClose fd).tree = k.tree := rfl

@[simp] theorem sysClose_content (k : Kernel β) (fd : Nat) :
    (k.sysClose fd).content = k.content := rfl

@[simp] theorem sysClose_replicaAttr (k : Kernel β) (fd : Nat) :
    (k.sysClose fd).replicaAttr = k.replicaAttr := rfl

@[simp] theorem sysClose_fdTable (k : Kernel β) (fd : Nat) :
    (k.sysClose fd).fdTable = k.fdTable.free fd := rfl

@[simp] theorem setContent_tree (k : Kernel β) (ino : Nat) (c : ByteFile) :
    (k.setContent ino c).tree = k.tree := rfl

@[simp] theorem setContent_fdTable (k : Kernel β) (ino : Nat) (c : ByteFile) :
    (k.setContent ino c).fdTable = k.fdTable := rfl

@[simp] theorem setContent_replicaAttr (k : Kernel β) (ino : Nat) (c : ByteFile) :
    (k.setContent ino c).replicaAttr = k.replicaAttr := rfl

@[simp] theorem removeName_tree (k : Kernel β) (path : PathName) :
    (k.removeName path).tree = k.tree.remove path := rfl

@[simp] theorem removeName_fdTable (k : Kernel β) (path : PathName) :
    (k.removeName path).fdTable = k.fdTable := rfl

@[simp] theorem moveName_tree (k : Kernel β) (src dst : PathName) :
    (k.moveName src dst).tree = k.tree.move src dst := rfl

@[simp] theorem moveName_fdTable (k : Kernel β) (src dst : PathName) :
    (k.moveName src dst).fdTable = k.fdTable := rfl

@[simp] theorem makeDir_fdTable (k : Kernel β) (x : String) (d : PathName) :
    (k.makeDir x d).fdTable = k.fdTable := rfl

@[simp] theorem makeFile_fdTable (k : Kernel β) (x : String) (d : PathName) :
    (k.makeFile x d).fdTable = k.fdTable := rfl

/-- A truncation through a descriptor changes only contents. -/
theorem sysFtruncate_cases (k : Kernel β) (fd : Nat) :
    k.sysFtruncate fd = k ∨ ∃ ino c, k.sysFtruncate fd = k.setContent ino c := by
  unfold sysFtruncate
  cases k.fdTable.get fd with
  | none => exact Or.inl rfl
  | some file => exact Or.inr ⟨_, _, rfl⟩

/-- The inode number of a new file is not in use. -/
theorem canAdd_nextIno {k : Kernel β} {x : String} {d : PathName} (hd : k.tree.node d = some .dir)
    (hx : k.tree.node (x :: d) = none) : k.tree.CanAdd x d (.file k.nextIno) :=
  ⟨hd, hx, FileTree.fresh_of_lt k.tree_lt⟩

/-- What a successful open does: it finds the file, which it may empty, or makes it, and allocates
the smallest free descriptor for it. -/
theorem sysOpen_cases {k k' : Kernel β} {path : PathName} {flags : BitVec 32} {fd : Nat}
    (h : k.sysOpen path flags = .ok (k', fd)) :
    fd = k.fdTable.firstFree ∧
      ((∃ ino, k.tree.node path = some (.file ino) ∧
          k' = (if hasFlag flags oTrunc then k.setContent ino ByteFile.empty else k).allocFd
            ⟨ino, hasFlag flags oAppend⟩) ∨
        ∃ x d, path = x :: d ∧ k.tree.CanAdd x d (.file k.nextIno) ∧
          hasFlag flags oCreat = true ∧
          k' = (k.makeFile x d).allocFd ⟨k.nextIno, hasFlag flags oAppend⟩) := by
  unfold sysOpen at h
  split at h
  · split at h
    · cases h
    · cases h
  · rename_i ino hnode
    split at h
    · cases h
    · split at h
      · cases h
      · cases h
        exact ⟨by split <;> rfl, Or.inl ⟨ino, hnode, rfl⟩⟩
  · rename_i hnode
    split at h
    · cases h
    · rename_i x d
      split at h
      · rename_i hd
        split at h
        · rename_i hcreat
          split at h
          · cases h
          · cases h
            exact ⟨rfl, Or.inr ⟨x, d, rfl, canAdd_nextIno hd hnode, hcreat, rfl⟩⟩
        · cases h
      · cases h

/-- After a successful open the path names the file behind the new descriptor, and every name that
was there still names what it named. -/
theorem sysOpen_names {k k' : Kernel β} {path : PathName} {flags : BitVec 32} {fd : Nat}
    (h : k.sysOpen path flags = .ok (k', fd)) :
    ∃ ino, k'.tree.node path = some (.file ino) ∧
      k'.fdTable = k.fdTable.alloc ⟨ino, hasFlag flags oAppend⟩ ∧
      ∀ q n, k.tree.node q = some n → k'.tree.node q = some n := by
  obtain ⟨_, ⟨ino, hnode, rfl⟩ | ⟨x, d, rfl, hadd, _, rfl⟩⟩ := sysOpen_cases h
  · refine ⟨ino, ?_, ?_, fun q n hq => ?_⟩
    · split <;> simpa using hnode
    · split <;> simp
    · split <;> simpa using hq
  · refine ⟨k.nextIno, FileTree.node_add_self hadd, rfl, fun q n hq => ?_⟩
    have hne : q ≠ x :: d := by
      intro heq
      subst heq
      rw [hadd.2.1] at hq
      cases hq
    exact (FileTree.node_add_of_ne hne).trans hq

/-- A successful unlink takes away the name of a file. -/
theorem sysUnlink_cases {k k' : Kernel β} {path : PathName} (h : k.sysUnlink path = .ok k') :
    (∃ ino, k.tree.node path = some (.file ino)) ∧ k' = k.removeName path := by
  unfold sysUnlink at h
  cases hnode : k.tree.node path with
  | none => simp [hnode] at h
  | some n =>
      cases n with
      | dir => simp [hnode] at h
      | file ino =>
          simp only [hnode, Except.ok.injEq] at h
          exact ⟨⟨ino, rfl⟩, h.symm⟩

/-- A successful rmdir takes away the name of a directory. -/
theorem sysRmdir_cases {k k' : Kernel β} {path : PathName} (h : k.sysRmdir path = .ok k') :
    k.tree.node path = some .dir ∧ k' = k.removeName path := by
  unfold sysRmdir at h
  cases hnode : k.tree.node path with
  | none => simp [hnode] at h
  | some n =>
      cases n with
      | file ino => simp [hnode] at h
      | dir =>
          simp only [hnode] at h
          split at h
          · cases h
            exact ⟨rfl, rfl⟩
          · cases h

/-- A successful mkdir adds a name. -/
theorem sysMkdir_cases {k k' : Kernel β} {path : PathName} (h : k.sysMkdir path = .ok k') :
    k.tree.node path = none ∧ ∃ x d, path = x :: d ∧ k' = k.makeDir x d := by
  unfold sysMkdir at h
  cases hnode : k.tree.node path with
  | some n => simp [hnode] at h
  | none =>
      simp only [hnode] at h
      cases path with
      | nil => cases h
      | cons x d =>
          simp only at h
          split at h
          · cases h
            exact ⟨rfl, x, d, rfl, rfl⟩
          · cases h

/-- A successful truncation changes contents only. -/
theorem sysTruncate_cases {k k' : Kernel β} {path : PathName} {size : Nat}
    (h : k.sysTruncate path size = .ok k') :
    ∃ ino, k.tree.node path = some (.file ino) ∧
      k' = k.setContent ino ((k.content ino).truncate size) := by
  unfold sysTruncate at h
  cases hnode : k.tree.node path with
  | none => simp [hnode] at h
  | some n =>
      cases n with
      | dir => simp [hnode] at h
      | file ino =>
          simp only [hnode] at h
          split at h
          · cases h
            exact ⟨ino, rfl, rfl⟩
          · cases h

/-- A successful write puts the data at the end of the file or at the offset. -/
theorem sysPwrite_cases {k k' : Kernel β} {fd off n : Nat} {data : List UInt8}
    (h : k.sysPwrite fd data off = .ok (k', n)) :
    n = data.length ∧ ∃ file, k.fdTable.get fd = some file ∧
      k' = k.setContent file.ino ((k.content file.ino).write
        (if file.append then (k.content file.ino).size else off) data) := by
  unfold sysPwrite at h
  cases hfd : k.fdTable.get fd with
  | none => simp [hfd] at h
  | some file =>
      simp only [hfd] at h
      refine ⟨?_, file, rfl, ?_⟩ <;>
        (generalize (if file.append = true then (k.content file.ino).size else off) = pos at h ⊢
         split at h
         · split at h
           · cases h
             rfl
           · cases h
         · cases h)

/-- A successful rename moves the names, unless old and new name are the same. -/
theorem sysRename_cases {k k' : Kernel β} {src dst : PathName} (h : k.sysRename src dst = .ok k') :
    (src = dst ∧ k' = k) ∨ (k.CanRename src dst ∧ k' = k.moveName src dst) := by
  unfold sysRename at h
  cases hsrc : k.tree.node src with
  | none => simp [hsrc] at h
  | some node =>
      simp only [hsrc] at h
      split at h
      · rename_i heq
        cases h
        exact Or.inl ⟨heq, rfl⟩
      · right
        cases dst with
        | nil => cases h
        | cons x d =>
            simp only at h
            split at h
            · rename_i hd
              split at h
              · cases h
              · rename_i hsuffix
                have hmove : k.tree.Childless (x :: d) → k.tree.CanMove src (x :: d) :=
                  fun hchildless => ⟨by simp [hsrc], hsuffix, hchildless, List.cons_ne_nil x d, hd⟩
                split at h
                · cases h
                · cases hkind : kindError node (k.tree.node (x :: d)) with
                  | some e => simp [hkind] at h
                  | none =>
                      simp only [hkind] at h
                      split at h
                      · rename_i hchildless
                        cases h
                        refine ⟨⟨hmove hchildless, fun n hn => ?_⟩, rfl⟩
                        rw [hsrc, Option.some.injEq] at hn
                        rw [← hn, hkind]
                      · cases h
            · cases h

/-- A rename that the kernel can make succeeds. -/
theorem sysRename_of_canRename {k : Kernel β} {src dst : PathName} (h : k.CanRename src dst) :
    k.sysRename src dst = .ok (k.moveName src dst) := by
  obtain ⟨⟨hsrc, hsuffix, hchildless, hdst, hdir⟩, hkind⟩ := h
  obtain ⟨node, hnode⟩ := Option.isSome_iff_exists.mp hsrc
  cases dst with
  | nil => exact absurd rfl hdst
  | cons x d =>
      have hne : src ≠ x :: d := fun heq => hsuffix (heq ▸ List.suffix_rfl)
      have hbelow : ¬ x :: d <:+ src := by
        rintro ⟨rel, hrel⟩
        have hrelne : rel ≠ [] := by
          intro hnil
          subst hnil
          exact hne hrel.symm
        have hnone := hchildless.node_append_eq_none rel hrelne
        rw [hrel, hnode] at hnone
        cases hnone
      simp only [List.tail_cons] at hdir
      simp [sysRename, hnode, hne, hdir, hsuffix, hbelow, hkind node hnode, hchildless]

end Kernel

end Gvds
