/-
Module: Gvds.Lib.PathWalk
Layer: Lib
Purpose: Walks through a tree of names along the components of a path, where `.` stays and `..` goes
  up. Without links a walk comes to one location whatever the tree is, if it comes through at all:
  it goes some names up from its start and then some names down. So it ends at or below its start
  exactly where the names it goes down lead back over the names it went up.
Imports: Gvds.Lib.FileTree
Trusted boundary: none
Main exports: PathWalk.resolve, PathWalk.Displacement, PathWalk.displacement, PathWalk.locate,
  PathWalk.suffix_apply_iff, PathWalk.eq_resolve_of_locate, PathWalk.locate_of_dirs,
  FileTree.exists_dirs
-/
import Gvds.Lib.FileTree

namespace PathWalk

/-- Where one component leads. The parent of the root is the root. -/
def step (loc : PathName) (c : String) : PathName :=
  if c = "." then loc else if c = ".." then loc.tail else c :: loc

/-- Where some components lead, if every location on the way is a directory. -/
def resolve (loc : PathName) (cs : List String) : PathName := cs.foldl step loc

theorem resolve_append (loc : PathName) (cs ds : List String) :
    resolve loc (cs ++ ds) = resolve (resolve loc cs) ds := List.foldl_append

/-! ### Walks as displacements -/

/-- So many names up, and then down along some names, the last one first. -/
structure Displacement where
  up : Nat
  down : PathName
deriving DecidableEq

namespace Displacement

/-- The location that a displacement leads to. -/
def apply (d : Displacement) (loc : PathName) : PathName := d.down ++ loc.drop d.up

/-- A displacement followed by one component. -/
def push (d : Displacement) (c : String) : Displacement :=
  if c = "." then d
  else if c = ".." then
    match d.down with
    | [] => ⟨d.up + 1, []⟩
    | _ :: down => ⟨d.up, down⟩
  else ⟨d.up, c :: d.down⟩

theorem apply_push (d : Displacement) (c : String) (loc : PathName) :
    (d.push c).apply loc = step (d.apply loc) c := by
  unfold push step
  split
  · rfl
  · split
    · unfold apply
      cases hd : d.down with
      | nil => simp
      | cons x down => simp
    · rfl

theorem apply_foldl_push (cs : List String) (d : Displacement) (loc : PathName) :
    (cs.foldl push d).apply loc = resolve (d.apply loc) cs := by
  induction cs generalizing d with
  | nil => rfl
  | cons c cs ih =>
      rw [List.foldl_cons, ih, apply_push]
      rfl

/-- A displacement ends at or below its start exactly where it comes down over the names that it
went up. -/
theorem suffix_apply_iff (d : Displacement) (loc : PathName) :
    loc <:+ d.apply loc ↔ loc.take d.up <:+ d.down := by
  have hsplit : loc.take d.up ++ loc.drop d.up = loc := List.take_append_drop d.up loc
  constructor
  · rintro ⟨ns, hns⟩
    have heq : ns ++ loc.take d.up ++ loc.drop d.up = d.down ++ loc.drop d.up := by
      rw [List.append_assoc, hsplit]
      exact hns
    exact ⟨ns, List.append_cancel_right heq⟩
  · rintro ⟨ns, hns⟩
    refine ⟨ns, ?_⟩
    rw [apply, ← hns, List.append_assoc, hsplit]

end Displacement

/-- How the components displace a walk. -/
def displacement (cs : List String) : Displacement := cs.foldl Displacement.push ⟨0, []⟩

theorem resolve_eq_apply (loc : PathName) (cs : List String) :
    resolve loc cs = (displacement cs).apply loc := by
  rw [displacement, Displacement.apply_foldl_push]
  rfl

/-- What a walk passes over at its start does not count. -/
theorem suffix_resolve_iff (loc : PathName) (cs : List String) :
    loc <:+ resolve loc cs ↔ loc.take (displacement cs).up <:+ (displacement cs).down := by
  rw [resolve_eq_apply]
  exact (displacement cs).suffix_apply_iff loc

/-! ### Walks in a tree -/

/-- The walk along the components of a path: every location on the way has to be a directory, and the
last one has to exist unless it is created. -/
def locate (t : FileTree) (creates : Bool) : PathName → List String → Option PathName
  | loc, [] => if (t.node loc).isSome then some loc else none
  | loc, c :: cs =>
      if t.node loc = some .dir then
        if cs = [] ∧ creates then some (step loc c) else locate t creates (step loc c) cs
      else none

/-- A walk that comes through ends where its components lead. -/
theorem eq_resolve_of_locate {t : FileTree} {creates : Bool} :
    ∀ {cs : List String} {loc q : PathName}, locate t creates loc cs = some q → q = resolve loc cs
  | [], loc, q, h => by
      unfold locate at h
      split at h
      · exact (Option.some.inj h).symm
      · cases h
  | c :: cs, loc, q, h => by
      unfold locate at h
      split at h
      · split at h
        · rename_i hlast
          rw [hlast.1]
          exact (Option.some.inj h).symm
        · have hrest : q = resolve (step loc c) cs := eq_resolve_of_locate h
          exact hrest
      · cases h

/-- The locations on the way. -/
def visited (loc : PathName) (cs : List String) : List PathName := cs.scanl step loc

/-- A walk through directories comes through. -/
theorem locate_of_dirs {t : FileTree} (creates : Bool) :
    ∀ {cs : List String} {loc : PathName}, (∀ p ∈ visited loc cs, t.node p = some .dir) →
      locate t creates loc cs = some (resolve loc cs)
  | [], loc, h => by
      have hloc := h loc (by simp [visited])
      simp [locate, hloc, resolve]
  | c :: cs, loc, h => by
      have hloc := h loc (by simp [visited])
      have hrest : ∀ p ∈ visited (step loc c) cs, t.node p = some .dir := by
        intro p hp
        refine h p ?_
        rw [visited, List.scanl_cons]
        exact List.mem_cons_of_mem loc hp
      rw [locate, if_pos hloc]
      split
      · rename_i hlast
        rw [hlast.1]
        rfl
      · exact locate_of_dirs creates hrest

/-- The end of a walk is one of its locations. -/
theorem resolve_mem_visited (loc : PathName) (cs : List String) :
    resolve loc cs ∈ visited loc cs := by
  induction cs generalizing loc with
  | nil => simp [visited, resolve]
  | cons c cs ih =>
      rw [visited, List.scanl_cons]
      exact List.mem_cons_of_mem loc (ih (step loc c))

end PathWalk

namespace FileTree

/-! ### Trees of directories -/

/-- No file has a name. -/
def OnlyDirs (t : FileTree) : Prop := ∀ p n, t.node p = some n → n = .dir

theorem onlyDirs_empty : empty.OnlyDirs := by
  intro p n h
  by_cases hp : p = []
  · subst hp
    exact (Option.some.inj h).symm
  · rw [node_empty_of_ne hp] at h
    cases h

/-- Add a directory with all directories above it. -/
def mkdirs (t : FileTree) : PathName → FileTree
  | [] => t
  | x :: d => (t.mkdirs d).add x d .dir

/-- In a tree of directories, adding one gives a tree of directories that has it and all others. -/
theorem mkdirs_spec {t : FileTree} (h : t.OnlyDirs) (p : PathName) :
    (t.mkdirs p).OnlyDirs ∧ (t.mkdirs p).node p = some .dir ∧
      ∀ q, t.node q = some .dir → (t.mkdirs p).node q = some .dir := by
  induction p with
  | nil => exact ⟨h, t.root, fun _ hq => hq⟩
  | cons x d ih =>
      obtain ⟨hdirs, hd, hkeep⟩ := ih
      rw [mkdirs]
      cases hx : (t.mkdirs d).node (x :: d) with
      | some n =>
          -- the directory is there already
          have hnot : ¬ (t.mkdirs d).CanAdd x d .dir := by
            rintro ⟨_, hnone, _⟩
            rw [hx] at hnone
            cases hnone
          obtain rfl := hdirs _ _ hx
          rw [add, dif_neg hnot]
          exact ⟨hdirs, hx, hkeep⟩
      | none =>
          have hadd : (t.mkdirs d).CanAdd x d .dir := ⟨hd, hx, Or.inl rfl⟩
          refine ⟨?_, node_add_self hadd, ?_⟩
          · intro q n hq
            by_cases hqx : q = x :: d
            · subst hqx
              rw [node_add_self hadd] at hq
              exact (Option.some.inj hq).symm
            · rw [node_add_of_ne hqx] at hq
              exact hdirs q n hq
          · intro q hq
            by_cases hqx : q = x :: d
            · rw [hqx]
              exact node_add_self hadd
            · rw [node_add_of_ne hqx]
              exact hkeep q hq

/-- Some tree has all of some directories. -/
theorem exists_dirs (ps : List PathName) : ∃ t : FileTree, ∀ p ∈ ps, t.node p = some .dir := by
  have hall : ∃ t : FileTree, t.OnlyDirs ∧ ∀ p ∈ ps, t.node p = some .dir := by
    induction ps with
    | nil => exact ⟨empty, onlyDirs_empty, fun _ hp => by cases hp⟩
    | cons p ps ih =>
        obtain ⟨t, hdirs, ht⟩ := ih
        obtain ⟨hdirs', hp, hkeep⟩ := mkdirs_spec hdirs p
        refine ⟨t.mkdirs p, hdirs', fun q hq => ?_⟩
        cases List.mem_cons.mp hq with
        | inl heq => exact heq ▸ hp
        | inr hmem => exact hkeep q (ht q hmem)
  obtain ⟨t, _, ht⟩ := hall
  exact ⟨t, ht⟩

end FileTree
