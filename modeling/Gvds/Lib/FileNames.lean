/-
Module: Gvds.Lib.FileNames
Layer: Lib
Purpose: What a file tree shows to its users: which paths are there, and which of them are
  directories. Adding, removing and moving names act on that picture alone, each within the subtrees
  of its paths, so that changes of different subtrees commute.
Imports: Gvds.Lib.FileTree, Gvds.Lib.Replay, Mathlib.Logic.Function.Basic
Trusted boundary: none
Main exports: NodeKind, FileNames, FileTree.names, NameChange, NameChange.apply, NameChange.within,
  NameChange.commute_of_apart, FileTree.names_add, FileTree.names_remove, FileTree.names_move
-/
import Gvds.Lib.FileTree
import Gvds.Lib.Replay
import Mathlib.Logic.Function.Basic

/-- What a user can tell about a node. -/
inductive NodeKind where
  | dir
  | file
deriving DecidableEq

/-- The picture of a tree: the kinds of the paths that are there. -/
abbrev FileNames := PathName → Option NodeKind

/-- The kind of a node. -/
def Node.kind : Node → NodeKind
  | .dir => .dir
  | .file _ => .file

/-- The picture of a file tree. -/
def FileTree.names (t : FileTree) : FileNames := fun p => (t.node p).map Node.kind

/-! ### Changes -/

namespace FileNames

/-- The paths at and below `p`. -/
def below (p : PathName) : Set PathName := { q | p <:+ q }

/-- Those paths and the parent of `p`. -/
def around (p : PathName) : Set PathName := { q | p <:+ q ∨ q = p.tail }

theorem below_subset_around (p : PathName) : below p ⊆ around p := fun _ hq => Or.inl hq

theorem mem_below_self (p : PathName) : p ∈ below p := List.suffix_rfl

/-- Nothing lies directly below `p`. -/
def Childless (n : FileNames) (p : PathName) : Prop := ∀ x, n (x :: p) = none

/-- Whether `p` can be added. -/
def CanAdd (n : FileNames) (p : PathName) : Prop :=
  p ≠ [] ∧ n p = none ∧ n p.tail = some .dir

/-- Whether `p` can be removed: it is a file, or a directory with nothing in it. -/
def CanRemove (n : FileNames) (p : PathName) : Prop :=
  n p = some .file ∨ (n p = some .dir ∧ p ≠ [] ∧ Childless n p)

/-- Whether `src` can be moved to `dst`. -/
def CanMove (n : FileNames) (src dst : PathName) : Prop :=
  (n src).isSome ∧ ¬ src <:+ dst ∧ Childless n dst ∧ dst ≠ [] ∧ n dst.tail = some .dir ∧
    (n dst = none ∨ n dst = n src)

/-- The names after `src` has been moved to `dst`. -/
def moved (n : FileNames) (src dst : PathName) : FileNames := fun q =>
  if dst <:+ q then n (q.take (q.length - dst.length) ++ src)
  else if src <:+ q then none
  else n q

end FileNames

/-- The changes of a picture: make a file or a directory, remove a file, remove a file or an empty
directory, move a subtree, and leave everything as it is. -/
inductive NameChange where
  | add (p : PathName) (kind : NodeKind)
  | unlink (p : PathName)
  | remove (p : PathName)
  | rename (src dst : PathName)
  | keep

namespace NameChange

open FileNames Classical in
/-- The picture after a change; a change that cannot be made changes nothing. -/
noncomputable def apply (n : FileNames) : NameChange → FileNames
  | .add p kind => if CanAdd n p then Function.update n p (some kind) else n
  | .unlink p => if n p = some .file then Function.update n p none else n
  | .remove p => if CanRemove n p then Function.update n p none else n
  | .rename src dst => if CanMove n src dst then moved n src dst else n
  | .keep => n

/-- The paths that a change is about. -/
def paths : NameChange → List PathName
  | .add p _ => [p]
  | .unlink p => [p]
  | .remove p => [p]
  | .rename src dst => [src, dst]
  | .keep => []

/-- What a change writes. -/
def writes (c : NameChange) : Set PathName := { q | ∃ p ∈ c.paths, q ∈ FileNames.below p }

/-- What a change reads. -/
def reads (c : NameChange) : Set PathName := { q | ∃ p ∈ c.paths, q ∈ FileNames.around p }

/-- Two changes are about different subtrees. -/
def Apart (a b : NameChange) : Prop := ∀ p ∈ a.paths, ∀ q ∈ b.paths, ¬ p <:+ q ∧ ¬ q <:+ p

instance (a b : NameChange) : Decidable (Apart a b) :=
  inferInstanceAs (Decidable (∀ p ∈ a.paths, ∀ q ∈ b.paths, ¬ p <:+ q ∧ ¬ q <:+ p))

/-- A conditional update of one path stays within its surroundings, if the condition does. -/
theorem within_update {P : FileNames → Prop} [∀ n, Decidable (P n)] {p : PathName}
    {value : Option NodeKind}
    (hP : ∀ n m : FileNames, (∀ q ∈ FileNames.around p, n q = m q) → (P n ↔ P m)) :
    Replay.Within (FileNames.around p) (FileNames.below p)
      (fun n : FileNames => if P n then Function.update n p value else n) where
  frame n q hq := by
    have hne : q ≠ p := fun heq => hq (heq ▸ FileNames.mem_below_self p)
    split
    · exact Function.update_of_ne hne _ _
    · rfl
  depends n m h q hq := by
    have hsame : n q = m q := h q (FileNames.below_subset_around p hq)
    by_cases hn : P n
    · have hm : P m := (hP n m h).mp hn
      simp only [hn, hm, if_true, Function.update_apply, hsame]
    · have hm : ¬ P m := fun hm => hn ((hP n m h).mpr hm)
      simp only [hn, hm, if_false, hsame]

theorem canAdd_congr {p : PathName} {n m : FileNames} (h : ∀ q ∈ FileNames.around p, n q = m q) :
    FileNames.CanAdd n p ↔ FileNames.CanAdd m p := by
  unfold FileNames.CanAdd
  rw [h p (Or.inl List.suffix_rfl), h p.tail (Or.inr rfl)]

theorem childless_congr {p : PathName} {n m : FileNames} (h : ∀ q ∈ FileNames.below p, n q = m q) :
    FileNames.Childless n p ↔ FileNames.Childless m p :=
  forall_congr' fun x => by rw [h (x :: p) (List.suffix_cons x p)]

theorem canRemove_congr {p : PathName} {n m : FileNames}
    (h : ∀ q ∈ FileNames.around p, n q = m q) :
    FileNames.CanRemove n p ↔ FileNames.CanRemove m p := by
  unfold FileNames.CanRemove
  rw [h p (Or.inl List.suffix_rfl), childless_congr fun q hq => h q (Or.inl hq)]

theorem canMove_congr {src dst : PathName} {n m : FileNames}
    (hsrc : n src = m src) (hdst : ∀ q ∈ FileNames.around dst, n q = m q) :
    FileNames.CanMove n src dst ↔ FileNames.CanMove m src dst := by
  unfold FileNames.CanMove
  rw [hsrc, hdst dst (Or.inl List.suffix_rfl), hdst dst.tail (Or.inr rfl),
    childless_congr fun q hq => hdst q (Or.inl hq)]

/-- A move stays within its two subtrees and the parent of the new one. -/
theorem within_rename (src dst : PathName) :
    Replay.Within (reads (.rename src dst)) (writes (.rename src dst))
      fun n => apply n (.rename src dst) where
  frame n q hq := by
    have hsrc : ¬ src <:+ q := fun h => hq ⟨src, by simp [paths], h⟩
    have hdst : ¬ dst <:+ q := fun h => hq ⟨dst, by simp [paths], h⟩
    simp only [apply]
    split
    · simp [FileNames.moved, hsrc, hdst]
    · rfl
  depends n m h q hq := by
    have hsrc : ∀ r ∈ FileNames.below src, n r = m r := fun r hr =>
      h r ⟨src, by simp [paths], Or.inl hr⟩
    have hdst : ∀ r ∈ FileNames.around dst, n r = m r := fun r hr =>
      h r ⟨dst, by simp [paths], hr⟩
    have hsame : n q = m q := by
      obtain ⟨p, hp, hqp⟩ := hq
      exact h q ⟨p, hp, Or.inl hqp⟩
    have hcan := canMove_congr (hsrc src List.suffix_rfl) hdst
    simp only [apply]
    by_cases hn : FileNames.CanMove n src dst
    · simp only [hn, hcan.mp hn, if_true, FileNames.moved, hsame,
        hsrc (q.take (q.length - dst.length) ++ src) (List.suffix_append _ src)]
    · have hm : ¬ FileNames.CanMove m src dst := fun hm => hn (hcan.mpr hm)
      simp only [hn, hm, if_false, hsame]

open Classical in
/-- Every change stays within its footprint. -/
theorem within (c : NameChange) : Replay.Within c.reads c.writes fun n => apply n c := by
  have hone : ∀ p : PathName, { q | ∃ r ∈ [p], q ∈ FileNames.around r } = FileNames.around p ∧
      { q | ∃ r ∈ [p], q ∈ FileNames.below r } = FileNames.below p := by
    intro p
    constructor <;> simp
  cases c with
  | add p kind =>
      simp only [reads, writes, paths, hone]
      exact within_update fun n m h => canAdd_congr h
  | unlink p =>
      simp only [reads, writes, paths, hone]
      exact within_update (P := fun n => n p = some .file) fun n m h => by
        rw [h p (Or.inl List.suffix_rfl)]
  | remove p =>
      simp only [reads, writes, paths, hone]
      exact within_update fun n m h => canRemove_congr h
  | rename src dst => exact within_rename src dst
  | keep => exact ⟨fun _ _ _ => rfl, fun n m h q hq => by simp [writes, paths] at hq⟩

/-- What is below one path is not below or around an unrelated one. -/
theorem notMem_around_of_below {p q r : PathName} (hpq : ¬ p <:+ q) (hqp : ¬ q <:+ p)
    (hr : r ∈ FileNames.below p) : r ∉ FileNames.around q := by
  rintro (hq | rfl)
  · rcases List.suffix_or_suffix_of_suffix hr hq with h | h
    · exact hpq h
    · exact hqp h
  · exact hpq (List.IsSuffix.trans hr (List.tail_suffix q))

theorem Apart.symm {a b : NameChange} (h : Apart a b) : Apart b a :=
  fun q hq p hp => (h p hp q hq).symm

/-- A change does not write what one of another subtree reads. -/
theorem Apart.notMem_reads {a b : NameChange} (h : Apart a b) : ∀ r ∈ a.writes, r ∉ b.reads := by
  rintro r ⟨p, hp, hrp⟩ ⟨q, hq, hrq⟩
  obtain ⟨hpq, hqp⟩ := h p hp q hq
  exact notMem_around_of_below hpq hqp hrp hrq

theorem writes_subset_reads (c : NameChange) : c.writes ⊆ c.reads := by
  rintro q ⟨p, hp, hq⟩
  exact ⟨p, hp, Or.inl hq⟩

/-- Changes of different subtrees commute. -/
theorem commute_of_apart {a b : NameChange} (h : Apart a b) : Replay.Commute apply a b :=
  fun n => a.within.comm b.within (fun r hr hr' => h.notMem_reads r hr (b.writes_subset_reads hr'))
    h.notMem_reads h.symm.notMem_reads n

end NameChange

/-! ### The trees -/

namespace FileTree

variable {t : FileTree}

theorem names_eq_none_iff {p : PathName} : t.names p = none ↔ t.node p = none := by
  simp [names]

theorem names_eq_dir_iff {p : PathName} : t.names p = some .dir ↔ t.node p = some .dir := by
  unfold names
  cases t.node p with
  | none => simp
  | some n => cases n <;> simp [Node.kind]

theorem names_eq_file_iff {p : PathName} :
    t.names p = some .file ↔ ∃ i, t.node p = some (.file i) := by
  unfold names
  cases t.node p with
  | none => simp
  | some n => cases n <;> simp [Node.kind]

@[simp] theorem names_root : t.names [] = some .dir := names_eq_dir_iff.mpr t.root

/-- The picture shows whether a directory is empty. -/
theorem childless_names_iff {p : PathName} : FileNames.Childless t.names p ↔ t.Childless p := by
  constructor
  · intro h q hq htail
    cases q with
    | nil => cases htail
    | cons x q =>
        simp only [List.tail?_cons, Option.some.injEq] at htail
        subst htail
        have hnone := names_eq_none_iff.mp (h x)
        exact absurd (AList.mem_keys.mpr (AList.mem_keys.mp hq)) (AList.lookup_eq_none.mp hnone)
  · intro h x
    exact names_eq_none_iff.mpr (h.node_eq_none x)

/-- The picture after an addition. -/
theorem names_add {x : String} {d : PathName} {n : Node} (h : t.CanAdd x d n) :
    (t.add x d n).names = Function.update t.names (x :: d) (some n.kind) := by
  funext p
  by_cases hp : p = x :: d
  · subst hp
    rw [Function.update_self, names, node_add_self h, Option.map_some]
  · rw [Function.update_of_ne hp, names, node_add_of_ne hp, names]

/-- The picture after a removal. -/
theorem names_remove {p : PathName} (hp : p ≠ []) (h : t.Childless p) :
    (t.remove p).names = Function.update t.names p none := by
  funext q
  by_cases hq : q = p
  · subst hq
    rw [Function.update_self, names, node_remove_self hp h, Option.map_none]
  · rw [Function.update_of_ne hq, names, node_remove_of_ne hq, names]

/-- The picture after a move. -/
theorem names_move {src dst : PathName} (h : t.CanMove src dst) :
    (t.move src dst).names = FileNames.moved t.names src dst := by
  have hnode : ∀ r, (t.move src dst).node r = none ↔ ∀ q n, t.node q = some n →
      FileTree.moved src dst q ≠ some r := by
    intro r
    constructor
    · intro hnone q n hq hmoved
      rw [(node_move h).mpr ⟨q, hq, hmoved⟩] at hnone
      cases hnone
    · intro hall
      cases hr : (t.move src dst).node r with
      | none => rfl
      | some n =>
          obtain ⟨q, hq, hmoved⟩ := (node_move h).mp hr
          exact absurd hmoved (hall q n hq)
  funext r
  unfold FileNames.moved
  split
  · rename_i hdst
    obtain ⟨rel, rfl⟩ := hdst
    have htake : (rel ++ dst).take ((rel ++ dst).length - dst.length) = rel := by simp
    rw [htake]
    -- what stands below `dst` came from below `src`
    cases hrel : t.node (rel ++ src) with
    | some n =>
        have hout : ¬ dst <:+ rel ++ src := by
          intro hsuffix
          obtain ⟨up, hup⟩ := hsuffix
          have hne : up ≠ [] := by
            rintro rfl
            exact h.2.1 ⟨rel, by simpa using hup.symm⟩
          rw [← hup, h.2.2.1.node_append_eq_none up hne] at hrel
          cases hrel
        rw [names, (node_move h).mpr ⟨rel ++ src, hrel, moved_append hout⟩, names, hrel]
    | none =>
        rw [names, (hnode _).mpr fun q n hq hmoved => ?_, names, hrel]
        obtain ⟨hout, ⟨rel', rfl, heq⟩ | ⟨_, rfl⟩⟩ := moved_eq_some hmoved
        · rw [List.append_cancel_right heq, hq] at hrel
          cases hrel
        · exact hout ⟨rel, rfl⟩
  · rename_i hdst
    split
    · rename_i hsrc
      refine names_eq_none_iff.mpr ((hnode r).mpr fun q n hq hmoved => ?_)
      obtain ⟨_, ⟨rel, rfl, rfl⟩ | ⟨hnot, rfl⟩⟩ := moved_eq_some hmoved
      · exact hdst ⟨rel, rfl⟩
      · exact hnot hsrc
    · rename_i hsrc
      cases hr : t.node r with
      | some n =>
          rw [names, (node_move h).mpr ⟨r, hr, moved_of_not hdst hsrc⟩, names, hr]
      | none =>
          rw [names, (hnode r).mpr fun q n hq hmoved => ?_, names, hr]
          obtain ⟨_, ⟨rel, rfl, rfl⟩ | ⟨_, rfl⟩⟩ := moved_eq_some hmoved
          · exact hdst ⟨rel, rfl⟩
          · rw [hr] at hq
            cases hq

end FileTree
