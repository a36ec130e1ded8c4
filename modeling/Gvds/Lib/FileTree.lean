/-
Module: Gvds.Lib.FileTree
Layer: Lib
Purpose: The names of a file system without links: a finite tree of directories and files in which
  every parent is a directory and every file has one name. Adding, removing and moving a name are
  total functions that do nothing where they would leave the tree malformed.
Imports: Mathlib.Data.List.AList, Mathlib.Data.List.Infix
Trusted boundary: none
Main exports: PathName, Node, FileTree, FileTree.node, FileTree.add, FileTree.remove, FileTree.move
-/
import Mathlib.Data.List.AList
import Mathlib.Data.List.Infix

/-- The components of a path, the innermost one first; `[]` is the root. -/
abbrev PathName := List String

/-- What a name stands for. -/
inductive Node where
  | dir
  | file (ino : Nat)
deriving DecidableEq

/-- A well-formed tree of names. -/
structure FileTree where
  nodes : AList fun _ : PathName => Node
  root : nodes.lookup [] = some .dir
  parent : ∀ x p n, nodes.lookup (x :: p) = some n → nodes.lookup p = some .dir
  inj : ∀ p q i, nodes.lookup p = some (.file i) → nodes.lookup q = some (.file i) → p = q

namespace FileTree

/-- What a path names. -/
def node (t : FileTree) (p : PathName) : Option Node := t.nodes.lookup p

/-- The tree with a root and nothing in it. -/
def empty : FileTree where
  nodes := AList.insert [] .dir ∅
  root := AList.lookup_insert ∅
  parent := by
    intro x p n h
    rw [AList.lookup_insert_ne (List.cons_ne_nil x p)] at h
    cases h
  inj := by
    intro p q i h
    by_cases hp : p = []
    · subst hp
      cases h
    · rw [AList.lookup_insert_ne hp] at h
      cases h

theorem node_empty_of_ne {p : PathName} (h : p ≠ []) : empty.node p = none :=
  AList.lookup_insert_ne h

/-- No name lies directly below `p`. -/
def Childless (t : FileTree) (p : PathName) : Prop := ∀ q ∈ t.nodes.keys, q.tail? ≠ some p

instance (t : FileTree) (p : PathName) : Decidable (t.Childless p) :=
  inferInstanceAs (Decidable (∀ q ∈ t.nodes.keys, q.tail? ≠ some p))

theorem Childless.node_eq_none {t : FileTree} {p : PathName} (h : t.Childless p) (x : String) :
    t.node (x :: p) = none := by
  cases hx : t.node (x :: p) with
  | none => rfl
  | some n =>
      have hmem : x :: p ∈ t.nodes.keys :=
        AList.mem_keys.mp (AList.lookup_isSome.mp (by simp [node] at hx; simp [hx]))
      exact absurd rfl (h _ hmem)

/-- Below a childless name there is nothing at all. -/
theorem Childless.node_append_eq_none {t : FileTree} {p : PathName} (h : t.Childless p) :
    ∀ rel : PathName, rel ≠ [] → t.node (rel ++ p) = none
  | [], hrel => absurd rfl hrel
  | [x], _ => h.node_eq_none x
  | x :: y :: rel, _ => by
      cases hx : t.node (x :: y :: rel ++ p) with
      | none => rfl
      | some n =>
          have hparent := t.parent x (y :: rel ++ p) n hx
          have habove := h.node_append_eq_none (y :: rel) (List.cons_ne_nil y rel)
          simp only [node] at habove
          rw [habove] at hparent
          cases hparent

/-- No file is known under number `i`. -/
def Fresh (t : FileTree) (n : Node) : Prop := n = .dir ∨ ∀ e ∈ t.nodes.entries, e.2 ≠ n

instance (t : FileTree) (n : Node) : Decidable (t.Fresh n) :=
  inferInstanceAs (Decidable (_ ∨ ∀ e ∈ t.nodes.entries, e.2 ≠ n))

theorem Fresh.node_ne {t : FileTree} {i : Nat} (h : t.Fresh (.file i)) (p : PathName) :
    t.node p ≠ some (.file i) := by
  cases h with
  | inl h => cases h
  | inr h =>
      intro hp
      exact h _ (AList.mem_lookup_iff.mp hp) rfl

/-- A number that no file of the tree reaches is fresh. -/
theorem fresh_of_lt {t : FileTree} {i : Nat} (h : ∀ p j, t.node p = some (.file j) → j < i) :
    t.Fresh (.file i) := by
  right
  rintro ⟨p, n⟩ he heq
  simp at heq
  subst heq
  exact absurd (h p i (AList.mem_lookup_iff.mpr he)) (Nat.lt_irrefl i)

/-- A new name may be added: its parent is a directory, and neither the name nor its file exists. -/
def CanAdd (t : FileTree) (x : String) (d : PathName) (n : Node) : Prop :=
  t.node d = some .dir ∧ t.node (x :: d) = none ∧ t.Fresh n

instance (t : FileTree) (x : String) (d : PathName) (n : Node) : Decidable (t.CanAdd x d n) :=
  inferInstanceAs (Decidable (_ ∧ _ ∧ _))

/-- Give the new node `n` the name `x` in directory `d`. -/
def add (t : FileTree) (x : String) (d : PathName) (n : Node) : FileTree :=
  if h : t.CanAdd x d n then
    { nodes := t.nodes.insert (x :: d) n
      root := by
        rw [AList.lookup_insert_ne (List.cons_ne_nil x d).symm]
        exact t.root
      parent := by
        obtain ⟨hd, hx, _⟩ := h
        intro y p m hm
        have hp : t.nodes.lookup p = some .dir := by
          by_cases hyp : y :: p = x :: d
          · cases hyp
            exact hd
          · rw [AList.lookup_insert_ne hyp] at hm
            exact t.parent y p m hm
        have hpx : p ≠ x :: d := by
          intro heq
          subst heq
          simp only [node] at hx
          rw [hx] at hp
          cases hp
        rw [AList.lookup_insert_ne hpx]
        exact hp
      inj := by
        obtain ⟨_, _, hfresh⟩ := h
        intro p q i hp hq
        by_cases hpx : p = x :: d <;> by_cases hqx : q = x :: d
        · rw [hpx, hqx]
        · subst hpx
          rw [AList.lookup_insert, Option.some.injEq] at hp
          subst hp
          rw [AList.lookup_insert_ne hqx] at hq
          exact absurd hq (hfresh.node_ne q)
        · subst hqx
          rw [AList.lookup_insert, Option.some.injEq] at hq
          subst hq
          rw [AList.lookup_insert_ne hpx] at hp
          exact absurd hp (hfresh.node_ne p)
        · rw [AList.lookup_insert_ne hpx] at hp
          rw [AList.lookup_insert_ne hqx] at hq
          exact t.inj p q i hp hq }
  else t

theorem node_add_self {t : FileTree} {x : String} {d : PathName} {n : Node} (h : t.CanAdd x d n) :
    (t.add x d n).node (x :: d) = some n := by
  simp [add, h, node]

theorem node_add_of_ne {t : FileTree} {x : String} {d p : PathName} {n : Node} (h : p ≠ x :: d) :
    (t.add x d n).node p = t.node p := by
  unfold add node
  split
  · exact AList.lookup_insert_ne h
  · rfl

/-- Take away the name `p`, if it is no directory with something in it. -/
def remove (t : FileTree) (p : PathName) : FileTree :=
  if h : p ≠ [] ∧ t.Childless p then
    { nodes := t.nodes.erase p
      root := by
        rw [AList.lookup_erase_ne h.1.symm]
        exact t.root
      parent := by
        intro y q m hm
        have hyq : y :: q ≠ p := by
          intro heq
          subst heq
          simp at hm
        rw [AList.lookup_erase_ne hyq] at hm
        have hqp : q ≠ p := by
          intro heq
          subst heq
          have := h.2.node_eq_none y
          simp only [node] at this
          rw [this] at hm
          cases hm
        rw [AList.lookup_erase_ne hqp]
        exact t.parent y q m hm
      inj := by
        intro q q' i hq hq'
        have hold : ∀ r, (t.nodes.erase p).lookup r = some (.file i) →
            t.nodes.lookup r = some (.file i) := by
          intro r hr
          by_cases hrp : r = p
          · subst hrp
            simp at hr
          · rw [AList.lookup_erase_ne hrp] at hr
            exact hr
        exact t.inj q q' i (hold q hq) (hold q' hq') }
  else t

theorem node_remove_self {t : FileTree} {p : PathName} (hp : p ≠ []) (h : t.Childless p) :
    (t.remove p).node p = none := by
  simp [remove, hp, h, node]

theorem node_remove_of_ne {t : FileTree} {p q : PathName} (h : q ≠ p) :
    (t.remove p).node q = t.node q := by
  unfold remove node
  split
  · exact AList.lookup_erase_ne h
  · rfl

/-- What is named after a removal was named before. -/
theorem node_of_node_remove {t : FileTree} {p q : PathName} {n : Node}
    (h : (t.remove p).node q = some n) : t.node q = some n := by
  by_cases hq : q = p
  · subst hq
    unfold remove at h
    split at h
    · simp [node] at h
    · exact h
  · rw [node_remove_of_ne hq] at h
    exact h

/-- A file has nothing below it. -/
theorem childless_of_file {t : FileTree} {p : PathName} {i : Nat} (h : t.node p = some (.file i)) :
    t.Childless p := by
  intro q hq htail
  cases q with
  | nil => cases htail
  | cons x q =>
      simp at htail
      subst htail
      obtain ⟨n, hn⟩ := Option.isSome_iff_exists.mp
        (AList.lookup_isSome.mpr (AList.mem_keys.mpr hq))
      have hdir := t.parent x q n hn
      simp only [node] at h
      rw [h] at hdir
      cases hdir

/-! ### Moving a subtree -/

/-- Where the path `q` goes when `src` is moved to `dst`; what stood at `dst` goes away. -/
def moved (src dst q : PathName) : Option PathName :=
  if dst <:+ q then none
  else if src <:+ q then some (q.take (q.length - src.length) ++ dst)
  else some q

/-- The paths below `src` are moved. -/
theorem moved_append {src dst rel : PathName} (h : ¬ dst <:+ rel ++ src) :
    moved src dst (rel ++ src) = some (rel ++ dst) := by
  simp [moved, h]

/-- The other paths stay. -/
theorem moved_of_not {src dst q : PathName} (hdst : ¬ dst <:+ q) (hsrc : ¬ src <:+ q) :
    moved src dst q = some q := by
  simp [moved, hdst, hsrc]

/-- A moved path lay outside `dst`, and below `src` or not. -/
theorem moved_eq_some {src dst q r : PathName} (h : moved src dst q = some r) :
    ¬ dst <:+ q ∧ ((∃ rel, q = rel ++ src ∧ r = rel ++ dst) ∨ (¬ src <:+ q ∧ r = q)) := by
  unfold moved at h
  split at h
  · cases h
  · rename_i hdst
    refine ⟨hdst, ?_⟩
    split at h
    · rename_i hsrc
      obtain ⟨rel, rfl⟩ := hsrc
      left
      refine ⟨rel, rfl, ?_⟩
      simpa using h.symm
    · rename_i hsrc
      right
      exact ⟨hsrc, (Option.some.inj h).symm⟩

/-- A path keeps its place exactly where it is neither moved nor replaced. -/
theorem moved_eq_self_iff {src dst q : PathName} (h : src ≠ dst) :
    moved src dst q = some q ↔ ¬ dst <:+ q ∧ ¬ src <:+ q := by
  constructor
  · intro hq
    obtain ⟨hout, ⟨rel, hrel, hrel'⟩ | ⟨hnot, _⟩⟩ := moved_eq_some hq
    · exact absurd (List.append_cancel_left (hrel.symm.trans hrel')) h
    · exact ⟨hout, hnot⟩
  · rintro ⟨hdst, hsrc⟩
    exact moved_of_not hdst hsrc

/-- Different paths go to different places. -/
theorem moved_inj {src dst q q' r : PathName} (h : moved src dst q = some r)
    (h' : moved src dst q' = some r) : q = q' := by
  obtain ⟨hdst, ⟨rel, rfl, rfl⟩ | ⟨hsrc, rfl⟩⟩ := moved_eq_some h
  · obtain ⟨hdst', ⟨rel', rfl, heq⟩ | ⟨_, rfl⟩⟩ := moved_eq_some h'
    · rw [List.append_cancel_right heq]
    · exact absurd ⟨rel, rfl⟩ hdst'
  · obtain ⟨_, ⟨rel', rfl, heq⟩ | ⟨_, heq⟩⟩ := moved_eq_some h'
    · exact absurd ⟨rel', heq.symm⟩ hdst
    · exact heq

/-- The names after the move. -/
def movedNodes (t : FileTree) (src dst : PathName) : AList fun _ : PathName => Node where
  entries := t.nodes.entries.filterMap fun e => (moved src dst e.1).map fun q => ⟨q, e.2⟩
  nodupKeys := by
    have hkeys : ∀ l : List (Sigma fun _ : PathName => Node),
        (l.filterMap fun e => (moved src dst e.1).map fun q =>
          (⟨q, e.2⟩ : Sigma fun _ : PathName => Node)).keys = l.keys.filterMap (moved src dst) := by
      intro l
      induction l with
      | nil => rfl
      | cons e l ih =>
          cases he : moved src dst e.1 with
          | none => simp [he, ih]
          | some q => simp [he, ih]
    unfold List.NodupKeys
    rw [hkeys]
    exact List.Nodup.filterMap (fun q q' r hq hq' => moved_inj hq hq') t.nodes.keys_nodup

theorem lookup_movedNodes {t : FileTree} {src dst r : PathName} {n : Node} :
    (t.movedNodes src dst).lookup r = some n ↔
      ∃ q, t.node q = some n ∧ moved src dst q = some r := by
  refine AList.mem_lookup_iff.trans ?_
  simp only [movedNodes, List.mem_filterMap, Option.map_eq_some_iff, Sigma.mk.injEq, heq_eq_eq]
  constructor
  · rintro ⟨e, he, q, hq, rfl, rfl⟩
    exact ⟨e.1, AList.mem_lookup_iff.mpr he, hq⟩
  · rintro ⟨q, hq, hmoved⟩
    exact ⟨⟨q, n⟩, AList.mem_lookup_iff.mp hq, r, hmoved, rfl, rfl⟩

/-- `src` may be moved to `dst`: it exists and does not contain `dst`, the parent of `dst` is a
directory, and nothing lies below `dst`. -/
def CanMove (t : FileTree) (src dst : PathName) : Prop :=
  (t.node src).isSome ∧ ¬ src <:+ dst ∧ t.Childless dst ∧ dst ≠ [] ∧
    t.node dst.tail = some .dir

instance (t : FileTree) (src dst : PathName) : Decidable (t.CanMove src dst) :=
  inferInstanceAs (Decidable (_ ∧ _ ∧ _ ∧ _ ∧ _))

/-- Move `src` with all that is below it to `dst`, in place of what stood there. -/
def move (t : FileTree) (src dst : PathName) : FileTree :=
  if h : t.CanMove src dst then
    { nodes := t.movedNodes src dst
      root := by
        obtain ⟨_, hsrc, _, hdst, _⟩ := h
        refine lookup_movedNodes.mpr ⟨[], t.root, moved_of_not ?_ ?_⟩
        · intro hsuffix
          exact hdst (List.suffix_nil.mp hsuffix)
        · intro hsuffix
          rw [List.suffix_nil.mp hsuffix] at hsrc
          exact hsrc (List.nil_suffix)
      parent := by
        obtain ⟨_, hsrc, _, hdst, hdir⟩ := h
        intro x p n hn
        obtain ⟨q, hq, hmoved⟩ := lookup_movedNodes.mp hn
        obtain ⟨hout, ⟨rel, rfl, hr⟩ | ⟨hnot, rfl⟩⟩ := moved_eq_some hmoved
        · cases rel with
          | nil =>
              -- the new parent is the old parent of `dst`
              rw [List.nil_append] at hr
              subst hr
              refine lookup_movedNodes.mpr ⟨p, hdir, moved_of_not ?_ ?_⟩
              · intro hsuffix
                exact absurd hsuffix.length_le (by simp)
              · intro hsuffix
                exact hsrc (hsuffix.trans (List.suffix_cons x p))
          | cons y rel =>
              rw [List.cons_append, List.cons.injEq] at hr
              obtain ⟨rfl, rfl⟩ := hr
              refine lookup_movedNodes.mpr ⟨rel ++ src, t.parent x (rel ++ src) n hq, ?_⟩
              exact moved_append fun hsuffix => hout (hsuffix.trans (List.suffix_cons x _))
        · refine lookup_movedNodes.mpr ⟨p, t.parent x p n hq, moved_of_not ?_ ?_⟩
          · exact fun hsuffix => hout (hsuffix.trans (List.suffix_cons x p))
          · exact fun hsuffix => hnot (hsuffix.trans (List.suffix_cons x p))
      inj := by
        intro p q i hp hq
        obtain ⟨p₀, hp₀, hmp⟩ := lookup_movedNodes.mp hp
        obtain ⟨q₀, hq₀, hmq⟩ := lookup_movedNodes.mp hq
        have heq := t.inj p₀ q₀ i hp₀ hq₀
        subst heq
        rw [hmp] at hmq
        exact Option.some.inj hmq }
  else t

/-- What the paths name after a move. -/
theorem node_move {t : FileTree} {src dst r : PathName} {n : Node} (h : t.CanMove src dst) :
    (t.move src dst).node r = some n ↔
      ∃ q, t.node q = some n ∧ moved src dst q = some r := by
  unfold node move
  rw [dif_pos h]
  exact lookup_movedNodes

/-- After a move a path names the file that it named before exactly where the move did not concern
it. -/
theorem node_move_file_iff {t : FileTree} {src dst p : PathName} {i : Nat} (h : t.CanMove src dst)
    (hp : t.node p = some (.file i)) :
    (t.move src dst).node p = some (.file i) ↔ ¬ dst <:+ p ∧ ¬ src <:+ p := by
  have hne : src ≠ dst := fun heq => h.2.1 (heq ▸ List.suffix_rfl)
  rw [node_move h]
  constructor
  · rintro ⟨q, hq, hmoved⟩
    obtain rfl := t.inj q p i hq hp
    exact (moved_eq_self_iff hne).mp hmoved
  · intro hnot
    exact ⟨p, hp, (moved_eq_self_iff hne).mpr hnot⟩

/-- What is named after a move was named before, there or elsewhere. -/
theorem node_of_node_move {t : FileTree} {src dst r : PathName} {n : Node}
    (h : (t.move src dst).node r = some n) : ∃ q, t.node q = some n := by
  by_cases hmove : t.CanMove src dst
  · obtain ⟨q, hq, _⟩ := (node_move hmove).mp h
    exact ⟨q, hq⟩
  · rw [move, dif_neg hmove] at h
    exact ⟨r, h⟩

end FileTree
