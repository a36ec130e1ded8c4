/-
Module: Gvds.Lib.LinkTree
Layer: Lib
Purpose: The names of a finite file system with symbolic links, and the walks that the kernel makes
  along the components of a path: a link on the way is replaced by its text, as often as is allowed.
  A path of names none of which is a link leads to the location of that name.
Imports: Gvds.Lib.PathWalk, Mathlib.Algebra.Group.Nat.Defs
Trusted boundary: none
Main exports: LinkTarget, LinkNode, LinkTree, LinkTree.names, LinkTree.walk, LinkTree.walk_of_plain,
  LinkTree.length_le_depth, LinkTree.add
-/
import Gvds.Lib.PathWalk
import Mathlib.Algebra.Group.Nat.Defs

/-- The text of a symbolic link. -/
structure LinkTarget where
  absolute : Bool
  components : List String
deriving DecidableEq

/-- What a name stands for. -/
inductive LinkNode where
  | dir
  | file (size : Nat)
  | link (target : LinkTarget)
deriving DecidableEq

/-- The size of a file fits into 63 bits. -/
def LinkNode.Fits : LinkNode → Prop
  | .file size => size < 2 ^ 63
  | _ => True

/-- A well-formed tree of names. -/
structure LinkTree where
  nodes : AList fun _ : PathName => LinkNode
  root : nodes.lookup [] = some .dir
  parent : ∀ x p n, nodes.lookup (x :: p) = some n → nodes.lookup p = some .dir
  named : ∀ x p n, nodes.lookup (x :: p) = some n → x ≠ "." ∧ x ≠ ".."
  fits : ∀ p n, nodes.lookup p = some n → n.Fits

namespace LinkTree

/-- The tree with a root and nothing in it. -/
def empty : LinkTree where
  nodes := AList.insert [] .dir ∅
  root := AList.lookup_insert ∅
  parent := by
    intro x p n h
    rw [AList.lookup_insert_ne (List.cons_ne_nil x p)] at h
    cases h
  named := by
    intro x p n h
    rw [AList.lookup_insert_ne (List.cons_ne_nil x p)] at h
    cases h
  fits := by
    intro p n h
    by_cases hp : p = []
    · subst hp
      cases h
      exact trivial
    · rw [AList.lookup_insert_ne hp] at h
      cases h

/-- What a path of names stands for. -/
def node (t : LinkTree) (p : PathName) : Option LinkNode := t.nodes.lookup p

/-- The last component of a location directly below `p`. -/
def nameIn (p : PathName) : PathName → Option String
  | [] => none
  | x :: d => if d = p then some x else none

/-- The names in a directory, in the order in which the tree has them. -/
def names (t : LinkTree) (p : PathName) : List String := t.nodes.keys.filterMap (nameIn p)

/-- The largest number of components of a location. -/
def depth (t : LinkTree) : Nat := (t.nodes.keys.map List.length).foldr max 0

/-- A name that is there and is no link. -/
def Plain (t : LinkTree) (p : PathName) : Prop :=
  ∃ n, t.node p = some n ∧ ∀ target, n ≠ .link target

/-- A new name may be added. -/
structure CanAdd (t : LinkTree) (x : String) (d : PathName) (n : LinkNode) : Prop where
  dir : t.node d = some .dir
  free : t.node (x :: d) = none
  named : x ≠ "." ∧ x ≠ ".."
  fits : n.Fits

/-- Give the node `n` the name `x` in directory `d`. -/
def add (t : LinkTree) (x : String) (d : PathName) (n : LinkNode) (h : t.CanAdd x d n) :
    LinkTree where
  nodes := t.nodes.insert (x :: d) n
  root := by
    rw [AList.lookup_insert_ne (List.cons_ne_nil x d).symm]
    exact t.root
  parent := by
    intro y p m hm
    have hp : t.nodes.lookup p = some .dir := by
      by_cases hyp : y :: p = x :: d
      · obtain ⟨-, rfl⟩ := List.cons.inj hyp
        exact h.dir
      · rw [AList.lookup_insert_ne hyp] at hm
        exact t.parent y p m hm
    have hpx : p ≠ x :: d := by
      intro heq
      have hfree : t.nodes.lookup (x :: d) = none := h.free
      rw [heq, hfree] at hp
      cases hp
    rw [AList.lookup_insert_ne hpx]
    exact hp
  named := by
    intro y p m hm
    by_cases hyp : y :: p = x :: d
    · obtain ⟨rfl, -⟩ := List.cons.inj hyp
      exact h.named
    · rw [AList.lookup_insert_ne hyp] at hm
      exact t.named y p m hm
  fits := by
    intro p m hm
    by_cases hp : p = x :: d
    · subst hp
      rw [AList.lookup_insert, Option.some.injEq] at hm
      exact hm ▸ h.fits
    · rw [AList.lookup_insert_ne hp] at hm
      exact t.fits p m hm

/-! ### Walks -/

/-- Where a component of a path leads: to a location, or along the text of a link. -/
inductive Way where
  | to (loc : PathName)
  | along (start : PathName) (components : List String)
  | nowhere

/-- One component of a path. -/
def enter (t : LinkTree) (loc : PathName) (c : String) : Way :=
  if t.node loc = some .dir then
    if c = "." ∨ c = ".." then .to (PathWalk.step loc c)
    else
      match t.node (c :: loc) with
      | none => .nowhere
      | some (.link target) => .along (if target.absolute then [] else loc) target.components
      | some _ => .to (c :: loc)
  else .nowhere

/-- The walk along some components up to the first link; `follow` goes on from there. -/
def walkWith (t : LinkTree) (follow : PathName → List String → Option PathName) :
    PathName → List String → Option PathName
  | loc, [] => some loc
  | loc, c :: cs =>
      match t.enter loc c with
      | .to loc' => t.walkWith follow loc' cs
      | .along start components => follow start (components ++ cs)
      | .nowhere => none

/-- The walk along some components that follows at most so many links. -/
def walk (t : LinkTree) : Nat → PathName → List String → Option PathName
  | 0 => t.walkWith fun _ _ => none
  | links + 1 => t.walkWith (t.walk links)

variable {t : LinkTree}

/-! ### Names -/

theorem node_add_self {x : String} {d : PathName} {n : LinkNode} (h : t.CanAdd x d n) :
    (t.add x d n h).node (x :: d) = some n :=
  AList.lookup_insert t.nodes

theorem node_add_of_ne {x : String} {d p : PathName} {n : LinkNode} (h : t.CanAdd x d n)
    (hp : p ≠ x :: d) : (t.add x d n h).node p = t.node p :=
  AList.lookup_insert_ne hp

theorem mem_keys_iff {p : PathName} : p ∈ t.nodes.keys ↔ (t.node p).isSome :=
  AList.mem_keys.symm.trans AList.lookup_isSome.symm

theorem nameIn_eq_some {p q : PathName} {x : String} : nameIn p q = some x ↔ q = x :: p := by
  cases q with
  | nil => simp [nameIn]
  | cons y d =>
      rw [nameIn, List.cons.injEq]
      by_cases hd : d = p
      · simp [hd]
      · simp [hd]

theorem mem_names {p : PathName} {x : String} : x ∈ t.names p ↔ (t.node (x :: p)).isSome := by
  rw [names, List.mem_filterMap, ← mem_keys_iff]
  constructor
  · rintro ⟨q, hq, hname⟩
    rw [nameIn_eq_some] at hname
    exact hname ▸ hq
  · intro hmem
    exact ⟨x :: p, hmem, nameIn_eq_some.mpr rfl⟩

/-- No name occurs twice in a directory. -/
theorem nodup_names (p : PathName) : (t.names p).Nodup := by
  apply t.nodes.keys_nodup.filterMap
  intro q q' x hq hq'
  rw [Option.mem_def, nameIn_eq_some] at hq hq'
  rw [hq, hq']

/-- No location is deeper than the tree. -/
theorem length_le_depth {p : PathName} (h : (t.node p).isSome) : p.length ≤ t.depth := by
  have hall : ∀ keys : List PathName, p ∈ keys →
      p.length ≤ (keys.map List.length).foldr max 0 := by
    intro keys hmem
    induction keys with
    | nil => cases hmem
    | cons q keys ih =>
        rw [List.map_cons, List.foldr_cons]
        cases List.mem_cons.mp hmem with
        | inl heq => exact heq ▸ Nat.le_max_left _ _
        | inr htail => exact (ih htail).trans (Nat.le_max_right _ _)
  exact hall t.nodes.keys (mem_keys_iff.mpr h)

/-- What lies above a location is a directory. -/
theorem dir_of_below {p : PathName} :
    ∀ {rel : PathName}, rel ≠ [] → (t.node (rel ++ p)).isSome → t.node p = some .dir
  | [], hrel, _ => absurd rfl hrel
  | [x], _, h => by
      obtain ⟨n, hn⟩ := Option.isSome_iff_exists.mp h
      exact t.parent x p n hn
  | x :: y :: rel, _, h => by
      obtain ⟨n, hn⟩ := Option.isSome_iff_exists.mp h
      have habove : t.node (y :: rel ++ p) = some .dir := t.parent x _ n hn
      exact dir_of_below (List.cons_ne_nil y rel) (habove ▸ rfl)

/-- The location above a name is a directory. -/
theorem dir_of_name {x : String} {p : PathName} (h : (t.node (x :: p)).isSome) :
    t.node p = some .dir :=
  dir_of_below (List.cons_ne_nil x []) h

theorem Plain.of_dir {p : PathName} (h : t.node p = some .dir) : t.Plain p := by
  refine ⟨.dir, h, ?_⟩
  intro target heq
  cases heq

theorem Plain.isSome {p : PathName} (h : t.Plain p) : (t.node p).isSome := by
  obtain ⟨n, hn, _⟩ := h
  exact hn ▸ rfl

/-! ### Where walks lead -/

/-- Into a directory, to a name in it that is no link. -/
theorem enter_of_plain {loc : PathName} {x : String} (h : t.Plain (x :: loc)) :
    t.enter loc x = .to (x :: loc) := by
  obtain ⟨n, hn, hlink⟩ := h
  obtain ⟨hdot, hdots⟩ := t.named x loc n hn
  have hdir : t.node loc = some .dir := t.parent x loc n hn
  cases n with
  | dir => simp [enter, hdir, hdot, hdots, hn]
  | file size => simp [enter, hdir, hdot, hdots, hn]
  | link target => exact absurd rfl (hlink target)

theorem walk_cons (t : LinkTree) (links : Nat) (loc : PathName) (c : String) (cs : List String) :
    t.walk links loc (c :: cs) =
      match t.enter loc c with
      | .to loc' => t.walk links loc' cs
      | .along start components =>
          match links with
          | 0 => none
          | links + 1 => t.walk links start (components ++ cs)
      | .nowhere => none := by
  cases links with
  | zero => rfl
  | succ links => rfl

theorem walk_nil (t : LinkTree) (links : Nat) (loc : PathName) :
    t.walk links loc [] = some loc := by
  cases links with
  | zero => rfl
  | succ links => rfl

/-- Names that are no links lead to their location, however many links may be followed. -/
theorem walk_append_of_plain {base : PathName} (links : Nat) (cs : List String) :
    ∀ {rel : PathName}, t.Plain (rel ++ base) →
      t.walk links base (rel.reverse ++ cs) = t.walk links (rel ++ base) cs
  | [], _ => rfl
  | x :: rel, h => by
      have habove : t.Plain (rel ++ base) := Plain.of_dir (dir_of_name h.isSome)
      have henter : t.enter (rel ++ base) x = .to (x :: rel ++ base) := enter_of_plain h
      rw [List.reverse_cons, List.append_assoc, walk_append_of_plain links _ habove,
        List.singleton_append, walk_cons, henter]

theorem walk_of_plain {base rel : PathName} (links : Nat) (h : t.Plain (rel ++ base)) :
    t.walk links base rel.reverse = some (rel ++ base) := by
  have hwalk := walk_append_of_plain links [] h
  rw [List.append_nil, walk_nil] at hwalk
  exact hwalk

end LinkTree
