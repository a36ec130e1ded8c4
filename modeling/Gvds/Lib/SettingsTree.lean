/-
Module: Gvds.Lib.SettingsTree
Layer: Lib
Purpose: Trees of named settings: groups inside of groups, with values at the leaves. A value is
  added at a path whose groups are made on the way and never replaces what is there, so that a list
  of defaults fills the gaps of a tree and leaves the rest.
Imports: Mathlib.Tactic.Basic, Mathlib.Data.List.Induction, Mathlib.Data.List.Infix
Trusted boundary: none
Main exports: SettingsTree.Tree, SettingsTree.build, SettingsTree.add, SettingsTree.adds,
  SettingsTree.add_spec, SettingsTree.node_adds, SettingsTree.isSome_adds_iff,
  SettingsTree.adds_idempotent
-/
import Mathlib.Tactic.Basic
import Mathlib.Data.List.Induction
import Mathlib.Data.List.Infix

namespace SettingsTree

/-- What is at a path: a group, or a value. -/
inductive Node (V : Type*) where
  | group
  | leaf (v : V)

/-- A tree of settings by their paths from the root: what has something in it is a group. -/
@[ext] structure Tree (N V : Type*) where
  node : List N → Option (Node V)
  root : node [] = some .group
  closed : ∀ p x, node (p ++ [x]) ≠ none → node p = some .group

variable {N V : Type*} [DecidableEq N]

def isGroup : Option (Node V) → Bool
  | some .group => true
  | _ => false

theorem isGroup_iff {n : Option (Node V)} : isGroup n = true ↔ n = some .group := by
  rcases n with _ | (_ | v) <;> simp [isGroup]

/-- A tree with nothing in it. -/
def Tree.empty : Tree N V where
  node p := if p = [] then some .group else none
  root := rfl
  closed := by simp

/-- Make a new node `x` in the group `p`. -/
def Tree.put (t : Tree N V) (p : List N) (x : N) (n : Node V) : Option (Tree N V) :=
  if h : isGroup (t.node p) = true ∧ (t.node (p ++ [x])).isNone = true then
    some {
      node := fun q => if q = p ++ [x] then some n else t.node q
      root := by simp [t.root]
      closed := by
        intro q y hne
        have hgroup := isGroup_iff.mp h.1
        have hnone := Option.isNone_iff_eq_none.mp h.2
        by_cases hq : q ++ [y] = p ++ [x]
        · obtain ⟨rfl, _⟩ := List.append_inj' hq rfl
          simp [hgroup]
        · simp only [hq, if_false] at hne
          have hparent := t.closed q y hne
          by_cases hqp : q = p ++ [x]
          · rw [hqp, hnone] at hparent
            cases hparent
          · simp [hqp, hparent] }
  else none

/-- Go down from `cur` by some names, making the groups that are missing. A value on the way, and a
name that is not valid where it is needed for a new group, end this. -/
def build (valid : N → Bool) (t : Tree N V) (cur : List N) : List N → Option (Tree N V × List N)
  | [] => some (t, cur)
  | x :: xs =>
      match t.node (cur ++ [x]) with
      | some .group => build valid t (cur ++ [x]) xs
      | some (.leaf _) => none
      | none =>
          if valid x then
            (t.put cur x .group).bind fun t' => build valid t' (cur ++ [x]) xs
          else none

/-- Add a value at the end of a path, unless there is something; tell whether it was added. -/
def add (valid : N → Bool) (t : Tree N V) (groups : List N) (x : N) (v : V) :
    Option (Tree N V × Bool) :=
  (build valid t [] groups).bind fun r =>
    match r.1.node (r.2 ++ [x]) with
    | some _ => some (r.1, false)
    | none => if valid x then (r.1.put r.2 x (.leaf v)).map fun t' => (t', true) else none

/-- An entry of a list of defaults: the groups on its path, its name, and its value. -/
structure Default (N V : Type*) where
  groups : List N
  name : N
  value : V

def Default.key (e : Default N V) : List N := e.groups ++ [e.name]

/-- Add some defaults, one after the other. -/
def adds (valid : N → Bool) (t : Tree N V) : List (Default N V) → Option (Tree N V)
  | [] => some t
  | e :: es => (add valid t e.groups e.name e.value).bind fun r => adds valid r.1 es

/-- No path of a list leads through the end of another, and none ends where another does. -/
def PrefixFree (es : List (Default N V)) : Prop :=
  es.Pairwise fun e e' => ¬ e.key <+: e'.key ∧ ¬ e'.key <+: e.key

instance (es : List (Default N V)) : Decidable (PrefixFree es) :=
  inferInstanceAs (Decidable (es.Pairwise _))

/-- What a list of defaults has at a path. -/
def filled (es : List (Default N V)) (q : List N) : Option (Node V) :=
  match es.find? fun e => e.key = q with
  | some e => some (.leaf e.value)
  | none => if ∃ e ∈ es, q <+: e.groups then some .group else none

/-! ### Trees -/

variable {t t' : Tree N V} {p q : List N} {x : N}

theorem node_of_put {n : Node V} (h : t.put p x n = some t') (q : List N) :
    t'.node q = if q = p ++ [x] then some n else t.node q := by
  unfold Tree.put at h
  split at h
  · cases h
    rfl
  · cases h

theorem isSome_put {n : Node V} (hp : t.node p = some .group) (hx : t.node (p ++ [x]) = none) :
    (t.put p x n).isSome = true := by
  simp [Tree.put, isGroup_iff, hp, hx]

omit [DecidableEq N] in
/-- What has something below it is a group. -/
theorem Tree.group_of_prefix (t : Tree N V) {ys : List N} (hys : ys ≠ [])
    (h : t.node (p ++ ys) ≠ none) : t.node p = some .group := by
  induction ys using List.reverseRecOn with
  | nil => exact absurd rfl hys
  | append_singleton ys y ih =>
      rw [← List.append_assoc] at h
      have hparent := t.closed _ _ h
      by_cases hnil : ys = []
      · simpa [hnil] using hparent
      · exact ih hnil (by simp [hparent])

/-! ### One value -/

omit [DecidableEq N] in
/-- The places between a group and the end of a path: the group itself, and those between its next
group and the end. -/
theorem between_cons {cur xs : List N} :
    (cur <+: q ∧ q <+: cur ++ x :: xs) ↔
      q = cur ∨ (cur ++ [x] <+: q ∧ q <+: cur ++ [x] ++ xs) := by
  constructor
  · rintro ⟨⟨ys, rfl⟩, hend⟩
    have hys := (List.prefix_append_right_inj cur).mp hend
    cases ys with
    | nil => exact .inl (List.append_nil cur)
    | cons y ys =>
        obtain ⟨rfl, htail⟩ := List.cons_prefix_cons.mp hys
        right
        rw [List.append_cons cur y ys]
        exact ⟨List.prefix_append _ _, (List.prefix_append_right_inj _).mpr htail⟩
  · rintro (rfl | ⟨hstart, hend⟩)
    · exact ⟨List.prefix_rfl, List.prefix_append _ _⟩
    · rw [List.append_cons]
      exact ⟨(List.prefix_append _ _).trans hstart, hend⟩

/-- Groups are made where nothing is, between the place to start from and the end. -/
theorem build_spec {valid : N → Bool} {cur xs : List N} {r : Tree N V × List N}
    (hcur : t.node cur = some .group) (h : build valid t cur xs = some r) :
    r.2 = cur ++ xs ∧ r.1.node r.2 = some .group ∧
      ∀ q, r.1.node q = (t.node q).or (if cur <+: q ∧ q <+: cur ++ xs then some .group else none) := by
  induction xs generalizing t cur with
  | nil =>
      cases h
      refine ⟨(List.append_nil cur).symm, hcur, fun q => ?_⟩
      rw [List.append_nil]
      by_cases hq : cur <+: q ∧ q <+: cur
      · obtain rfl := hq.1.eq_of_length_le hq.2.length_le
        simp [hcur]
      · simp [hq]
  | cons x xs ih =>
      have hpath : cur ++ [x] ++ xs = cur ++ x :: xs := (List.append_cons cur x xs).symm
      rw [build] at h
      split at h
      · rename_i hgroup
        obtain ⟨hend, hgroup', hnode⟩ := ih hgroup h
        refine ⟨hend.trans hpath, hgroup', fun q => ?_⟩
        rw [hnode q, if_congr between_cons rfl rfl]
        by_cases hq : q = cur
        · simp [hq, hcur]
        · simp [hq]
      · cases h
      · rename_i hnone
        split at h
        · obtain ⟨t', hput, hbuild⟩ := Option.bind_eq_some_iff.mp h
          have hgroup : t'.node (cur ++ [x]) = some .group := by simp [node_of_put hput]
          obtain ⟨hend, hgroup', hnode⟩ := ih hgroup hbuild
          refine ⟨hend.trans hpath, hgroup', fun q => ?_⟩
          rw [hnode q, if_congr between_cons rfl rfl, node_of_put hput]
          by_cases hq : q = cur
          · simp [hq, hcur]
          · by_cases hq' : q = cur ++ [x]
            · simp [hq', hnone]
            · simp [hq, hq']
        · cases h

/-- With valid names only a value on the way ends it. -/
theorem isSome_build_iff {valid : N → Bool} {cur xs : List N} (hvalid : ∀ x ∈ xs, valid x = true)
    (hcur : t.node cur = some .group) :
    (build valid t cur xs).isSome = true ↔ ∀ ys, ys <+: xs → ∀ v, t.node (cur ++ ys) ≠ some (.leaf v) := by
  induction xs generalizing t cur with
  | nil => simp [build, hcur]
  | cons x xs ih =>
      have hrest := fun y hy => hvalid y (List.mem_cons_of_mem x hy)
      have hsplit : (∀ ys, ys <+: x :: xs → ∀ v, t.node (cur ++ ys) ≠ some (.leaf v)) ↔
          ∀ ys, ys <+: xs → ∀ v, t.node (cur ++ [x] ++ ys) ≠ some (.leaf v) := by
        constructor
        · intro h ys hys v
          rw [← List.append_cons]
          exact h (x :: ys) (List.cons_prefix_cons.mpr ⟨rfl, hys⟩) v
        · intro h ys hys v
          cases ys with
          | nil => simp [hcur]
          | cons y ys =>
              obtain ⟨rfl, htail⟩ := List.cons_prefix_cons.mp hys
              rw [List.append_cons cur y ys]
              exact h ys htail v
      rw [hsplit, build]
      split
      · rename_i hgroup
        exact ih hrest hgroup
      · rename_i v hleaf
        simp only [Option.isSome_none, Bool.false_eq_true, false_iff]
        intro h
        exact h [] List.nil_prefix v (by simpa using hleaf)
      · rename_i hnone
        rw [if_pos (hvalid x List.mem_cons_self)]
        obtain ⟨t', hput⟩ := Option.isSome_iff_exists.mp (isSome_put (n := .group) hcur hnone)
        have hgroup : t'.node (cur ++ [x]) = some .group := by simp [node_of_put hput]
        rw [hput, Option.bind_some, ih hrest hgroup]
        apply forall_congr'
        intro ys
        cases ys with
        | nil => simp [hgroup, hnone]
        | cons y ys =>
            have hne : cur ++ [x] ++ y :: ys ≠ cur ++ [x] := by simp
            rw [node_of_put hput, if_neg hne]

/-- What `add` does: groups on the way and the value at its end come where nothing is, and nothing
else changes. -/
theorem add_spec {valid : N → Bool} {groups : List N} {v : V} {r : Tree N V × Bool}
    (h : add valid t groups x v = some r) :
    r.2 = (t.node (groups ++ [x])).isNone ∧
      ∀ q, r.1.node q = (t.node q).or
        (if q <+: groups then some .group
          else if q = groups ++ [x] then some (.leaf v) else none) := by
  obtain ⟨b, hbuild, hlast⟩ := Option.bind_eq_some_iff.mp h
  obtain ⟨hend, hgroup, hnode⟩ := build_spec t.root hbuild
  simp only [List.nil_append, List.nil_prefix, true_and] at hend hnode
  rw [hend] at hlast
  have hlonger : ¬ groups ++ [x] <+: groups := by
    intro hprefix
    have hle := hprefix.length_le
    rw [List.length_append, List.length_singleton] at hle
    omega
  have hkey : b.1.node (groups ++ [x]) = t.node (groups ++ [x]) := by
    rw [hnode]
    simp [hlonger]
  split at hlast
  · rename_i n hthere
    cases hlast
    rw [hkey] at hthere
    refine ⟨by simp [hthere], fun q => ?_⟩
    rw [hnode q]
    by_cases hq : q = groups ++ [x]
    · simp [hq, hthere]
    · simp [hq]
  · rename_i hnone
    rw [hkey] at hnone
    split at hlast
    · obtain ⟨t', hput, rfl⟩ := Option.map_eq_some_iff.mp hlast
      refine ⟨by simp [hnone], fun q => ?_⟩
      rw [node_of_put hput, hnode q]
      by_cases hq : q = groups ++ [x]
      · simp [hq, hnone, hlonger]
      · simp [hq]
    · cases hlast

/-- `add` ends only at a value on the way. -/
theorem isSome_add_iff {valid : N → Bool} {groups : List N} {v : V}
    (hvalid : ∀ y ∈ groups ++ [x], valid y = true) :
    (add valid t groups x v).isSome = true ↔
      ∀ p, p <+: groups → ∀ w, t.node p ≠ some (.leaf w) := by
  have hgroups := fun y hy => hvalid y (List.mem_append_left [x] hy)
  have hlast := hvalid x (by simp)
  have hbuild := isSome_build_iff (t := t) hgroups t.root
  simp only [List.nil_append] at hbuild
  rw [← hbuild, add]
  cases hb : build valid t [] groups with
  | none => simp
  | some b =>
      obtain ⟨_, hgroup, _⟩ := build_spec t.root hb
      simp only [Option.bind_some, Option.isSome_some, iff_true]
      split
      · rfl
      · rename_i hnone
        rw [if_pos hlast, Option.isSome_map]
        exact isSome_put hgroup hnone

/-! ### Lists of defaults -/

variable {valid : N → Bool} {es : List (Default N V)}

omit [DecidableEq N] in
/-- A default of a prefix-free list is not on the way to another, nor at its end. -/
theorem PrefixFree.tail {e : Default N V} (h : PrefixFree (e :: es)) : PrefixFree es :=
  (List.pairwise_cons.mp h).2

omit [DecidableEq N] in
theorem PrefixFree.not_prefix {e e' : Default N V} (h : PrefixFree (e :: es)) (he : e' ∈ es) :
    ¬ e.key <+: e'.key ∧ ¬ e'.key <+: e.key :=
  (List.pairwise_cons.mp h).1 e' he

omit [DecidableEq N] in
theorem Default.groups_prefix (e : Default N V) : e.groups <+: e.key := List.prefix_append _ _

omit [DecidableEq N] in
theorem Default.key_not_prefix (e : Default N V) : ¬ e.key <+: e.groups := by
  intro h
  have hle := h.length_le
  rw [Default.key, List.length_append, List.length_singleton] at hle
  omega

/-- The first default of a list, and the others, fill a tree together. -/
theorem filled_cons {e : Default N V} (h : PrefixFree (e :: es)) (q : List N) :
    filled (e :: es) q =
      (if q <+: e.groups then some .group
        else if q = e.key then some (.leaf e.value) else none).or (filled es q) := by
  by_cases hkey : q = e.key
  · have hnot := e.key_not_prefix
    simp [filled, hkey, hnot]
  · have hne : ¬ e.key = q := Ne.symm hkey
    by_cases hon : q <+: e.groups
    · have hfind : es.find? (fun e' => decide (e'.key = q)) = none := by
        rw [List.find?_eq_none]
        intro e' he hkey'
        rw [decide_eq_true_eq] at hkey'
        subst hkey'
        exact (h.not_prefix he).2 (hon.trans e.groups_prefix)
      simp [filled, hne, hfind, hon]
    · simp [filled, hne, hon, hkey]

/-- Defaults come where nothing is. -/
theorem node_adds {u : Tree N V} (hfree : PrefixFree es) (h : adds valid t es = some u)
    (q : List N) : u.node q = (t.node q).or (filled es q) := by
  induction es generalizing t with
  | nil =>
      cases h
      simp [filled]
  | cons e es ih =>
      obtain ⟨r, hadd, hrest⟩ := Option.bind_eq_some_iff.mp h
      rw [ih hfree.tail hrest, (add_spec hadd).2 q, Option.or_assoc, filled_cons hfree]
      rfl

/-- Only a value of the tree on the way to a default ends this. -/
theorem isSome_adds_iff (hfree : PrefixFree es) (hvalid : ∀ e ∈ es, ∀ y ∈ e.key, valid y = true) :
    (adds valid t es).isSome = true ↔
      ∀ e ∈ es, ∀ p, p <+: e.groups → ∀ w, t.node p ≠ some (.leaf w) := by
  induction es generalizing t with
  | nil => simp [adds]
  | cons e es ih =>
      have hadd := isSome_add_iff (t := t) (v := e.value) (hvalid e List.mem_cons_self)
      rw [List.forall_mem_cons, ← hadd, adds]
      cases hr : add valid t e.groups e.name e.value with
      | none => simp
      | some r =>
          have hnode := (add_spec hr).2
          rw [Option.bind_some, ih hfree.tail fun e' he => hvalid e' (List.mem_cons_of_mem _ he)]
          simp only [Option.isSome_some, true_and]
          apply forall₂_congr
          intro e' he
          apply forall₂_congr
          intro p hp
          apply forall_congr'
          intro w
          have hnot : p ≠ e.key := by
            rintro rfl
            exact (hfree.not_prefix he).1 (hp.trans e'.groups_prefix)
          rw [hnode p, if_neg (c := p = e.groups ++ [e.name]) hnot]
          cases t.node p with
          | none => by_cases hon : p <+: e.groups <;> simp [hon]
          | some n => simp

omit [DecidableEq N] in
/-- No default is on the way to one. -/
theorem PrefixFree.not_on (hfree : PrefixFree es) :
    ∀ e ∈ es, ∀ e' ∈ es, ¬ e'.key <+: e.groups := by
  induction es with
  | nil => simp
  | cons d es ih =>
      intro e he e' he' hon
      rcases List.mem_cons.mp he with rfl | hin
      · rcases List.mem_cons.mp he' with rfl | hin'
        · exact e'.key_not_prefix hon
        · exact (hfree.not_prefix hin').2 (hon.trans e.groups_prefix)
      · rcases List.mem_cons.mp he' with rfl | hin'
        · exact (hfree.not_prefix hin).1 (hon.trans e.groups_prefix)
        · exact ih hfree.tail e hin e' hin' hon

/-- On the way to a default there is no value of another. -/
theorem filled_ne_leaf (hfree : PrefixFree es) {e : Default N V} (he : e ∈ es) {p : List N}
    (hp : p <+: e.groups) (w : V) : filled es p ≠ some (.leaf w) := by
  unfold filled
  split
  · rename_i e' hfind
    have hkey : e'.key = p := by simpa using List.find?_some hfind
    exact absurd (hkey ▸ hp) (hfree.not_on e he e' (List.mem_of_find?_eq_some hfind))
  · split <;> simp

/-- Adding the same defaults again changes nothing. -/
theorem adds_idempotent {u : Tree N V} (hfree : PrefixFree es)
    (hvalid : ∀ e ∈ es, ∀ y ∈ e.key, valid y = true) (h : adds valid t es = some u) :
    adds valid u es = some u := by
  have hnode := node_adds hfree h
  have hsome : (adds valid t es).isSome = true := by rw [h, Option.isSome_some]
  have hclear := (isSome_adds_iff hfree hvalid).mp hsome
  have hagain : (adds valid u es).isSome = true := by
    apply (isSome_adds_iff hfree hvalid).mpr
    intro e he p hp w
    have hleaf := hclear e he p hp w
    have hfilled := filled_ne_leaf hfree he hp w
    rw [hnode p]
    cases hold : t.node p with
    | none => simpa [hold] using hfilled
    | some n => simpa [hold] using hleaf
  obtain ⟨u', hu'⟩ := Option.isSome_iff_exists.mp hagain
  have hsame : u' = u := by
    ext1
    funext q
    rw [node_adds hfree hu' q, hnode q, Option.or_assoc, Option.or_self]
  rw [hu', hsame]

end SettingsTree
