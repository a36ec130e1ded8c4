/-
Module: Gvds.Lib.StackScan
Layer: Lib
Purpose: Scans of a tree of names with a stack: the location on top is taken off, and its children
  are put on. A scan that comes to an end comes to exactly the locations that can be reached from
  those on the stack, to each of them once, and to none after one of its descendants. It comes to an
  end if something decreases from every location to its children.
Imports: Mathlib.Data.List.Infix, Mathlib.Data.List.Nodup, Mathlib.Data.List.Perm.Subperm
Trusted boundary: none
Main exports: StackScan.Visits, StackScan.Reaches, StackScan.exists_visits, Visits.mem_iff,
  Visits.pairwise, Visits.sublist
-/
import Mathlib.Data.List.Infix
import Mathlib.Data.List.Nodup
import Mathlib.Data.List.Perm.Subperm

namespace StackScan

variable {κ : Type*}

/-- The locations directly below `d`; `children` gives their last components. -/
def childrenOf (children : List κ → List κ) (d : List κ) : List (List κ) :=
  (children d).map fun x => x :: d

/-- A scan that starts with some locations on its stack, the top first, takes off certain locations
in this order until the stack is empty. -/
inductive Visits (children : List κ → List κ) : List (List κ) → List (List κ) → Prop
  | done : Visits children [] []
  | take {d : List κ} {dirs visited : List (List κ)} :
      Visits children (childrenOf children d ++ dirs) visited →
        Visits children (d :: dirs) (d :: visited)

/-- A location is a child of a child, and so on, of another one. -/
inductive Reaches (children : List κ → List κ) (base : List κ) : List κ → Prop
  | start : Reaches children base base
  | child {d : List κ} {x : κ} :
      Reaches children base d → x ∈ children d → Reaches children base (x :: d)

/-- No two of the locations lie one below the other. -/
def Apart (dirs : List (List κ)) : Prop := dirs.Pairwise fun a b => ¬ a <:+ b ∧ ¬ b <:+ a

variable {children : List κ → List κ}

theorem mem_childrenOf {d p : List κ} : p ∈ childrenOf children d ↔ ∃ x ∈ children d, x :: d = p :=
  List.mem_map

namespace Reaches

theorem suffix {base p : List κ} (h : Reaches children base p) : base <:+ p := by
  induction h with
  | start => exact List.suffix_rfl
  | child _ _ ih => exact ih.trans (List.suffix_cons _ _)

/-- What a child reaches, its parent reaches. -/
theorem of_child {d p : List κ} {x : κ} (hx : x ∈ children d)
    (h : Reaches children (x :: d) p) : Reaches children d p := by
  induction h with
  | start => exact .child .start hx
  | child _ hy ih => exact .child ih hy

/-- The first step of a way down. -/
theorem eq_or_child {d p : List κ} (h : Reaches children d p) :
    p = d ∨ ∃ x ∈ children d, Reaches children (x :: d) p := by
  induction h with
  | start => exact Or.inl rfl
  | child hd hx ih =>
      right
      cases ih with
      | inl heq =>
          subst heq
          exact ⟨_, hx, .start⟩
      | inr hchild =>
          obtain ⟨y, hy, hreach⟩ := hchild
          exact ⟨y, hy, .child hreach hx⟩

end Reaches

/-! ### Scans end -/

namespace Visits

theorem append {dirs dirs' visited visited' : List (List κ)} (h : Visits children dirs visited)
    (h' : Visits children dirs' visited') :
    Visits children (dirs ++ dirs') (visited ++ visited') := by
  induction h with
  | done => exact h'
  | take _ ih =>
      apply Visits.take
      simpa using ih

end Visits

/-- Scans of single locations make up a scan of all of them. -/
theorem exists_visits_of_forall {dirs : List (List κ)}
    (h : ∀ d ∈ dirs, ∃ visited, Visits children [d] visited) :
    ∃ visited, Visits children dirs visited := by
  induction dirs with
  | nil => exact ⟨[], .done⟩
  | cons d dirs ih =>
      obtain ⟨front, hfront⟩ := h d List.mem_cons_self
      obtain ⟨rest, hrest⟩ := ih fun e he => h e (List.mem_cons_of_mem d he)
      exact ⟨front ++ rest, hfront.append hrest⟩

/-- If a measure decreases from every location that is reached to its children, the scan ends. -/
theorem exists_visits {base : List κ} {measure : List κ → Nat}
    (h : ∀ d x, Reaches children base d → x ∈ children d → measure (x :: d) < measure d) :
    ∃ visited, Visits children [base] visited := by
  have hall : ∀ n d, measure d = n → Reaches children base d →
      ∃ visited, Visits children [d] visited := by
    intro n
    induction n using Nat.strong_induction_on with
    | _ n ih =>
        intro d hn hd
        have hbelow : ∃ visited, Visits children (childrenOf children d) visited := by
          apply exists_visits_of_forall
          intro p hp
          obtain ⟨x, hx, rfl⟩ := mem_childrenOf.mp hp
          exact ih (measure (x :: d)) (hn ▸ h d x hd hx) (x :: d) rfl (.child hd hx)
        obtain ⟨visited, hvisited⟩ := hbelow
        refine ⟨d :: visited, .take ?_⟩
        rw [List.append_nil]
        exact hvisited
  exact hall (measure base) base rfl .start

/-! ### What a scan visits -/

namespace Visits

variable {dirs visited : List (List κ)}

/-- A scan visits what can be reached. -/
theorem mem_iff (h : Visits children dirs visited) {p : List κ} :
    p ∈ visited ↔ ∃ d ∈ dirs, Reaches children d p := by
  induction h with
  | done => simp
  | @take d dirs visited _ ih =>
      rw [List.mem_cons, ih]
      constructor
      · rintro (rfl | ⟨c, hc, hreach⟩)
        · exact ⟨p, List.mem_cons_self, .start⟩
        · cases List.mem_append.mp hc with
          | inl hbelow =>
              obtain ⟨x, hx, rfl⟩ := mem_childrenOf.mp hbelow
              exact ⟨d, List.mem_cons_self, hreach.of_child hx⟩
          | inr hrest => exact ⟨c, List.mem_cons_of_mem d hrest, hreach⟩
      · rintro ⟨c, hc, hreach⟩
        cases List.mem_cons.mp hc with
        | inl heq =>
            subst heq
            cases hreach.eq_or_child with
            | inl hp => exact Or.inl hp
            | inr hchild =>
                obtain ⟨x, hx, hreach'⟩ := hchild
                exact Or.inr
                  ⟨x :: c, List.mem_append_left _ (mem_childrenOf.mpr ⟨x, hx, rfl⟩), hreach'⟩
        | inr hrest => exact Or.inr ⟨c, List.mem_append_right _ hrest, hreach⟩

/-- What is on the stack is visited, in the order of the stack. -/
theorem sublist (h : Visits children dirs visited) : dirs.Sublist visited := by
  induction h with
  | done => exact List.Sublist.refl []
  | take _ ih => exact ((List.sublist_append_right _ _).trans ih).cons_cons _

/-- Children of one location are apart. -/
theorem apart_childrenOf (hnodup : ∀ d, (children d).Nodup) (d : List κ) :
    Apart (childrenOf children d) := by
  apply List.Pairwise.map _ _ (hnodup d)
  intro x y hne
  constructor
  · intro hsuffix
    exact hne (List.cons.inj (hsuffix.eq_of_length rfl)).1
  · intro hsuffix
    exact hne (List.cons.inj (hsuffix.eq_of_length rfl)).1.symm

/-- A stack stays apart when the top is replaced by its children. -/
theorem apart_take (hnodup : ∀ d, (children d).Nodup) {d : List κ} {dirs : List (List κ)}
    (h : Apart (d :: dirs)) : Apart (childrenOf children d ++ dirs) := by
  obtain ⟨htop, hrest⟩ := List.pairwise_cons.mp h
  apply List.pairwise_append.mpr
  refine ⟨apart_childrenOf hnodup d, hrest, ?_⟩
  intro p hp q hq
  obtain ⟨x, _, rfl⟩ := mem_childrenOf.mp hp
  obtain ⟨hdq, hqd⟩ := htop q hq
  constructor
  · intro hsuffix
    exact hdq ((List.suffix_cons x d).trans hsuffix)
  · intro hsuffix
    cases List.suffix_cons_iff.mp hsuffix with
    | inl heq => exact hdq (heq ▸ List.suffix_cons x d)
    | inr hlow => exact hqd hlow

/-- No location comes after itself or after one of its descendants. -/
theorem pairwise (hnodup : ∀ d, (children d).Nodup) (h : Visits children dirs visited)
    (hapart : Apart dirs) : visited.Pairwise fun a b => ¬ b <:+ a := by
  induction h with
  | done => exact List.Pairwise.nil
  | @take d dirs visited hrun ih =>
      apply List.Pairwise.cons
      · intro b hb hba
        obtain ⟨c, hc, hreach⟩ := hrun.mem_iff.mp hb
        have hca : c <:+ d := hreach.suffix.trans hba
        cases List.mem_append.mp hc with
        | inl hbelow =>
            obtain ⟨x, _, rfl⟩ := mem_childrenOf.mp hbelow
            have hlen := hca.length_le
            exact Nat.lt_irrefl _ hlen
        | inr hrest => exact ((List.pairwise_cons.mp hapart).1 c hrest).2 hca
      · exact ih (apart_take hnodup hapart)

/-- No location is visited twice. -/
theorem nodup (hnodup : ∀ d, (children d).Nodup) (h : Visits children dirs visited)
    (hapart : Apart dirs) : visited.Nodup :=
  (h.pairwise hnodup hapart).imp fun {a b} hlater (heq : a = b) => hlater (heq ▸ List.suffix_rfl)

end Visits

theorem apart_singleton (d : List κ) : Apart [d] := List.pairwise_singleton _ d

/-- What a scan finds at the locations that it visits, each with a name of its own in its location:
nothing is found twice, and nothing after something below it. -/
theorem pairwise_found {names : List κ → List κ} (hnames : ∀ d, (names d).Nodup)
    {visited : List (List κ)} (h : visited.Pairwise fun a b => ¬ b <:+ a) :
    (visited.flatMap (childrenOf names)).Pairwise fun a b => ¬ b <:+ a := by
  apply List.pairwise_flatMap.mpr
  constructor
  · intro d _
    exact (Visits.apart_childrenOf hnames d).imp And.right
  · refine h.imp ?_
    intro d e hde p hp q hq
    obtain ⟨x, _, rfl⟩ := mem_childrenOf.mp hp
    obtain ⟨y, _, rfl⟩ := mem_childrenOf.mp hq
    intro hsuffix
    cases List.suffix_cons_iff.mp hsuffix with
    | inl heq => exact hde ((List.cons.inj heq).2 ▸ List.suffix_rfl)
    | inr hlow => exact hde ((List.suffix_cons y e).trans hlow)

end StackScan
