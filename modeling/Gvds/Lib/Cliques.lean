/-
Module: Gvds.Lib.Cliques
Layer: Lib
Purpose: Groups in which every member lists every other one: rows of neighbours that form cliques of
  a bounded size. To join a newcomer to a member's group, each member is linked with it both ways;
  this yields cliques again iff the newcomer is somebody else and on its own.
Imports: Mathlib.Logic.Function.Basic, Mathlib.Data.List.Perm.Subperm, Mathlib.Data.List.Nodup
Trusted boundary: none
Main exports: Clique, link, join, mem_join, nodup_join, clique_join_iff
-/
import Mathlib.Logic.Function.Basic
import Mathlib.Data.List.Perm.Subperm
import Mathlib.Data.List.Nodup

namespace Cliques

variable {A : Type*} [DecidableEq A]

/-- Nobody lists itself, listing is mutual and goes on to the neighbours' neighbours, and no list is
longer than `n`. -/
structure Clique (n : Nat) (R : A → List A) : Prop where
  irrefl : ∀ a, a ∉ R a
  symm : ∀ a b, b ∈ R a → a ∈ R b
  trans : ∀ a b c, b ∈ R a → c ∈ R b → a ≠ c → c ∈ R a
  size : ∀ a, (R a).length ≤ n

/-- Put `b` into the list of `a` unless it is there. -/
def link (R : A → List A) (a b : A) : A → List A :=
  Function.update R a (if b ∈ R a then R a else R a ++ [b])

/-- Link `b` with each of the members both ways. -/
def linkAll (b : A) : List A → (A → List A) → A → List A
  | [], R => R
  | x :: xs, R => linkAll b xs (link (link R x b) b x)

/-- Join `b` to the group of `a`. -/
def join (R : A → List A) (a b : A) : A → List A := link (link (linkAll b (R a) R) a b) b a

@[simp] theorem mem_link {R : A → List A} {a b u z : A} :
    z ∈ link R a b u ↔ z ∈ R u ∨ (u = a ∧ z = b) := by
  unfold link
  by_cases hu : u = a
  · subst hu
    rw [Function.update_self]
    split
    · rename_i hmem
      constructor
      · exact .inl
      · rintro (hz | ⟨-, rfl⟩)
        · exact hz
        · exact hmem
    · simp
  · simp [hu]

theorem nodup_link {R : A → List A} (h : ∀ u, (R u).Nodup) (a b u : A) : (link R a b u).Nodup := by
  unfold link
  by_cases hu : u = a
  · subst hu
    rw [Function.update_self]
    split
    · exact h u
    · rename_i hmem
      exact List.nodup_append.mpr ⟨h u, List.nodup_singleton b, fun x hx y hy hxy => by
        rw [List.mem_singleton] at hy
        exact hmem (hy ▸ hxy ▸ hx)⟩
  · rw [Function.update_of_ne hu]
    exact h u

theorem mem_linkAll {b : A} {xs : List A} {R : A → List A} {u z : A} :
    z ∈ linkAll b xs R u ↔ z ∈ R u ∨ (u ∈ xs ∧ z = b) ∨ (u = b ∧ z ∈ xs) := by
  induction xs generalizing R with
  | nil => simp [linkAll]
  | cons x xs ih =>
      rw [linkAll, ih]
      simp only [mem_link, List.mem_cons]
      tauto

theorem nodup_linkAll {b : A} {xs : List A} {R : A → List A} (h : ∀ u, (R u).Nodup) (u : A) :
    (linkAll b xs R u).Nodup := by
  induction xs generalizing R with
  | nil => exact h u
  | cons x xs ih => exact ih (nodup_link (nodup_link h x b) b x)

/-- After a join the members of the group of `a` list `b`, which lists them. -/
theorem mem_join {R : A → List A} {a b u z : A} :
    z ∈ join R a b u ↔
      z ∈ R u ∨ ((u ∈ R a ∨ u = a) ∧ z = b) ∨ (u = b ∧ (z ∈ R a ∨ z = a)) := by
  unfold join
  simp only [mem_link, mem_linkAll]
  tauto

theorem nodup_join {R : A → List A} (h : ∀ u, (R u).Nodup) (a b u : A) : (join R a b u).Nodup :=
  nodup_link (nodup_link (nodup_linkAll h) a b) b a u

section

variable {n : Nat} {R : A → List A} {a b : A}

/-- The members of a group list as many as each other. -/
theorem Clique.length_le (h : Clique n R) (hnodup : ∀ u, (R u).Nodup) {u : A} (hu : u ∈ R a) :
    (R u).length ≤ (R a).length := by
  have hsub : R u ⊆ a :: (R a).erase u := by
    intro z hz
    by_cases hza : z = a
    · exact hza ▸ List.mem_cons_self
    · have hzu : z ≠ u := fun hzu => h.irrefl u (hzu ▸ hz)
      have hmem : z ∈ R a := h.trans a u z hu hz (Ne.symm hza)
      exact List.mem_cons_of_mem a (((hnodup a).mem_erase_iff).mpr ⟨hzu, hmem⟩)
  have hlen := ((hnodup u).subperm hsub).length_le
  have hpos : 0 < (R a).length := List.length_pos_of_mem hu
  rw [List.length_cons, List.length_erase_of_mem hu] at hlen
  omega

omit [DecidableEq A] in
/-- Nobody lists a newcomer on its own. -/
theorem Clique.not_mem_of_nil (h : Clique n R) (hb : R b = []) (u : A) : b ∉ R u := by
  intro hu
  have hu' := h.symm u b hu
  rw [hb] at hu'
  cases hu'

/-- The members of a group and their neighbours are of the group. -/
theorem Clique.mem_group (h : Clique n R) {x y : A} (hx : x ∈ R a ∨ x = a) (hy : y ∈ R x) :
    y ∈ R a ∨ y = a := by
  rcases hx with hx | rfl
  · by_cases hya : y = a
    · exact .inr hya
    · exact .inl (h.trans a x y hx hy (Ne.symm hya))
  · exact .inl hy

omit [DecidableEq A] in
/-- Two members of a group list each other. -/
theorem Clique.mem_of_group (h : Clique n R) {x y : A} (hx : x ∈ R a ∨ x = a)
    (hy : y ∈ R a ∨ y = a) (hxy : x ≠ y) : y ∈ R x := by
  rcases hx with hx | rfl
  · rcases hy with hy | rfl
    · exact h.trans x a y (h.symm a x hx) hy hxy
    · exact h.symm y x hx
  · rcases hy with hy | rfl
    · exact hy
    · exact absurd rfl hxy

/-- A path that uses a new link lies in the old group of `a` with `b`. -/
theorem Clique.trans_join (h : Clique n R) (hab : a ≠ b) (hb : R b = []) {u v z : A}
    (hv : v ∈ join R a b u) (hz : z ∈ join R a b v) (huz : u ≠ z) : z ∈ join R a b u := by
  have hnob := h.not_mem_of_nil hb
  rw [mem_join] at hv hz ⊢
  rcases hv with hv | ⟨hu, rfl⟩ | ⟨rfl, hv⟩
  · rcases hz with hz | ⟨hv', rfl⟩ | ⟨rfl, -⟩
    · exact .inl (h.trans u v z hv hz huz)
    · exact .inr (.inl ⟨h.mem_group hv' (h.symm u v hv), rfl⟩)
    · exact absurd hv (hnob u)
  · rcases hz with hz | ⟨hv', rfl⟩ | ⟨-, hz⟩
    · rw [hb] at hz
      cases hz
    · exact .inr (.inl ⟨hu, rfl⟩)
    · exact .inl (h.mem_of_group hu hz huz)
  · rcases hz with hz | ⟨-, rfl⟩ | ⟨rfl, -⟩
    · exact .inr (.inr ⟨rfl, h.mem_group hv hz⟩)
    · exact absurd rfl huz
    · exact absurd hv (fun hv => hv.elim (hnob a) (Ne.symm hab))

/-- No list gets longer than one more than that of `a`. -/
theorem Clique.length_join_le (h : Clique n R) (hnodup : ∀ u, (R u).Nodup)
    (hroom : (R a).length < n) (hab : a ≠ b) (hb : R b = []) (u : A) :
    (Cliques.join R a b u).length ≤ n := by
  have hlen : ∀ l : List A, Cliques.join R a b u ⊆ l →
      (Cliques.join R a b u).length ≤ l.length :=
    fun l hl => ((nodup_join hnodup a b u).subperm hl).length_le
  by_cases hu : u = b
  · subst hu
    have hle := hlen (a :: R a) fun z hz => by
      rcases mem_join.mp hz with hz | ⟨hu, rfl⟩ | ⟨-, hz | rfl⟩
      · rw [hb] at hz
        cases hz
      · exact absurd hu (fun hu => hu.elim (h.not_mem_of_nil hb a) (Ne.symm hab))
      · exact List.mem_cons_of_mem a hz
      · exact List.mem_cons_self
    rw [List.length_cons] at hle
    omega
  · by_cases hmem : u ∈ R a ∨ u = a
    · have hle := hlen (b :: R u) fun z hz => by
        rcases mem_join.mp hz with hz | ⟨-, rfl⟩ | ⟨rfl, -⟩
        · exact List.mem_cons_of_mem b hz
        · exact List.mem_cons_self
        · exact absurd rfl hu
      have hRu : (R u).length ≤ (R a).length := by
        rcases hmem with hmem | rfl
        · exact h.length_le hnodup hmem
        · exact Nat.le_refl _
      rw [List.length_cons] at hle
      omega
    · have hle := hlen (R u) fun z hz => by
        rcases mem_join.mp hz with hz | ⟨hu', -⟩ | ⟨rfl, -⟩
        · exact hz
        · exact absurd hu' hmem
        · exact absurd rfl hu
      exact Nat.le_trans hle (h.size u)

/-- A newcomer on its own joins a group that has room. -/
theorem Clique.join (h : Clique n R) (hnodup : ∀ u, (R u).Nodup) (hroom : (R a).length < n)
    (hab : a ≠ b) (hb : R b = []) : Clique n (join R a b) := by
  have hba : b ∉ R a := h.not_mem_of_nil hb a
  constructor
  · intro u hu
    rcases mem_join.mp hu with hold | ⟨hgroup, rfl⟩ | ⟨rfl, hgroup⟩
    · exact h.irrefl u hold
    · exact hgroup.elim hba (Ne.symm hab)
    · exact hgroup.elim hba (Ne.symm hab)
  · intro u z hz
    rw [mem_join] at hz ⊢
    rcases hz with hz | ⟨hu, rfl⟩ | ⟨rfl, hz⟩
    · exact .inl (h.symm u z hz)
    · exact .inr (.inr ⟨rfl, hu⟩)
    · exact .inr (.inl ⟨hz, rfl⟩)
  · exact fun u v z => h.trans_join hab hb
  · exact h.length_join_le hnodup hroom hab hb

/-- Where a join yields cliques, the newcomer is somebody else and was on its own. -/
theorem Clique.of_join (h : Clique n R) (hjoin : Clique n (Cliques.join R a b)) :
    a ≠ b ∧ R b = [] := by
  have hab : a ≠ b := by
    rintro rfl
    exact hjoin.irrefl a (mem_join.mpr (.inr (.inl ⟨.inr rfl, rfl⟩)))
  refine ⟨hab, List.eq_nil_iff_forall_not_mem.mpr fun x hx => ?_⟩
  by_cases hxa : x = a
  · -- `b` is in the group already: it is linked with itself
    have hba : b ∈ R a := h.symm b a (hxa ▸ hx)
    exact hjoin.irrefl b (mem_join.mpr (.inr (.inl ⟨.inl hba, rfl⟩)))
  · -- `x` is in another group with `b` and does not come to list `a`
    have hax : a ∈ Cliques.join R a b x := by
      refine hjoin.trans x b a ?_ ?_ hxa
      · exact mem_join.mpr (.inl (h.symm b x hx))
      · exact mem_join.mpr (.inr (.inr ⟨rfl, .inr rfl⟩))
    rcases mem_join.mp hax with hax | ⟨-, rfl⟩ | ⟨rfl, -⟩
    · have hba : a ∈ R b := h.trans b x a hx hax (Ne.symm hab)
      exact hjoin.irrefl b (mem_join.mpr (.inr (.inl ⟨.inl (h.symm b a hba), rfl⟩)))
    · exact hab rfl
    · exact h.irrefl x hx

/-- A join to a group with room yields cliques iff the newcomer is somebody else, on its own. -/
theorem clique_join_iff (h : Clique n R) (hnodup : ∀ u, (R u).Nodup) (hroom : (R a).length < n) :
    Clique n (join R a b) ↔ a ≠ b ∧ R b = [] :=
  ⟨h.of_join, fun ⟨hab, hb⟩ => h.join hnodup hroom hab hb⟩

end

end Cliques
