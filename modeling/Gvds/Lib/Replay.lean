/-
Module: Gvds.Lib.Replay
Layer: Lib
Purpose: Logs of actions that are replayed on a state. An action that commutes with all that stand
  before it may be replayed first. Actions on a family of cells commute when neither writes what the
  other reads or writes.
Imports: Mathlib.Data.Set.Basic
Trusted boundary: none
Main exports: Replay.Commute, Replay.foldl_move, Replay.Within, Replay.Within.comm
-/
import Mathlib.Data.Set.Basic

namespace Replay

/-! ### Logs -/

section Logs

variable {σ α : Type*} {apply : σ → α → σ}

/-- Two actions have the same effect in both orders. -/
def Commute (apply : σ → α → σ) (a b : α) : Prop :=
  ∀ s, apply (apply s a) b = apply (apply s b) a

/-- An action that commutes with everything before it may be replayed first. -/
theorem foldl_move {log rest : List α} {a : α} (h : ∀ b ∈ log, Commute apply b a) (s : σ) :
    (log ++ a :: rest).foldl apply s = (log ++ rest).foldl apply (apply s a) := by
  induction log generalizing s with
  | nil => rfl
  | cons b log ih =>
      rw [List.cons_append, List.foldl_cons, ih fun c hc => h c (List.mem_cons_of_mem _ hc),
        h b List.mem_cons_self, List.cons_append, List.foldl_cons]

end Logs

/-! ### Footprints -/

section Footprints

variable {κ ν : Type*}

/-- A transformation of a family of cells changes the cells of `W` only, and what it writes there
depends on the cells of `R` only. -/
structure Within (R W : Set κ) (f : (κ → ν) → κ → ν) : Prop where
  frame : ∀ s x, x ∉ W → f s x = s x
  depends : ∀ s t, (∀ x ∈ R, s x = t x) → ∀ x ∈ W, f s x = f t x

/-- Transformations commute when neither writes what the other reads or writes. -/
theorem Within.comm {R W R' W' : Set κ} {f g : (κ → ν) → κ → ν} (hf : Within R W f)
    (hg : Within R' W' g) (hww : ∀ x ∈ W, x ∉ W') (hwr : ∀ x ∈ W, x ∉ R') (hrw : ∀ x ∈ W', x ∉ R)
    (s : κ → ν) : g (f s) = f (g s) := by
  have hread : ∀ x ∈ R, s x = g s x := fun x hx =>
    (hg.frame s x fun hx' => hrw x hx' hx).symm
  have hread' : ∀ x ∈ R', f s x = s x := fun x hx =>
    hf.frame s x fun hx' => hwr x hx' hx
  funext x
  by_cases hx : x ∈ W
  · have hx' : x ∉ W' := hww x hx
    rw [hg.frame _ x hx', hf.depends s (g s) hread x hx]
  · rw [hf.frame _ x hx]
    by_cases hx' : x ∈ W'
    · exact hg.depends (f s) s hread' x hx'
    · rw [hg.frame _ x hx', hg.frame _ x hx', hf.frame _ x hx]

/-- Transformations of families that agree on a part agree on that part again, if the footprint lies
within it. -/
theorem Within.congr_on {R W P : Set κ} {f : (κ → ν) → κ → ν} (hf : Within R W f) (hR : R ⊆ P)
    {s t : κ → ν} (h : ∀ x ∈ P, s x = t x) : ∀ x ∈ P, f s x = f t x := by
  intro x hx
  by_cases hW : x ∈ W
  · exact hf.depends s t (fun y hy => h y (hR hy)) x hW
  · rw [hf.frame _ x hW, hf.frame _ x hW, h x hx]

end Footprints

end Replay
