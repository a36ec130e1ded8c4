/-
Module: Gvds.Lib.Holders
Layer: Lib
Purpose: Holders that each are in a phase, and a list of the tokens they hold in their phases. The
  list and the phases agree as long as a holder that changes its phase puts its token in or takes it
  out.
Imports: Mathlib.Data.List.Basic, Mathlib.Data.List.Nodup
Trusted boundary: none
Main exports: Holds, Holds.keep, Holds.push, Holds.pop, Holds.erase, Holds.lone
-/
import Mathlib.Data.List.Basic
import Mathlib.Data.List.Nodup

variable {W P A : Type*}

/-- The list has the tokens of all holders, each once: `place w p` is the token of `w` in phase
`p`. -/
structure Holds (place : W → P → Option A) (ph : W → P) (l : List A) : Prop where
  nodup : l.Nodup
  mem : ∀ a, a ∈ l ↔ ∃ w, place w (ph w) = some a
  inj : ∀ w w' a, place w (ph w) = some a → place w' (ph w') = some a → w = w'

namespace Holds

variable {place : W → P → Option A} {ph : W → P} {l : List A} {w : W} {p' : P} {a : A}

/-- Nobody holds a token. -/
theorem nil (h : ∀ w, place w (ph w) = none) : Holds place ph [] where
  nodup := .nil
  mem a := by simp [h]
  inj w w' a hw := by simp [h] at hw

/-- A token in the list has a holder. -/
theorem holder (h : Holds place ph l) (ha : a ∈ l) : ∃ w, place w (ph w) = some a := (h.mem a).mp ha

variable [DecidableEq W]

/-- The phase changes, the token stays. -/
theorem keep (h : Holds place ph l) (hp : place w p' = place w (ph w)) :
    Holds place (Function.update ph w p') l := by
  have hplace : (fun v => place v (Function.update ph w p' v)) = fun v => place v (ph v) := by
    funext v
    by_cases hv : v = w
    · subst hv
      simpa using hp
    · simp [hv]
  constructor
  · exact h.nodup
  · intro b
    simpa only [congrFun hplace] using h.mem b
  · intro v v' b
    simpa only [congrFun hplace] using h.inj v v' b

/-- A holder without a token puts one in that nobody has. -/
theorem push (h : Holds place ph l) (hnone : place w (ph w) = none) (hsome : place w p' = some a)
    (hnew : ∀ v, place v (ph v) ≠ some a) : Holds place (Function.update ph w p') (l ++ [a]) := by
  have hother : ∀ v b, v ≠ w → (place v (Function.update ph w p' v) = some b ↔
      place v (ph v) = some b) := by
    intro v b hv
    simp [hv]
  have ha : a ∉ l := fun ha => by
    obtain ⟨v, hv⟩ := h.holder ha
    exact hnew v hv
  constructor
  · rw [List.nodup_append]
    refine ⟨h.nodup, List.nodup_singleton a, ?_⟩
    intro b hb c hc hbc
    rw [List.mem_singleton] at hc
    exact ha (hc ▸ hbc ▸ hb)
  · intro b
    simp only [List.mem_append, List.mem_singleton, h.mem]
    constructor
    · rintro (⟨v, hv⟩ | rfl)
      · have hvw : v ≠ w := fun hvw => by simp [hvw, hnone] at hv
        exact ⟨v, (hother v b hvw).mpr hv⟩
      · exact ⟨w, by simpa using hsome⟩
    · rintro ⟨v, hv⟩
      by_cases hvw : v = w
      · subst hvw
        right
        simpa [hsome, eq_comm] using hv
      · exact .inl ⟨v, (hother v b hvw).mp hv⟩
  · intro v v' b hv hv'
    by_cases hvw : v = w <;> by_cases hvw' : v' = w
    · rw [hvw, hvw']
    · subst hvw
      rw [Function.update_self, hsome, Option.some_inj] at hv
      exact absurd ((hother v' b hvw').mp hv') (hv ▸ hnew v')
    · subst hvw'
      rw [Function.update_self, hsome, Option.some_inj] at hv'
      exact absurd ((hother v b hvw).mp hv) (hv' ▸ hnew v)
    · exact h.inj v v' b ((hother v b hvw).mp hv) ((hother v' b hvw').mp hv')

/-- A holder takes its token out, wherever it stands. -/
theorem erase [BEq A] [LawfulBEq A] (h : Holds place ph l) (hsome : place w (ph w) = some a)
    (hnone : place w p' = none) : Holds place (Function.update ph w p') (l.erase a) := by
  have hother : ∀ v b, place v (Function.update ph w p' v) = some b ↔
      v ≠ w ∧ place v (ph v) = some b := by
    intro v b
    by_cases hv : v = w
    · subst hv
      simp [hnone]
    · simp [hv]
  constructor
  · exact h.nodup.erase a
  · intro b
    simp only [h.nodup.mem_erase_iff, h.mem, hother]
    constructor
    · rintro ⟨hba, v, hv⟩
      exact ⟨v, fun hvw => hba (by rw [hvw, hsome] at hv; exact (Option.some.inj hv).symm), hv⟩
    · rintro ⟨v, hvw, hv⟩
      exact ⟨fun hba => hvw (h.inj v w a (hba ▸ hv) hsome), v, hv⟩
  · intro v v' b hv hv'
    exact h.inj v v' b ((hother v b).mp hv).2 ((hother v' b).mp hv').2

/-- A holder takes its token out at the head. -/
theorem pop (h : Holds place ph (a :: l)) (hsome : place w (ph w) = some a)
    (hnone : place w p' = none) : Holds place (Function.update ph w p') l := by
  classical
  have herase := h.erase hsome hnone
  rwa [List.erase_cons_head] at herase

/-- The only holder changes its token, or gives it back. -/
theorem lone (h : Holds place ph [a]) (hsome : place w (ph w) = some a) :
    Holds place (Function.update ph w p') (place w p').toList := by
  have hother : ∀ v, v ≠ w → place v (ph v) = none := by
    intro v hv
    rw [Option.eq_none_iff_forall_ne_some]
    intro b hb
    obtain rfl : b = a := List.mem_singleton.mp ((h.mem b).mpr ⟨v, hb⟩)
    exact hv (h.inj v w b hb hsome)
  have hholder : ∀ v b, place v (Function.update ph w p' v) = some b ↔
      v = w ∧ place w p' = some b := by
    intro v b
    by_cases hv : v = w
    · subst hv
      simp
    · simp [hv, hother v hv]
  constructor
  · cases place w p' <;> simp
  · intro b
    simp only [hholder, Option.mem_toList, exists_eq_left]
  · intro v v' b hv hv'
    rw [((hholder v b).mp hv).1, ((hholder v' b).mp hv').1]

end Holds
