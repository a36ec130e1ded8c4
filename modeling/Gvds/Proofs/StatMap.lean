/-
Module: Gvds.Proofs.StatMap
Layer: Proofs
Purpose: The stat cache as a bounded map, over all histories of its calls. What it says of a path is
  the latest set_stat since the path was expired, unless that one was refused; its counter is the
  number of entries and never above the limit, where a limit below 0 counts as 0.
Imports: Gvds.Lib.Machine, Gvds.Client.StatCache, Mathlib.Data.Set.Card
Trusted boundary: as Gvds.Client.StatCache
Main exports: latest, expected, entries, Refines, cache_refines_map, limit_may_be_negative
-/
import Gvds.Lib.Machine
import Gvds.Client.StatCache
import Mathlib.Data.Set.Card

namespace Gvds.StatCache.ClientCache

/-! ### The map -/

/-- The latest `set_stat` of a path since it was expired, and what it returned; the newest event comes
first. -/
def latest (path : PathName) : List CacheEvent → Option (Option Stat × Bool)
  | [] => none
  | .get_stat _ _ :: history => latest path history
  | .set_stat p st_buf res :: history => if p = path then some (st_buf, res) else latest path history
  | .expire_stat p :: history => if p = path then none else latest path history

/-- What a `get_stat` finds after it. -/
def expected : Option (Option Stat × Bool) → Status
  | none => .notFound
  | some (none, _) => .foundMissing
  | some (some st, true) => .found st
  | some (some _, false) => .notFound

/-- The entries in `cached`. -/
def entries (c : ClientCache) : Set PathName := {p | (c.cached p).isSome = true}

/-- The counter is the number of entries. -/
def Counts (c : ClientCache) : Prop := c.entries.Finite ∧ c.stat_cache_ct = c.entries.ncard

/-- The cache with the calls so far, the newest first. -/
abbrev Recorded := ClientCache × List CacheEvent

/-- One more call. -/
def step (max_stat_cache_ct : Int) (s : Recorded) (a : CacheCall) : Option Recorded :=
  some ((s.1.perform max_stat_cache_ct a).1, (s.1.perform max_stat_cache_ct a).2 :: s.2)

/-- After `ClientCache::start`. -/
def started : Recorded := (empty, [])

/-- A `get_stat` returned what was expected. -/
def Right : List CacheEvent → Prop
  | .get_stat path res :: history => res = expected (latest path history)
  | _ => True

/-- The cache is the map that its history makes: it counts its entries, stays below the limit, finds
what is expected now and found what was expected by the last call, and refuses only when it is
full. -/
structure Refines (limit : Int) (max_stat_cache_ct : Int) (s : Recorded) : Prop where
  counts : Counts s.1
  nonneg : 0 ≤ s.1.stat_cache_ct
  limited : s.1.stat_cache_ct ≤ limit
  lookup_eq : ∀ path, s.1.lookup path = expected (latest path s.2)
  right : Right s.2
  refused : ∀ path st_buf history, s.2 = .set_stat path st_buf false :: history →
    max_stat_cache_ct ≤ s.1.stat_cache_ct

/-! ### One call on one path -/

section Lookup

variable (m : Int) (c : ClientCache) (p q : PathName) (st : Stat)

theorem lookup_set_missing :
    (c.set_missing p).lookup q = if p = q then .foundMissing else c.lookup q := by
  by_cases h : p = q
  · subst h
    simp [lookup, set_missing]
  · simp [lookup, set_missing, h, Ne.symm h]

theorem lookup_expire_stat :
    (c.expire_stat p).lookup q = if p = q then .notFound else c.lookup q := by
  by_cases h : p = q
  · subst h
    simp [lookup, expire_stat]
  · simp [lookup, expire_stat, h, Ne.symm h]

/-- A stat is stored over an old one, or where there is room. -/
theorem stores_eq : c.stores m p = decide ((c.cached p).isSome = true ∨ c.stat_cache_ct < m) := by
  cases hcached : c.cached p with
  | some st' => simp [stores, lookup, hcached]
  | none =>
      rcases Int.lt_or_le c.stat_cache_ct m with hroom | hfull
      · simp [stores, lookup, hcached, hroom]
      · simp [stores, lookup, hcached, hfull]

theorem set_stat_eq :
    c.set_stat m p st =
      if c.stores m p then
        { missing := Function.update c.missing p false
          cached := Function.update c.cached p (some st)
          stat_cache_ct :=
            if (c.cached p).isSome then c.stat_cache_ct else c.stat_cache_ct + 1 }
      else { c with missing := Function.update c.missing p false } := by
  rw [stores_eq]
  cases hcached : c.cached p with
  | some st' => simp [set_stat, lookup, hcached]
  | none =>
      by_cases hfull : m ≤ c.stat_cache_ct
      · simp [set_stat, lookup, hcached, hfull]
      · simp [set_stat, lookup, hcached, hfull, Int.not_le.mp hfull]

theorem lookup_set_stat :
    (c.set_stat m p st).lookup q =
      if p = q then (if c.stores m p then .found st else .notFound) else c.lookup q := by
  rw [set_stat_eq]
  by_cases hstores : c.stores m p = true
  · rw [if_pos hstores]
    by_cases h : p = q
    · subst h
      simp [lookup, hstores]
    · simp [lookup, h, Ne.symm h]
  · rw [if_neg hstores]
    by_cases h : p = q
    · subst h
      have hnone : c.cached p = none := by
        rw [stores_eq, decide_eq_true_eq, not_or, Option.not_isSome_iff_eq_none] at hstores
        exact hstores.1
      simp [lookup, hnone, hstores]
    · simp [lookup, h, Ne.symm h]

/-- What a call does to what the cache finds is what it does to the latest `set_stat`. -/
theorem lookup_perform {history : List CacheEvent}
    (h : ∀ path, c.lookup path = expected (latest path history)) (a : CacheCall) :
    (c.perform m a).1.lookup q = expected (latest q ((c.perform m a).2 :: history)) := by
  cases a with
  | get_stat path => exact h q
  | expire_stat path =>
      simp only [perform, lookup_expire_stat, latest]
      split
      · rfl
      · exact h q
  | set_stat path st_buf =>
      cases st_buf with
      | none =>
          simp only [perform, lookup_set_missing, latest]
          split
          · rfl
          · exact h q
      | some st =>
          simp only [perform, lookup_set_stat, latest]
          split
          · cases c.stores m path <;> rfl
          · exact h q

end Lookup

/-! ### The counter -/

section Counter

variable {m : Int} {c : ClientCache} {p : PathName}

theorem Counts.set_missing (h : Counts c) (p : PathName) : Counts (c.set_missing p) := h

/-- One more entry, or the same ones. -/
theorem Counts.set_stat (h : Counts c) (st : Stat) : Counts (c.set_stat m p st) := by
  obtain ⟨hfinite, hct⟩ := h
  rw [set_stat_eq]
  split
  · have hinsert : {q | (Function.update c.cached p (some st) q).isSome = true} =
        insert p (entries c) := by
      ext q
      by_cases hq : q = p
      · subst hq
        simp
      · simp [entries, hq]
    change Set.Finite {q | (Function.update c.cached p (some st) q).isSome = true} ∧
      (if (c.cached p).isSome then c.stat_cache_ct else c.stat_cache_ct + 1) =
        ({q | (Function.update c.cached p (some st) q).isSome = true}.ncard : Int)
    rw [hinsert]
    refine ⟨hfinite.insert p, ?_⟩
    by_cases hold : p ∈ entries c
    · rw [Set.insert_eq_of_mem hold, ← hct]
      exact if_pos hold
    · rw [Set.ncard_insert_of_notMem hold hfinite, Nat.cast_succ, ← hct]
      exact if_neg hold
  · exact ⟨hfinite, hct⟩

/-- One entry less, or the same ones. -/
theorem Counts.expire_stat (h : Counts c) (p : PathName) : Counts (c.expire_stat p) := by
  obtain ⟨hfinite, hct⟩ := h
  have hdiff : entries (c.expire_stat p) = entries c \ {p} := by
    ext q
    by_cases hq : q = p
    · subst hq
      simp [entries, ClientCache.expire_stat]
    · simp [entries, ClientCache.expire_stat, hq]
  refine ⟨hdiff ▸ hfinite.sdiff, ?_⟩
  rw [hdiff]
  by_cases hmem : p ∈ entries c
  · have hpos : 0 < (entries c).ncard := (Set.ncard_pos hfinite).mpr ⟨p, hmem⟩
    rw [Set.ncard_sdiff_singleton_of_mem hmem]
    have hsome : (c.cached p).isSome = true := hmem
    simp only [ClientCache.expire_stat, hsome, if_true, hct]
    omega
  · have hnone : ¬ (c.cached p).isSome = true := hmem
    rw [Set.sdiff_singleton_eq_self hmem]
    simp [ClientCache.expire_stat, hnone, hct]

/-- The counter goes up only below the limit. -/
theorem stat_cache_ct_set_stat (st : Stat) :
    (c.set_stat m p st).stat_cache_ct ≤ max m c.stat_cache_ct := by
  rw [set_stat_eq]
  split
  · next hstores =>
      rw [stores_eq, decide_eq_true_eq] at hstores
      dsimp only
      split
      · exact le_max_right _ _
      · next hnew => exact le_max_of_le_left (hstores.resolve_left hnew)
  · exact le_max_right _ _

/-- A stat is refused only if the cache is full, and then it stays as full. -/
theorem full_of_not_stores {st : Stat} (h : c.stores m p = false) :
    m ≤ (c.set_stat m p st).stat_cache_ct := by
  rw [set_stat_eq, h, if_neg Bool.false_ne_true]
  rw [stores_eq, decide_eq_false_iff_not, not_or, Int.not_lt] at h
  exact h.2

end Counter

/-! ### Histories -/

/-- Every call keeps the cache and its history in step. -/
theorem Refines.step {limit m : Int} {s : Recorded} (h : Refines limit m s) (hlimit : m ≤ limit)
    (a : CacheCall) : Refines limit m ((s.1.perform m a).1, (s.1.perform m a).2 :: s.2) := by
  obtain ⟨c, history⟩ := s
  have hlookup := fun q => lookup_perform m c q h.lookup_eq a
  have hcount : Counts (c.perform m a).1 ∧ (c.perform m a).1.stat_cache_ct ≤ limit := by
    cases a with
    | get_stat path => exact ⟨h.counts, h.limited⟩
    | expire_stat path =>
        refine ⟨h.counts.expire_stat path, le_trans ?_ h.limited⟩
        simp only [perform, ClientCache.expire_stat]
        split <;> omega
    | set_stat path st_buf =>
        cases st_buf with
        | none => exact ⟨h.counts.set_missing path, h.limited⟩
        | some st =>
            exact ⟨h.counts.set_stat st,
              (stat_cache_ct_set_stat st).trans (max_le hlimit h.limited)⟩
  refine ⟨hcount.1, ?_, hcount.2, hlookup, ?_, ?_⟩
  · rw [hcount.1.2]
    exact Int.natCast_nonneg _
  · cases a with
    | get_stat path => exact h.lookup_eq path
    | expire_stat path => trivial
    | set_stat path st_buf => cases st_buf <;> trivial
  · intro path st_buf history' heq
    cases a with
    | get_stat p => cases heq
    | expire_stat p => cases heq
    | set_stat p st =>
        cases st with
        | none => cases heq
        | some st =>
            have hres : c.stores m p = false := by
              simp only [perform, List.cons.injEq, CacheEvent.set_stat.injEq] at heq
              exact heq.1.2.2
            exact full_of_not_stores hres

theorem refines_started {limit m : Int} (hlimit : 0 ≤ limit) : Refines limit m started := by
  have hnone : entries empty = ∅ := by
    ext q
    simp [entries, empty]
  refine ⟨⟨hnone ▸ Set.finite_empty, ?_⟩, le_rfl, hlimit, fun _ => rfl, trivial, ?_⟩
  · rw [show entries started.1 = ∅ from hnone, Set.ncard_empty]
    rfl
  · intro path st_buf history heq
    cases heq

/-- For every limit and every history of calls on any paths: in every state that is reached, the
cache refines the bounded map of its history. A limit below 0 is one of 0. -/
theorem cache_refines_map (m : Int) (calls : List CacheCall) :
    Machine.Always (step m) (Refines (max 0 m) m) started calls := by
  have hkept : ∀ s call t, Refines (max 0 m) m s → True → step m s call = some t →
      Refines (max 0 m) m t := by
    intro s call t hs _ hstep
    cases hstep
    exact hs.step (le_max_right 0 m) call
  exact Machine.Guarded.always hkept (fun _ h => h) (refines_started (le_max_left 0 m))
    (Machine.Guarded.of_forall fun _ _ => trivial)

/-- With a negative limit, which turns the cache off, not even 0 is within it. -/
theorem limit_may_be_negative :
    ¬ ∀ (m : Int) (calls : List CacheCall), Machine.Always (step m) (Refines m m) started calls := by
  intro hall
  have hlimited : (0 : Int) ≤ -1 := (hall (-1) []).limited
  exact absurd hlimited (by decide)

end Gvds.StatCache.ClientCache
