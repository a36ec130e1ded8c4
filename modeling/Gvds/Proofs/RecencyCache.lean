/-
Module: Gvds.Proofs.RecencyCache
Layer: Proofs
Purpose: The template LRU as a recency cache, over all sequences of its operations with any
  capacity. The list, the index and the order are always right; a touch with a value loses the value
  if the key is there, and a capacity that is a multiple of 2^32 is no limit at all.
Imports: Gvds.Lib.Machine, Gvds.Common.LruCache
Trusted boundary: as Gvds.Common.LruCache
Main exports: Call, Tracked, Correct, Keeps, recency_cache_iff, touched_value_is_lost
-/
import Gvds.Lib.Machine
import Gvds.Common.LruCache

namespace Gvds.RecencyCache

variable {K V : Type*} [DecidableEq K]

/-- The operations. -/
inductive Call (K V : Type*) where
  | touchKey (key : K)
  | touch (key : K) (value : V)
  | hit (key : K)
  | find (key : K)
  | remove (key : K)
  | expire

/-- A cache with what it should remember: the time of the last touch or hit of a key, and the value
of its last touch with a value since it came in. -/
structure Tracked (K V : Type*) where
  cache : LRU K V
  time : Nat
  used : K → Nat
  latest : K → Option V

/-- A new cache. -/
def start (capacity : UInt64) : Tracked K V := ⟨.new capacity, 0, fun _ => 0, fun _ => none⟩

/-- The value of a key that is in the cache no more is forgotten. -/
def forget (cache : LRU K V) (latest : K → Option V) : K → Option V := fun key =>
  if (cache.find key).isSome then latest key else none

/-- The key is used now. -/
def use (t : Tracked K V) (cache : LRU K V) (key : K) (latest : K → Option V) : Tracked K V :=
  ⟨cache, t.time + 1, Function.update t.used key t.time, forget cache latest⟩

/-- One operation. -/
def step (blank : V) (t : Tracked K V) : Call K V → Option (Tracked K V)
  | .touchKey key => some (use t (t.cache.touchKey blank key) key t.latest)
  | .touch key value =>
      some (use t (t.cache.touch key value) key (Function.update t.latest key (some value)))
  | .hit key =>
      if (t.cache.hit key).1 then some (use t (t.cache.hit key).2 key t.latest) else some t
  | .find _ => some t
  | .remove key =>
      let cache := (t.cache.remove key).2
      some { t with cache := cache, latest := forget cache t.latest }
  | .expire =>
      let cache := t.cache.expire.2
      some { t with cache := cache, latest := forget cache t.latest }

/-! ### What is right -/

/-- The list is in the order of the last uses, newest first. -/
def Ordered (t : Tracked K V) : Prop :=
  t.cache.entries.Pairwise fun newer older => t.used older.key < t.used newer.key

/-- An expiry takes the least recently used entry and leaves the others as they are. -/
def ExpiresOldest (t : Tracked K V) : Prop :=
  match t.cache.expire with
  | (none, cache) => t.cache.entries = [] ∧ cache = t.cache
  | (some object, cache) => t.cache.entries = cache.entries ++ [object] ∧
      ∀ o ∈ cache.entries, t.used object.key < t.used o.key

/-- The cache is right: the list and the index have the same distinct keys, each index entry pointing
at its own node; a capacity that is not zero is not exceeded; the order is that of the last uses;
an expiry takes the oldest entry; and a find shows the value of the last touch with one. -/
structure Correct (capacity : UInt64) (t : Tracked K V) : Prop where
  wellFormed : t.cache.WellFormed
  limited : capacity ≠ 0 → t.cache.size ≤ capacity.toNat
  ordered : Ordered t
  expires : ExpiresOldest t
  found : ∀ key value object, t.latest key = some value → t.cache.shown key = some object →
    object.data = value

/-- There is room for one more within the capacity, or the cache sees that there is none. -/
def Room (capacity : UInt64) (t : Tracked K V) : Prop :=
  t.cache.max_n = 0 → capacity ≠ 0 → t.cache.size < capacity.toNat

/-- A touch with a value passes the value that the key has, if it is there; and a touch of a new key
needs room. -/
def Keeps (capacity : UInt64) (t : Tracked K V) : Call K V → Prop
  | .touch key value => (∀ object, t.cache.shown key = some object → object.data = value) ∧
      (t.cache.shown key = none → Room capacity t)
  | .touchKey key => t.cache.shown key = none → Room capacity t
  | _ => True

/-! ### What holds in any case -/

/-- What every operation keeps. -/
structure Sound (capacity : UInt64) (t : Tracked K V) : Prop where
  wellFormed : t.cache.WellFormed
  max_n : t.cache.max_n = capacity.toUInt32
  bounded : t.cache.max_n ≠ 0 → t.cache.size ≤ t.cache.max_n.toNat
  ordered : Ordered t
  past : ∀ object ∈ t.cache.entries, t.used object.key < t.time
  known : ∀ key value, t.latest key = some value → ∃ object, t.cache.shown key = some object

variable {capacity : UInt64} {t : Tracked K V}

omit [DecidableEq K] in
theorem sound_start : Sound capacity (start capacity : Tracked K V) where
  wellFormed := LRU.wellFormed_new capacity
  max_n := rfl
  bounded _ := Nat.zero_le _
  ordered := List.Pairwise.nil
  past _ h := absurd h List.not_mem_nil
  known _ _ h := by cases h

omit [DecidableEq K] in
/-- What is remembered belongs to a key that is there. -/
theorem exists_shown_of_forget {cache : LRU K V} (h : cache.WellFormed) {latest : K → Option V}
    {key : K} {value : V} (hlatest : forget cache latest key = some value) :
    latest key = some value ∧ ∃ object, cache.shown key = some object := by
  unfold forget at hlatest
  split at hlatest
  · next hsome =>
      obtain ⟨it, hit⟩ := Option.isSome_iff_exists.mp hsome
      obtain ⟨object, hmem, rfl⟩ := h.exists_object hit
      exact ⟨hlatest, object, h.shown_eq.mpr ⟨LRU.mem_entries hmem, rfl⟩⟩
  · cases hlatest

omit [DecidableEq K] in
/-- Some entries go, and the others stay as they are. -/
theorem Sound.shrink (h : Sound capacity t) {cache : LRU K V} (hwf : cache.WellFormed)
    (hmax : cache.max_n = t.cache.max_n) (hsub : cache.entries.Sublist t.cache.entries) :
    Sound capacity { t with cache := cache, latest := forget cache t.latest } where
  wellFormed := hwf
  max_n := hmax.trans h.max_n
  bounded hlimit := by
    rw [hmax] at hlimit ⊢
    rw [← LRU.length_entries]
    exact Nat.le_trans hsub.length_le (LRU.length_entries t.cache ▸ h.bounded hlimit)
  ordered := List.Pairwise.sublist hsub h.ordered
  past object hmem := h.past object (hsub.subset hmem)
  known key value hlatest := (exists_shown_of_forget hwf hlatest).2

/-- An entry comes to the front, and some of the others go. -/
theorem Sound.use (h : Sound capacity t) {cache : LRU K V} {object : LRUObject K V}
    {rest : List (LRUObject K V)} (latest : K → Option V) (hwf : cache.WellFormed)
    (hmax : cache.max_n = t.cache.max_n) (hentries : cache.entries = object :: rest)
    (hsub : rest.Sublist t.cache.entries)
    (hbounded : t.cache.max_n ≠ 0 → rest.length + 1 ≤ t.cache.max_n.toNat) :
    Sound capacity (RecencyCache.use t cache object.key latest) := by
  have hnodup := hwf.keys_nodup
  unfold LRU.keys at hnodup
  rw [hentries, List.map_cons, List.nodup_cons] at hnodup
  have hother : ∀ o ∈ rest, Function.update t.used object.key t.time o.key = t.used o.key :=
    fun o ho => Function.update_of_ne
      (fun heq : o.key = object.key => hnodup.1 (heq ▸ List.mem_map_of_mem ho)) _ _
  constructor
  case wellFormed => exact hwf
  case max_n => exact hmax.trans h.max_n
  case bounded =>
    intro hlimit
    change cache.max_n ≠ 0 at hlimit
    change cache.size ≤ cache.max_n.toNat
    rw [hmax] at hlimit ⊢
    rw [← LRU.length_entries, hentries]
    exact hbounded hlimit
  case ordered =>
    change cache.entries.Pairwise _
    rw [hentries, List.pairwise_cons]
    constructor
    · intro o ho
      simp only [RecencyCache.use, Function.update_self, hother o ho]
      exact h.past o (hsub.subset ho)
    · refine (List.Pairwise.sublist hsub h.ordered).imp_of_mem fun ha hb hlt => ?_
      simp only [RecencyCache.use, hother _ ha, hother _ hb]
      exact hlt
  case past =>
    intro o ho
    change o ∈ cache.entries at ho
    rw [hentries] at ho
    simp only [RecencyCache.use]
    rcases List.mem_cons.mp ho with rfl | ho
    · rw [Function.update_self]
      exact Nat.lt_succ_self _
    · rw [hother o ho]
      exact Nat.lt_succ_of_lt (h.past o (hsub.subset ho))
  case known => exact fun key value hlatest => (exists_shown_of_forget hwf hlatest).2

omit [DecidableEq K] in
/-- What is kept for a new key leaves room for it. -/
theorem Sound.length_kept (h : Sound capacity t) (hlimit : t.cache.max_n ≠ 0) :
    t.cache.kept.length + 1 ≤ t.cache.max_n.toNat := by
  have hbounded := h.bounded hlimit
  have hpos : t.cache.max_n.toNat ≠ 0 := fun hzero => hlimit (UInt32.toNat_inj.mp hzero)
  unfold LRU.kept
  split
  · rw [List.length_dropLast, LRU.length_entries]
    omega
  · next hnot =>
      have hroom : ¬ t.cache.size ≥ t.cache.max_n.toNat := fun hge => hnot ⟨hlimit, hge⟩
      rw [LRU.length_entries]
      omega

/-- The entry of a key that is there makes way for itself. -/
theorem length_filter_shown (h : t.cache.WellFormed) {key : K} {old : LRUObject K V}
    (hold : t.cache.shown key = some old) :
    (t.cache.entries.filter fun o => o.key ≠ key).length + 1 ≤ t.cache.size := by
  obtain ⟨hmem, hkey⟩ := h.shown_eq.mp hold
  rw [← LRU.length_entries]
  exact List.length_filter_lt_length_iff_exists.mpr ⟨old, hmem, by simp [hkey]⟩

/-- A touch. -/
theorem Sound.touchObject (h : Sound capacity t) (object : LRUObject K V)
    (latest : K → Option V) :
    Sound capacity (RecencyCache.use t (t.cache.touchObject object) object.key latest) := by
  have hmax := LRU.max_n_touchObject t.cache object
  cases hshown : t.cache.shown object.key with
  | none =>
      obtain ⟨hentries, hwf⟩ := LRU.touchObject_of_none h.wellFormed hshown
      exact h.use latest hwf hmax hentries t.cache.kept_sublist h.length_kept
  | some old =>
      obtain ⟨hentries, hwf⟩ := LRU.touchObject_of_some h.wellFormed hshown
      rw [← (h.wellFormed.shown_eq.mp hshown).2] at hentries ⊢
      refine h.use latest hwf hmax hentries List.filter_sublist fun hlimit => ?_
      have hshown' := hshown
      rw [← (h.wellFormed.shown_eq.mp hshown).2] at hshown'
      exact Nat.le_trans (length_filter_shown h.wellFormed hshown') (h.bounded hlimit)

/-- Every operation keeps it. -/
theorem Sound.step (h : Sound capacity t) {blank : V} {a : Call K V} {t' : Tracked K V}
    (hstep : RecencyCache.step blank t a = some t') : Sound capacity t' := by
  cases a with
  | touchKey key =>
      cases hstep
      exact h.touchObject ⟨key, blank⟩ _
  | touch key value =>
      cases hstep
      exact h.touchObject ⟨key, value⟩ _
  | hit key =>
      simp only [RecencyCache.step] at hstep
      cases hshown : t.cache.shown key with
      | none =>
          rw [LRU.hit_of_none h.wellFormed hshown] at hstep
          cases hstep
          exact h
      | some old =>
          rw [LRU.hit_of_some h.wellFormed hshown] at hstep
          cases hstep
          rw [← (h.wellFormed.shown_eq.mp hshown).2]
          exact h.touchObject old _
  | find key =>
      cases hstep
      exact h
  | remove key =>
      cases hstep
      obtain ⟨hentries, hwf⟩ := LRU.remove_spec h.wellFormed key
      exact h.shrink hwf (LRU.max_n_remove _ key) (hentries ▸ List.filter_sublist)
  | expire =>
      cases hstep
      obtain ⟨-, hentries, hwf⟩ := LRU.expire_spec h.wellFormed
      exact h.shrink hwf (LRU.max_n_expire _) (hentries ▸ List.dropLast_sublist _)

/-- An expiry takes the oldest entry. -/
theorem Sound.expires (h : Sound capacity t) : ExpiresOldest t := by
  unfold ExpiresOldest
  rcases List.eq_nil_or_concat' t.cache.entries with hnil | ⟨front, object, hlast⟩
  · rw [LRU.expire_of_nil hnil]
    exact ⟨hnil, rfl⟩
  · obtain ⟨hsome, hfront, -⟩ := LRU.expire_of_concat h.wellFormed hlast
    have hpair : t.cache.expire = (some object, t.cache.expire.2) := by rw [← hsome]
    have hordered := h.ordered
    unfold Ordered at hordered
    rw [hlast, List.pairwise_append] at hordered
    rw [hpair]
    refine ⟨by rw [hfront]; exact hlast, fun o ho => ?_⟩
    rw [hfront] at ho
    exact hordered.2.2 o ho object (List.mem_singleton_self _)

/-! ### When it is right -/

/-- Only the limit and the values can go wrong. -/
theorem Sound.correct_iff (h : Sound capacity t) :
    Correct capacity t ↔ (capacity ≠ 0 → t.cache.size ≤ capacity.toNat) ∧
      ∀ key value object, t.latest key = some value → t.cache.shown key = some object →
        object.data = value :=
  ⟨fun hc => ⟨hc.limited, hc.found⟩,
    fun hc => ⟨h.wellFormed, hc.1, h.ordered, h.expires, hc.2⟩⟩

omit [DecidableEq K] in
/-- A limit that the cache has is within the capacity. -/
theorem Sound.max_n_le (h : Sound capacity t) : t.cache.max_n.toNat ≤ capacity.toNat := by
  rw [h.max_n, UInt64.toNat_toUInt32]
  exact Nat.mod_le _ _

/-- The values that a find shows after a use: the one in front may be wrong, the others are as they
were. -/
theorem found_use_iff (hwf : t.cache.WellFormed) {cache : LRU K V} (hcache : cache.WellFormed)
    {object : LRUObject K V} {rest : List (LRUObject K V)} (hentries : cache.entries = object :: rest)
    (hsub : rest.Sublist t.cache.entries) {latest : K → Option V}
    (hlatest : ∀ key, key ≠ object.key → latest key = t.latest key)
    (hfound : ∀ key value o, t.latest key = some value → t.cache.shown key = some o →
      o.data = value) :
    (∀ key value o, (RecencyCache.use t cache object.key latest).latest key = some value →
        cache.shown key = some o → o.data = value) ↔
      ∀ value, latest object.key = some value → object.data = value := by
  have hself : cache.shown object.key = some object :=
    hcache.shown_eq.mpr ⟨hentries ▸ List.mem_cons_self, rfl⟩
  constructor
  · intro hall value hvalue
    refine hall object.key value object ?_ hself
    obtain ⟨it, hit, -⟩ := Option.bind_eq_some_iff.mp hself
    change forget cache latest object.key = some value
    rw [forget, hit, Option.isSome_some, if_pos rfl, hvalue]
  · intro hfront key value o hvalue ho
    have hold := (exists_shown_of_forget hcache hvalue).1
    by_cases hkey : key = object.key
    · subst hkey
      obtain rfl := Option.some.inj (hself.symm.trans ho)
      exact hfront value hold
    · obtain ⟨hmem, rfl⟩ := hcache.shown_eq.mp ho
      rw [hentries] at hmem
      have hrest := (List.mem_cons.mp hmem).resolve_left fun heq => hkey (congrArg _ heq)
      rw [hlatest _ hkey] at hold
      exact hfound _ value o hold (hwf.shown_eq.mpr ⟨hsub.subset hrest, rfl⟩)

/-- A touch keeps the cache right if and only if there is room for a new key, and the value that is
remembered then is the one that the key has. -/
theorem Sound.touchObject_correct_iff (h : Sound capacity t) (hc : Correct capacity t)
    (object : LRUObject K V) {latest : K → Option V}
    (hlatest : ∀ key, key ≠ object.key → latest key = t.latest key) :
    Correct capacity (RecencyCache.use t (t.cache.touchObject object) object.key latest) ↔
      (t.cache.shown object.key = none → Room capacity t) ∧
        ∀ value, latest object.key = some value →
          ((t.cache.shown object.key).getD object).data = value := by
  rw [(h.touchObject object latest).correct_iff]
  cases hshown : t.cache.shown object.key with
  | none =>
      obtain ⟨hentries, hwf⟩ := LRU.touchObject_of_none h.wellFormed hshown
      refine and_congr ?_
        (found_use_iff h.wellFormed hwf hentries t.cache.kept_sublist hlatest hc.found)
      change (capacity ≠ 0 → (t.cache.touchObject object).size ≤ _) ↔ _
      rw [← LRU.length_entries, hentries, List.length_cons]
      by_cases hlimit : t.cache.max_n = 0
      · -- no limit: the cache grows by one
        rw [LRU.kept_of_unlimited hlimit, LRU.length_entries]
        exact ⟨fun hle _ _ hne => hle hne, fun hroom hne => hroom rfl hlimit hne⟩
      · have hle := Nat.le_trans (h.length_kept hlimit) h.max_n_le
        exact ⟨fun _ _ hzero => absurd hzero hlimit, fun _ _ => hle⟩
  | some old =>
      obtain ⟨hentries, hwf⟩ := LRU.touchObject_of_some h.wellFormed hshown
      obtain ⟨-, hkey⟩ := h.wellFormed.shown_eq.mp hshown
      have hlength := length_filter_shown h.wellFormed hshown
      rw [← hkey] at hlatest ⊢
      refine and_congr ?_
        (found_use_iff h.wellFormed hwf (hkey ▸ hentries) List.filter_sublist hlatest hc.found)
      change (capacity ≠ 0 → (t.cache.touchObject object).size ≤ _) ↔ _
      rw [← LRU.length_entries, hentries, List.length_cons]
      exact ⟨fun _ => nofun, fun _ hne => Nat.le_trans hlength (hc.limited hne)⟩

/-- Where some entries go, the cache stays right. -/
theorem Sound.correct_shrink (h : Sound capacity t) (hc : Correct capacity t) {cache : LRU K V}
    (hwf : cache.WellFormed) (hmax : cache.max_n = t.cache.max_n)
    (hsub : cache.entries.Sublist t.cache.entries) :
    Correct capacity { t with cache := cache, latest := forget cache t.latest } := by
  refine (h.shrink hwf hmax hsub).correct_iff.mpr ⟨fun hne => ?_, fun key value o hvalue ho => ?_⟩
  · change cache.size ≤ _
    rw [← LRU.length_entries]
    exact Nat.le_trans hsub.length_le (LRU.length_entries t.cache ▸ hc.limited hne)
  · obtain ⟨hmem, rfl⟩ := hwf.shown_eq.mp ho
    exact hc.found _ value o (exists_shown_of_forget hwf hvalue).1
      (h.wellFormed.shown_eq.mpr ⟨hsub.subset hmem, rfl⟩)

/-- One operation keeps the cache right if and only if it keeps what it should. -/
theorem Sound.correct_step_iff (h : Sound capacity t) (hc : Correct capacity t) {blank : V}
    {a : Call K V} {t' : Tracked K V} (hstep : RecencyCache.step blank t a = some t') :
    Correct capacity t' ↔ Keeps capacity t a := by
  cases a with
  | touchKey key =>
      cases hstep
      refine (h.touchObject_correct_iff hc ⟨key, blank⟩ fun _ _ => rfl).trans
        ⟨fun hboth => hboth.1, fun hroom => ⟨hroom, fun value hvalue => ?_⟩⟩
      obtain ⟨o, ho⟩ := h.known key value hvalue
      rw [ho]
      exact hc.found key value o hvalue ho
  | touch key value =>
      cases hstep
      refine (h.touchObject_correct_iff hc ⟨key, value⟩ fun _ hne =>
        Function.update_of_ne hne _ _).trans ?_
      simp only [Keeps, Function.update_self, Option.some.injEq, forall_eq']
      cases t.cache.shown key with
      | none => simp
      | some old => simp
  | hit key =>
      simp only [RecencyCache.step] at hstep
      refine iff_of_true ?_ trivial
      cases hshown : t.cache.shown key with
      | none =>
          rw [LRU.hit_of_none h.wellFormed hshown] at hstep
          cases hstep
          exact hc
      | some old =>
          obtain ⟨-, rfl⟩ := h.wellFormed.shown_eq.mp hshown
          rw [LRU.hit_of_some h.wellFormed hshown] at hstep
          cases hstep
          refine (h.touchObject_correct_iff hc old fun _ _ => rfl).mpr
            ⟨fun hnone => ?_, fun value hvalue => ?_⟩
          · rw [hshown] at hnone
            cases hnone
          · rw [hshown]
            exact hc.found _ value old hvalue hshown
  | find key =>
      cases hstep
      exact iff_of_true hc trivial
  | remove key =>
      cases hstep
      obtain ⟨hentries, hwf⟩ := LRU.remove_spec h.wellFormed key
      exact iff_of_true (h.correct_shrink hc hwf (LRU.max_n_remove _ key)
        (hentries ▸ List.filter_sublist)) trivial
  | expire =>
      cases hstep
      obtain ⟨-, hentries, hwf⟩ := LRU.expire_spec h.wellFormed
      exact iff_of_true (h.correct_shrink hc hwf (LRU.max_n_expire _)
        (hentries ▸ List.dropLast_sublist _)) trivial

/-- For every capacity and every sequence of operations: the cache is a right recency cache in every
state that is reached, if and only if every touch with a value of a key that is there passes the
value it has, and new keys are touched only where the capacity is seen or has room. -/
theorem recency_cache_iff (blank : V) (capacity : UInt64) (calls : List (Call K V)) :
    Machine.Always (step blank) (Correct capacity) (start capacity) calls ↔
      Machine.Guarded (step blank) (Keeps capacity) (start capacity) calls := by
  have hstart : Sound capacity (start capacity : Tracked K V) := sound_start
  refine Machine.always_iff_guarded (fun _ _ _ h hstep => h.step hstep)
    (fun _ _ _ h hc hstep => h.correct_step_iff hc hstep) (fun t a hnone => ?_) hstart
    (hstart.correct_iff.mpr ⟨fun _ => Nat.zero_le _, fun _ _ _ hvalue => by cases hvalue⟩)
  cases a with
  | hit key =>
      simp only [step] at hnone
      split at hnone <;> cases hnone
  | _ => cases hnone

/-- The second value of a key is lost. -/
theorem touched_value_is_lost :
    ¬ ∀ (K V : Type) (_ : DecidableEq K) (blank : V) (capacity : UInt64)
        (calls : List (Call K V)),
      Machine.Always (step blank) (Correct capacity) (start capacity) calls := by
  intro hall
  have halways := hall Nat Nat inferInstance 0 10 [.touch 5 1, .touch 5 2]
  have hright := (halways.2 _ rfl).2 _ rfl
  have hlost := hright.found 5 2 ⟨5, 1⟩ rfl rfl
  exact absurd hlost (by decide)

end Gvds.RecencyCache
