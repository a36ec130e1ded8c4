/-
Module: Gvds.Common.LruCache
Layer: Common
Purpose: The template LRU (common/LRU.h): a list of nodes, newest first, and an index from keys to
  iterators. An iterator is the number of its node in the order of allocation, so that one into an
  erased node points to none. Each operation is described by what it does to the list of entries.
Imports: Mathlib.Logic.Function.Basic, Mathlib.Data.List.Nodup, Mathlib.Data.List.Pairwise
Trusted boundary: std::list and std::unordered_map behave as documented; on an empty list `--end()`
  is `end()`, as in libstdc++. `pinned` is read by nobody and left out. The data of a node that is
  made without a value is a parameter
Main exports: LRUObject, LRU, LRU.expire, LRU.find, LRU.remove, LRU.touchKey, LRU.touch, LRU.hit,
  LRU.WellFormed, LRU.find_eq_some_iff, LRU.entries_expire, LRU.entries_touch
-/
import Mathlib.Logic.Function.Basic
import Mathlib.Data.List.Nodup
import Mathlib.Data.List.Pairwise

namespace Gvds

/-- `LRUObject`. -/
structure LRUObject (K V : Type*) where
  key : K
  data : V

/-- `LRU`: `allocated` nodes have been made so far. -/
structure LRU (K V : Type*) where
  lrulist : List (Nat × LRUObject K V)
  lruindex : K → Option Nat
  max_n : UInt32
  allocated : Nat

namespace LRU

variable {K V : Type*}

/-- The constructor: `max_n` is an `unsigned int`. -/
def new (max : UInt64) : LRU K V where
  lrulist := []
  lruindex := fun _ => none
  max_n := max.toUInt32
  allocated := 0

/-- `*it`; an iterator whose node was erased has nothing to show. -/
def deref (c : LRU K V) (it : Nat) : Option (LRUObject K V) :=
  (c.lrulist.find? fun n => n.1 == it).map Prod.snd

/-- `size`. -/
def size (c : LRU K V) : Nat := c.lrulist.length

/-- `find`; none is `end()`. -/
def find (c : LRU K V) (key : K) : Option Nat := c.lruindex key

/-! ### The list and the index -/

/-- The entries, newest first. -/
def entries (c : LRU K V) : List (LRUObject K V) := c.lrulist.map Prod.snd

/-- The keys, newest first. -/
def keys (c : LRU K V) : List K := c.entries.map LRUObject.key

/-- Each key has one node and each node one number, and the index entries are those of the nodes. -/
structure WellFormed (c : LRU K V) : Prop where
  numbers : (c.lrulist.map Prod.fst).Nodup
  keys_nodup : c.keys.Nodup
  lt_allocated : ∀ n ∈ c.lrulist, n.1 < c.allocated
  index : ∀ key it, c.lruindex key = some it ↔ ∃ object, (it, object) ∈ c.lrulist ∧ object.key = key

variable {c : LRU K V} {key : K} {it : Nat} {object : LRUObject K V}

theorem wellFormed_new (max : UInt64) : (new max : LRU K V).WellFormed where
  numbers := List.nodup_nil
  keys_nodup := List.nodup_nil
  lt_allocated _ hn := absurd hn List.not_mem_nil
  index key it := by simp [new]

@[simp] theorem length_entries (c : LRU K V) : c.entries.length = c.size := List.length_map ..

theorem key_mem_keys (h : object ∈ c.entries) : object.key ∈ c.keys := List.mem_map_of_mem h

theorem mem_entries (h : (it, object) ∈ c.lrulist) : object ∈ c.entries := List.mem_map_of_mem h

namespace WellFormed

/-- An index entry points at its own node. -/
theorem deref_eq (h : c.WellFormed) : c.deref it = some object ↔ (it, object) ∈ c.lrulist := by
  unfold deref
  rw [Option.map_eq_some_iff]
  constructor
  · rintro ⟨n, hn, rfl⟩
    have hit := List.find?_some hn
    obtain rfl : n.1 = it := by simpa using hit
    exact List.mem_of_find?_eq_some hn
  · intro hmem
    cases hfind : c.lrulist.find? fun n => n.1 == it with
    | none =>
        have hno := List.find?_eq_none.mp hfind _ hmem
        simp at hno
    | some n =>
        have hit := List.find?_some hfind
        obtain rfl : n.1 = it := by simpa using hit
        exact ⟨n, rfl, congrArg Prod.snd
          (List.inj_on_of_nodup_map h.numbers (List.mem_of_find?_eq_some hfind) hmem rfl)⟩

/-- A key that the index does not have is not in the list. -/
theorem not_mem_keys (h : c.WellFormed) (hnone : c.lruindex key = none) : key ∉ c.keys := by
  intro hkey
  obtain ⟨object, hobject, rfl⟩ := List.mem_map.mp hkey
  obtain ⟨n, hn, rfl⟩ := List.mem_map.mp hobject
  have hsome := (h.index _ n.1).mpr ⟨n.2, hn, rfl⟩
  rw [hnone] at hsome
  cases hsome

/-- Two nodes with one key are the same, and so are two with one number. -/
theorem number_eq_iff (h : c.WellFormed) (hmem : (it, object) ∈ c.lrulist)
    {n : Nat × LRUObject K V} (hn : n ∈ c.lrulist) : n.1 = it ↔ n.2.key = object.key := by
  have hkeys : (c.lrulist.map fun n => n.2.key).Nodup := by
    have hnodup := h.keys_nodup
    unfold keys entries at hnodup
    rwa [List.map_map] at hnodup
  constructor
  · intro heq
    rw [List.inj_on_of_nodup_map h.numbers hn hmem heq]
  · intro heq
    rw [List.inj_on_of_nodup_map hkeys hn hmem heq]

end WellFormed

/-- The object of a key that is there. -/
theorem WellFormed.exists_object (h : c.WellFormed) (hit : c.lruindex key = some it) :
    ∃ object, (it, object) ∈ c.lrulist ∧ object.key = key :=
  (h.index key it).mp hit

/-- What `find` shows of a key. -/
def shown (c : LRU K V) (key : K) : Option (LRUObject K V) := (c.find key).bind c.deref

theorem WellFormed.shown_eq (h : c.WellFormed) :
    c.shown key = some object ↔ object ∈ c.entries ∧ object.key = key := by
  unfold shown find
  rw [Option.bind_eq_some_iff]
  constructor
  · rintro ⟨it, hit, hderef⟩
    have hmem := h.deref_eq.mp hderef
    obtain ⟨object', hmem', rfl⟩ := h.exists_object hit
    have hsame : object = object' := congrArg Prod.snd
      (List.inj_on_of_nodup_map h.numbers hmem hmem' rfl)
    subst hsame
    exact ⟨mem_entries hmem, rfl⟩
  · rintro ⟨hobject, rfl⟩
    obtain ⟨n, hn, rfl⟩ := List.mem_map.mp hobject
    exact ⟨n.1, (h.index _ _).mpr ⟨n.2, hn, rfl⟩, h.deref_eq.mpr hn⟩

/-- A key that is not there has no index entry. -/
theorem WellFormed.shown_eq_none (h : c.WellFormed) : c.shown key = none ↔ c.lruindex key = none := by
  constructor
  · intro hnone
    cases hindex : c.lruindex key with
    | none => rfl
    | some it =>
        obtain ⟨object, hmem, rfl⟩ := h.exists_object hindex
        rw [h.shown_eq.mpr ⟨mem_entries hmem, rfl⟩] at hnone
        cases hnone
  · intro hnone
    unfold shown find
    rw [hnone]
    rfl

/-- What is left where there is room for one more. -/
def kept (c : LRU K V) : List (LRUObject K V) :=
  if c.max_n ≠ 0 ∧ c.size ≥ c.max_n.toNat then c.entries.dropLast else c.entries

theorem kept_of_unlimited (h : c.max_n = 0) : c.kept = c.entries :=
  if_neg fun hfull => hfull.1 h

theorem kept_sublist (c : LRU K V) : c.kept.Sublist c.entries := by
  unfold kept
  split
  · exact List.dropLast_sublist _
  · exact List.Sublist.refl _

/-! ### The operations -/

variable [DecidableEq K]

/-- `lrulist.erase(it)`, and `lruindex.erase(key)`. -/
def erase (c : LRU K V) (key : K) (it : Nat) : LRU K V :=
  { c with
    lrulist := c.lrulist.filter fun n => n.1 != it
    lruindex := Function.update c.lruindex key none }

/-- `lrulist.emplace(lrulist.begin(), object)`, whose iterator becomes the one of the key. -/
def emplace (c : LRU K V) (key : K) (object : LRUObject K V) : LRU K V :=
  { c with
    lrulist := (c.allocated, object) :: c.lrulist
    lruindex := Function.update c.lruindex key (some c.allocated)
    allocated := c.allocated + 1 }

/-- `expire`. -/
def expire (c : LRU K V) : Option (LRUObject K V) × LRU K V :=
  match c.lrulist.getLast? with
  | none => (none, c)
  | some (list_it, tmp) => (some tmp, c.erase tmp.key list_it)

/-- `remove`. -/
def remove (c : LRU K V) (key : K) : Bool × LRU K V :=
  match c.lruindex key with
  | none => (false, c)
  | some it => (true, c.erase key it)

/-- A key that is not there gets a node in front, once there is room for it. -/
def insert (c : LRU K V) (object : LRUObject K V) : LRU K V :=
  let c := if c.max_n ≠ 0 ∧ c.size ≥ c.max_n.toNat then c.expire.2 else c
  c.emplace object.key object

/-- The node of a key that is there is copied to the front; its index entry is written over. An entry
that points to no node would be undefined behaviour; `WellFormed` says that there is none. -/
def renew (c : LRU K V) (key : K) (it : Nat) : LRU K V :=
  match c.deref it with
  | none => c
  | some tmp => (c.erase key it).emplace key tmp

/-- What both `touch` do with the object of a new node. -/
def touchObject (c : LRU K V) (object : LRUObject K V) : LRU K V :=
  match c.lruindex object.key with
  | none => c.insert object
  | some it => c.renew object.key it

/-- `touch` of a key alone; a new node has the data `blank`. -/
def touchKey (blank : V) (c : LRU K V) (key : K) : LRU K V := c.touchObject ⟨key, blank⟩

/-- `touch` with a value. A key that is there keeps its data. -/
def touch (c : LRU K V) (key : K) (value : V) : LRU K V := c.touchObject ⟨key, value⟩

/-- `hit`. -/
def hit (c : LRU K V) (key : K) : Bool × LRU K V :=
  match c.lruindex key with
  | none => (false, c)
  | some it => (true, c.renew key it)

/-! ### What the operations do to the entries -/

/-- The node of a key goes. -/
theorem entries_erase (h : c.WellFormed) (hmem : (it, object) ∈ c.lrulist) :
    (c.erase object.key it).entries = c.entries.filter fun o => o.key ≠ object.key := by
  unfold entries erase
  rw [List.filter_map]
  refine congrArg _ (List.filter_congr fun n hn => ?_)
  simp only [Function.comp_apply, bne, Bool.beq_eq_decide_eq, decide_not]
  rw [decide_eq_decide.mpr (h.number_eq_iff hmem hn)]

theorem WellFormed.erase (h : c.WellFormed) (hmem : (it, object) ∈ c.lrulist) :
    (c.erase object.key it).WellFormed where
  numbers := h.numbers.sublist (List.filter_sublist.map _)
  keys_nodup := by
    unfold keys
    rw [entries_erase h hmem]
    exact h.keys_nodup.sublist (List.filter_sublist.map _)
  lt_allocated n hn := h.lt_allocated n (List.mem_of_mem_filter hn)
  index key' it' := by
    unfold LRU.erase
    dsimp only
    by_cases hkey : key' = object.key
    · subst hkey
      simp only [Function.update_self, reduceCtorEq, false_iff, not_exists, not_and]
      intro object' hmem' hsame
      obtain ⟨hold, hne⟩ := List.mem_filter.mp hmem'
      have heq : it' = it := (h.number_eq_iff hmem hold).mpr hsame
      simp [heq] at hne
    · rw [Function.update_of_ne hkey, h.index]
      refine exists_congr fun object' => and_congr_left fun hsame => ?_
      rw [List.mem_filter]
      constructor
      · intro hold
        refine ⟨hold, ?_⟩
        simp only [bne_iff_ne]
        intro heq
        exact hkey (hsame ▸ (h.number_eq_iff hmem hold).mp heq)
      · exact fun hold => hold.1

/-- A new node is in front. -/
@[simp] theorem entries_emplace (c : LRU K V) (key : K) (object : LRUObject K V) :
    (c.emplace key object).entries = object :: c.entries := rfl

theorem WellFormed.emplace (h : c.WellFormed) (hnew : object.key ∉ c.keys) :
    (c.emplace object.key object).WellFormed where
  numbers := by
    refine List.nodup_cons.mpr ⟨fun hmem => ?_, h.numbers⟩
    obtain ⟨n, hn, heq⟩ := List.mem_map.mp hmem
    exact Nat.lt_irrefl _ (heq ▸ h.lt_allocated n hn)
  keys_nodup := List.nodup_cons.mpr ⟨hnew, h.keys_nodup⟩
  lt_allocated n hn := by
    rcases List.mem_cons.mp hn with rfl | hold
    · exact Nat.lt_succ_self _
    · exact Nat.lt_succ_of_lt (h.lt_allocated n hold)
  index key' it' := by
    have hfresh : ∀ object', (c.allocated, object') ∉ c.lrulist := fun object' hmem =>
      Nat.lt_irrefl _ (h.lt_allocated _ hmem)
    unfold LRU.emplace
    dsimp only
    by_cases hkey : key' = object.key
    · subst hkey
      rw [Function.update_self, Option.some.injEq]
      constructor
      · rintro rfl
        exact ⟨object, List.mem_cons_self, rfl⟩
      · rintro ⟨object', hmem, hsame⟩
        rcases List.mem_cons.mp hmem with heq | hold
        · exact (congrArg Prod.fst heq).symm
        · exact absurd (hsame ▸ key_mem_keys (mem_entries hold)) hnew
    · rw [Function.update_of_ne hkey, h.index]
      refine exists_congr fun object' => and_congr_left fun hsame => ?_
      rw [List.mem_cons]
      constructor
      · exact .inr
      · rintro (heq | hold)
        · obtain rfl := congrArg Prod.snd heq
          exact absurd hsame.symm hkey
        · exact hold

/-- Without entries nothing expires. -/
theorem expire_of_nil (hnil : c.entries = []) : c.expire = (none, c) := by
  have hlist : c.lrulist = [] := List.map_eq_nil_iff.mp hnil
  unfold expire
  rw [hlist]
  rfl

/-- The last entry expires. -/
theorem expire_of_concat (h : c.WellFormed) {front : List (LRUObject K V)}
    (hlast : c.entries = front ++ [object]) :
    c.expire.1 = some object ∧ c.expire.2.entries = front ∧ c.expire.2.WellFormed := by
  obtain ⟨nodes, lastNodes, hlist, hfront, hsingle⟩ := List.map_eq_append_iff.mp hlast
  obtain ⟨n, rest, rfl, hn, hrest⟩ := List.map_eq_cons_iff.mp hsingle
  obtain rfl := List.map_eq_nil_iff.mp hrest
  have hmem : (n.1, object) ∈ c.lrulist := by
    rw [hlist, ← hn]
    simp
  have hexpire : c.expire = (some object, c.erase object.key n.1) := by
    unfold expire
    rw [hlist, List.getLast?_concat, ← hn]
  rw [hexpire]
  refine ⟨rfl, ?_, h.erase hmem⟩
  have hnodup := h.keys_nodup
  unfold keys at hnodup
  rw [hlast, List.map_append, List.nodup_append] at hnodup
  rw [entries_erase h hmem, hlast, List.filter_append]
  have hkeep : front.filter (fun o => decide (o.key ≠ object.key)) = front := by
    refine List.filter_eq_self.mpr fun o ho => ?_
    rw [decide_eq_true_eq]
    exact hnodup.2.2 _ (List.mem_map_of_mem ho) _ (List.mem_singleton_self _)
  rw [hkeep]
  simp

/-- An expiry takes the last entry. -/
theorem expire_spec (h : c.WellFormed) :
    c.expire.1 = c.entries.getLast? ∧ c.expire.2.entries = c.entries.dropLast ∧
      c.expire.2.WellFormed := by
  rcases List.eq_nil_or_concat' c.entries with hnil | ⟨front, object, hlast⟩
  · rw [expire_of_nil hnil, hnil]
    exact ⟨rfl, rfl, h⟩
  · obtain ⟨hsome, hfront, hwf⟩ := expire_of_concat h hlast
    rw [hlast, List.getLast?_concat, List.dropLast_concat]
    exact ⟨hsome, hfront, hwf⟩

/-- A key is removed, if it is there. -/
theorem remove_spec (h : c.WellFormed) (key : K) :
    (c.remove key).2.entries = c.entries.filter (fun o => o.key ≠ key) ∧
      (c.remove key).2.WellFormed := by
  unfold remove
  cases hindex : c.lruindex key with
  | none =>
      refine ⟨(List.filter_eq_self.mpr fun o ho => ?_).symm, h⟩
      rw [decide_eq_true_eq]
      rintro rfl
      exact h.not_mem_keys hindex (key_mem_keys ho)
  | some it =>
      obtain ⟨object, hmem, rfl⟩ := h.exists_object hindex
      exact ⟨entries_erase h hmem, h.erase hmem⟩

/-- A key that is not there is put in front of what is kept. -/
theorem insert_spec (h : c.WellFormed) (hnew : object.key ∉ c.keys) :
    (c.insert object).entries = object :: c.kept ∧ (c.insert object).WellFormed := by
  unfold insert kept
  obtain ⟨-, hentries, hwf⟩ := expire_spec h
  split
  · refine ⟨by rw [entries_emplace, hentries], hwf.emplace fun hmem => hnew ?_⟩
    unfold keys at hmem ⊢
    rw [hentries] at hmem
    exact (List.dropLast_sublist _).map _ |>.subset hmem
  · exact ⟨entries_emplace _ _ _, h.emplace hnew⟩

/-- The limit stays. -/
@[simp] theorem max_n_expire (c : LRU K V) : c.expire.2.max_n = c.max_n := by
  unfold expire
  split <;> rfl

@[simp] theorem max_n_remove (c : LRU K V) (key : K) : (c.remove key).2.max_n = c.max_n := by
  unfold remove
  split <;> rfl

@[simp] theorem max_n_renew (c : LRU K V) (key : K) (it : Nat) :
    (c.renew key it).max_n = c.max_n := by
  unfold renew
  split <;> rfl

@[simp] theorem max_n_touchObject (c : LRU K V) (object : LRUObject K V) :
    (c.touchObject object).max_n = c.max_n := by
  unfold touchObject
  split
  · unfold insert
    dsimp only
    split
    · exact max_n_expire c
    · rfl
  · exact max_n_renew c object.key _

/-- A key that is there is put in front with its data. -/
theorem renew_spec (h : c.WellFormed) (hit : c.lruindex key = some it) :
    ∃ object, c.shown key = some object ∧
      (c.renew key it).entries = object :: c.entries.filter (fun o => o.key ≠ key) ∧
      (c.renew key it).WellFormed := by
  obtain ⟨object, hmem, rfl⟩ := h.exists_object hit
  have hrenew : c.renew object.key it = (c.erase object.key it).emplace object.key object := by
    unfold renew
    rw [h.deref_eq.mpr hmem]
  refine ⟨object, h.shown_eq.mpr ⟨mem_entries hmem, rfl⟩, ?_, ?_⟩
  · rw [hrenew, entries_emplace, entries_erase h hmem]
  · rw [hrenew]
    refine (h.erase hmem).emplace ?_
    unfold keys
    rw [entries_erase h hmem]
    simp

/-- A touch of a key that is not there. -/
theorem touchObject_of_none (h : c.WellFormed) (hnone : c.shown object.key = none) :
    (c.touchObject object).entries = object :: c.kept ∧ (c.touchObject object).WellFormed := by
  have hindex := h.shown_eq_none.mp hnone
  unfold touchObject
  rw [hindex]
  exact insert_spec h (h.not_mem_keys hindex)

/-- A touch of a key that is there. -/
theorem touchObject_of_some (h : c.WellFormed) {old : LRUObject K V}
    (hold : c.shown object.key = some old) :
    (c.touchObject object).entries = old :: c.entries.filter (fun o => o.key ≠ object.key) ∧
      (c.touchObject object).WellFormed := by
  unfold touchObject
  cases hindex : c.lruindex object.key with
  | none =>
      rw [h.shown_eq_none.mpr hindex] at hold
      cases hold
  | some it =>
      obtain ⟨object', hobject', hentries, hwf⟩ := renew_spec h hindex
      obtain rfl := Option.some.inj (hold.symm.trans hobject')
      exact ⟨hentries, hwf⟩

/-- A hit on a key that is there is a touch of it. -/
theorem hit_of_some (h : c.WellFormed) (hold : c.shown key = some object) :
    c.hit key = (true, c.touchObject object) := by
  obtain ⟨hmem, rfl⟩ := h.shown_eq.mp hold
  unfold hit touchObject
  cases hindex : c.lruindex object.key with
  | none =>
      rw [h.shown_eq_none.mpr hindex] at hold
      cases hold
  | some it => rfl

/-- A hit on another key does nothing. -/
theorem hit_of_none (h : c.WellFormed) (hnone : c.shown key = none) : c.hit key = (false, c) := by
  unfold hit
  rw [h.shown_eq_none.mp hnone]

/-- The entry of a key, and the others. -/
theorem perm_of_shown (h : c.WellFormed) (hold : c.shown key = some object) :
    c.entries.Perm (object :: c.entries.filter (fun o => o.key ≠ key)) := by
  obtain ⟨hmem, rfl⟩ := h.shown_eq.mp hold
  obtain ⟨front, back, hsplit⟩ := List.append_of_mem hmem
  have hnodup := h.keys_nodup
  unfold keys at hnodup
  rw [hsplit, List.map_append, List.map_cons, List.nodup_middle, List.nodup_cons,
    ← List.map_append] at hnodup
  have hkeep : (front ++ back).filter (fun o => decide (o.key ≠ object.key)) = front ++ back := by
    refine List.filter_eq_self.mpr fun o ho => ?_
    rw [decide_eq_true_eq]
    intro heq
    exact hnodup.1 (heq ▸ List.mem_map_of_mem ho)
  have hfilter : c.entries.filter (fun o => decide (o.key ≠ object.key)) = front ++ back := by
    rw [hsplit, List.filter_append, List.filter_cons_of_neg (by simp), ← List.filter_append, hkeep]
  rw [hfilter, hsplit]
  exact List.perm_middle

/-- After a hit, the old iterator of the key points to no node. -/
theorem deref_hit (h : c.WellFormed) (hit : c.lruindex key = some it) :
    (c.hit key).2.deref it = none := by
  obtain ⟨object, hmem, rfl⟩ := h.exists_object hit
  have hlt := h.lt_allocated _ hmem
  unfold LRU.hit renew
  rw [hit]
  dsimp only
  rw [h.deref_eq.mpr hmem]
  unfold deref emplace erase
  dsimp only
  rw [Option.map_eq_none_iff, List.find?_eq_none]
  intro n hn
  rcases List.mem_cons.mp hn with rfl | hn
  · simpa using Nat.ne_of_gt hlt
  · simpa using (List.mem_filter.mp hn).2

end LRU

end Gvds
