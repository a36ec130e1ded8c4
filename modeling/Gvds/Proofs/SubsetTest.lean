/-
Module: Gvds.Proofs.SubsetTest
Layer: Proofs
Purpose: isSubset with its two cursors, as manager/zone/ZoneServer.cc writes it, on vectors of any
  ordered values. The loop ends, stays within both vectors and decides inclusion of multisets; on
  strings it is the isSubset by which ZoneShareCancel, MapDeduct and GetZoneLocateInfo refuse a list.
Imports: Gvds.Proofs.ZoneListings, Gvds.Proofs.ZoneSharing
Trusted boundary: std::sort leaves a sorted permutation; strings are compared byte by byte, which
  is a linear order
Main exports: sizeInt, isSubsetRounds, isSubsetCursors, isSubsetRounds_spec,
  isSubset_is_multiset_inclusion, isSubset_is_multiset_inclusion_twice
-/
import Gvds.Proofs.ZoneListings
import Gvds.Proofs.ZoneSharing

namespace Gvds.Manager

section Cursors

variable {α : Type} [LinearOrder α]

/-- `int m = v1.size()`. -/
def sizeInt (n : Nat) : Int := Int.bmod n 4294967296

/-- The loop of `isSubset` over the sorted copies, for a number of rounds, and what stands behind it.
There is no result if the loop still runs, or has left a vector. -/
def isSubsetRounds (v1 v2 : List α) (m n : Int) : Nat → Int → Int → Option Bool
  | 0, _, _ => none
  | rounds + 1, i, j =>
      if i < n ∧ j < m then
        match v1[j.toNat]?, v2[i.toNat]? with
        | some a, some b =>
            if a < b then isSubsetRounds v1 v2 m n rounds i (j + 1)
            else if a = b then isSubsetRounds v1 v2 m n rounds (i + 1) (j + 1)
            else if a > b then some false
            else isSubsetRounds v1 v2 m n rounds i j
        | _, _ => none
      else if i < n then some false
      else some true

/-- `std::sort`. -/
def sort (v : List α) : List α := v.mergeSort fun a b => decide (a ≤ b)

/-- `isSubset`. -/
def isSubsetCursors (rounds : Nat) (v1 v2 : List α) : Option Bool :=
  let m := sizeInt v1.length
  let n := sizeInt v2.length
  if m < n then some false else isSubsetRounds (sort v1) (sort v2) m n rounds 0 0

/-! ### The loop -/

/-- A vector of less than 2^31 elements has its size. -/
theorem sizeInt_of_lt {n : Nat} (h : n < 2 ^ 31) : sizeInt n = n := by
  unfold sizeInt
  apply Int.bmod_eq_of_le
  · omega
  · omega

theorem sort_perm (v : List α) : (sort v).Perm v := List.mergeSort_perm _ _

theorem length_sort (v : List α) : (sort v).length = v.length := (sort_perm v).length_eq

theorem pairwise_sort (v : List α) : (sort v).Pairwise (· ≤ ·) :=
  List.sortedLE_mergeSort.pairwise

/-- Where the smallest of the one vector is below the smallest of the other, it is not needed. -/
theorem sublist_cons_iff_of_lt {a b : α} {v1 v2 : List α} (hlt : a < b) :
    (b :: v2).Sublist (a :: v1) ↔ (b :: v2).Sublist v1 := by
  constructor
  · intro hsub
    cases hsub with
    | cons _ hsub => exact hsub
    | cons_cons _ hsub => exact absurd hlt (lt_irrefl _)
  · exact fun hsub => hsub.cons a

/-- Where it is above, the other one is missing. -/
theorem not_sublist_cons_of_gt {a b : α} {v1 v2 : List α} (hv1 : (a :: v1).Pairwise (· ≤ ·))
    (hgt : b < a) : ¬ (b :: v2).Sublist (a :: v1) := by
  intro hsub
  have hb : b ∈ a :: v1 := hsub.subset List.mem_cons_self
  cases List.mem_cons.mp hb with
  | inl heq => exact absurd hgt (by rw [heq]; exact lt_irrefl a)
  | inr hmem =>
      have hle := (List.pairwise_cons.mp hv1).1 b hmem
      exact absurd hgt (not_lt_of_ge hle)

omit [LinearOrder α] in
/-- The rest of a vector at a cursor that is inside it. -/
theorem drop_of_getElem? {v : List α} {k : Nat} {a : α} (h : v[k]? = some a) :
    v.drop k = a :: v.drop (k + 1) := by
  obtain ⟨hk, rfl⟩ := List.getElem?_eq_some_iff.mp h
  exact List.drop_eq_getElem_cons hk

/-- What is behind the cursors decides: the loop looks for the rest of the second vector in the rest
of the first one. Each round moves the cursor of the first, so that the rounds suffice. -/
theorem isSubsetRounds_spec {v1 : List α} (v2 : List α) (hv1 : v1.Pairwise (· ≤ ·))
    {rounds i j : Nat} (hi : i ≤ v2.length) (hj : j ≤ v1.length) (hrounds : v1.length - j < rounds) :
    ∃ r, isSubsetRounds v1 v2 v1.length v2.length rounds i j = some r ∧
      (r = true ↔ (v2.drop i).Sublist (v1.drop j)) := by
  induction rounds generalizing i j with
  | zero => exact absurd hrounds (Nat.not_lt_zero _)
  | succ rounds ih =>
      by_cases hin : i < v2.length
      · by_cases hjn : j < v1.length
        · have ha : v1[j]? = some v1[j] := List.getElem?_eq_getElem hjn
          have hb : v2[i]? = some v2[i] := List.getElem?_eq_getElem hin
          have hcond : (i : Int) < v2.length ∧ (j : Int) < v1.length := by omega
          have hrest1 := drop_of_getElem? ha
          have hrest2 := drop_of_getElem? hb
          have hsorted : (v1[j] :: v1.drop (j + 1)).Pairwise (· ≤ ·) := by
            rw [← hrest1]
            exact hv1.sublist (List.drop_sublist j v1)
          simp only [isSubsetRounds, hcond, and_self, if_true, Int.toNat_natCast, ha, hb]
          rcases lt_trichotomy v1[j] v2[i] with hlt | heq | hgt
          · obtain ⟨r, hrun, hr⟩ := ih (i := i) (j := j + 1) hi (by omega) (by omega)
            refine ⟨r, ?_, ?_⟩
            · rw [if_pos hlt]
              exact hrun
            · rw [hr, hrest1, hrest2, sublist_cons_iff_of_lt hlt]
          · obtain ⟨r, hrun, hr⟩ := ih (i := i + 1) (j := j + 1) (by omega) (by omega) (by omega)
            refine ⟨r, ?_, ?_⟩
            · rw [if_neg (by rw [heq]; exact lt_irrefl _), if_pos heq]
              exact hrun
            · rw [hr, hrest1, hrest2, heq, List.cons_sublist_cons]
          · refine ⟨false, ?_, ?_⟩
            · rw [if_neg (not_lt_of_gt hgt), if_neg (ne_of_gt hgt), if_pos hgt]
            · rw [hrest1, hrest2]
              exact iff_of_false Bool.false_ne_true (not_sublist_cons_of_gt hsorted hgt)
        · refine ⟨false, ?_, ?_⟩
          · have hcond : ¬ ((i : Int) < v2.length ∧ (j : Int) < v1.length) := by omega
            have hi' : (i : Int) < v2.length := by omega
            rw [isSubsetRounds, if_neg hcond, if_pos hi']
          · rw [List.drop_eq_nil_of_le (Nat.le_of_not_lt hjn), List.sublist_nil,
              List.drop_eq_nil_iff]
            exact iff_of_false Bool.false_ne_true (Nat.not_le_of_lt hin)
      · refine ⟨true, ?_, ?_⟩
        · have hcond : ¬ ((i : Int) < v2.length ∧ (j : Int) < v1.length) := by omega
          have hi' : ¬ (i : Int) < v2.length := by omega
          rw [isSubsetRounds, if_neg hcond, if_neg hi']
        · rw [List.drop_eq_nil_of_le (Nat.le_of_not_lt hin)]
          exact iff_of_true rfl (List.nil_sublist _)

/-- Of two sorted vectors the one is found in the other iff it is a part of it as a multiset. -/
theorem sort_sublist_iff_subperm {v1 v2 : List α} :
    (sort v2).Sublist (sort v1) ↔ v2.Subperm v1 := by
  rw [← (sort_perm v1).subperm_left, ← (sort_perm v2).subperm_right]
  constructor
  · exact List.Sublist.subperm
  · intro hsub
    exact List.sublist_of_subperm_of_sortedLE hsub List.sortedLE_mergeSort
      List.sortedLE_mergeSort

/-- With more rounds than the first vector has elements `isSubset` returns, and finds what is a part
as a multiset. -/
theorem isSubsetCursors_spec {v1 v2 : List α} (hv1 : v1.length < 2 ^ 31)
    (hv2 : v2.length < 2 ^ 31) {rounds : Nat} (hrounds : v1.length < rounds) :
    ∃ r, isSubsetCursors rounds v1 v2 = some r ∧ (r = true ↔ v2.Subperm v1) := by
  unfold isSubsetCursors
  simp only [sizeInt_of_lt hv1, sizeInt_of_lt hv2]
  by_cases hlen : (v1.length : Int) < v2.length
  · refine ⟨false, if_pos hlen, iff_of_false Bool.false_ne_true fun hsub => ?_⟩
    have hle := hsub.length_le
    omega
  · obtain ⟨r, hrun, hr⟩ := isSubsetRounds_spec (sort v2) (pairwise_sort v1)
      (Nat.zero_le _) (Nat.zero_le _) (by rw [length_sort]; exact hrounds)
    refine ⟨r, ?_, ?_⟩
    · rw [if_neg hlen]
      rw [length_sort, length_sort] at hrun
      exact hrun
    · rw [hr, List.drop_zero, List.drop_zero, sort_sublist_iff_subperm]

end Cursors

/-- A list that is no part of what a zone lists is refused, whoever asks, and nothing is written. -/
theorem lists_outside_are_refused (ask : QueryService) (fails : Nat → Bool) (db : Database)
    (zoneID : String) (zone : Zone) (hget : fails 0 = false)
    (hzone : db.zone zoneID = some zone) (ids : List String) :
    (¬ ids.Subperm zone.memberID → ∀ ownerID admin,
      (server ask).execFaulty fails (zoneShareCancel zoneID ownerID ids admin) (db, 0) =
        (EINVAL, db, 1)) ∧
    (¬ ids.Subperm zone.spaceID →
      (server ask).execFaulty fails (mapDeduct zoneID zone.ownerID ids) (db, 0) =
        (EINVAL, db, 1)) ∧
    (¬ ids.Subperm zone.spaceID → ∀ tmps clientID admin,
      ((server ask).execFaulty fails (getZoneLocateInfo tmps clientID zoneID ids admin)
        (db, 0)).1 = none) := by
  refine ⟨fun hnot ownerID admin => ?_, fun hnot => ?_, fun hnot tmps clientID admin => ?_⟩
  · exact execFaulty_zoneShareCancel_of_not hget hzone
      fun hsub => hnot (isSubset_iff_subperm.mp hsub)
  · have hsub : ¬ isSubset zone.spaceID ids = true :=
      fun hsub => hnot (isSubset_iff_subperm.mp hsub)
    unfold mapDeduct
    rw [Server.execFaulty_bind, execFaulty_getZone]
    simp only [hget, Bool.false_eq_true, if_false, hzone, if_true]
    rw [if_neg hsub]
    rfl
  · refine execFaulty_getZoneLocateInfo_of_not fun zone' _ hzone' _ hsub => ?_
    rw [hzone] at hzone'
    cases hzone'
    exact hnot (isSubset_iff_subperm.mp hsub)

/-- **The subset test is inclusion of multisets.** On vectors of less than 2^31 elements, in any
order and with any repetitions, the loop of `isSubset` ends within both vectors, and the result is
true iff no value occurs more often in the second one than in the first. On strings it is what
ZoneShareCancel, MapDeduct and GetZoneLocateInfo ask: they refuse a list with some string that their
zone does not list as often. -/
theorem isSubset_is_multiset_inclusion :
    (∀ (α : Type) [LinearOrder α] (v1 v2 : List α), v1.length < 2 ^ 31 → v2.length < 2 ^ 31 →
      ∃ r, (∀ rounds, v1.length < rounds → isSubsetCursors rounds v1 v2 = some r) ∧
        (r = true ↔ ∀ s, v2.count s ≤ v1.count s)) ∧
    (∀ v1 v2 : List String, v1.length < 2 ^ 31 → v2.length < 2 ^ 31 →
      ∀ rounds, v1.length < rounds →
        isSubsetCursors rounds v1 v2 = some (isSubset v1 v2)) ∧
    ∀ (ask : QueryService) (fails : Nat → Bool) (db : Database) (zoneID : String) (zone : Zone),
      fails 0 = false → db.zone zoneID = some zone → ∀ (ids : List String) (s : String),
      (zone.memberID.count s < ids.count s → ∀ ownerID admin,
        (server ask).execFaulty fails (zoneShareCancel zoneID ownerID ids admin) (db, 0) =
          (EINVAL, db, 1)) ∧
      (zone.spaceID.count s < ids.count s →
        (server ask).execFaulty fails (mapDeduct zoneID zone.ownerID ids) (db, 0) =
          (EINVAL, db, 1)) ∧
      (zone.spaceID.count s < ids.count s → ∀ tmps clientID admin,
        ((server ask).execFaulty fails (getZoneLocateInfo tmps clientID zoneID ids admin)
          (db, 0)).1 = none) := by
  refine ⟨fun α _ v1 v2 hv1 hv2 => ?_, fun v1 v2 hv1 hv2 rounds hrounds => ?_,
    fun ask fails db zoneID zone hget hzone ids s => ?_⟩
  · obtain ⟨r, -, hr⟩ := isSubsetCursors_spec hv1 hv2 (Nat.lt_succ_self _)
    refine ⟨r, fun rounds hrounds => ?_, ?_⟩
    · obtain ⟨r', hrun, hr'⟩ := isSubsetCursors_spec hv1 hv2 hrounds
      rw [hrun, Bool.eq_iff_iff.mpr (hr'.trans hr.symm)]
    · rw [hr, List.subperm_ext_iff]
      refine ⟨fun hle s => ?_, fun hle s _ => hle s⟩
      by_cases hs : s ∈ v2
      · exact hle s hs
      · rw [List.count_eq_zero_of_not_mem hs]
        exact Nat.zero_le _
  · obtain ⟨r, hrun, hr⟩ := isSubsetCursors_spec hv1 hv2 hrounds
    rw [hrun, Bool.eq_iff_iff.mpr (hr.trans isSubset_iff_subperm.symm)]
  · have houtside : ∀ {listed : List String}, listed.count s < ids.count s →
        ¬ ids.Subperm listed := fun hlt hsub => absurd (hsub.count_le s) (Nat.not_le_of_lt hlt)
    obtain ⟨hcancel, hdeduct, hlocate⟩ :=
      lists_outside_are_refused ask fails db zoneID zone hget hzone ids
    exact ⟨fun hlt => hcancel (houtside hlt), fun hlt => hdeduct (houtside hlt),
      fun hlt => hlocate (houtside hlt)⟩

/-- A list that is repeated: it is found where it is there twice, and refused where it is not. -/
theorem isSubset_is_multiset_inclusion_twice :
    isSubsetCursors 4 ["b", "a", "a"] ["a", "a"] = some (isSubset ["b", "a", "a"] ["a", "a"]) ∧
      (server noQueries).execFaulty Server.noFails (zoneShareCancel "z" "u" ["v", "v"] false)
        (databaseOfV, 0) = (EINVAL, databaseOfV, 1) :=
  ⟨isSubset_is_multiset_inclusion.2.1 _ _ (by decide) (by decide) 4 (by decide),
    (isSubset_is_multiset_inclusion.2.2 noQueries Server.noFails databaseOfV "z" zoneOfV rfl rfl
      ["v", "v"] "v").1 (by decide) "u" false⟩

end Gvds.Manager
