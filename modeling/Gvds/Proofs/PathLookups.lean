/-
Module: Gvds.Proofs.PathLookups
Layer: Proofs
Purpose: The loop of `splitWithStl` finds what stands between the separators, one component more
  than there are separators. With it, the accesses of the callbacks to the split path: all of them
  are within the vector, unless read, write, truncate or unlink gets a path without a second
  separator, or rename goes on with such a new path.
Imports: Gvds.Client.PathLookups
Trusted boundary: as Gvds.Client.PathLookups
Main exports: splitRounds_eq, length_splitWithStl, locatePosition_inRange_iff, Callback.LongEnough,
  accesses_inRange_iff
-/
import Gvds.Client.PathLookups

namespace Gvds.ZoneMod

open Manager (Bytes)

/-! ### The split -/

theorem find_zero (path : Bytes) : find path 0 = path.findIdx? (· = slash) := by
  simp [find]

/-- The first separator is behind what has none. -/
theorem find_append_cons {a : Bytes} (h : slash ∉ a) (b : Bytes) :
    find (a ++ slash :: b) 0 = some a.length := by
  rw [find_zero, List.findIdx?_append, List.findIdx?_eq_none_iff.mpr, List.findIdx?_cons]
  · simp
  · intro x hx
    simp only [decide_eq_false_iff_not]
    rintro rfl
    exact h hx

theorem find_eq_none {a : Bytes} (h : slash ∉ a) : find a 0 = none := by
  rw [find_zero, List.findIdx?_eq_none_iff]
  intro x hx
  simp only [decide_eq_false_iff_not]
  rintro rfl
  exact h hx

/-- With a round for every byte and one more, the loop ends, and what it has found is what stands
between the separators. -/
theorem splitRounds_eq {rounds : Nat} {str : Bytes} (h : str.length < rounds) :
    splitRounds rounds (str ++ [slash]) = str.splitOn slash := by
  induction rounds generalizing str with
  | zero => exact absurd h (Nat.not_lt_zero _)
  | succ rounds ih =>
      by_cases hmem : slash ∈ str
      · obtain ⟨a, b, rfl, ha⟩ := List.eq_append_cons_of_mem hmem
        have hlt : b.length < rounds := by
          rw [List.length_append, List.length_cons] at h
          omega
        have hfind : find (a ++ slash :: (b ++ [slash])) 0 = some a.length :=
          find_append_cons ha _
        rw [List.splitOn_append_cons_self_of_not_mem ha, ← ih hlt]
        simp [splitRounds, hfind]
      · rw [List.splitOn_eq_singleton hmem]
        have hrest : splitRounds rounds [] = [] := by
          cases rounds with
          | zero => rfl
          | succ rounds => rfl
        simp [splitRounds, find_append_cons hmem [], hrest]

/-- One component more than there are separators. -/
theorem length_splitOn (str : Bytes) : (str.splitOn slash).length = str.count slash + 1 := by
  induction str with
  | nil => rfl
  | cons b str ih =>
      rw [List.splitOn_cons_eq_if_modifyHead]
      split
      · rename_i hb
        rw [List.length_cons, ih, eq_of_beq hb, List.count_cons_self]
      · rename_i hb
        have hne : b ≠ slash := fun heq => hb (beq_iff_eq.mpr heq)
        rw [List.length_modifyHead, ih, List.count_cons_of_ne hne]

theorem length_splitWithStl {path : Bytes} (h : path ≠ []) :
    (splitWithStl path).length = path.count slash + 1 := by
  rw [splitWithStl, if_neg h, length_splitOn]

namespace FusePath

theorem ne_nil (p : FusePath) : p.path ≠ [] := by
  intro h
  have habs := p.absolute
  rw [h] at habs
  cases habs

theorem one_le_count (p : FusePath) : 1 ≤ p.path.count slash := by
  obtain ⟨tail, htail⟩ := List.head?_eq_some_iff.mp p.absolute
  rw [htail, List.count_cons_self]
  exact Nat.le_add_left 1 _

theorem length_split (p : FusePath) : (splitWithStl p.path).length = p.path.count slash + 1 :=
  length_splitWithStl p.ne_nil

end FusePath

/-! ### The lookups -/

/-- `isZoneSpacePath` looks at nothing that is not there. -/
theorem isZoneSpacePath_inRange {path : Bytes} {a : Access}
    (h : a ∈ isZoneSpacePathAccesses path) : a.InRange := by
  unfold isZoneSpacePathAccesses at h
  split at h
  · cases h
  · split at h
    · rename_i hlen
      rw [List.mem_singleton.mp h]
      exact hlen
    · cases h

/-- `isZoneSpacePath` has a value for every absolute path. -/
theorem FusePath.isZoneSpacePath_isSome (s : ClientZone) (p : FusePath) :
    (isZoneSpacePath s p.path).isSome := by
  have hlen := p.length_split
  have hcount := p.one_le_count
  unfold isZoneSpacePath
  split
  · rfl
  · split
    · split <;> rfl
    · rename_i hshort
      cases hsplit : splitWithStl p.path with
      | nil =>
          rw [hsplit] at hlen
          cases hlen
      | cons first tail =>
          cases tail with
          | nil =>
              rw [hsplit, List.length_singleton] at hlen
              omega
          | cons zonename rest => exact absurd hsplit (hshort first zonename rest)

/-- It is that of a space or of what is below only if there are three components. -/
theorem three_le_length_split {s : ClientZone} {path : Bytes} {zs_res : Int}
    (hres : isZoneSpacePath s path = some zs_res) (h : 2 ≤ zs_res) :
    3 ≤ (splitWithStl path).length := by
  unfold isZoneSpacePath at hres
  split at hres
  · cases hres
    exact absurd h (by decide)
  · split at hres
    · rename_i zonename rest hsplit
      rw [hsplit]
      cases rest with
      | cons spacename rest => simp
      | nil =>
          split at hres
          · cases hres
            exact absurd h (by decide)
          · cases hres
            exact absurd h (by decide)
          · rename_i heq
            cases heq
          · rename_i hne _
            exact absurd rfl hne
    · cases hres

/-- The accesses of `locatePosition` are within the vector iff there are three components. -/
theorem locatePosition_inRange_iff {s : ClientZone} {path : Bytes} :
    (∀ a ∈ locatePositionAccesses s path, a.InRange) ↔ 3 ≤ (splitWithStl path).length := by
  constructor
  · intro h
    exact h ⟨path, 2⟩ (List.mem_cons_of_mem _ List.mem_cons_self)
  · intro h a ha
    have hpath : a.path = path ∧ a.i ≤ 2 := by
      rcases List.mem_cons.mp ha with rfl | ha
      · exact ⟨rfl, Nat.le_succ 1⟩
      rcases List.mem_cons.mp ha with rfl | ha
      · exact ⟨rfl, Nat.le_refl 2⟩
      split at ha
      · obtain ⟨-, -, rfl⟩ := List.mem_map.mp ha
        exact ⟨rfl, Nat.le_refl 2⟩
      · cases ha
    rw [Access.InRange, hpath.1]
    omega

/-- So all is within the vector iff there are two separators. -/
theorem get_mapping_inRange_iff {s : ClientZone} (p : FusePath) :
    (∀ a ∈ get_mappingAccesses s p.path, a.InRange) ↔ 2 ≤ p.path.count slash := by
  rw [get_mappingAccesses, locatePosition_inRange_iff, p.length_split]
  omega

/-- Behind `isZoneSpacePath`, every access is within the vector. -/
theorem belowZone_inRange {s : ClientZone} {path : Bytes} {a : Access}
    (h : a ∈ belowZone s path (get_mappingAccesses s path)) : a.InRange := by
  rcases List.mem_append.mp h with h | h
  · exact isZoneSpacePath_inRange h
  · split at h
    · rename_i zs_res hres
      split at h
      · cases h
      · rename_i hge
        have hlen := three_le_length_split hres (Int.not_lt.mp hge)
        exact locatePosition_inRange_iff.mpr hlen a h
    · cases h

/-- Behind the test of `namev.size()`, every access to the same path is within the vector. -/
theorem belowSpace_inRange {s : ClientZone} {path : Bytes} {a : Access}
    (h : a ∈ belowSpace path (locatePositionAccesses s path)) : a.InRange := by
  unfold belowSpace at h
  split at h
  · cases h
  · rename_i hlen
    exact locatePosition_inRange_iff.mpr (by omega) a h

/-- The two lookups of rename are within the vectors iff the new path has two separators, or the
old one is not below a space. -/
theorem rename_inRange_iff {s : ClientZone} (p newpath : FusePath) :
    (∀ a ∈ gvdsfs_rename s p.path newpath.path, a.InRange) ↔
      p.path.count slash ≤ 2 ∨ 2 ≤ newpath.path.count slash := by
  unfold gvdsfs_rename belowSpace
  rw [p.length_split]
  by_cases hold : p.path.count slash ≤ 2
  · rw [if_pos (by omega)]
    simp [hold]
  · rw [if_neg (by omega), List.forall_mem_append, get_mapping_inRange_iff,
      get_mapping_inRange_iff]
    omega

/-! ### The callbacks -/

/-- The paths that a callback looks up without a test have a second separator. For rename this is
the new path, where the old one is below a space. -/
def Callback.LongEnough : Callback → Prop
  | .read p | .write p | .truncate p | .unlink p => 2 ≤ p.path.count slash
  | .rename p newpath => p.path.count slash ≤ 2 ∨ 2 ≤ newpath.path.count slash
  | _ => True

/-- Every access of a callback to the split path is within the vector, iff the paths that it looks
up without a test are long enough. -/
theorem accesses_inRange_iff (s : ClientZone) (c : Callback) :
    (∀ a ∈ c.accesses s, a.InRange) ↔ c.LongEnough := by
  cases c with
  | read p => exact get_mapping_inRange_iff p
  | write p => exact get_mapping_inRange_iff p
  | truncate p => exact get_mapping_inRange_iff p
  | unlink p => exact get_mapping_inRange_iff p
  | rename p newpath => exact rename_inRange_iff p newpath
  | getattr p => exact iff_of_true (fun _ => belowZone_inRange) trivial
  | readdir p => exact iff_of_true (fun _ => belowZone_inRange) trivial
  | «open» p => exact iff_of_true (fun _ => belowZone_inRange) trivial
  | access p => exact iff_of_true (fun _ => belowZone_inRange) trivial
  | mkdir p => exact iff_of_true (fun _ => belowSpace_inRange) trivial
  | rmdir p => exact iff_of_true (fun _ => belowSpace_inRange) trivial
  | chmod p => exact iff_of_true (fun _ => belowSpace_inRange) trivial
  | chown p => exact iff_of_true (fun _ => belowSpace_inRange) trivial
  | create p => exact iff_of_true (fun _ => belowSpace_inRange) trivial
  | utimens p => exact iff_of_true (fun _ => belowSpace_inRange) trivial
  | getxattr p => exact iff_of_true (fun _ => belowSpace_inRange) trivial
  | listxattr p => exact iff_of_true (fun _ => belowSpace_inRange) trivial
  | removexattr p => exact iff_of_true (fun _ => belowSpace_inRange) trivial
  | setxattr p name =>
      -- both branches look the same path up
      have hsame : gvdsfs_setxattr s p.path name =
          belowSpace p.path (locatePositionAccesses s p.path) := by
        simp [gvdsfs_setxattr, set_force_mappingAccesses, get_mappingAccesses]
      refine iff_of_true (fun a ha => ?_) trivial
      change a ∈ gvdsfs_setxattr s p.path name at ha
      rw [hsame] at ha
      exact belowSpace_inRange ha
  | _ => exact iff_of_true (fun _ ha => absurd ha List.not_mem_nil) trivial

/-- The path "/z/s/f" of a file, renamed to "/g" next to the zones. -/
theorem rename_to_the_root_out_of_range :
    ¬ ∀ (s : ClientZone) (c : Callback), ∀ a ∈ c.accesses s, a.InRange := by
  intro h
  have hin := h ⟨fun _ => none, fun _ => none⟩
    (.rename ⟨[47, 122, 47, 115, 47, 102], by decide⟩ ⟨[47, 103], by decide⟩)
    ⟨[47, 103], 2⟩ (by decide)
  exact absurd hin (by decide)

end Gvds.ZoneMod
