/-
Module: Gvds.Proofs.StorageChoices
Layer: Proofs
Purpose: Which storage cluster GetSpaceCreatePath takes. The map's keys are the free capacities cut
  to 32 bits, and of the clusters with one key the last row stays; so the cluster that is taken has
  the most room exactly where no cluster of less room outranks all those of the most room.
Imports: Gvds.Manager.SpaceServer, Mathlib.Algebra.Group.Nat.Defs
Trusted boundary: as Gvds.Manager.SpaceServer
Main exports: room, Roomiest, Outranks, exec_createPath, chooses_roomiest_iff,
  chooses_roomiest_of_fits, roomiest_is_passed_over
-/
import Gvds.Manager.SpaceServer
import Mathlib.Algebra.Group.Nat.Defs

namespace Gvds.Manager

/-- The free capacity. -/
def room (storage : StorageResource) : Int :=
  storage.total_capacity.toInt - storage.assign_capacity.toInt

/-- The identifiers that `GetSpaceCreatePath` returns for a storage cluster. -/
def identifiers (storage : StorageResource) : String × String :=
  (storagePrefix ++ storage.storage_src_id, storage.host_center_id)

/-- The identifiers are those of a storage cluster of the list with the most room. -/
def Roomiest (rows : List StorageResource) (ids : String × String) : Prop :=
  ∃ best ∈ rows, identifiers best = ids ∧ ∀ storage ∈ rows, room storage ≤ room best

/-- The row at `i` comes before the one at `j` in the map: its room is larger as an `int`, or it is
the later one of two rows whose rooms are the same as `int`s. -/
def Outranks (rows : List StorageResource) (i j : Nat) : Prop :=
  ∃ best storage, rows[i]? = some best ∧ rows[j]? = some storage ∧
    ((room storage).bmod (2 ^ 32) < (room best).bmod (2 ^ 32) ∨
      (room storage).bmod (2 ^ 32) = (room best).bmod (2 ^ 32) ∧ j < i)

/-! ### The map -/

/-- A key is the free capacity as an `int`, whether or not the difference overflows. -/
theorem toInt_roomKey (storage : StorageResource) :
    (roomKey storage).toInt = (room storage).bmod (2 ^ 32) := by
  rw [roomKey, Int64.toInt_toInt32, Int64.toInt_sub, room]
  exact Int.bmod_bmod_of_dvd (by decide)

instance : Std.TransCmp greaters :=
  inferInstanceAs (Std.TransCmp fun left right : Int32 => compare right left)

/-- Keys come in descending order. -/
theorem greaters_eq_lt_iff {left right : Int32} :
    greaters left right = .lt ↔ right.toInt < left.toInt := by
  rw [greaters, ← Int32.lt_iff_toInt_lt]
  exact compareOfLessAndEq_eq_lt

theorem greaters_eq_eq_iff {left right : Int32} :
    greaters left right = .eq ↔ right.toInt = left.toInt := by
  rw [greaters, Std.LawfulEqCmp.compare_eq_iff_eq, Int32.toInt_inj]

/-- The first entry of the map outranks the other rows. -/
theorem exists_first {rows : List StorageResource} (hne : rows ≠ []) :
    ∃ i best, rows[i]? = some best ∧
      MapFill.first (MapFill.fill greaters (rows.map fun storage => (roomKey storage, storage))) =
        some (roomKey best, best) ∧
      ∀ j < rows.length, j ≠ i → Outranks rows i j := by
  obtain ⟨i, e, ⟨hi, hall⟩, hfirst⟩ :=
    @MapFill.exists_leads _ _ greaters _ _ (mt List.map_eq_nil_iff.mp hne)
  rw [List.getElem?_map] at hi
  obtain ⟨best, hbest, rfl⟩ := Option.map_eq_some_iff.mp hi
  refine ⟨i, best, hbest, hfirst, fun j hj hji => ?_⟩
  have hentry : (rows.map fun storage => (roomKey storage, storage))[j]? =
      some (roomKey rows[j], rows[j]) := by
    rw [List.getElem?_map, List.getElem?_eq_getElem hj, Option.map_some]
  refine ⟨best, rows[j], hbest, List.getElem?_eq_getElem hj, ?_⟩
  rcases hall j _ hentry with hlt | ⟨heq, hle⟩
  · rw [greaters_eq_lt_iff, toInt_roomKey, toInt_roomKey] at hlt
    exact .inl hlt
  · rw [greaters_eq_eq_iff, toInt_roomKey, toInt_roomKey] at heq
    exact .inr ⟨heq, by omega⟩

/-- No two rows outrank each other. -/
theorem Outranks.asymm {rows : List StorageResource} {i j : Nat} (h : Outranks rows i j) :
    ¬ Outranks rows j i := by
  obtain ⟨best, storage, hi, hj, hless⟩ := h
  rintro ⟨storage', best', hj', hi', hless'⟩
  obtain rfl := Option.some.inj (hi.symm.trans hi')
  obtain rfl := Option.some.inj (hj.symm.trans hj')
  omega

/-- The loop with the best row so far fills the map and takes its first entry. -/
theorem foldl_preferred (rows : List StorageResource) :
    rows.foldl preferred none =
      MapFill.first
        (MapFill.fill greaters (rows.map fun storage => (roomKey storage, storage))) := by
  induction rows using List.reverseRecOn with
  | nil => simp [MapFill.first, MapFill.fill]
  | append_singleton rows storage ih =>
      rw [List.foldl_append, ih, List.map_append, List.map_singleton, MapFill.fill_concat,
        MapFill.first_insert]
      cases MapFill.first
        (MapFill.fill greaters (rows.map fun storage => (roomKey storage, storage))) with
      | none => rfl
      | some e =>
          have hle : (greaters (roomKey storage) e.1).isLE ↔ e.1 ≤ roomKey storage := by
            rw [greaters, Std.isLE_compare]
          simp only [List.foldl_cons, List.foldl_nil, preferred, hle]
          rfl

/-- `GetSpaceCreatePath` returns the identifiers of the row that `getSpaceCreatePath` has. -/
theorem exec_createPath (ask : QueryService) (db : Database) (host stor : String) :
    (server ask).exec (createPath host stor) db =
      ((((server ask).exec (getSpaceCreatePath host stor) db).1.map identifiers).getD ("", ""),
        db) := by
  have hrows : (server ask).answer (.queryStorages host stor) db =
      some (ask.storages db host stor) := rfl
  simp only [createPath, getSpaceCreatePath, Server.exec_bind, Server.exec_perform, hrows,
    Server.exec_pure, Option.getD_some, foldl_preferred]
  cases MapFill.first (MapFill.fill greaters
    ((ask.storages db host stor).map fun storage => (roomKey storage, storage))) with
  | none => rfl
  | some ite => rfl

/-! ### The choice -/

/-- For every non-empty list of rows, whatever their capacities: the identifiers that are returned
are those of a storage cluster with the most room if and only if every other row is outranked by one
that has these identifiers of the most room. -/
theorem chooses_roomiest_iff (ask : QueryService) (db : Database) (host stor : String)
    (hrows : ask.storages db host stor ≠ []) :
    Roomiest (ask.storages db host stor) ((server ask).exec (createPath host stor) db).1 ↔
      ∀ j storage, (ask.storages db host stor)[j]? = some storage →
        ¬ Roomiest (ask.storages db host stor) (identifiers storage) →
          ∃ i best, (ask.storages db host stor)[i]? = some best ∧
            Roomiest (ask.storages db host stor) (identifiers best) ∧
            Outranks (ask.storages db host stor) i j := by
  obtain ⟨i, best, hbest, hfirst, hall⟩ := exists_first hrows
  have hexec : ((server ask).exec (createPath host stor) db).1 = identifiers best := by
    rw [exec_createPath]
    simp only [getSpaceCreatePath, Server.exec_bind, Server.exec_perform, Server.exec_pure, server,
      Option.getD_some, foldl_preferred, hfirst, Option.map_some]
  rw [hexec]
  constructor
  · intro hright j storage hj hwrong
    have hji : j ≠ i := by
      rintro rfl
      rw [hbest] at hj
      cases hj
      exact hwrong hright
    exact ⟨i, best, hbest, hright, hall j (List.getElem?_eq_some_iff.mp hj).1 hji⟩
  · intro houtranked
    by_contra hwrong
    obtain ⟨j, best', hj, hright, hranks⟩ := houtranked i best hbest hwrong
    have hji : j ≠ i := by
      rintro rfl
      rw [hbest] at hj
      cases hj
      exact hwrong hright
    exact hranks.asymm (hall j (List.getElem?_eq_some_iff.mp hj).1 hji)

/-- Where every free capacity fits an `int`, the choice is right. -/
theorem chooses_roomiest_of_fits (ask : QueryService) (db : Database) (host stor : String)
    (hrows : ask.storages db host stor ≠ [])
    (hfits : ∀ storage ∈ ask.storages db host stor,
      (room storage).bmod (2 ^ 32) = room storage) :
    Roomiest (ask.storages db host stor) ((server ask).exec (createPath host stor) db).1 := by
  obtain ⟨i, best, hbest, hfirst, hall⟩ := exists_first hrows
  have hmem := List.mem_of_getElem? hbest
  rw [exec_createPath]
  simp only [getSpaceCreatePath, Server.exec_bind, Server.exec_perform, Server.exec_pure, server,
    Option.getD_some, foldl_preferred, hfirst, Option.map_some]
  refine ⟨best, hmem, rfl, fun storage hstorage => ?_⟩
  obtain ⟨j, hj, rfl⟩ := List.mem_iff_getElem.mp hstorage
  by_cases hji : j = i
  · subst hji
    rw [List.getElem?_eq_getElem hj] at hbest
    cases hbest
    exact le_rfl
  · obtain ⟨best', storage', hbest', hstorage', hless⟩ := hall j hj hji
    obtain rfl := Option.some.inj (hbest.symm.trans hbest')
    rw [List.getElem?_eq_getElem hj] at hstorage'
    cases hstorage'
    rw [hfits _ hmem, hfits _ hstorage] at hless
    omega

/-- A storage cluster of the center c with a total capacity of which nothing is assigned. -/
def clusterWith (storage_src_id : String) (total_capacity : Int64) : StorageResource where
  storage_src_id := storage_src_id
  storage_src_name := storage_src_id
  host_center_id := "c"
  host_center_name := "c"
  total_capacity := total_capacity
  assign_capacity := 0
  mgs_address := ""
  state := 0

/-- No documents; the query service below does not look at them. -/
def noDocuments : Database
  | .storage _ => none
  | .space _ => none
  | .zone _ => none

/-- A query service that returns the same storage clusters for every query. -/
def offers (rows : List StorageResource) : QueryService where
  storages _ _ _ := rows
  spaces _ _ _ _ := []
  zones _ _ := some []
  spaces_sound := noSpaces_sound
  zones_sound := noZones_sound

/-- Of two clusters with 7 and 40 free, the second one is taken. -/
theorem chooses_roomiest_of_two :
    Roomiest [clusterWith "1" 7, clusterWith "2" 40]
      ((server (offers [clusterWith "1" 7, clusterWith "2" 40])).exec (createPath "c" "")
        noDocuments).1 := by
  refine (chooses_roomiest_iff (offers [clusterWith "1" 7, clusterWith "2" 40]) noDocuments "c" ""
    (List.cons_ne_nil _ _)).mpr fun j storage hj hwrong => ?_
  have hroomiest : Roomiest [clusterWith "1" 7, clusterWith "2" 40]
      (identifiers (clusterWith "2" 40)) :=
    ⟨clusterWith "2" 40, by decide, rfl, by decide⟩
  match j, hj with
  | 0, rfl =>
      exact ⟨1, _, rfl, hroomiest, _, _, rfl, rfl, .inl (by decide)⟩
  | 1, rfl => exact absurd hroomiest hwrong

/-- A cluster with 2147483648 free is a negative number in the map; the one with 1 free is taken. -/
theorem roomiest_is_passed_over :
    ¬ ∀ (ask : QueryService) (db : Database) (host stor : String),
      ask.storages db host stor ≠ [] →
        Roomiest (ask.storages db host stor)
          ((server ask).exec (createPath host stor) db).1 := by
  intro hall
  obtain ⟨best, hmem, hids, hmost⟩ :=
    hall (offers [clusterWith "1" 2147483648, clusterWith "2" 1]) noDocuments "c" ""
      (List.cons_ne_nil _ _)
  have htaken : ((server (offers [clusterWith "1" 2147483648, clusterWith "2" 1])).exec
      (getSpaceCreatePath "c" "") noDocuments).1 = some (clusterWith "2" 1) := by decide
  rw [exec_createPath, htaken] at hids
  have hroom := hmost (clusterWith "1" 2147483648) (List.mem_cons_self ..)
  rcases List.mem_pair.mp hmem with rfl | rfl
  · exact absurd (congrArg Prod.fst hids) (by decide)
  · exact absurd hroom (by decide)

end Gvds.Manager
