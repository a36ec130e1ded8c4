/-
Module: Gvds.Proofs.SizeChanges
Layer: Proofs
Purpose: SpaceSizeChange against the usage of the space, whatever the query for it brings and
  whichever calls fail. A size that is stored covers a usage that was determined; where it was not,
  the -1 of SpaceUsage, or what stood in the variable, passes for a small usage.
Imports: Gvds.Proofs.SpaceOperations, Mathlib.Algebra.Group.Int.Defs
Trusted boundary: as Gvds.Manager.SpaceServer
Main exports: Stores, Covers, stores_iff, stored_size_covers_usage_iff,
  size_is_stored_without_usage
-/
import Gvds.Proofs.SpaceOperations
import Mathlib.Algebra.Group.Int.Defs

namespace Gvds.Manager

variable {ask : QueryService} {fails : Nat → Bool} {db : Database} {n : Nat}

/-! ### The operation with its query -/

/-- With an answer to the query the operation is `SpaceSizeChange`. -/
theorem execFaulty_asking {svc : UsageService} {id : String} {newSize realsize : Int64}
    (hreply : ∀ sp, db.space id = some sp → (svc.reply sp).realsize = some realsize) :
    (server ask).execFaulty fails (spaceSizeChangeAsking svc id newSize) (db, n) =
      (some ((server ask).execFaulty fails (spaceSizeChange id newSize realsize) (db, n)).1,
        ((server ask).execFaulty fails (spaceSizeChange id newSize realsize) (db, n)).2) := by
  unfold spaceSizeChangeAsking spaceSizeChange
  by_cases hneg : newSize < 0
  · rw [if_pos hneg, if_pos hneg]
    rfl
  rw [if_neg hneg, if_neg hneg, Server.execFaulty_bind, Server.execFaulty_bind,
    execFaulty_getSpace]
  cases fails n with
  | true => rfl
  | false =>
  simp only [Bool.false_eq_true, if_false]
  cases hsp : db.space id with
  | none => rfl
  | some sp =>
  dsimp only
  rw [Server.execFaulty_bind, Server.execFaulty_bind, execFaulty_centerInformation]
  cases fails (n + 1) with
  | true => rfl
  | false =>
  simp only [Bool.not_false, if_true, hreply sp hsp]
  by_cases hused : newSize ≤ realsize / 1000000 + 1
  · rw [if_pos hused, if_pos hused]
    rfl
  rw [if_neg hused, if_neg hused]
  by_cases hgrow : newSize > sp.spaceSize
  · rw [if_pos hgrow, if_pos hgrow, Server.execFaulty_bind, Server.execFaulty_map,
      Server.execFaulty_bind]
  rw [if_neg hgrow, if_neg hgrow]
  by_cases hshrink : newSize < sp.spaceSize
  · rw [if_pos hshrink, if_pos hshrink, Server.execFaulty_bind, Server.execFaulty_map,
      Server.execFaulty_bind]
  rw [if_neg hshrink, if_neg hshrink]
  rfl

/-- Without an answer to the query nothing changes. -/
theorem execFaulty_asking_of_noAnswer {svc : UsageService} {id : String} {sp : Space}
    (hsp : db.space id = some sp) (hreply : (svc.reply sp).realsize = none) (newSize : Int64) :
    ((server ask).execFaulty fails (spaceSizeChangeAsking svc id newSize) (db, n)).2.1 = db := by
  unfold spaceSizeChangeAsking
  by_cases hneg : newSize < 0
  · rw [if_pos hneg]
    rfl
  rw [if_neg hneg, Server.execFaulty_bind, execFaulty_getSpace]
  cases fails n with
  | true => rfl
  | false =>
  simp only [Bool.false_eq_true, if_false, hsp]
  rw [Server.execFaulty_bind, execFaulty_centerInformation]
  cases fails (n + 1) with
  | true => rfl
  | false =>
  simp only [Bool.not_false, if_true, hreply]
  rfl

/-! ### What is stored -/

/-- The space has another size than before. -/
def Stores (db db' : Database) (id : String) : Prop :=
  (db'.space id).map Space.spaceSize ≠ (db.space id).map Space.spaceSize

/-- The documents after `SpaceSizeChange`, with the calls failing that `fails` says. -/
def afterSizeChange (ask : QueryService) (fails : Nat → Bool) (svc : UsageService) (db : Database)
    (id : String) (newSize : Int64) : Database :=
  ((server ask).execFaulty fails (spaceSizeChangeAsking svc id newSize) (db, 0)).2.1

/-- The usage that the query has determined is not above the size, which is in units of a
million KB. -/
def Covers (newSize : Int64) (usage : Option Int64) : Prop :=
  ∃ spaceUsage, usage = some spaceUsage ∧ spaceUsage.toInt ≤ newSize.toInt * 10 ^ 6

/-- With the query answered, the new size is stored if and only if the operation charges the storage
cluster and can write the space. -/
theorem stores_of_answer {svc : UsageService} {id : String} {newSize realsize : Int64}
    (hreply : ∀ sp, db.space id = some sp → (svc.reply sp).realsize = some realsize) :
    Stores db (afterSizeChange ask fails svc db id newSize) id ↔
      ∃ sp, Resizes fails 0 db id newSize realsize sp ∧ fails 4 = false := by
  unfold afterSizeChange Stores
  rw [execFaulty_asking hreply]
  rcases spaceSizeChange_spec ask fails db 0 id newSize realsize with
    ⟨hno, r, n', hexec, -⟩ | ⟨sp, hresizes, hset, n', hexec⟩ | ⟨sp, hresizes, hset, hexec⟩
  · rw [hexec]
    refine iff_of_false (fun h => h rfl) ?_
    rintro ⟨sp, hresizes, -⟩
    exact hno sp hresizes
  · rw [hexec]
    refine iff_of_false (fun h => h (by rw [Database.space_charge])) ?_
    rintro ⟨-, -, hset'⟩
    simp [hset] at hset'
  · rw [hexec]
    refine iff_of_true ?_ ⟨sp, hresizes, hset⟩
    rw [Database.space_putSpace_self, hresizes.2.2.1]
    intro hsame
    have hsize : newSize = sp.spaceSize := Option.some.inj hsame
    rcases hresizes.2.2.2.2.2 with ⟨hgrow, -⟩ | ⟨hshrink, -⟩
    · exact Int64.ne_of_lt hgrow hsize.symm
    · exact Int64.ne_of_lt hshrink hsize

/-- The new size is stored if and only if the operation charges the storage cluster, with what the
query has left in `realsize`, and can write the space. -/
theorem stores_iff (ask : QueryService) (fails : Nat → Bool) (svc : UsageService) (db : Database)
    (id : String) (newSize : Int64) :
    Stores db (afterSizeChange ask fails svc db id newSize) id ↔
      ∃ sp realsize, (svc.reply sp).realsize = some realsize ∧
        Resizes fails 0 db id newSize realsize sp ∧ fails 4 = false := by
  cases hsp : db.space id with
  | none =>
      have hnone : ∀ sp, db.space id = some sp → (svc.reply sp).realsize = some 0 := by
        intro sp h
        rw [hsp] at h
        cases h
      rw [stores_of_answer hnone]
      refine iff_of_false ?_ ?_
      · rintro ⟨sp, hresizes, -⟩
        exact Option.some_ne_none sp (hresizes.2.2.1.symm.trans hsp)
      · rintro ⟨sp, _, _, hresizes, -⟩
        exact Option.some_ne_none sp (hresizes.2.2.1.symm.trans hsp)
  | some sp =>
      have hsame : ∀ {realsize sp'}, Resizes fails 0 db id newSize realsize sp' → sp' = sp :=
        fun h => Option.some.inj (h.2.2.1.symm.trans hsp)
      cases hreply : (svc.reply sp).realsize with
      | none =>
          refine iff_of_false ?_ ?_
          · unfold afterSizeChange
            rw [execFaulty_asking_of_noAnswer hsp hreply]
            exact fun h => h rfl
          · rintro ⟨sp', realsize, hreply', hresizes, -⟩
            rw [hsame hresizes, hreply] at hreply'
            cases hreply'
      | some realsize =>
          have hall : ∀ sp', db.space id = some sp' → (svc.reply sp').realsize = some realsize := by
            intro sp' h
            rw [hsp] at h
            cases h
            exact hreply
          rw [stores_of_answer hall]
          constructor
          · rintro ⟨sp', hresizes, hset⟩
            exact ⟨sp', realsize, hall sp' hresizes.2.2.1, hresizes, hset⟩
          · rintro ⟨sp', realsize', hreply', hresizes, hset⟩
            rw [hall sp' hresizes.2.2.1] at hreply'
            cases hreply'
            exact ⟨sp', hresizes, hset⟩

/-- A quotient by a million: it is between the number and 0, and one more covers the number. -/
theorem tdiv_million (a : Int) : min a 0 ≤ a.tdiv 1000000 ∧ a.tdiv 1000000 ≤ max a 0 / 1000000 ∧
    a ≤ (a.tdiv 1000000 + 1) * 10 ^ 6 := by
  rcases Int.le_total 0 a with ha | ha
  · rw [Int.tdiv_eq_ediv_of_nonneg ha]
    omega
  · obtain ⟨b, rfl⟩ : ∃ b, a = -b := ⟨-a, (Int.neg_neg a).symm⟩
    rw [Int.neg_tdiv, Int.tdiv_eq_ediv_of_nonneg (by omega)]
    omega

/-- A size above the usage as the operation rounds it covers the usage. -/
theorem usage_le_of_rounded {newSize spaceUsage : Int64}
    (hused : ¬ newSize ≤ spaceUsage / 1000000 + 1) :
    spaceUsage.toInt ≤ newSize.toInt * 10 ^ 6 := by
  have hlow := spaceUsage.le_toInt
  have hhigh := spaceUsage.toInt_lt
  have hdiv : (spaceUsage / 1000000).toInt = spaceUsage.toInt.tdiv 1000000 :=
    Int64.toInt_div_of_ne_right _ _ (by decide)
  obtain ⟨hquotLow, hquotHigh, hquot⟩ := tdiv_million spaceUsage.toInt
  have hone : (1 : Int64).toInt = 1 := rfl
  have hround : (spaceUsage / 1000000 + 1).toInt = spaceUsage.toInt.tdiv 1000000 + 1 := by
    rw [Int64.toInt_add, hdiv, hone]
    exact Int.bmod_eq_of_le (by omega) (by omega)
  rw [Int64.le_iff_toInt_le, hround] at hused
  omega

/-- **A space is never shrunk below its usage** if and only if the usage was determined, where the
new size is above what the query has left in `realsize` and both calls of the change succeed. -/
theorem stored_size_covers_usage_iff (ask : QueryService) (fails : Nat → Bool) (svc : UsageService)
    (db : Database) (id : String) (newSize : Int64) :
    (Stores db (afterSizeChange ask fails svc db id newSize) id →
        ∃ sp, db.space id = some sp ∧ Covers newSize (svc.reply sp).determined) ↔
      ∀ sp realsize, (svc.reply sp).realsize = some realsize →
        Resizes fails 0 db id newSize realsize sp → fails 4 = false →
        (svc.reply sp).determined.isSome := by
  rw [stores_iff]
  constructor
  · intro hall sp realsize hreply hresizes hset
    obtain ⟨sp', hsp', spaceUsage, husage, -⟩ := hall ⟨sp, realsize, hreply, hresizes, hset⟩
    have hsame : sp' = sp := Option.some.inj (hsp'.symm.trans hresizes.2.2.1)
    rw [← hsame, husage]
    rfl
  · rintro hall ⟨sp, realsize, hreply, hresizes, hset⟩
    refine ⟨sp, hresizes.2.2.1, ?_⟩
    have husage := hall sp realsize hreply hresizes hset
    obtain ⟨spaceUsage, husage⟩ := Option.isSome_iff_exists.mp husage
    have hreal : spaceUsage = realsize := by
      cases hkind : svc.reply sp with
      | usage usage =>
          rw [hkind] at husage hreply
          cases husage
          exact Option.some.inj hreply
      | noNumber left =>
          rw [hkind] at husage
          cases husage
      | noAnswer =>
          rw [hkind] at husage
          cases husage
    rw [← hreal] at hresizes
    exact ⟨spaceUsage, husage, usage_le_of_rounded hresizes.2.2.2.2.1⟩

/-! ### A space that is shrunk although its usage is not known -/

/-- A space of 10 GB. -/
def tenGB : Space where
  spaceID := "s"
  spaceName := [115]
  spaceSize := 10
  hostCenterID := "1"
  storageSrcID := "STOR-a"
  spacePath := "s"
  hostCenterName := "Beijing"
  storageSrcName := "a"
  status := true
  replica_spaces := []

/-- Its storage cluster. -/
def tenOfHundred : StorageResource where
  storage_src_id := "a"
  storage_src_name := "a"
  host_center_id := "1"
  host_center_name := "Beijing"
  total_capacity := 100
  assign_capacity := 10
  mgs_address := ""
  state := 0

/-- The documents of both. -/
def tenGBDatabase : Database
  | .storage key => if key = "STOR-a" then some tenOfHundred else none
  | .space id => if id = "s" then some tenGB else none
  | .zone _ => none

/-- A manager that cannot determine the usage of any space. -/
def unknownUsage : UsageService where
  ManagerID := "1"
  spaceUsage := fun _ => none
  request := fun _ _ => .noAnswer

/-- A query service that finds nothing. -/
def findsNothing : QueryService where
  storages := fun _ _ _ => []
  spaces := fun _ _ _ _ => []
  zones := fun _ _ => some []
  spaces_sound := noSpaces_sound
  zones_sound := noZones_sound

/-- The usage cannot be determined, and the space shrinks to 2 GB. -/
theorem size_is_stored_without_usage :
    ¬ ∀ (ask : QueryService) (fails : Nat → Bool) (svc : UsageService) (db : Database) (id : String)
      (newSize : Int64), Stores db (afterSizeChange ask fails svc db id newSize) id →
        ∃ sp, db.space id = some sp ∧ Covers newSize (svc.reply sp).determined := by
  intro hall
  have hstores : Stores tenGBDatabase
      (afterSizeChange findsNothing Server.noFails unknownUsage tenGBDatabase "s" 2) "s" := by
    rw [stores_iff]
    refine ⟨tenGB, -1, rfl, ⟨by decide, rfl, rfl, rfl, by decide, .inr ⟨by decide, rfl, rfl, ?_⟩⟩, rfl⟩
    exact ⟨tenOfHundred, rfl, by decide⟩
  obtain ⟨sp, hsp, spaceUsage, husage, -⟩ := hall _ _ _ _ _ _ hstores
  cases hsp
  cases husage

end Gvds.Manager
