/-
Module: Gvds.Proofs.ZoneSharing
Layer: Proofs
Purpose: ZoneShare and ZoneShareCancel as operations on the set of members. They add and remove
  exactly the members asked for, and touch nothing else of the zone; removing undoes adding, except
  for a list that names a member twice, which isSubset never finds among different members.
Imports: Gvds.Manager.JsonDocuments, Gvds.Proofs.ZoneLinks, Mathlib.Data.String.Basic
Trusted boundary: as Gvds.Manager.ZoneServer and Gvds.Manager.JsonDocuments
Main exports: isSubset_iff_subperm, AddsOnce, shareWith_spec, sharing_acts_on_sets,
  sharing_acts_on_sets_one, repeated_member_is_not_removed
-/
import Gvds.Manager.JsonDocuments
import Gvds.Proofs.ZoneLinks
import Mathlib.Data.String.Basic

namespace Gvds.Manager

/-! ### Subsets -/

/-- In a sorted list the loop of `isSubset` finds every sublist. -/
theorem isSubsetLoop_of_sublist {v1 v2 : List String} (hv1 : v1.Pairwise (· ≤ ·))
    (hsub : v2.Sublist v1) : isSubsetLoop v1 v2 = true := by
  induction v1, v2 using isSubsetLoop.induct with
  | case1 v1 => rw [isSubsetLoop]
  | case2 b v2 => cases hsub
  | case3 a v1 b v2 hlt ih =>
      rw [isSubsetLoop, if_pos hlt]
      refine ih (List.pairwise_cons.mp hv1).2 ?_
      cases hsub with
      | cons _ hsub => exact hsub
      | cons_cons _ hsub => exact absurd hlt (lt_irrefl _)
  | case4 v1 b v2 hlt ih =>
      rw [isSubsetLoop, if_neg hlt, if_pos rfl]
      exact ih (List.pairwise_cons.mp hv1).2 (List.cons_sublist_cons.mp hsub)
  | case5 a v1 b v2 hlt hne =>
      have hb : b ∈ a :: v1 := hsub.subset (List.mem_cons_self ..)
      rcases List.mem_cons.mp hb with hb | hb
      · exact absurd hb.symm hne
      · have hle := (List.pairwise_cons.mp hv1).1 b hb
        exact absurd (lt_of_le_of_ne hle hne) hlt

/-- `isSubset` compares multisets. -/
theorem isSubset_iff_subperm {v1 v2 : List String} : isSubset v1 v2 = true ↔ v2.Subperm v1 := by
  constructor
  · exact subperm_of_isSubset
  · intro h
    unfold isSubset
    rw [if_neg (Nat.not_lt.mpr h.length_le)]
    have hperm : (v2.mergeSort fun a b => decide (a ≤ b)).Subperm
        (v1.mergeSort fun a b => decide (a ≤ b)) := by
      rwa [(List.mergeSort_perm _ _).subperm_right, (List.mergeSort_perm _ _).subperm_left]
    exact isSubsetLoop_of_sublist List.sortedLE_mergeSort.pairwise
      (List.sublist_of_subperm_of_sortedLE hperm List.sortedLE_mergeSort List.sortedLE_mergeSort)

/-- A list without repetition is found if and only if all of it is there. -/
theorem isSubset_iff_of_nodup {v1 v2 : List String} (hv2 : v2.Nodup) :
    isSubset v1 v2 = true ↔ ∀ m ∈ v2, m ∈ v1 := by
  rw [isSubset_iff_subperm]
  exact ⟨fun h _ hm => h.subset hm, fun h => List.subperm_of_subset hv2 h⟩

/-! ### Adding members -/

/-- The members that are added: those asked for that are not there yet, each once, in their order. -/
structure AddsOnce (added memberID members : List String) : Prop where
  sublist : added.Sublist memberID
  nodup : added.Nodup
  mem_iff : ∀ m, m ∈ added ↔ m ∈ memberID ∧ m ∉ members

/-- The loop of `ZoneShare` adds the members that are not there yet. -/
theorem shareWith_spec (memberID members : List String) :
    ∃ added, shareWith memberID members = members ++ added ∧ AddsOnce added memberID members := by
  induction memberID generalizing members with
  | nil => exact ⟨[], by simp [shareWith], List.Sublist.refl _, List.nodup_nil, by simp⟩
  | cons tmp_mem memberID ih =>
      have hstep : shareWith (tmp_mem :: memberID) members = shareWith memberID
          (if tmp_mem ∈ members then members else members ++ [tmp_mem]) := rfl
      by_cases hmem : tmp_mem ∈ members
      · obtain ⟨added, hshare, hadds⟩ := ih members
        refine ⟨added, by rw [hstep, if_pos hmem, hshare], hadds.sublist.cons _, hadds.nodup, ?_⟩
        intro m
        rw [hadds.mem_iff, List.mem_cons]
        constructor
        · rintro ⟨hm, hnot⟩
          exact ⟨.inr hm, hnot⟩
        · rintro ⟨rfl | hm, hnot⟩
          · exact absurd hmem hnot
          · exact ⟨hm, hnot⟩
      · obtain ⟨added, hshare, hadds⟩ := ih (members ++ [tmp_mem])
        have hnew : tmp_mem ∉ added := fun h => ((hadds.mem_iff _).mp h).2 (by simp)
        refine ⟨tmp_mem :: added, by rw [hstep, if_neg hmem, hshare]; simp,
          hadds.sublist.cons_cons _, List.nodup_cons.mpr ⟨hnew, hadds.nodup⟩, ?_⟩
        intro m
        rw [List.mem_cons, List.mem_cons, hadds.mem_iff]
        by_cases hm : m = tmp_mem
        · simp [hm, hmem]
        · simp [hm]

/-! ### The operations -/

section Operations

variable {ask : QueryService} {fails : Nat → Bool} {db db' : Database} {zone : Zone} {n n' : Nat}
  {zoneID ownerID : String} {memberID : List String} {admin : Bool}

/-- The caller owns the zone, or is an administrator. -/
def Authorised (zone : Zone) (ownerID : String) (admin : Bool) : Prop :=
  zone.ownerID = ownerID ∨ admin = true

/-- A zone with other members. -/
def Zone.withMembers (zone : Zone) (memberID : List String) : Zone :=
  { zone with memberID := memberID }

/-- The members of a zone without those of a list. -/
def Zone.without (zone : Zone) (memberID : List String) : List String :=
  zone.memberID.filter fun m => m ∉ memberID

/-- `ZoneShare` on a zone that is read, for a caller with the right to it. -/
theorem execFaulty_zoneShare (hget : fails n = false) (hzone : db.zone zoneID = some zone)
    (hcaller : Authorised zone ownerID admin) :
    (server ask).execFaulty fails (zoneShare zoneID ownerID memberID admin) (db, n) =
      (if fails (n + 1) then EAGAIN else 0,
        if fails (n + 1) then db
        else db.putZone zoneID (some (zone.withMembers (shareWith memberID zone.memberID))),
        n + 2) := by
  unfold Authorised at hcaller
  unfold zoneShare
  rw [Server.execFaulty_bind, execFaulty_getZone]
  simp only [hget, Bool.false_eq_true, if_false, hzone]
  rw [if_pos hcaller, Server.execFaulty_bind, execFaulty_setZone]
  cases fails (n + 1) <;> rfl

/-- A request that ends with a `setZone` has written if it returns zero. -/
theorem eq_of_set_success {failed : Bool} {db db₁ db' : Database} {n₁ n' : Nat}
    (hexec : ((if failed then EAGAIN else 0 : Int), (if failed then db else db₁), n₁) =
      (0, db', n')) : db' = db₁ := by
  cases failed with
  | true => cases congrArg Prod.fst hexec
  | false => exact (congrArg (fun o => o.2.1) hexec).symm

/-- `ZoneShare` succeeds only so. -/
theorem zoneShare_success
    (hexec : (server ask).execFaulty fails (zoneShare zoneID ownerID memberID admin) (db, n) =
      (0, db', n')) (hzone : db.zone zoneID = some zone) :
    db' = db.putZone zoneID (some (zone.withMembers (shareWith memberID zone.memberID))) := by
  have hget : fails n = false := by
    by_contra hget
    unfold zoneShare at hexec
    rw [Server.execFaulty_bind, execFaulty_getZone] at hexec
    simp only [hget, if_true] at hexec
    cases congrArg Prod.fst hexec
  by_cases hcaller : Authorised zone ownerID admin
  · rw [execFaulty_zoneShare hget hzone hcaller] at hexec
    exact eq_of_set_success hexec
  · unfold Authorised at hcaller
    unfold zoneShare at hexec
    rw [Server.execFaulty_bind, execFaulty_getZone] at hexec
    simp only [hget, Bool.false_eq_true, if_false, hzone] at hexec
    rw [if_neg hcaller] at hexec
    cases congrArg Prod.fst hexec

/-- `ZoneShareCancel` on a zone that is read. -/
theorem execFaulty_zoneShareCancel (hget : fails n = false) (hzone : db.zone zoneID = some zone)
    (hsub : isSubset zone.memberID memberID = true) (hcaller : Authorised zone ownerID admin) :
    (server ask).execFaulty fails (zoneShareCancel zoneID ownerID memberID admin) (db, n) =
      (if fails (n + 1) then EAGAIN else 0,
        if fails (n + 1) then db
        else db.putZone zoneID (some (zone.withMembers (zone.without memberID))), n + 2) := by
  unfold Authorised at hcaller
  unfold zoneShareCancel
  rw [Server.execFaulty_bind, execFaulty_getZone]
  simp only [hget, Bool.false_eq_true, if_false, hzone]
  rw [if_pos hsub, if_pos hcaller, Server.execFaulty_bind, execFaulty_setZone]
  cases fails (n + 1) <;> rfl

/-- It refuses a list that is not all there. -/
theorem execFaulty_zoneShareCancel_of_not (hget : fails n = false)
    (hzone : db.zone zoneID = some zone) (hsub : ¬ isSubset zone.memberID memberID = true) :
    (server ask).execFaulty fails (zoneShareCancel zoneID ownerID memberID admin) (db, n) =
      (EINVAL, db, n + 1) := by
  unfold zoneShareCancel
  rw [Server.execFaulty_bind, execFaulty_getZone]
  simp only [hget, Bool.false_eq_true, if_false, hzone]
  rw [if_neg hsub]
  rfl

/-- `ZoneShareCancel` succeeds only so. -/
theorem zoneShareCancel_success
    (hexec : (server ask).execFaulty fails (zoneShareCancel zoneID ownerID memberID admin) (db, n) =
      (0, db', n')) (hzone : db.zone zoneID = some zone) :
    db' = db.putZone zoneID (some (zone.withMembers (zone.without memberID))) := by
  have hget : fails n = false := by
    by_contra hget
    unfold zoneShareCancel at hexec
    rw [Server.execFaulty_bind, execFaulty_getZone] at hexec
    simp only [hget, if_true] at hexec
    cases congrArg Prod.fst hexec
  by_cases hsub : isSubset zone.memberID memberID = true
  · by_cases hcaller : Authorised zone ownerID admin
    · rw [execFaulty_zoneShareCancel hget hzone hsub hcaller] at hexec
      exact eq_of_set_success hexec
    · unfold Authorised at hcaller
      unfold zoneShareCancel at hexec
      rw [Server.execFaulty_bind, execFaulty_getZone] at hexec
      simp only [hget, Bool.false_eq_true, if_false, hzone] at hexec
      rw [if_pos hsub, if_neg hcaller] at hexec
      cases congrArg Prod.fst hexec
  · rw [execFaulty_zoneShareCancel_of_not hget hzone hsub] at hexec
    cases congrArg Prod.fst hexec

/-- With its calls succeeding, `ZoneShareCancel` succeeds for a caller with the right to the zone if
and only if `isSubset` finds the list. -/
theorem zoneShareCancel_eq_zero_iff (hget : fails n = false) (hset : fails (n + 1) = false)
    (hzone : db.zone zoneID = some zone) (hcaller : Authorised zone ownerID admin) :
    ((server ask).execFaulty fails (zoneShareCancel zoneID ownerID memberID admin) (db, n)).1 = 0 ↔
      isSubset zone.memberID memberID = true := by
  by_cases hsub : isSubset zone.memberID memberID = true
  · rw [execFaulty_zoneShareCancel hget hzone hsub hcaller, hset]
    exact iff_of_true rfl hsub
  · rw [execFaulty_zoneShareCancel_of_not hget hzone hsub]
    exact iff_of_false EINVAL_ne_zero hsub

/-- A list of members that are added by `ZoneShare` is removed again by `ZoneShareCancel`. -/
theorem without_shareWith (hdisjoint : ∀ m ∈ memberID, m ∉ zone.memberID) :
    (zone.withMembers (shareWith memberID zone.memberID)).without memberID = zone.memberID := by
  obtain ⟨added, hshare, hadds⟩ := shareWith_spec memberID zone.memberID
  have hkept : zone.memberID.filter (fun m => m ∉ memberID) = zone.memberID :=
    List.filter_eq_self.mpr fun m hm => by simpa using fun h => hdisjoint m h hm
  have hgone : added.filter (fun m => m ∉ memberID) = [] :=
    List.filter_eq_nil_iff.mpr fun m hm => by simpa using ((hadds.mem_iff m).mp hm).1
  unfold Zone.without Zone.withMembers
  rw [hshare, List.filter_append, hkept, hgone, List.append_nil]

/-- After `ZoneShare` all of the list are members. -/
theorem mem_shareWith {m : String} (hm : m ∈ memberID) (members : List String) :
    m ∈ shareWith memberID members := by
  obtain ⟨added, hshare, hadds⟩ := shareWith_spec memberID members
  rw [hshare, List.mem_append]
  by_cases hold : m ∈ members
  · exact .inl hold
  · exact .inr ((hadds.mem_iff m).mpr ⟨hm, hold⟩)

/-- A zone that is put twice. -/
theorem putZone_putZone (db : Database) (id : String) (zone zone' : Option Zone) :
    (db.putZone id zone).putZone id zone' = db.putZone id zone' :=
  Function.update_idem _ _ _

/-- A zone that is put as it is. -/
theorem putZone_self (hzone : db.zone zoneID = some zone) : db.putZone zoneID (some zone) = db :=
  Function.update_eq_self_iff.mpr hzone.symm

/-- With all calls succeeding. -/
theorem exec_of_execFaulty {p : Program Call Int} {r : Int}
    (hexec : (server ask).execFaulty Server.noFails p (db, 0) = (r, db', n')) :
    (server ask).exec p db = (r, db') := by
  obtain ⟨m, hnoFails⟩ := (server ask).execFaulty_noFails p db 0
  rw [hnoFails] at hexec
  obtain ⟨hresult, hrest⟩ := Prod.mk.inj hexec
  exact Prod.ext hresult (Prod.mk.inj hrest).1

/-- `ZoneShareCancel` undoes `ZoneShare` for a list without repetition. -/
theorem exec_zoneShareCancel_zoneShare (ask : QueryService) (hzone : db.zone zoneID = some zone)
    (hmembers : memberID.Nodup) (hcaller : Authorised zone ownerID admin)
    (hdisjoint : ∀ m ∈ memberID, m ∉ zone.memberID) :
    (server ask).exec (zoneShareCancel zoneID ownerID memberID admin)
      ((server ask).exec (zoneShare zoneID ownerID memberID admin) db).2 = (0, db) := by
  have hshare : (server ask).exec (zoneShare zoneID ownerID memberID admin) db =
      (0, db.putZone zoneID (some (zone.withMembers (shareWith memberID zone.memberID)))) :=
    exec_of_execFaulty (execFaulty_zoneShare rfl hzone hcaller)
  have hsub : isSubset (shareWith memberID zone.memberID) memberID = true :=
    (isSubset_iff_of_nodup hmembers).mpr fun m hm => mem_shareWith hm zone.memberID
  have hthere := Database.zone_putZone_self db zoneID
    (some (zone.withMembers (shareWith memberID zone.memberID)))
  have hback : (db.putZone zoneID
        (some (zone.withMembers (shareWith memberID zone.memberID)))).putZone zoneID
      (some (zone.withMembers
        ((zone.withMembers (shareWith memberID zone.memberID)).without memberID))) = db := by
    rw [putZone_putZone, without_shareWith hdisjoint]
    exact putZone_self hzone
  rw [hshare, exec_of_execFaulty (execFaulty_zoneShareCancel rfl hthere hsub hcaller)]
  exact Prod.ext rfl hback

end Operations

/-- **Sharing and unsharing act as set operations.** `ZoneShare` adds the members that are not there
yet, each once, behind the old ones; `ZoneShareCancel` leaves the old ones without those of the list
in their order. For a list without repetition and a caller with the right to the zone the latter
succeeds, with its calls succeeding, if and only if all of the list are members, so it undoes the
former where none of them was one. The documents read back as these zones. -/
theorem sharing_acts_on_sets (ask : QueryService) (fails : Nat → Bool) (db : Database)
    (zoneID ownerID : String) (memberID : List String) (admin : Bool) (zone : Zone)
    (hzone : db.zone zoneID = some zone) :
    (∀ db' n', (server ask).execFaulty fails (zoneShare zoneID ownerID memberID admin) (db, 0) =
        (0, db', n') → ∃ added, AddsOnce added memberID zone.memberID ∧
          db' = db.putZone zoneID (some (zone.withMembers (zone.memberID ++ added)))) ∧
    (∀ db' n', (server ask).execFaulty fails (zoneShareCancel zoneID ownerID memberID admin)
        (db, 0) = (0, db', n') →
          db' = db.putZone zoneID (some (zone.withMembers (zone.without memberID)))) ∧
    (memberID.Nodup → Authorised zone ownerID admin →
      (fails 0 = false → fails 1 = false →
        (((server ask).execFaulty fails (zoneShareCancel zoneID ownerID memberID admin)
          (db, 0)).1 = 0 ↔ ∀ m ∈ memberID, m ∈ zone.memberID)) ∧
      ((∀ m ∈ memberID, m ∉ zone.memberID) →
        (server ask).exec (zoneShareCancel zoneID ownerID memberID admin)
          ((server ask).exec (zoneShare zoneID ownerID memberID admin) db).2 = (0, db))) ∧
    (∀ tmp stored reader : ZoneObject, stored.zone = zone → ∀ change,
      (reader.deserialize (rewrite tmp stored.serialize change)).zone =
        zone.withMembers (change zone.memberID)) := by
  refine ⟨fun db' n' hexec => ?_, fun db' n' hexec => zoneShareCancel_success hexec hzone,
    fun hmembers hcaller => ⟨fun hget hset => ?_, fun hdisjoint => ?_⟩, ?_⟩
  · obtain ⟨added, hshare, hadds⟩ := shareWith_spec memberID zone.memberID
    refine ⟨added, hadds, ?_⟩
    rw [zoneShare_success hexec hzone, hshare]
  · rw [zoneShareCancel_eq_zero_iff hget hset hzone hcaller]
    exact isSubset_iff_of_nodup hmembers
  · exact exec_zoneShareCancel_zoneShare ask hzone hmembers hcaller hdisjoint
  · rintro tmp stored reader rfl change
    exact zone_deserialize_rewrite tmp stored reader change

/-- A zone with one member. -/
def zoneOfV : Zone where
  zoneID := "z"
  zoneName := [122]
  ownerID := "u"
  memberID := ["v"]
  spaceID := ["s"]

/-- The documents of a manager with this zone. -/
def databaseOfV : Database
  | .storage _ => none
  | .space _ => none
  | .zone id => if id = "z" then some zoneOfV else none

/-- A query service that finds nothing; sharing asks for nothing. -/
def noQueries : QueryService where
  storages _ _ _ := []
  spaces _ _ _ _ := []
  zones _ _ := some []
  spaces_sound := noSpaces_sound
  zones_sound := noZones_sound

/-- The owner shares the zone with another member. -/
theorem sharing_acts_on_sets_one :
    (∀ db' n', (server noQueries).execFaulty Server.noFails (zoneShare "z" "u" ["w"] false)
        (databaseOfV, 0) = (0, db', n') → ∃ added, AddsOnce added ["w"] zoneOfV.memberID ∧
          db' = databaseOfV.putZone "z" (some (zoneOfV.withMembers (zoneOfV.memberID ++ added)))) ∧
    (∀ db' n', (server noQueries).execFaulty Server.noFails (zoneShareCancel "z" "u" ["w"] false)
        (databaseOfV, 0) = (0, db', n') →
          db' = databaseOfV.putZone "z" (some (zoneOfV.withMembers (zoneOfV.without ["w"])))) ∧
    (["w"].Nodup → Authorised zoneOfV "u" false →
      (Server.noFails 0 = false → Server.noFails 1 = false →
        (((server noQueries).execFaulty Server.noFails (zoneShareCancel "z" "u" ["w"] false)
          (databaseOfV, 0)).1 = 0 ↔ ∀ m ∈ ["w"], m ∈ zoneOfV.memberID)) ∧
      ((∀ m ∈ ["w"], m ∉ zoneOfV.memberID) →
        (server noQueries).exec (zoneShareCancel "z" "u" ["w"] false)
          ((server noQueries).exec (zoneShare "z" "u" ["w"] false) databaseOfV).2 =
            (0, databaseOfV))) ∧
    (∀ tmp stored reader : ZoneObject, stored.zone = zoneOfV → ∀ change,
      (reader.deserialize (rewrite tmp stored.serialize change)).zone =
        zoneOfV.withMembers (change zoneOfV.memberID)) :=
  sharing_acts_on_sets noQueries Server.noFails databaseOfV "z" "u" ["w"] false zoneOfV rfl

/-- A member that is named twice is added once, and then the same list is refused. -/
theorem repeated_member_is_not_removed :
    ¬ ∀ (ask : QueryService) (db : Database) (zoneID ownerID : String) (memberID : List String)
      (admin : Bool) (zone : Zone), db.zone zoneID = some zone → zone.memberID.Nodup →
      Authorised zone ownerID admin → (∀ m ∈ memberID, m ∉ zone.memberID) →
        Database.zone ((server ask).exec (zoneShareCancel zoneID ownerID memberID admin)
          ((server ask).exec (zoneShare zoneID ownerID memberID admin) db).2).2 zoneID =
            some zone := by
  intro hall
  have hrestored := hall noQueries databaseOfV "z" "u" ["w", "w"] false zoneOfV rfl (by decide)
    (.inl rfl) (by decide)
  have hshare : (server noQueries).exec (zoneShare "z" "u" ["w", "w"] false) databaseOfV =
      (0, databaseOfV.putZone "z" (some (zoneOfV.withMembers ["v", "w"]))) :=
    exec_of_execFaulty (execFaulty_zoneShare rfl rfl (.inl rfl))
  have hsub : ¬ isSubset ["v", "w"] ["w", "w"] = true := fun h =>
    absurd (nodup_of_subperm (subperm_of_isSubset h) (by decide)) (by decide)
  have hcancel : (server noQueries).exec (zoneShareCancel "z" "u" ["w", "w"] false)
      (databaseOfV.putZone "z" (some (zoneOfV.withMembers ["v", "w"]))) =
      (EINVAL, databaseOfV.putZone "z" (some (zoneOfV.withMembers ["v", "w"]))) :=
    exec_of_execFaulty (execFaulty_zoneShareCancel_of_not rfl
      (Database.zone_putZone_self databaseOfV "z" _) hsub)
  rw [hshare, hcancel, Database.zone_putZone_self] at hrestored
  have hmembers := congrArg Zone.memberID (Option.some.inj hrestored)
  revert hmembers
  decide

end Gvds.Manager
