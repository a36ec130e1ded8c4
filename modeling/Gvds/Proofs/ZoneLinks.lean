/-
Module: Gvds.Proofs.ZoneLinks
Layer: Proofs
Purpose: The spaces that zones list against the spaces in use, over all runs of requests with every
  call succeeding. A listed space is always in use and listed once. A space in use is listed by a
  zone, unless ZoneRegister makes a space and then refuses the empty name of its zone, or MapDeduct
  or ZoneCancel drops a space whose size SpaceDelete could not release.
Imports: Gvds.Lib.Listing, Gvds.Lib.Machine, Gvds.Proofs.DocumentKeys
Trusted boundary: as Gvds.Manager.ZoneServer
Main exports: Linked, KeepsCover, step_links, zones_and_spaces_stay_linked
-/
import Gvds.Lib.Listing
import Gvds.Lib.Machine
import Gvds.Proofs.DocumentKeys

namespace Gvds.Manager

/-- The IDs that a zone lists. -/
def zoneSpaces (db : Database) (zoneID : String) : List String :=
  ((db.zone zoneID).map Zone.spaceID).getD []

/-- A space with this ID is in use. -/
def Active (db : Database) (id : String) : Prop := ∃ sp, db.space id = some sp ∧ sp.status = true

/-- Each listed ID names a space in use, none is listed twice, and each space in use is listed. -/
structure Linked (db : Database) : Prop where
  listed : Listed (zoneSpaces db) (Active db)
  covered : AllListed (zoneSpaces db) (Active db)

/-- A space in use is listed by one zone only. -/
theorem Linked.existsUnique {db : Database} (h : Linked db) {id : String} (hid : Active db id) :
    ∃! z, id ∈ zoneSpaces db z := h.listed.existsUnique h.covered hid

/-! ### Subsets -/

/-- The loop of `isSubset` finds its second list inside the first. -/
theorem sublist_of_isSubsetLoop {v1 v2 : List String} (h : isSubsetLoop v1 v2 = true) :
    v2.Sublist v1 := by
  induction v1, v2 using isSubsetLoop.induct with
  | case1 v1 => exact List.nil_sublist v1
  | case2 b v2 => simp [isSubsetLoop] at h
  | case3 a v1 b v2 hlt ih =>
      rw [isSubsetLoop, if_pos hlt] at h
      exact (ih h).cons a
  | case4 v1 b v2 hlt ih =>
      rw [isSubsetLoop, if_neg hlt, if_pos rfl] at h
      exact (ih h).cons_cons b
  | case5 a v1 b v2 hlt hne =>
      rw [isSubsetLoop, if_neg hlt, if_neg hne] at h
      cases h

/-- `isSubset` counts multiplicities. -/
theorem subperm_of_isSubset {v1 v2 : List String} (h : isSubset v1 v2 = true) : v2.Subperm v1 := by
  unfold isSubset at h
  split at h
  · cases h
  · have hsub := (sublist_of_isSubsetLoop h).subperm
    rwa [(List.mergeSort_perm _ _).subperm_right, (List.mergeSort_perm _ _).subperm_left] at hsub

/-- Part of a list without repetition has none. -/
theorem nodup_of_subperm {v1 v2 : List String} (h : v2.Subperm v1) (hv1 : v1.Nodup) : v2.Nodup := by
  obtain ⟨l, hperm, hsub⟩ := h
  exact hperm.nodup_iff.mp (hv1.sublist hsub)

/-! ### Lists and uses after a change -/

section Change

variable {db : Database} {id : String}

theorem zoneSpaces_charge (key : String) (d : Int64) :
    zoneSpaces (db.charge key d) = zoneSpaces db :=
  rfl

theorem zoneSpaces_putSpace (id : String) (sp : Space) :
    zoneSpaces (db.putSpace id sp) = zoneSpaces db := rfl

theorem zoneSpaces_putZone (zoneID : String) (zone : Option Zone) :
    zoneSpaces (db.putZone zoneID zone) =
      Function.update (zoneSpaces db) zoneID ((zone.map Zone.spaceID).getD []) := by
  funext z
  unfold zoneSpaces
  rw [Database.zone_putZone]
  by_cases hz : z = zoneID
  · subst hz
    rw [if_pos rfl, Function.update_self]
  · rw [if_neg hz, Function.update_of_ne hz]

theorem active_charge (key : String) (d : Int64) : Active (db.charge key d) = Active db := by
  funext s
  unfold Active
  rw [Database.space_charge]

theorem active_putZone (zoneID : String) (zone : Option Zone) :
    Active (db.putZone zoneID zone) = Active db := by
  funext s
  unfold Active
  rw [Database.space_putZone]

theorem active_putSpace (id : String) (sp : Space) (s : String) :
    Active (db.putSpace id sp) s ↔ if s = id then sp.status = true else Active db s := by
  unfold Active
  rw [Database.space_putSpace]
  split
  · simp
  · rfl

/-- A space is written back with the use that it had. -/
theorem active_putSpace_same {sp sp' : Space} (hsp : db.space id = some sp)
    (hstatus : sp'.status = sp.status) : Active (db.putSpace id sp') = Active db := by
  funext s
  rw [eq_iff_iff, active_putSpace]
  split
  · rename_i hs
    subst hs
    rw [hstatus, Active, hsp]
    simp
  · rfl

/-- A space is written in use. -/
theorem active_putSpace_used {sp : Space} (hstatus : sp.status = true) (s : String) :
    Active (db.putSpace id sp) s ↔ Active db s ∨ s = id := by
  rw [active_putSpace]
  split
  · rename_i hs
    simp [hs, hstatus]
  · rename_i hs
    simp [hs]

end Change

/-! ### One request -/

/-- A request changes the lists and the uses so that what is listed stays in use and alone; all that
is in use stays listed iff a condition holds. -/
structure Relinks (db db' : Database) (ok : Prop) : Prop where
  listed : Listed (zoneSpaces db') (Active db')
  covered : AllListed (zoneSpaces db) (Active db) → (AllListed (zoneSpaces db') (Active db') ↔ ok)

section Step

variable {db db' : Database} {ok : Prop}

/-- The lists and the uses stay. -/
theorem Relinks.same (hlisted : Listed (zoneSpaces db) (Active db))
    (hlists : zoneSpaces db' = zoneSpaces db) (hactive : Active db' = Active db) (hok : ok) :
    Relinks db db' ok := by
  refine ⟨?_, fun hcov => ?_⟩
  · rw [hlists, hactive]
    exact hlisted
  · rw [hlists, hactive]
    exact iff_of_true hcov hok

/-- A space is taken into use and listed. -/
theorem Relinks.add (zoneID : String) {id : String} (hlisted : Listed (zoneSpaces db) (Active db))
    (hid : ¬ Active db id)
    (hactive : ∀ s, Active db' s ↔ Active db s ∨ s = id)
    (hlists : zoneSpaces db' =
      Function.update (zoneSpaces db) zoneID (zoneSpaces db zoneID ++ [id])) (hok : ok) :
    Relinks db db' ok := by
  refine ⟨?_, fun hcov => ?_⟩
  · rw [hlists]
    exact hlisted.add hid hactive
  · rw [hlists]
    exact iff_of_true (hcov.add hactive) hok

/-- Zones, spaces and their documents under a charge. -/
theorem Relinks.charge (hlisted : Listed (zoneSpaces db) (Active db)) (key : String) (d : Int64)
    (hok : ok) : Relinks db (db.charge key d) ok :=
  .same hlisted (zoneSpaces_charge key d) (active_charge key d) hok

/-- A space is written back with the use that it had. -/
theorem Relinks.putSpace (hlisted : Listed (zoneSpaces db) (Active db)) {id : String}
    {sp sp' : Space} (hsp : db.space id = some sp) (hstatus : sp'.status = sp.status) (key : String)
    (d : Int64) (hok : ok) : Relinks db ((db.charge key d).putSpace id sp') ok := by
  refine .same hlisted rfl ?_ hok
  rw [active_putSpace_same (by rwa [Database.space_charge]) hstatus, active_charge]

variable (db) in
/-- What `SpaceCreate` makes is in use, besides what was. -/
theorem active_create (spaceName : Bytes) (spaceSize : Int64) (storage : StorageResource)
    (uuid s : String) : Active (db.create spaceName spaceSize storage uuid) s ↔
      Active db s ∨ s = uuid := by
  unfold Database.create
  rw [active_putSpace_used rfl, active_charge]

/-- What `SpaceCheck` takes into use is in use, besides what was. -/
theorem active_reuse (row : Space) (s : String) :
    Active (db.reuse row) s ↔ Active db s ∨ s = row.spaceID := by
  unfold Database.reuse
  rw [active_putSpace_used rfl, active_charge]

/-- An ID without a document names no space in use. -/
theorem not_active_of_none {id : String} (h : (db.space id).isNone) : ¬ Active db id := by
  rintro ⟨sp, hsp, -⟩
  simp [hsp] at h

/-- A zone without a document lists nothing. -/
theorem zoneSpaces_of_none {zoneID : String} (h : (db.zone zoneID).isNone) :
    zoneSpaces db zoneID = [] := by
  unfold zoneSpaces
  rw [Option.isNone_iff_eq_none.mp h]
  rfl

theorem zoneSpaces_of_some {zoneID : String} {zone : Zone} (h : db.zone zoneID = some zone) :
    zoneSpaces db zoneID = zone.spaceID := by
  unfold zoneSpaces
  rw [h]
  rfl

end Step

/-- The requests after which all that is in use is still listed: `ZoneRegister` makes no space for a
zone without a name, and each space that `MapDeduct` or `ZoneCancel` drops can be deleted at its
turn. -/
def KeepsCover (ask : QueryService) (db : Database) : Request → Prop
  | .zoneRegister zoneName ownerID _ spaceName spaceSize info _ _ =>
      zoneName = [] →
        (zoneRows ask Server.noFails 0 db (zoneQuery ownerID zoneName)).getD [] = [] →
        ∀ storage, ¬ Creates ask Server.noFails 1 db spaceName spaceSize info storage
  | .zoneCancel zoneID ownerID admin =>
      ∀ tmp, Cancels Server.noFails db zoneID ownerID admin tmp →
        Deletable Server.noFails 1 db tmp.spaceID
  | .mapDeduct zoneID ownerID ids =>
      ∀ tmp, MapDeducts Server.noFails db zoneID ownerID ids tmp →
        Deletable Server.noFails 1 db ids
  | .zoneAdd _ _ _ _ _ => True
  | .mapAdd _ _ _ _ _ _ => True
  | .zoneRename _ _ _ _ => True
  | .spaceRename _ _ => True
  | .spaceSizeChange _ _ _ => True

section Requests

variable {ask : QueryService} {db : Database}

/-- `ZoneRegister` lists the space that it makes, unless the zone has no name. -/
theorem zoneRegister_relinks (hlisted : Listed (zoneSpaces db) (Active db))
    (zoneName : Bytes) (ownerID : String) (memberID : List String) (spaceName : Bytes)
    (spaceSize : Int64) (info : Space) {zoneUuid spaceUuid : String}
    (hzone : (db.zone zoneUuid).isNone) (hspace : (db.space spaceUuid).isNone) :
    Relinks db ((server ask).execFaulty Server.noFails (zoneRegister zoneName ownerID memberID
      spaceName spaceSize info zoneUuid spaceUuid) (db, 0)).2.1
      (KeepsCover ask db (.zoneRegister zoneName ownerID memberID spaceName spaceSize info zoneUuid
        spaceUuid)) := by
  have hnew : ¬ Active db spaceUuid := not_active_of_none hspace
  rcases zoneRegister_spec ask Server.noFails db zoneName ownerID memberID spaceName spaceSize info
    zoneUuid spaceUuid with ⟨hno, r, n', hexec⟩ | ⟨-, storage, hcharges, hnot, r, n', hexec⟩ |
    ⟨hrows, storage, hcreates, hname, r, n', hexec⟩ |
    ⟨hrows, storage, hcreates, hname, n', hexec⟩
  · rw [hexec]
    refine .same hlisted rfl rfl fun _ hrows storage hcreates => ?_
    rcases hno with hno | hno
    · exact hno hrows
    · exact hno storage hcreates.1
  · rw [hexec]
    refine .charge hlisted _ _ fun _ _ storage' hcreates => hnot ?_
    cases hcharges.2.1.symm.trans hcreates.1.2.1
    exact hcreates
  · rw [hexec]
    have hempty : zoneName = [] := by
      rcases hname with h | h
      · exact h
      · cases h
    have hactive := active_create db spaceName spaceSize storage spaceUuid
    refine ⟨hlisted.mono fun s hs => (hactive s).mpr (.inl hs), fun _ => ?_⟩
    refine iff_of_false (fun hcov => ?_) fun hok => hok hempty hrows storage hcreates
    obtain ⟨z, hz⟩ := hcov spaceUuid ((hactive spaceUuid).mpr (.inr rfl))
    exact hnew (hlisted.used z spaceUuid hz)
  · rw [hexec]
    refine .add zoneUuid hlisted hnew (fun s => ?_) ?_ fun hempty => absurd (.inl hempty) hname
    · rw [active_putZone, active_create]
    · rw [zoneSpaces_putZone, zoneSpaces_of_none hzone]
      rfl

/-- The row that `SpaceCheck` finds is of a space out of use. -/
theorem CheckCharges.not_active {fails : Nat → Bool} {n : Nat} {info row : Space}
    (h : CheckCharges ask fails n db info row) (hkeyed : Keyed db) : ¬ Active db row.spaceID := by
  obtain ⟨-, -, ⟨storage, -, hrows⟩, hstatus, -⟩ := h
  obtain ⟨id, sp, hsp, rfl⟩ := ask.spaces_sound db _ _ _ row (hrows ▸ List.mem_cons_self)
  rintro ⟨sp', hsp', hused⟩
  have hid : sp.spaceID = id := hkeyed id sp hsp
  dsimp only at hsp' hstatus
  rw [hid] at hsp'
  cases hsp.symm.trans hsp'
  rw [hstatus] at hused
  cases hused

/-- The zone to which `ZoneAdd` adds a space stands under its ID, or nothing does and it is
empty. -/
theorem zoneSpaces_addTarget (hkeyed : WellKeyed db) {fails : Nat → Bool} {n : Nat} {text : Bytes}
    {new zone : Zone} (hnew : (db.zone new.zoneID).isNone) (hempty : new.spaceID = [])
    (htarget : addTarget new (zoneRows ask fails n db text) = some zone) :
    zoneSpaces db zone.zoneID = zone.spaceID := by
  have hsound : ∀ rows, zoneRows ask fails n db text = some rows →
      ∀ row ∈ rows, ∃ id, db.zone id = some row := by
    intro rows hrows
    unfold zoneRows at hrows
    split at hrows
    · cases hrows
    · exact ask.zones_sound db text rows hrows
  match hrows : zoneRows ask fails n db text with
  | none =>
      rw [hrows] at htarget
      cases htarget
  | some [] =>
      rw [hrows] at htarget
      cases htarget
      rw [zoneSpaces_of_none hnew, hempty]
  | some [tmp] =>
      rw [hrows] at htarget
      cases htarget
      obtain ⟨id, hid⟩ := hsound [zone] hrows zone List.mem_cons_self
      rw [hkeyed.zones id zone hid]
      exact zoneSpaces_of_some hid
  | some (_ :: _ :: _) =>
      rw [hrows] at htarget
      cases htarget

/-- `ZoneAdd` lists the space that it takes into use. -/
theorem zoneAdd_relinks (hkeyed : WellKeyed db) (hlisted : Listed (zoneSpaces db) (Active db))
    (zoneName : Bytes) (ownerID : String) (memberID : List String) (info : Space)
    {zoneUuid : String} (hzone : (db.zone zoneUuid).isNone) :
    Relinks db ((server ask).execFaulty Server.noFails (zoneAdd zoneName ownerID memberID info
      zoneUuid) (db, 0)).2.1 True := by
  rcases zoneAdd_spec ask Server.noFails db zoneName ownerID memberID info zoneUuid with
    ⟨-, r, n', hexec⟩ | ⟨zone, row, -, -, hset, -⟩ | ⟨zone, row, -, -, -, hset, -⟩ |
    ⟨zone, row, htarget, hcharges, -, -, n', hexec⟩
  · rw [hexec]
    exact .same hlisted rfl rfl trivial
  · cases hset
  · cases hset
  · rw [hexec]
    have hlists := zoneSpaces_addTarget hkeyed (by exact hzone) rfl htarget
    refine .add zone.zoneID hlisted (hcharges.not_active hkeyed.spaces) (fun s => ?_) ?_ trivial
    · rw [active_putZone, active_reuse]
    · rw [zoneSpaces_putZone, hlists]
      rfl

/-- `MapAdd` lists the space that it makes. -/
theorem mapAdd_relinks (hlisted : Listed (zoneSpaces db) (Active db))
    (zoneID ownerID : String) (spaceName : Bytes) (spaceSize : Int64) (info : Space)
    {spaceUuid : String} (hspace : (db.space spaceUuid).isNone) :
    Relinks db ((server ask).execFaulty Server.noFails (mapAdd zoneID ownerID spaceName spaceSize
      info spaceUuid) (db, 0)).2.1 True := by
  rcases mapAdd_spec ask Server.noFails db zoneID ownerID spaceName spaceSize info spaceUuid with
    ⟨-, r, n', hexec⟩ | ⟨tmp, storage, -, -, -, r, n', hexec⟩ | ⟨tmp, storage, -, -, hset, -⟩ |
    ⟨tmp, storage, hadds, -, -, n', hexec⟩
  · rw [hexec]
    exact .same hlisted rfl rfl trivial
  · rw [hexec]
    exact .charge hlisted _ _ trivial
  · cases hset
  · rw [hexec]
    refine .add zoneID hlisted (not_active_of_none hspace) (fun s => ?_) ?_ trivial
    · rw [active_putZone, active_create]
    · rw [zoneSpaces_putZone, zoneSpaces_of_some hadds.2.1]
      rfl

/-- Without failing calls `SpaceDelete` returns 0. -/
theorem spaceDelete_zero (ask : QueryService) (db : Database) (n : Nat) (ids : List String) :
    ((server ask).execFaulty Server.noFails (spaceDelete ids) (db, n)).1 = 0 := by
  induction ids generalizing db n with
  | nil => rfl
  | cons m ids ih =>
      rcases spaceDelete_cons_spec ask Server.noFails db n m ids with
        ⟨-, heq⟩ | ⟨sp, -, -, -, n', heq⟩ | ⟨sp, -, -, -, hset, -⟩ | ⟨sp, -, -, -, -, heq⟩
      · rw [heq]
      · rw [heq]
        exact ih db n'
      · cases hset
      · rw [heq]
        exact ih _ _

/-- A space is in use after `SpaceDelete` only if it was before. -/
theorem active_of_spaceDelete (ask : QueryService) {fails : Nat → Bool} {n : Nat}
    {ids : List String} {s : String}
    (h : Active ((server ask).execFaulty fails (spaceDelete ids) (db, n)).2.1 s) : Active db s := by
  obtain ⟨sp, hsp, hstatus⟩ := h
  rcases (spaceDelete_effect ask fails db n ids).2 s with hsame | ⟨sp', hsp', -, hoff⟩
  · exact ⟨sp, by rwa [hsame] at hsp, hstatus⟩
  · cases hsp.symm.trans hoff
    cases hstatus

/-- The spaces that are not listed stay in use. -/
theorem active_spaceDelete (ask : QueryService) (fails : Nat → Bool) (n : Nat) {ids : List String}
    {s : String} (hs : s ∉ ids) (h : Active db s) :
    Active ((server ask).execFaulty fails (spaceDelete ids) (db, n)).2.1 s := by
  obtain ⟨sp, hsp, hstatus⟩ := h
  exact ⟨sp, by rwa [spaceDelete_others ask hs], hstatus⟩

/-- Distinct spaces in use all go out of use iff each can be deleted at its turn. -/
theorem inactive_iff_deletable (ask : QueryService) (n : Nat) {ids : List String}
    (hnodup : ids.Nodup) (huse : ∀ m ∈ ids, Active db m) :
    (∀ m ∈ ids, ¬ Active ((server ask).execFaulty Server.noFails (spaceDelete ids) (db, n)).2.1 m) ↔
      Deletable Server.noFails n db ids := by
  constructor
  · intro hall
    refine deletable_of_inactive ask hnodup huse (spaceDelete_zero ask db n ids) fun m hm sp hsp => ?_
    by_contra hstatus
    exact hall m hm ⟨sp, hsp, by simpa using hstatus⟩
  · rintro hdeletable m hm ⟨sp, hsp, hstatus⟩
    obtain ⟨db', n', hexec, hright⟩ := hdeletable.right ask
    rw [hexec] at hsp
    obtain ⟨sp', -, hoff⟩ := hright.inactive m hm
    cases hsp.symm.trans hoff
    cases hstatus

/-- Spaces of a zone are deleted and dropped from its list. All that is in use stays listed iff each
could be deleted. -/
theorem Relinks.drop (ask : QueryService)
    (hlisted : Listed (zoneSpaces db) (Active db)) {zoneID : String} {tmp : Zone}
    (hzone : db.zone zoneID = some tmp) {ids : List String} (hids : ids.Subperm tmp.spaceID)
    (zone : Option Zone) (hlist : (zone.map Zone.spaceID).getD [] = tmp.spaceID.filter fun m => m ∉ ids)
    {r : Int} {db' : Database} {n n' : Nat}
    (hexec : (server ask).execFaulty Server.noFails (Manager.spaceDelete ids) (db, n) = (r, db', n')) :
    Relinks db (db'.putZone zoneID zone) (Deletable Server.noFails n db ids) := by
  have hspaces : zoneSpaces db zoneID = tmp.spaceID := zoneSpaces_of_some hzone
  have hnodup : ids.Nodup := nodup_of_subperm hids (hspaces ▸ hlisted.nodup zoneID)
  have huse : ∀ m ∈ ids, Active db m := fun m hm =>
    hlisted.used zoneID m (hspaces.symm ▸ hids.subset hm)
  have hzones := (spaceDelete_effect ask Server.noFails db n ids).1
  have hless : ∀ s, Active db' s → Active db s := fun s hs =>
    active_of_spaceDelete ask (by rw [hexec]; exact hs)
  have hkeep : ∀ s, s ∉ ids → Active db s → Active db' s := fun s hs huse => by
    have hactive := active_spaceDelete ask Server.noFails n hs huse
    rw [hexec] at hactive
    exact hactive
  have hiff := inactive_iff_deletable ask n hnodup huse
  rw [hexec] at hzones hiff
  dsimp only at hzones hiff
  have hlists : zoneSpaces (db'.putZone zoneID zone) =
      Function.update (zoneSpaces db) zoneID (tmp.spaceID.filter fun m => m ∉ ids) := by
    have hsame : zoneSpaces db' = zoneSpaces db := funext fun z => by
      unfold zoneSpaces
      rw [hzones]
    rw [zoneSpaces_putZone, hsame, hlist]
  refine ⟨?_, fun hcov => ?_⟩
  · rw [hlists, active_putZone]
    refine hlisted.drop (by rw [hspaces]; exact List.filter_sublist) ?_
    rintro s ⟨z, hz⟩ hs
    refine hkeep s (fun hmem => ?_) hs
    rcases mem_lists_update.mp hz with ⟨-, hz⟩ | ⟨hne, hz⟩
    · simp [hmem] at hz
    · exact hne (hlisted.alone z zoneID s hz (hspaces.symm ▸ hids.subset hmem))
  · rw [hlists, active_putZone, allListed_drop_iff hlisted hcov hless, hspaces, ← hiff]
    constructor
    · intro hdropped m hm
      exact hdropped m (hids.subset hm) (by simp [hm])
    · intro hdropped m hm hnot
      exact hdropped m (by simpa [hm] using hnot)

/-- `MapDeduct` drops spaces that it deletes. -/
theorem mapDeduct_relinks (hlisted : Listed (zoneSpaces db) (Active db))
    (zoneID ownerID : String) (ids : List String) :
    Relinks db ((server ask).execFaulty Server.noFails (mapDeduct zoneID ownerID ids) (db, 0)).2.1
      (KeepsCover ask db (.mapDeduct zoneID ownerID ids)) := by
  rcases mapDeduct_spec ask Server.noFails db zoneID ownerID ids with
    ⟨hno, r, n', hexec⟩ | ⟨tmp, r, db', n', -, -, hset, -⟩ |
    ⟨tmp, r, db', n', hdeducts, hdelete, -, hexec⟩
  · rw [hexec]
    exact .same hlisted rfl rfl fun tmp hdeducts => absurd hdeducts (hno tmp)
  · cases hset
  · rw [hexec]
    have hdrop := Relinks.drop ask hlisted hdeducts.2.1 (subperm_of_isSubset hdeducts.2.2.2)
      (some { tmp with spaceID := tmp.spaceID.filter fun m => m ∉ ids }) rfl hdelete
    refine ⟨hdrop.listed, fun hcov => (hdrop.covered hcov).trans ?_⟩
    constructor
    · intro hdeletable tmp' hdeducts'
      exact hdeletable
    · intro hok
      exact hok tmp hdeducts

/-- `ZoneCancel` drops the spaces that it deletes, with their zone. -/
theorem zoneCancel_relinks (hlisted : Listed (zoneSpaces db) (Active db))
    (zoneID ownerID : String) (admin : Bool) :
    Relinks db ((server ask).execFaulty Server.noFails (zoneCancel zoneID ownerID admin) (db, 0)).2.1
      (KeepsCover ask db (.zoneCancel zoneID ownerID admin)) := by
  rcases zoneCancel_spec ask Server.noFails db zoneID ownerID admin with
    ⟨hno, r, n', hexec⟩ | ⟨tmp, r, db', n', -, hdelete, hset, -⟩ |
    ⟨tmp, db', n', hcancels, hdelete, -, hexec⟩
  · rw [hexec]
    exact .same hlisted rfl rfl fun tmp hcancels => absurd hcancels (hno tmp)
  · have hzero := spaceDelete_zero ask db 1 tmp.spaceID
    rw [hdelete] at hzero
    rcases hset with hset | hset
    · exact absurd hzero hset
    · cases hset
  · rw [hexec]
    have hdrop := Relinks.drop ask hlisted hcancels.2.1 (List.Subperm.refl tmp.spaceID) none
      (by simp) hdelete
    refine ⟨hdrop.listed, fun hcov => (hdrop.covered hcov).trans ?_⟩
    constructor
    · intro hdeletable tmp' hcancels'
      cases hcancels.2.1.symm.trans hcancels'.2.1
      exact hdeletable
    · intro hok
      exact hok tmp hcancels

/-- `ZoneRename` keeps the list. -/
theorem zoneRename_relinks (hlisted : Listed (zoneSpaces db) (Active db))
    (zoneID ownerID : String) (newZoneName : Bytes) (admin : Bool) :
    Relinks db ((server ask).execFaulty Server.noFails (zoneRename zoneID ownerID newZoneName admin)
      (db, 0)).2.1 True := by
  rcases zoneRename_spec ask Server.noFails db zoneID ownerID newZoneName admin with
    ⟨-, r, n', hexec⟩ | ⟨tmp, hrenames, hexec⟩
  · rw [hexec]
    exact .same hlisted rfl rfl trivial
  · rw [hexec]
    refine .same hlisted ?_ (active_putZone _ _) trivial
    rw [zoneSpaces_putZone]
    exact Function.update_eq_self_iff.mpr (zoneSpaces_of_some hrenames.2.1).symm

/-- `SpaceRename` keeps the uses. -/
theorem spaceRename_relinks (hlisted : Listed (zoneSpaces db) (Active db))
    (spaceID : String) (newSpaceName : Bytes) :
    Relinks db ((server ask).execFaulty Server.noFails (spaceRename spaceID newSpaceName)
      (db, 0)).2.1 True := by
  rcases spaceRename_spec ask Server.noFails db 0 spaceID newSpaceName with
    ⟨r, n', hexec, -⟩ | ⟨sp, hsp, -, hexec⟩
  · rw [hexec]
    exact .same hlisted rfl rfl trivial
  · rw [hexec]
    exact .same hlisted rfl (active_putSpace_same hsp rfl) trivial

/-- `SpaceSizeChange` keeps the uses. -/
theorem spaceSizeChange_relinks (hlisted : Listed (zoneSpaces db) (Active db)) (spaceID : String)
    (newSize realsize : Int64) :
    Relinks db ((server ask).execFaulty Server.noFails (spaceSizeChange spaceID newSize realsize)
      (db, 0)).2.1 True := by
  rcases spaceSizeChange_spec ask Server.noFails db 0 spaceID newSize realsize with
    ⟨-, r, n', hexec, -⟩ | ⟨sp, -, hset, -⟩ | ⟨sp, hresizes, -, hexec⟩
  · rw [hexec]
    exact .same hlisted rfl rfl trivial
  · cases hset
  · rw [hexec]
    exact .putSpace hlisted hresizes.2.2.1 (by rfl) _ _ trivial

/-- Every request keeps what is listed in use and alone; it keeps all that is in use listed iff it
meets the condition. -/
theorem relinks_execFaulty (hkeyed : WellKeyed db) (hlisted : Listed (zoneSpaces db) (Active db))
    {r : Request} (hfresh : r.Fresh db) :
    Relinks db (r.execFaulty ask Server.noFails db) (KeepsCover ask db r) := by
  unfold Request.execFaulty
  cases r with
  | zoneRegister zoneName ownerID memberID spaceName spaceSize info zoneUuid spaceUuid =>
      rw [Request.program, Server.execFaulty_map]
      exact zoneRegister_relinks hlisted _ _ _ _ _ _ hfresh.1 hfresh.2
  | zoneAdd zoneName ownerID memberID info zoneUuid =>
      rw [Request.program, Server.execFaulty_map]
      exact zoneAdd_relinks hkeyed hlisted _ _ _ _ hfresh
  | zoneCancel zoneID ownerID admin =>
      rw [Request.program, Server.execFaulty_map]
      exact zoneCancel_relinks hlisted _ _ _
  | mapAdd zoneID ownerID spaceName spaceSize info spaceUuid =>
      exact mapAdd_relinks hlisted _ _ _ _ _ hfresh
  | mapDeduct zoneID ownerID ids =>
      rw [Request.program, Server.execFaulty_map]
      exact mapDeduct_relinks hlisted _ _ _
  | zoneRename zoneID ownerID newZoneName admin =>
      rw [Request.program, Server.execFaulty_map]
      exact zoneRename_relinks hlisted _ _ _ _
  | spaceRename spaceID newSpaceName =>
      rw [Request.program, Server.execFaulty_map]
      exact spaceRename_relinks hlisted _ _
  | spaceSizeChange spaceID newSize realsize =>
      rw [Request.program, Server.execFaulty_map]
      exact spaceSizeChange_relinks hlisted _ _ _

end Requests

/-! ### Runs -/

/-- What one step of the manager does to the links. -/
theorem step_relinks {ask : QueryService} {db db' : Database} {r : Request} (hkeyed : WellKeyed db)
    (hlisted : Listed (zoneSpaces db) (Active db)) (hstep : step ask db r = some db') :
    r.Fresh db ∧ Relinks db db' (KeepsCover ask db r) := by
  unfold step at hstep
  split at hstep
  · rename_i hfresh
    cases hstep
    rw [Request.exec_eq]
    exact ⟨hfresh, relinks_execFaulty hkeyed hlisted hfresh⟩
  · cases hstep

/-- **Zones and spaces stay linked**: in all states of a run the listed spaces are in use, none is
listed twice, and each space in use is listed by a zone, iff no request of the run makes a space for
a zone without a name, or drops a space that cannot be deleted. -/
theorem zones_and_spaces_stay_linked (ask : QueryService) {db : Database} (hkeyed : WellKeyed db)
    (hlinked : Linked db) (rs : List Request) :
    Machine.Always (step ask) Linked db rs ↔
      Machine.Guarded (step ask) (fun db r => r.Fresh db → KeepsCover ask db r) db rs := by
  have hinv : ∀ db r db', (WellKeyed db ∧ Listed (zoneSpaces db) (Active db)) →
      step ask db r = some db' → WellKeyed db' ∧ Listed (zoneSpaces db') (Active db') := by
    rintro db r db' ⟨hkeyed, hlisted⟩ hstep
    obtain ⟨-, hrelinks⟩ := step_relinks hkeyed hlisted hstep
    exact ⟨wellKeyed_step hkeyed hstep, hrelinks.listed⟩
  refine Machine.always_iff_guarded hinv ?_ ?_ ⟨hkeyed, hlinked.listed⟩ hlinked
  · rintro db r db' ⟨hkeyed, hlisted⟩ hlinked hstep
    obtain ⟨hfresh, hrelinks⟩ := step_relinks hkeyed hlisted hstep
    constructor
    · intro hlinked' _
      exact (hrelinks.covered hlinked.covered).mp hlinked'.covered
    · intro hok
      exact ⟨hrelinks.listed, (hrelinks.covered hlinked.covered).mpr (hok hfresh)⟩
  · intro db r hstep hfresh
    simp [step, hfresh] at hstep

/-! ### A zone without a name -/

/-- The storage cluster with nothing on it. -/
def freeCluster : StorageResource := { cluster with assign_capacity := 0 }

/-- The document of this storage cluster alone. -/
def emptyDocuments : Database
  | .storage key => if key = "STOR-1" then some freeCluster else none
  | .space _ => none
  | .zone _ => none

/-- A query service that finds the storage cluster. -/
def freeRows : QueryService where
  storages _ _ _ := [freeCluster]
  spaces _ _ _ _ := []
  zones _ _ := some []
  spaces_sound := noSpaces_sound
  zones_sound := noZones_sound

/-- The user u registers a zone with a space t of size 5. -/
def registers (zoneName : Bytes) : Request :=
  .zoneRegister zoneName "u" [] [116] 5 spaceOfFour "z" "t"

theorem wellKeyed_emptyDocuments : WellKeyed emptyDocuments where
  spaces _ _ hsp := by cases hsp
  zones _ _ hzone := by cases hzone

theorem linked_emptyDocuments : Linked emptyDocuments where
  listed := by
    constructor
    · intro z s hs
      cases hs
    · exact fun _ => .nil
    · intro z z' s hs
      cases hs
  covered s hs := by
    obtain ⟨sp, hsp, -⟩ := hs
    cases hsp

theorem zones_and_spaces_stay_linked_oneZone :
    Machine.Always (step freeRows) Linked emptyDocuments [registers [122]] ↔
      Machine.Guarded (step freeRows) (fun db r => r.Fresh db → KeepsCover freeRows db r)
        emptyDocuments [registers [122]] :=
  zones_and_spaces_stay_linked freeRows wellKeyed_emptyDocuments linked_emptyDocuments _

/-- The space of a zone without a name is in use, and no zone lists it. -/
theorem nameless_zone_leaves_space :
    ¬ ∀ (ask : QueryService) (db : Database) (rs : List Request), WellKeyed db → Linked db →
      Machine.Always (step ask) Linked db rs := by
  intro hall
  have halways := hall freeRows emptyDocuments [registers []] wellKeyed_emptyDocuments
    linked_emptyDocuments
  have hlinked := halways.2 ((registers []).exec freeRows emptyDocuments) rfl
  obtain ⟨z, hz⟩ := hlinked.covered "t" ⟨_, rfl, rfl⟩
  cases hz

end Gvds.Manager
