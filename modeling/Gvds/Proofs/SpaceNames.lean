/-
Module: Gvds.Proofs.SpaceNames
Layer: Proofs
Purpose: The names of the spaces that a zone lists, over all runs of requests, whichever of their
  calls fail. They stay different, unless SpaceRename or ZoneAdd brings a name that another space of
  the zone has, of which neither takes notice, or the check of MapAdd is cut short before such a
  space.
Imports: Gvds.Lib.Naming, Gvds.Client.ZoneMod, Gvds.Proofs.ZoneLinks
Trusted boundary: as Gvds.Manager.ZoneServer
Main exports: NamesFree, step_names, space_names_stay_distinct
-/
import Gvds.Lib.Naming
import Gvds.Client.ZoneMod
import Gvds.Proofs.ZoneLinks

namespace Gvds.Manager

/-- The name of the space with an ID. -/
def spaceNameOf (db : Database) (id : String) : Option Bytes := (db.space id).map Space.spaceName

/-- The spaces of each zone have different names. -/
def DistinctNames (db : Database) : Prop := Distinct (zoneSpaces db) (spaceNameOf db)

/-- The listed IDs all name a space. -/
def Documented (db : Database) : Prop := ∀ z, ∀ s ∈ zoneSpaces db z, (spaceNameOf db s).isSome

/-! ### The client's lookup -/

/-- What the loop of `locatePosition` has found so far is replaced by a later match only. -/
theorem foldl_locate (spaces : List Space) (name : Bytes) (found : Option Space) :
    spaces.foldl (fun space it => if it.spaceName = name then some it else space) found = found ∨
      ∃ sp ∈ spaces, sp.spaceName = name ∧ spaces.foldl
        (fun space it => if it.spaceName = name then some it else space) found = some sp := by
  induction spaces generalizing found with
  | nil => exact .inl rfl
  | cons it spaces ih =>
      rw [List.foldl_cons]
      rcases ih (if it.spaceName = name then some it else found) with heq | ⟨sp, hsp, hname, heq⟩
      · rw [heq]
        split
        · rename_i hit
          exact .inr ⟨it, List.mem_cons_self, hit, rfl⟩
        · exact .inl rfl
      · exact .inr ⟨sp, List.mem_cons_of_mem it hsp, hname, heq⟩

/-- With different names the lookup of a space's name finds this space. -/
theorem locateSpace_of_distinct {spaces : List Space} {sp : Space} (hsp : sp ∈ spaces)
    (hdistinct : ∀ a ∈ spaces, ∀ b ∈ spaces, a.spaceName = b.spaceName → a = b) :
    locateSpace spaces sp.spaceName = some sp := by
  unfold locateSpace
  obtain ⟨before, after, rfl⟩ := List.append_of_mem hsp
  rw [List.foldl_append, List.foldl_cons, if_pos rfl]
  rcases foldl_locate after sp.spaceName (some sp) with heq | ⟨sp', hsp', hname, heq⟩
  · exact heq
  · rw [heq]
    have hsame := hdistinct sp' (List.mem_append_right _ (List.mem_cons_of_mem sp hsp')) sp hsp hname
    rw [hsame]

/-! ### Names after a change -/

section Change

variable {db db' : Database} {ok : Prop}

theorem spaceNameOf_charge (key : String) (d : Int64) :
    spaceNameOf (db.charge key d) = spaceNameOf db := rfl

theorem spaceNameOf_putZone (id : String) (zone : Option Zone) :
    spaceNameOf (db.putZone id zone) = spaceNameOf db := rfl

theorem spaceNameOf_putSpace (id : String) (sp : Space) :
    spaceNameOf (db.putSpace id sp) =
      Function.update (spaceNameOf db) id (some sp.spaceName) := by
  funext s
  unfold spaceNameOf
  rw [Database.space_putSpace]
  by_cases hs : s = id
  · subst hs
    rw [if_pos rfl, Function.update_self]
    rfl
  · rw [if_neg hs, Function.update_of_ne hs]

/-- A space is written back with the name that it had. -/
theorem spaceNameOf_putSpace_same {id : String} {sp sp' : Space} (hsp : db.space id = some sp)
    (hname : sp'.spaceName = sp.spaceName) :
    spaceNameOf (db.putSpace id sp') = spaceNameOf db := by
  have hold : spaceNameOf db id = some sp'.spaceName := by
    unfold spaceNameOf
    rw [hsp, hname]
    rfl
  rw [spaceNameOf_putSpace]
  exact Function.update_eq_self_iff.mpr hold.symm

/-- `SpaceDelete` leaves the names. -/
theorem spaceNameOf_spaceDelete (ask : QueryService) (fails : Nat → Bool) (db : Database) (n : Nat)
    (ids : List String) :
    spaceNameOf ((server ask).execFaulty fails (spaceDelete ids) (db, n)).2.1 = spaceNameOf db := by
  funext s
  unfold spaceNameOf
  rcases (spaceDelete_effect ask fails db n ids).2 s with hsame | ⟨sp, hsp, -, hoff⟩
  · rw [hsame]
  · rw [hoff, hsp]
    rfl

/-- A request keeps a document for every listed space; it keeps the names of each zone's spaces
different iff a condition holds. -/
structure NameStep (db db' : Database) (ok : Prop) : Prop where
  documented : Documented db'
  distinct : DistinctNames db → (DistinctNames db' ↔ ok)

/-- No space joins a list, and the listed ones have the names they had. -/
theorem NameStep.keep (hdocumented : Documented db)
    (hlists : ∀ z, ∀ s ∈ zoneSpaces db' z, s ∈ zoneSpaces db z)
    (hname : ∀ z, ∀ s ∈ zoneSpaces db' z, spaceNameOf db' s = spaceNameOf db s) (hok : ok) :
    NameStep db db' ok where
  documented z s hs := by
    rw [hname z s hs]
    exact hdocumented z s (hlists z s hs)
  distinct hdistinct := iff_of_true (hdistinct.mono hlists hname) hok

/-- A space joins a list, and the listed ones have the names they had. -/
theorem NameStep.join (zoneID : String) {id : String} {name : Bytes} (hdocumented : Documented db)
    (hlists : zoneSpaces db' =
      Function.update (zoneSpaces db) zoneID (zoneSpaces db zoneID ++ [id]))
    (hname : ∀ z, ∀ s ∈ zoneSpaces db z, spaceNameOf db' s = spaceNameOf db s)
    (hid : spaceNameOf db' id = some name) :
    NameStep db db' (∀ s ∈ zoneSpaces db zoneID, s ≠ id → spaceNameOf db s ≠ some name) where
  documented z s hs := by
    rw [hlists] at hs
    rcases mem_lists_update.mp hs with ⟨-, hs⟩ | ⟨-, hs⟩
    · rcases List.mem_append.mp hs with hs | hs
      · rw [hname zoneID s hs]
        exact hdocumented zoneID s hs
      · rw [List.mem_singleton.mp hs, hid]
        rfl
    · rw [hname z s hs]
      exact hdocumented z s hs
  distinct hdistinct := by
    have hold : Distinct (zoneSpaces db) (spaceNameOf db') :=
      hdistinct.mono (fun _ _ hs => hs) hname
    unfold DistinctNames
    rw [hlists, distinct_join_iff hold zoneID id, hid]
    constructor
    · intro hfree s hs hne
      rw [← hname zoneID s hs]
      exact hfree s hs hne
    · intro hfree s hs hne
      rw [hname zoneID s hs]
      exact hfree s hs hne

/-- A space gets another name. -/
theorem NameStep.rename (hdocumented : Documented db) (id : String) (sp' : Space) :
    NameStep db (db.putSpace id sp') (∀ z, id ∈ zoneSpaces db z → ∀ s ∈ zoneSpaces db z,
      s ≠ id → spaceNameOf db s ≠ some sp'.spaceName) where
  documented z s hs := by
    rw [spaceNameOf_putSpace]
    by_cases hsid : s = id
    · rw [hsid, Function.update_self]
      rfl
    · rw [Function.update_of_ne hsid]
      exact hdocumented z s hs
  distinct hdistinct := by
    unfold DistinctNames
    rw [spaceNameOf_putSpace, zoneSpaces_putSpace]
    exact distinct_rename_iff hdistinct id _

/-- A condition may be put in other words. -/
theorem NameStep.of_iff {ok' : Prop} (h : NameStep db db' ok) (hiff : ok ↔ ok') :
    NameStep db db' ok' where
  documented := h.documented
  distinct hdistinct := (h.distinct hdistinct).trans hiff

/-- The names after `SpaceCreate` has made a space. -/
theorem spaceNameOf_create (spaceName : Bytes) (spaceSize : Int64) (storage : StorageResource)
    (uuid : String) : spaceNameOf (db.create spaceName spaceSize storage uuid) =
      Function.update (spaceNameOf db) uuid (some spaceName) := by
  unfold Database.create
  rw [spaceNameOf_putSpace, spaceNameOf_charge]
  rfl

/-- A listed space is not the one that `SpaceCreate` makes. -/
theorem spaceNameOf_create_listed (hdocumented : Documented db) {uuid : String}
    (hnew : (db.space uuid).isNone) (spaceName : Bytes) (spaceSize : Int64)
    (storage : StorageResource) {z s : String} (hs : s ∈ zoneSpaces db z) :
    s ≠ uuid ∧
      spaceNameOf (db.create spaceName spaceSize storage uuid) s = spaceNameOf db s := by
  have hne : s ≠ uuid := by
    rintro rfl
    have hsome := hdocumented z s hs
    unfold spaceNameOf at hsome
    rw [Option.isNone_iff_eq_none.mp hnew] at hsome
    cases hsome
  refine ⟨hne, ?_⟩
  rw [spaceNameOf_create, Function.update_of_ne hne]

end Change

/-! ### One request -/

/-- `SpaceRename` writes the space with its new name. -/
def RenamesSpace (fails : Nat → Bool) (db : Database) (id : String) (name : Bytes) (sp : Space) :
    Prop :=
  fails 0 = false ∧ db.space id = some sp ∧ sp.status = true ∧ sp.spaceName ≠ cutName name ∧
    fails 1 = false

/-- `SpaceRename` does nothing, or writes the space. -/
theorem spaceRename_cases (ask : QueryService) (fails : Nat → Bool) (db : Database) (id : String)
    (name : Bytes) :
    ((∀ sp, ¬ RenamesSpace fails db id name sp) ∧
      ((server ask).execFaulty fails (spaceRename id name) (db, 0)).2.1 = db) ∨
    (∃ sp, RenamesSpace fails db id name sp ∧
      ((server ask).execFaulty fails (spaceRename id name) (db, 0)).2.1 =
        db.putSpace id { sp with spaceName := cutName name }) := by
  unfold spaceRename RenamesSpace
  rw [Server.execFaulty_bind, execFaulty_getSpace]
  cases hget : fails 0 with
  | true => exact .inl ⟨fun sp h => (by cases h.1), rfl⟩
  | false =>
      simp only [Bool.false_eq_true, if_false]
      cases hsp : db.space id with
      | none => exact .inl ⟨fun sp h => (by cases h.2.1), rfl⟩
      | some sp =>
          dsimp only
          by_cases hstatus : sp.status = true
          · rw [if_pos hstatus]
            by_cases hname : sp.spaceName = cutName name
            · rw [if_pos hname]
              refine .inl ⟨?_, rfl⟩
              rintro sp' ⟨-, heq, -, hne, -⟩
              cases heq
              exact hne hname
            · rw [if_neg hname, Server.execFaulty_bind, execFaulty_setSpace]
              cases hset : fails 1 with
              | true => exact .inl ⟨fun sp' h => (by cases h.2.2.2.2), by simp⟩
              | false => exact .inr ⟨sp, ⟨trivial, rfl, hstatus, hname, rfl⟩, by simp⟩
          · rw [if_neg hstatus]
            refine .inl ⟨?_, rfl⟩
            rintro sp' ⟨-, heq, h, -⟩
            cases heq
            exact hstatus h

/-- The requests that bring no name into a zone that another space of the zone has. -/
def NamesFree (ask : QueryService) (fails : Nat → Bool) (db : Database) : Request → Prop
  | .zoneAdd zoneName ownerID memberID info zoneUuid =>
      ∀ zone row, addTarget ⟨zoneUuid, zoneName, ownerID, memberID, []⟩
          (zoneRows ask fails 0 db (zoneQuery ownerID zoneName)) = some zone →
        CheckCharges ask fails 1 db info row → fails 5 = false → fails 6 = false →
          ∀ s ∈ zone.spaceID, s ≠ row.spaceID → spaceNameOf db s ≠ some row.spaceName
  | .mapAdd zoneID ownerID spaceName spaceSize info _ =>
      ∀ tmp storage, MapAdds fails db zoneID ownerID spaceName tmp →
        Creates ask fails (positions fails db 1 tmp.spaceID).2 db spaceName spaceSize info storage →
        fails ((positions fails db 1 tmp.spaceID).2 + 5) = false →
          ∀ s ∈ tmp.spaceID, spaceNameOf db s ≠ some spaceName
  | .spaceRename id name =>
      ∀ sp, RenamesSpace fails db id name sp → ∀ z, id ∈ zoneSpaces db z →
        ∀ s ∈ zoneSpaces db z, s ≠ id → spaceNameOf db s ≠ some (cutName name)
  | .zoneRegister _ _ _ _ _ _ _ _ => True
  | .zoneCancel _ _ _ => True
  | .mapDeduct _ _ _ => True
  | .zoneRename _ _ _ _ => True
  | .spaceSizeChange _ _ _ => True

section Requests

variable {ask : QueryService} {fails : Nat → Bool} {db : Database}

/-- Nothing changes. -/
theorem NameStep.refl {ok : Prop} (hdocumented : Documented db) (hok : ok) :
    NameStep db db ok := .keep hdocumented (fun _ _ hs => hs) (fun _ _ _ => rfl) hok

/-- A charge keeps lists and names. -/
theorem NameStep.charge {ok : Prop} (hdocumented : Documented db)
    (key : String) (d : Int64) (hok : ok) : NameStep db (db.charge key d) ok :=
  .keep hdocumented (fun _ _ hs => hs) (fun _ _ _ => rfl) hok

/-- A new space that is not listed keeps lists and listed names. -/
theorem NameStep.create {ok : Prop} (hdocumented : Documented db)
    (spaceName : Bytes) (spaceSize : Int64) (storage : StorageResource) {uuid : String}
    (hnew : (db.space uuid).isNone) (hok : ok) :
    NameStep db (db.create spaceName spaceSize storage uuid) ok :=
  .keep hdocumented (fun _ _ hs => hs)
    (fun _ _ hs => (spaceNameOf_create_listed hdocumented hnew _ _ _ hs).2) hok

/-- A new space joins a zone. -/
theorem NameStep.create_join (hdocumented : Documented db) (spaceName : Bytes) (spaceSize : Int64)
    (storage : StorageResource) {uuid : String} (hnew : (db.space uuid).isNone) (zone : Zone)
    {zoneID : String} (hzone : zone.spaceID = zoneSpaces db zoneID ++ [uuid]) :
    NameStep db ((db.create spaceName spaceSize storage uuid).putZone zoneID (some zone))
      (∀ s ∈ zoneSpaces db zoneID, spaceNameOf db s ≠ some spaceName) := by
  have hjoin : NameStep db ((db.create spaceName spaceSize storage uuid).putZone zoneID (some zone))
      (∀ s ∈ zoneSpaces db zoneID, s ≠ uuid → spaceNameOf db s ≠ some spaceName) := by
    refine .join zoneID hdocumented ?_
      (fun z s hs => (spaceNameOf_create_listed hdocumented hnew _ _ _ hs).2) ?_
    · rw [zoneSpaces_putZone, Option.map_some, Option.getD_some, hzone]
      rfl
    · rw [spaceNameOf_putZone, spaceNameOf_create, Function.update_self]
  refine hjoin.of_iff ⟨fun hfree s hs => hfree s hs ?_, fun hfree s hs _ => hfree s hs⟩
  exact (spaceNameOf_create_listed hdocumented hnew spaceName spaceSize storage hs).1

/-- The row that `SpaceCheck` finds has the name of its space. -/
theorem CheckCharges.name {n : Nat} {info row : Space}
    (h : CheckCharges ask fails n db info row) (hkeyed : Keyed db) :
    spaceNameOf db row.spaceID = some row.spaceName := by
  obtain ⟨-, -, ⟨storage, -, hrows⟩, -⟩ := h
  obtain ⟨id, sp, hsp, rfl⟩ := ask.spaces_sound db _ _ _ row (hrows ▸ List.mem_cons_self)
  have hid : sp.spaceID = id := hkeyed id sp hsp
  unfold spaceNameOf Database.space
  dsimp only
  rw [hid, hsp]
  rfl

/-- A space that is taken into use again keeps the names. -/
theorem spaceNameOf_reuse {row : Space} (hname : spaceNameOf db row.spaceID = some row.spaceName) :
    spaceNameOf (db.reuse row) = spaceNameOf db := by
  unfold Database.reuse
  rw [spaceNameOf_putSpace, spaceNameOf_charge]
  exact Function.update_eq_self_iff.mpr hname.symm

/-- `SpaceCheck` finds one row. -/
theorem CheckCharges.unique {n : Nat} {info row row' : Space}
    (h : CheckCharges ask fails n db info row) (h' : CheckCharges ask fails n db info row') :
    row = row' := by
  obtain ⟨-, -, ⟨storage, hchosen, hrows⟩, -⟩ := h
  obtain ⟨-, -, ⟨storage', hchosen', hrows'⟩, -⟩ := h'
  cases hchosen.symm.trans hchosen'
  cases hrows.symm.trans hrows'
  rfl

/-- `ZoneRegister` gives a zone one space. -/
theorem zoneRegister_names (hdocumented : Documented db) (zoneName : Bytes)
    (ownerID : String) (memberID : List String) (spaceName : Bytes) (spaceSize : Int64)
    (info : Space) {zoneUuid spaceUuid : String} (hzone : (db.zone zoneUuid).isNone)
    (hspace : (db.space spaceUuid).isNone) :
    NameStep db ((server ask).execFaulty fails (zoneRegister zoneName ownerID memberID spaceName
      spaceSize info zoneUuid spaceUuid) (db, 0)).2.1 True := by
  rcases zoneRegister_spec ask fails db zoneName ownerID memberID spaceName spaceSize info zoneUuid
    spaceUuid with ⟨-, r, n', hexec⟩ | ⟨-, storage, -, -, r, n', hexec⟩ |
    ⟨-, storage, -, -, r, n', hexec⟩ | ⟨-, storage, -, -, n', hexec⟩
  · rw [hexec]
    exact .refl hdocumented trivial
  · rw [hexec]
    exact .charge hdocumented _ _ trivial
  · rw [hexec]
    exact .create hdocumented _ _ _ hspace trivial
  · rw [hexec]
    have hjoin := NameStep.create_join hdocumented spaceName spaceSize storage hspace
      ⟨zoneUuid, zoneName, ownerID, memberID, [spaceUuid]⟩ (by rw [zoneSpaces_of_none hzone]; rfl)
    refine hjoin.of_iff (iff_of_true (fun s hs => ?_) trivial)
    rw [zoneSpaces_of_none hzone] at hs
    cases hs

/-- `ZoneAdd` brings the name of the space that it takes into use. -/
theorem zoneAdd_names (hkeyed : WellKeyed db) (hdocumented : Documented db) (zoneName : Bytes)
    (ownerID : String) (memberID : List String) (info : Space) {zoneUuid : String}
    (hzone : (db.zone zoneUuid).isNone) :
    NameStep db ((server ask).execFaulty fails (zoneAdd zoneName ownerID memberID info zoneUuid)
      (db, 0)).2.1 (NamesFree ask fails db (.zoneAdd zoneName ownerID memberID info zoneUuid)) := by
  rcases zoneAdd_spec ask fails db zoneName ownerID memberID info zoneUuid with
    ⟨hno, r, n', hexec⟩ | ⟨zone, row, -, -, hset, r, n', hexec⟩ |
    ⟨zone, row, -, hcharges, -, hset, r, n', hexec⟩ |
    ⟨zone, row, htarget, hcharges, hset, hset', n', hexec⟩
  · rw [hexec]
    exact .refl hdocumented fun zone row htarget hcharges => absurd hcharges (hno zone row htarget)
  · rw [hexec]
    refine .charge hdocumented _ _ fun zone row _ _ hset' => ?_
    rw [hset] at hset'
    cases hset'
  · rw [hexec]
    have hsame := spaceNameOf_reuse (hcharges.name hkeyed.spaces)
    refine .keep hdocumented (fun _ _ hs => hs) (fun _ s _ => congrFun hsame s)
      fun zone row _ _ _ hset' => ?_
    rw [hset] at hset'
    cases hset'
  · rw [hexec]
    have hname := hcharges.name hkeyed.spaces
    have hsame := spaceNameOf_reuse hname
    have hlists : zoneSpaces db zone.zoneID = zone.spaceID :=
      zoneSpaces_addTarget hkeyed (by exact hzone) rfl htarget
    have hjoin : NameStep db ((db.reuse row).putZone zone.zoneID (some (zone.withSpace row.spaceID)))
        (∀ s ∈ zoneSpaces db zone.zoneID, s ≠ row.spaceID →
          spaceNameOf db s ≠ some row.spaceName) := by
      refine .join zone.zoneID hdocumented ?_ (fun _ s _ => congrFun hsame s)
        ((congrFun hsame row.spaceID).trans hname)
      rw [zoneSpaces_putZone, hlists]
      rfl
    refine hjoin.of_iff ?_
    rw [hlists]
    constructor
    · intro hfree zone' row' htarget' hcharges' _ _
      cases htarget.symm.trans htarget'
      cases hcharges.unique hcharges'
      exact hfree
    · intro hfree
      exact hfree zone row htarget hcharges hset hset'

/-- `MapAdd` brings the name of the space that it makes. -/
theorem mapAdd_names (hdocumented : Documented db) (zoneID ownerID : String) (spaceName : Bytes)
    (spaceSize : Int64) (info : Space) {spaceUuid : String} (hspace : (db.space spaceUuid).isNone) :
    NameStep db ((server ask).execFaulty fails (mapAdd zoneID ownerID spaceName spaceSize info
      spaceUuid) (db, 0)).2.1
      (NamesFree ask fails db (.mapAdd zoneID ownerID spaceName spaceSize info spaceUuid)) := by
  rcases mapAdd_spec ask fails db zoneID ownerID spaceName spaceSize info spaceUuid with
    ⟨hno, r, n', hexec⟩ | ⟨tmp, storage, hadds, hcharges, hnot, r, n', hexec⟩ |
    ⟨tmp, storage, hadds, hcreates, hset, r, n', hexec⟩ |
    ⟨tmp, storage, hadds, hcreates, hset, n', hexec⟩
  · rw [hexec]
    exact .refl hdocumented fun tmp storage hadds hcreates =>
      absurd hcreates.1 (hno tmp storage hadds)
  · rw [hexec]
    refine .charge hdocumented _ _ fun tmp' storage' hadds' hcreates => ?_
    cases hadds.2.1.symm.trans hadds'.2.1
    cases hcharges.2.1.symm.trans hcreates.1.2.1
    exact absurd hcreates hnot
  · rw [hexec]
    refine .create hdocumented _ _ _ hspace fun tmp' storage' hadds' _ hset' => ?_
    cases hadds.2.1.symm.trans hadds'.2.1
    rw [hset] at hset'
    cases hset'
  · rw [hexec]
    have hlists : zoneSpaces db zoneID = tmp.spaceID := zoneSpaces_of_some hadds.2.1
    have hjoin := NameStep.create_join hdocumented spaceName spaceSize storage hspace
      (tmp.withSpace spaceUuid) (by rw [hlists]; rfl)
    rw [hlists] at hjoin
    refine hjoin.of_iff ?_
    constructor
    · intro hfree tmp' storage' hadds' _ _
      cases hadds.2.1.symm.trans hadds'.2.1
      exact hfree
    · intro hfree
      exact hfree tmp storage hadds hcreates hset

/-- The lists of zones after some of their spaces are dropped. -/
theorem NameStep.drop {ok : Prop} (ask : QueryService) (fails : Nat → Bool)
    (hdocumented : Documented db) {n n' : Nat} {ids : List String} {r : Int} {db' : Database}
    (hexec : (server ask).execFaulty fails (spaceDelete ids) (db, n) = (r, db', n')) (hok : ok) :
    NameStep db db' ok := by
  have hzones := (spaceDelete_effect ask fails db n ids).1
  have hname := spaceNameOf_spaceDelete ask fails db n ids
  rw [hexec] at hzones hname
  refine .keep hdocumented (fun z s hs => ?_) (fun _ s _ => congrFun hname s) hok
  unfold zoneSpaces at hs ⊢
  rwa [← hzones]

/-- A zone is written with part of its list, or removed. -/
theorem NameStep.putZone {ok : Prop} {db' : Database} (h : NameStep db db' ok)
    {zoneID : String} {zone : Option Zone}
    (hzone : ∀ s ∈ (zone.map Zone.spaceID).getD [], s ∈ zoneSpaces db' zoneID) (hok : ok) :
    NameStep db (db'.putZone zoneID zone) ok := by
  have hkeep : NameStep db' (db'.putZone zoneID zone) ok := by
    refine .keep h.documented (fun z s hs => ?_) (fun _ _ _ => rfl) hok
    rw [zoneSpaces_putZone] at hs
    rcases mem_lists_update.mp hs with ⟨rfl, hkept⟩ | ⟨-, hkept⟩
    · exact hzone s hkept
    · exact hkept
  exact ⟨hkeep.documented, fun hdistinct =>
    hkeep.distinct ((h.distinct hdistinct).mpr hok)⟩

/-- Every request keeps the documents well; it keeps the names of each zone's spaces different iff
it brings no name that another space of the zone has. -/
theorem names_execFaulty (hkeyed : WellKeyed db) (hdocumented : Documented db) {r : Request}
    (hfresh : r.Fresh db) : NameStep db (r.execFaulty ask fails db) (NamesFree ask fails db r) := by
  unfold Request.execFaulty
  cases r with
  | zoneRegister zoneName ownerID memberID spaceName spaceSize info zoneUuid spaceUuid =>
      rw [Request.program, Server.execFaulty_map]
      exact zoneRegister_names hdocumented _ _ _ _ _ _ hfresh.1 hfresh.2
  | zoneAdd zoneName ownerID memberID info zoneUuid =>
      rw [Request.program, Server.execFaulty_map]
      exact zoneAdd_names hkeyed hdocumented _ _ _ _ hfresh
  | mapAdd zoneID ownerID spaceName spaceSize info spaceUuid =>
      exact mapAdd_names hdocumented _ _ _ _ _ hfresh
  | zoneCancel zoneID ownerID admin =>
      rw [Request.program, Server.execFaulty_map]
      rcases zoneCancel_spec ask fails db zoneID ownerID admin with
        ⟨-, r, n', hexec⟩ | ⟨tmp, r, db', n', -, hdelete, -, r', n'', hexec⟩ |
        ⟨tmp, db', n', -, hdelete, -, hexec⟩
      · rw [hexec]
        exact .refl hdocumented trivial
      · rw [hexec]
        exact .drop ask fails hdocumented hdelete trivial
      · rw [hexec]
        refine NameStep.putZone (.drop ask fails hdocumented hdelete trivial)
          (fun s hs => (by cases hs)) trivial
  | mapDeduct zoneID ownerID ids =>
      rw [Request.program, Server.execFaulty_map]
      rcases mapDeduct_spec ask fails db zoneID ownerID ids with
        ⟨-, r, n', hexec⟩ | ⟨tmp, r, db', n', -, hdelete, -, r', n'', hexec⟩ |
        ⟨tmp, r, db', n', hdeducts, hdelete, -, hexec⟩
      · rw [hexec]
        exact .refl hdocumented trivial
      · rw [hexec]
        exact .drop ask fails hdocumented hdelete trivial
      · rw [hexec]
        have hzones := (spaceDelete_effect ask fails db 1 ids).1
        rw [hdelete] at hzones
        have hlists : zoneSpaces db' zoneID = tmp.spaceID :=
          zoneSpaces_of_some ((hzones zoneID).trans hdeducts.2.1)
        refine NameStep.putZone (.drop ask fails hdocumented hdelete trivial)
          (fun s hs => ?_) trivial
        rw [hlists]
        exact List.mem_of_mem_filter hs
  | zoneRename zoneID ownerID newZoneName admin =>
      rw [Request.program, Server.execFaulty_map]
      rcases zoneRename_spec ask fails db zoneID ownerID newZoneName admin with
        ⟨-, r, n', hexec⟩ | ⟨tmp, hrenames, hexec⟩
      · rw [hexec]
        exact .refl hdocumented trivial
      · rw [hexec]
        refine NameStep.putZone (.refl hdocumented trivial) (fun s hs => ?_) trivial
        rw [zoneSpaces_of_some hrenames.2.1]
        exact hs
  | spaceRename id name =>
      rw [Request.program, Server.execFaulty_map]
      rcases spaceRename_cases ask fails db id name with ⟨hno, hexec⟩ | ⟨sp, hrenames, hexec⟩
      · rw [hexec]
        exact .refl hdocumented fun sp hrenames => absurd hrenames (hno sp)
      · rw [hexec]
        refine NameStep.of_iff (.rename hdocumented id _) ?_
        constructor
        · intro hfree _ _
          exact hfree
        · intro hfree
          exact hfree sp hrenames
  | spaceSizeChange id newSize realsize =>
      rw [Request.program, Server.execFaulty_map]
      rcases spaceSizeChange_spec ask fails db 0 id newSize realsize with
        ⟨-, r, n', hexec, -⟩ | ⟨sp, -, -, n', hexec⟩ | ⟨sp, hresizes, -, hexec⟩
      · rw [hexec]
        exact .refl hdocumented trivial
      · rw [hexec]
        exact .charge hdocumented _ _ trivial
      · rw [hexec]
        have hsp := hresizes.2.2.1
        refine .keep hdocumented (fun _ _ hs => hs) (fun _ s _ => ?_) trivial
        have hcharged : (db.charge sp.storageSrcID (newSize - sp.spaceSize)).space id = some sp := by
          rwa [Database.space_charge]
        have hsame : spaceNameOf ((db.charge sp.storageSrcID (newSize - sp.spaceSize)).putSpace id
            { sp with spaceSize := newSize }) = spaceNameOf db :=
          spaceNameOf_putSpace_same hcharged rfl
        exact congrFun hsame s

end Requests

/-! ### MapAdd looks at all names -/

/-- If no call fails and every listed space and its storage cluster are there, `GetSpacePosition`
finds all of them. -/
theorem mem_positions {db : Database} {ids : List String} (n : Nat)
    (hthere : ∀ s ∈ ids, ∃ sp, db.space s = some sp ∧ (db.storage sp.storageSrcID).isSome)
    {s : String} {sp : Space} (hs : s ∈ ids) (hsp : db.space s = some sp) :
    sp ∈ (positions Server.noFails db n ids).1 := by
  induction ids generalizing n with
  | nil => cases hs
  | cons m ids ih =>
      obtain ⟨sp', hsp', hst⟩ := hthere m List.mem_cons_self
      obtain ⟨st, hst⟩ := Option.isSome_iff_exists.mp hst
      rw [positions]
      simp only [Server.noFails_apply, Bool.false_eq_true, if_false, hsp', hst]
      rcases List.mem_cons.mp hs with rfl | hs
      · cases hsp.symm.trans hsp'
        exact List.mem_cons_self
      · exact List.mem_cons_of_mem sp' (ih (n + 2)
          (fun s' hs' => hthere s' (List.mem_cons_of_mem m hs')) hs)

/-- Then `MapAdd` brings no name that another space of the zone has. -/
theorem mapAdd_namesFree {ask : QueryService} {db : Database} {zoneID ownerID : String}
    {spaceName : Bytes} {spaceSize : Int64} {info : Space} {spaceUuid : String}
    (hthere : ∀ s ∈ zoneSpaces db zoneID, ∃ sp, db.space s = some sp ∧
      (db.storage sp.storageSrcID).isSome) :
    NamesFree ask Server.noFails db (.mapAdd zoneID ownerID spaceName spaceSize info spaceUuid) := by
  intro tmp storage hadds _ _ s hs hname
  rw [zoneSpaces_of_some hadds.2.1] at hthere
  obtain ⟨sp, hsp, -⟩ := hthere s hs
  have hfound := mem_positions 1 hthere hs hsp
  refine hadds.2.2.1 sp hfound ?_
  unfold spaceNameOf at hname
  rw [hsp] at hname
  exact Option.some.inj hname

/-! ### Runs -/

/-- The manager executes one request, with calls failing. -/
def faultyStep (ask : QueryService) (db : Database) (a : Request × (Nat → Bool)) :
    Option Database := if a.1.Fresh db then some (a.1.execFaulty ask a.2 db) else none

/-- Every step keeps documents under their IDs. -/
theorem wellKeyed_faultyStep {ask : QueryService} {db db' : Database} {a : Request × (Nat → Bool)}
    (h : WellKeyed db) (hstep : faultyStep ask db a = some db') : WellKeyed db' := by
  unfold faultyStep at hstep
  split at hstep
  · cases hstep
    exact wellKeyed_execFaulty h a.1
  · cases hstep

/-- What one step does to the names. -/
theorem step_names {ask : QueryService} {db db' : Database} {a : Request × (Nat → Bool)}
    (hkeyed : WellKeyed db) (hdocumented : Documented db) (hstep : faultyStep ask db a = some db') :
    a.1.Fresh db ∧ NameStep db db' (NamesFree ask a.2 db a.1) := by
  unfold faultyStep at hstep
  split at hstep
  · rename_i hfresh
    cases hstep
    exact ⟨hfresh, names_execFaulty hkeyed hdocumented hfresh⟩
  · cases hstep

/-- **The names of a zone's spaces stay different**, whichever calls fail: in all states of a run
the spaces that one zone lists have different names iff no request of the run brings a name into a
zone that another space of the zone has. -/
theorem space_names_stay_distinct (ask : QueryService) {db : Database} (hkeyed : WellKeyed db)
    (hdocumented : Documented db) (hdistinct : DistinctNames db)
    (rs : List (Request × (Nat → Bool))) :
    Machine.Always (faultyStep ask) DistinctNames db rs ↔
      Machine.Guarded (faultyStep ask) (fun db a => a.1.Fresh db → NamesFree ask a.2 db a.1)
        db rs := by
  have hinv : ∀ db a db', (WellKeyed db ∧ Documented db) → faultyStep ask db a = some db' →
      WellKeyed db' ∧ Documented db' := by
    rintro db a db' ⟨hkeyed, hdocumented⟩ hstep
    obtain ⟨-, hnames⟩ := step_names hkeyed hdocumented hstep
    exact ⟨wellKeyed_faultyStep hkeyed hstep, hnames.documented⟩
  refine Machine.always_iff_guarded hinv ?_ ?_ ⟨hkeyed, hdocumented⟩ hdistinct
  · rintro db a db' ⟨hkeyed, hdocumented⟩ hdistinct hstep
    obtain ⟨hfresh, hnames⟩ := step_names hkeyed hdocumented hstep
    rw [hnames.distinct hdistinct]
    exact ⟨fun hok _ => hok, fun hok => hok hfresh⟩
  · intro db a hstep hfresh
    simp [faultyStep, hfresh] at hstep

/-! ### A name that is taken -/

/-- The space t, besides the space s. -/
def secondSpace : Space := { spaceOfFour with spaceID := "t", spaceName := [116] }

/-- A zone with both spaces. -/
def twoSpaces : Database
  | .storage key => if key = "STOR-1" then some cluster else none
  | .space id => if id = "s" then some spaceOfFour else if id = "t" then some secondSpace else none
  | .zone id => if id = "z" then some ⟨"z", [122], "u", [], ["s", "t"]⟩ else none

theorem wellKeyed_twoSpaces : WellKeyed twoSpaces := by
  constructor
  · intro id sp hsp
    unfold Database.space twoSpaces at hsp
    dsimp only at hsp
    split at hsp
    · rename_i hid
      cases hsp
      exact hid.symm
    · split at hsp
      · rename_i hid
        cases hsp
        exact hid.symm
      · cases hsp
  · intro id zone hzone
    unfold Database.zone twoSpaces at hzone
    dsimp only at hzone
    split at hzone
    · rename_i hid
      cases hzone
      exact hid.symm
    · cases hzone

/-- Only the zone z lists anything. -/
theorem mem_zoneSpaces_twoSpaces {z s : String} (hs : s ∈ zoneSpaces twoSpaces z) :
    s = "s" ∨ s = "t" := by
  unfold zoneSpaces Database.zone twoSpaces at hs
  dsimp only at hs
  split at hs
  · simpa using hs
  · cases hs

theorem documented_twoSpaces : Documented twoSpaces := by
  intro z s hs
  rcases mem_zoneSpaces_twoSpaces hs with rfl | rfl <;> rfl

theorem distinctNames_twoSpaces : DistinctNames twoSpaces := by
  intro z s hs s' hs' hname
  rcases mem_zoneSpaces_twoSpaces hs with rfl | rfl <;>
    rcases mem_zoneSpaces_twoSpaces hs' with rfl | rfl
  · rfl
  · exact absurd (Option.some.inj hname) (by decide)
  · exact absurd (Option.some.inj hname) (by decide)
  · rfl

theorem space_names_stay_distinct_rename :
    Machine.Always (faultyStep clusterRows) DistinctNames twoSpaces
        [(.spaceRename "t" [117], Server.noFails)] ↔
      Machine.Guarded (faultyStep clusterRows)
        (fun db a => a.1.Fresh db → NamesFree clusterRows a.2 db a.1) twoSpaces
        [(.spaceRename "t" [117], Server.noFails)] :=
  space_names_stay_distinct clusterRows wellKeyed_twoSpaces documented_twoSpaces
    distinctNames_twoSpaces _

/-- The space t gets the name of the space s. -/
theorem rename_to_taken_name :
    ¬ ∀ (ask : QueryService) (db : Database) (rs : List (Request × (Nat → Bool))), WellKeyed db →
      Documented db → DistinctNames db → Machine.Always (faultyStep ask) DistinctNames db rs := by
  intro hall
  have halways := hall clusterRows twoSpaces [(.spaceRename "t" [115], Server.noFails)]
    wellKeyed_twoSpaces documented_twoSpaces distinctNames_twoSpaces
  have hdistinct : DistinctNames ((Request.spaceRename "t" [115]).execFaulty clusterRows
      Server.noFails twoSpaces) := halways.2 _ rfl
  have hsame := hdistinct "z" "s" (by decide) "t" (by decide) rfl
  exact absurd hsame (by decide)

end Gvds.Manager
