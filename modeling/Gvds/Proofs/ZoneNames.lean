/-
Module: Gvds.Proofs.ZoneNames
Layer: Proofs
Purpose: The names of the zones of one owner, over all runs of requests with every call succeeding.
  They stay different, unless a request writes a zone although its owner has another one of that
  name, because its query did not find it: a text that does not fit its buffer is broken, and
  ZoneRename asks for the zones of the requester, who need not be the owner.
Imports: Gvds.Lib.Naming, Gvds.Proofs.ReplicaGroups, Gvds.Proofs.ZoneLinks,
  Mathlib.Data.List.TakeWhile
Trusted boundary: as Gvds.Manager.ZoneServer. Answers states what the query service returns for a
  text that is whole and for one that ends inside the name
Main exports: zoneLabel, AsksRightly, zone_names_stay_unique, Answers, zoneRegister_asksRightly,
  zoneRename_asksRightly, query_of_long_name
-/
import Gvds.Lib.Naming
import Gvds.Proofs.ReplicaGroups
import Gvds.Proofs.ZoneLinks
import Mathlib.Data.List.TakeWhile

namespace Gvds.Manager

/-- The owner and the name of a zone. -/
def zoneLabel (db : Database) (id : String) : Option (String × Bytes) :=
  (db.zone id).map fun zone => (zone.ownerID, zone.zoneName)

/-- No owner has two zones of one name. -/
def UniqueZones (db : Database) : Prop := UniqueName (zoneLabel db)

/-! ### Labels after a change -/

section Change

variable {db db' : Database} {ok : Prop}

theorem zoneLabel_putZone (id : String) (zone : Option Zone) :
    zoneLabel (db.putZone id zone) =
      Function.update (zoneLabel db) id (zone.map fun zone => (zone.ownerID, zone.zoneName)) := by
  funext z
  unfold zoneLabel
  rw [Database.zone_putZone]
  by_cases hz : z = id
  · subst hz
    rw [if_pos rfl, Function.update_self]
  · rw [if_neg hz, Function.update_of_ne hz]

/-- A zone is written back with its owner and its name. -/
theorem zoneLabel_putZone_same {id : String} {zone : Zone} (zone' : Zone)
    (hzone : db.zone id = some zone)
    (howner : zone'.ownerID = zone.ownerID) (hname : zone'.zoneName = zone.zoneName) :
    zoneLabel (db.putZone id (some zone')) = zoneLabel db := by
  have hold : zoneLabel db id = some (zone'.ownerID, zone'.zoneName) := by
    unfold zoneLabel
    rw [hzone, howner, hname]
    rfl
  rw [zoneLabel_putZone]
  exact Function.update_eq_self_iff.mpr hold.symm

/-- `SpaceDelete` leaves the zones. -/
theorem zoneLabel_spaceDelete (ask : QueryService) (fails : Nat → Bool) (db : Database) (n : Nat)
    (ids : List String) :
    zoneLabel ((server ask).execFaulty fails (spaceDelete ids) (db, n)).2.1 = zoneLabel db := by
  funext z
  unfold zoneLabel
  rw [(spaceDelete_effect ask fails db n ids).1]

/-- A request keeps the zones of each owner apart iff a condition holds. -/
def Labels (db db' : Database) (ok : Prop) : Prop := UniqueZones db → (UniqueZones db' ↔ ok)

/-- The labels stay. -/
theorem Labels.same (hlabel : zoneLabel db' = zoneLabel db) (hok : ok) : Labels db db' ok := by
  intro hunique
  unfold UniqueZones
  rw [hlabel]
  exact iff_of_true hunique hok

/-- A zone gets a label. -/
theorem Labels.put {id owner : String} {name : Bytes}
    (hlabel : zoneLabel db' = Function.update (zoneLabel db) id (some (owner, name)))
    (hiff : (∀ z, z ≠ id → zoneLabel db z ≠ some (owner, name)) ↔ ok) : Labels db db' ok := by
  intro hunique
  unfold UniqueZones
  rw [hlabel, uniqueName_update_iff hunique, hiff]

end Change

/-! ### One request -/

/-- The requests that write a zone under a new label only if no other zone of the owner has the
name. -/
def AsksRightly (ask : QueryService) (db : Database) : Request → Prop
  | .zoneRegister zoneName ownerID _ spaceName spaceSize info _ _ =>
      (zoneRows ask Server.noFails 0 db (zoneQuery ownerID zoneName)).getD [] = [] →
        zoneName ≠ [] → ∀ storage, Creates ask Server.noFails 1 db spaceName spaceSize info storage →
          ∀ z, zoneLabel db z ≠ some (ownerID, zoneName)
  | .zoneAdd zoneName ownerID _ info _ =>
      zoneRows ask Server.noFails 0 db (zoneQuery ownerID zoneName) = some [] →
        ∀ row, CheckCharges ask Server.noFails 1 db info row →
          ∀ z, zoneLabel db z ≠ some (ownerID, zoneName)
  | .zoneRename zoneID ownerID newZoneName admin =>
      ∀ tmp, Renames ask Server.noFails db zoneID ownerID newZoneName admin tmp →
        ∀ z, z ≠ zoneID → zoneLabel db z ≠ some (tmp.ownerID, cutName newZoneName)
  | .zoneCancel _ _ _ => True
  | .mapAdd _ _ _ _ _ _ => True
  | .mapDeduct _ _ _ => True
  | .spaceRename _ _ => True
  | .spaceSizeChange _ _ _ => True

section Requests

variable {ask : QueryService} {db : Database}

/-- An ID without a zone has no label. -/
theorem zoneLabel_of_none {id : String} (h : (db.zone id).isNone) : zoneLabel db id = none := by
  unfold zoneLabel
  rw [Option.isNone_iff_eq_none.mp h]
  rfl

/-- A new zone gets a label that no zone has. -/
theorem Labels.new {db' : Database} {ok : Prop} {id owner : String} {name : Bytes}
    (hnew : (db.zone id).isNone)
    (hlabel : zoneLabel db' = Function.update (zoneLabel db) id (some (owner, name)))
    (hiff : (∀ z, zoneLabel db z ≠ some (owner, name)) ↔ ok) : Labels db db' ok := by
  refine .put hlabel (Iff.trans ⟨fun hfree z => ?_, fun hfree z _ => hfree z⟩ hiff)
  by_cases hz : z = id
  · rw [hz, zoneLabel_of_none hnew]
    simp
  · exact hfree z hz

/-- `ZoneRegister` gives a new zone a label. -/
theorem zoneRegister_labels (zoneName : Bytes) (ownerID : String) (memberID : List String)
    (spaceName : Bytes) (spaceSize : Int64) (info : Space) {zoneUuid : String} (spaceUuid : String)
    (hzone : (db.zone zoneUuid).isNone) :
    Labels db ((server ask).execFaulty Server.noFails (zoneRegister zoneName ownerID memberID
      spaceName spaceSize info zoneUuid spaceUuid) (db, 0)).2.1
      (AsksRightly ask db (.zoneRegister zoneName ownerID memberID spaceName spaceSize info zoneUuid
        spaceUuid)) := by
  rcases zoneRegister_spec ask Server.noFails db zoneName ownerID memberID spaceName spaceSize info
    zoneUuid spaceUuid with ⟨hno, r, n', hexec⟩ | ⟨-, storage, hcharges, hnot, r, n', hexec⟩ |
    ⟨-, storage, -, hname, r, n', hexec⟩ | ⟨hrows, storage, hcreates, hname, n', hexec⟩
  · rw [hexec]
    refine .same rfl fun hrows _ storage hcreates => ?_
    rcases hno with hno | hno
    · exact absurd hrows hno
    · exact absurd hcreates.1 (hno storage)
  · rw [hexec]
    refine .same rfl fun _ _ storage' hcreates => ?_
    cases hcharges.2.1.symm.trans hcreates.1.2.1
    exact absurd hcreates hnot
  · rw [hexec]
    refine .same rfl fun _ hnonempty => ?_
    rcases hname with hempty | hset
    · exact absurd hempty hnonempty
    · cases hset
  · rw [hexec]
    refine .new hzone (zoneLabel_putZone _ _) ⟨fun hfree _ _ _ _ => hfree, fun hok => ?_⟩
    exact hok hrows (fun hempty => hname (.inl hempty)) storage hcreates

/-- `ZoneAdd` gives a new zone a label, or writes a zone back. -/
theorem zoneAdd_labels (hkeyed : WellKeyed db) (zoneName : Bytes) (ownerID : String)
    (memberID : List String) (info : Space) {zoneUuid : String} (hzone : (db.zone zoneUuid).isNone) :
    Labels db ((server ask).execFaulty Server.noFails (zoneAdd zoneName ownerID memberID info
      zoneUuid) (db, 0)).2.1
      (AsksRightly ask db (.zoneAdd zoneName ownerID memberID info zoneUuid)) := by
  rcases zoneAdd_spec ask Server.noFails db zoneName ownerID memberID info zoneUuid with
    ⟨hno, r, n', hexec⟩ | ⟨zone, row, -, -, hset, -⟩ | ⟨zone, row, -, -, -, hset, -⟩ |
    ⟨zone, row, htarget, hcharges, -, -, n', hexec⟩
  · rw [hexec]
    refine .same rfl fun hrows row hcharges => ?_
    rw [hrows] at hno
    exact absurd hcharges (hno _ row rfl)
  · cases hset
  · cases hset
  · rw [hexec]
    match hrows : zoneRows ask Server.noFails 0 db (zoneQuery ownerID zoneName) with
    | none =>
        rw [hrows] at htarget
        cases htarget
    | some [] =>
        rw [hrows] at htarget
        cases htarget
        refine .new hzone (zoneLabel_putZone _ _) ⟨fun hfree _ _ _ => hfree, fun hok => ?_⟩
        exact hok hrows row hcharges
    | some [tmp] =>
        rw [hrows] at htarget
        cases htarget
        obtain ⟨id, hid⟩ := ask.zones_sound db _ [zone] hrows zone List.mem_cons_self
        have hkey : db.zone zone.zoneID = some zone := by
          rw [hkeyed.zones id zone hid]
          exact hid
        refine .same ?_ fun hempty => ?_
        · exact zoneLabel_putZone_same (zone.withSpace row.spaceID) hkey rfl rfl
        · rw [hrows] at hempty
          cases hempty
    | some (_ :: _ :: _) =>
        rw [hrows] at htarget
        cases htarget

/-- `ZoneRename` gives a zone a label. -/
theorem zoneRename_labels (zoneID ownerID : String) (newZoneName : Bytes) (admin : Bool) :
    Labels db ((server ask).execFaulty Server.noFails (zoneRename zoneID ownerID newZoneName admin)
      (db, 0)).2.1 (AsksRightly ask db (.zoneRename zoneID ownerID newZoneName admin)) := by
  rcases zoneRename_spec ask Server.noFails db zoneID ownerID newZoneName admin with
    ⟨hno, r, n', hexec⟩ | ⟨tmp, hrenames, hexec⟩
  · rw [hexec]
    exact .same rfl fun tmp hrenames => absurd hrenames (hno tmp)
  · rw [hexec]
    refine .put (zoneLabel_putZone _ _) ⟨fun hfree tmp' hrenames' => ?_, fun hok => hok tmp hrenames⟩
    cases hrenames.2.1.symm.trans hrenames'.2.1
    exact hfree

/-- Every request keeps the zones of each owner apart iff it asks rightly. -/
theorem labels_execFaulty (hkeyed : WellKeyed db) (hunique : UniqueZones db) {r : Request}
    (hfresh : r.Fresh db) :
    UniqueZones (r.execFaulty ask Server.noFails db) ↔ AsksRightly ask db r := by
  suffices hlabels : Labels db (r.execFaulty ask Server.noFails db) (AsksRightly ask db r) from
    hlabels hunique
  unfold Request.execFaulty
  cases r with
  | zoneRegister zoneName ownerID memberID spaceName spaceSize info zoneUuid spaceUuid =>
      rw [Request.program, Server.execFaulty_map]
      exact zoneRegister_labels _ _ _ _ _ _ _ hfresh.1
  | zoneAdd zoneName ownerID memberID info zoneUuid =>
      rw [Request.program, Server.execFaulty_map]
      exact zoneAdd_labels hkeyed _ _ _ _ hfresh
  | zoneRename zoneID ownerID newZoneName admin =>
      rw [Request.program, Server.execFaulty_map]
      exact zoneRename_labels _ _ _ _
  | zoneCancel zoneID ownerID admin =>
      rw [Request.program, Server.execFaulty_map]
      rcases zoneCancel_spec ask Server.noFails db zoneID ownerID admin with
        ⟨-, r, n', hexec⟩ | ⟨tmp, r, db', n', -, hdelete, -, r', n'', hexec⟩ |
        ⟨tmp, db', n', -, hdelete, -, hexec⟩
      · rw [hexec]
        exact .same rfl trivial
      · rw [hexec]
        have hlabel := zoneLabel_spaceDelete ask Server.noFails db 1 tmp.spaceID
        rw [hdelete] at hlabel
        exact .same hlabel trivial
      · rw [hexec]
        have hlabel := zoneLabel_spaceDelete ask Server.noFails db 1 tmp.spaceID
        rw [hdelete] at hlabel
        intro hunique
        unfold UniqueZones
        rw [zoneLabel_putZone, hlabel]
        exact iff_of_true (hunique.erase zoneID) trivial
  | mapAdd zoneID ownerID spaceName spaceSize info spaceUuid =>
      rw [Request.program]
      rcases mapAdd_spec ask Server.noFails db zoneID ownerID spaceName spaceSize info spaceUuid with
        ⟨-, r, n', hexec⟩ | ⟨tmp, storage, -, -, -, r, n', hexec⟩ |
        ⟨tmp, storage, -, -, -, r, n', hexec⟩ | ⟨tmp, storage, hadds, -, -, n', hexec⟩
      · rw [hexec]
        exact .same rfl trivial
      · rw [hexec]
        exact .same rfl trivial
      · rw [hexec]
        exact .same rfl trivial
      · rw [hexec]
        have hcreated : (db.create spaceName spaceSize storage spaceUuid).zone zoneID = some tmp :=
          hadds.2.1
        refine .same ?_ trivial
        exact zoneLabel_putZone_same (tmp.withSpace spaceUuid) hcreated rfl rfl
  | mapDeduct zoneID ownerID ids =>
      rw [Request.program, Server.execFaulty_map]
      rcases mapDeduct_spec ask Server.noFails db zoneID ownerID ids with
        ⟨-, r, n', hexec⟩ | ⟨tmp, r, db', n', -, -, hset, -⟩ |
        ⟨tmp, r, db', n', hdeducts, hdelete, -, hexec⟩
      · rw [hexec]
        exact .same rfl trivial
      · cases hset
      · rw [hexec]
        have hlabel := zoneLabel_spaceDelete ask Server.noFails db 1 ids
        have hzones := (spaceDelete_effect ask Server.noFails db 1 ids).1 zoneID
        rw [hdelete] at hlabel hzones
        refine .same (Eq.trans ?_ hlabel) trivial
        exact zoneLabel_putZone_same _ (hzones.trans hdeducts.2.1) rfl rfl
  | spaceRename id name =>
      rw [Request.program, Server.execFaulty_map]
      rcases spaceRename_spec ask Server.noFails db 0 id name with
        ⟨r, n', hexec, -⟩ | ⟨sp, -, -, hexec⟩
      · rw [hexec]
        exact .same rfl trivial
      · rw [hexec]
        exact .same rfl trivial
  | spaceSizeChange id newSize realsize =>
      rw [Request.program, Server.execFaulty_map]
      rcases spaceSizeChange_spec ask Server.noFails db 0 id newSize realsize with
        ⟨-, r, n', hexec, -⟩ | ⟨sp, -, hset, -⟩ | ⟨sp, -, -, hexec⟩
      · rw [hexec]
        exact .same rfl trivial
      · cases hset
      · rw [hexec]
        exact .same rfl trivial

end Requests

/-! ### Runs -/

/-- **The names of an owner's zones stay unique**: in all states of a run no owner has two zones of
one name iff all requests of the run ask rightly, so that a zone is written under a new label only
if no other zone has it. -/
theorem zone_names_stay_unique (ask : QueryService) {db : Database} (hkeyed : WellKeyed db)
    (hunique : UniqueZones db) (rs : List Request) :
    Machine.Always (step ask) UniqueZones db rs ↔
      Machine.Guarded (step ask) (fun db r => r.Fresh db → AsksRightly ask db r) db rs := by
  refine Machine.always_iff_guarded (fun _ _ _ => wellKeyed_step) ?_ ?_ hkeyed hunique
  · intro db r db' hkeyed hunique hstep
    unfold step at hstep
    split at hstep
    · rename_i hfresh
      cases hstep
      rw [Request.exec_eq, labels_execFaulty hkeyed hunique hfresh]
      exact ⟨fun hok _ => hok, fun hok => hok hfresh⟩
    · cases hstep
  · intro db r hstep hfresh
    simp [step, hfresh] at hstep

/-! ### Which queries find their zones -/

/-- A name without quotes, backslashes and control characters stands for itself in a query. -/
def Plain (s : Bytes) : Prop := ∀ b ∈ s, b ≠ 34 ∧ b ≠ 92 ∧ 32 ≤ b

/-- The text of the query up to the name. -/
def queryHead (ownerID : String) : Bytes :=
  bytes "select UUID, name, owner, members, spaces from `test` where owner = \"" ++
    cstr (bytes ownerID) ++ bytes "\" and name = \""

/-- The query service evaluates the text that it gets: a whole one finds the zones of the owner with
the name, one that ends inside the name is broken. -/
structure Answers (ask : QueryService) : Prop where
  whole : ∀ db ownerID zoneName, Plain (bytes ownerID) → Plain zoneName →
    ∃ rows, ask.zones db (zoneQueryText ownerID zoneName) = some rows ∧
      ∀ zone, zone ∈ rows ↔
        ∃ id, db.zone id = some zone ∧ zone.ownerID = ownerID ∧ zone.zoneName = zoneName
  broken : ∀ db ownerID start, Plain (bytes ownerID) → Plain start →
    ask.zones db (queryHead ownerID ++ start) = none

section Queries

variable {ask : QueryService} {db : Database}

/-- A text that fits the buffer stays whole. -/
theorem zoneQuery_of_fits {ownerID : String} {zoneName : Bytes}
    (hfits : (zoneQueryText ownerID zoneName).length ≤ 255) :
    zoneQuery ownerID zoneName = zoneQueryText ownerID zoneName := List.take_of_length_le hfits

/-- Where the query fits, no zone of its owner has the name if it returns no row. -/
theorem Answers.free (hanswers : Answers ask) {ownerID : String} {zoneName : Bytes}
    (howner : Plain (bytes ownerID)) (hname : Plain zoneName)
    (hfits : (zoneQueryText ownerID zoneName).length ≤ 255) {n : Nat}
    (hrows : (zoneRows ask Server.noFails n db (zoneQuery ownerID zoneName)).getD [] = []) (z : String) :
    zoneLabel db z ≠ some (ownerID, zoneName) := by
  obtain ⟨rows, heq, hmem⟩ := hanswers.whole db ownerID zoneName howner hname
  rw [zoneQuery_of_fits hfits] at hrows
  change (ask.zones db (zoneQueryText ownerID zoneName)).getD [] = [] at hrows
  rw [heq, Option.getD_some] at hrows
  intro hlabel
  obtain ⟨zone, hzone, hpair⟩ := Option.map_eq_some_iff.mp hlabel
  obtain ⟨howner', hname'⟩ := Prod.mk.inj hpair
  have hfound := (hmem zone).mpr ⟨z, hzone, howner', hname'⟩
  rw [hrows] at hfound
  cases hfound

/-- `ZoneRegister` with a query that fits asks rightly. -/
theorem zoneRegister_asksRightly (hanswers : Answers ask) {zoneName : Bytes} {ownerID : String}
    (howner : Plain (bytes ownerID)) (hname : Plain zoneName)
    (hfits : (zoneQueryText ownerID zoneName).length ≤ 255) (memberID : List String)
    (spaceName : Bytes) (spaceSize : Int64) (info : Space) (zoneUuid spaceUuid : String) :
    AsksRightly ask db (.zoneRegister zoneName ownerID memberID spaceName spaceSize info zoneUuid
      spaceUuid) :=
  fun hrows _ _ _ => hanswers.free howner hname hfits hrows

/-- `ZoneRename` with a query that fits asks rightly, if the owner of the zone asks. -/
theorem zoneRename_asksRightly (hanswers : Answers ask) {zoneID ownerID : String}
    {newZoneName : Bytes} {admin : Bool} (howner : Plain (bytes ownerID))
    (hname : Plain (cutName newZoneName))
    (hfits : (zoneQueryText ownerID (cutName newZoneName)).length ≤ 255)
    (hself : ∀ zone, db.zone zoneID = some zone → zone.ownerID = ownerID) :
    AsksRightly ask db (.zoneRename zoneID ownerID newZoneName admin) := by
  intro tmp hrenames z _
  rw [hself tmp hrenames.2.1]
  exact hanswers.free howner hname hfits hrenames.2.2.2.1 z

theorem cstr_of_plain {s : Bytes} (h : Plain s) : cstr s = s := by
  unfold cstr
  rw [List.takeWhile_eq_self_iff]
  intro b hb
  have hlow := (h b hb).2.2
  simp only [ne_eq, decide_not, Bool.not_eq_true', decide_eq_false_iff_not]
  rintro rfl
  exact absurd hlow (by decide)

/-- The query for a name that does not fit is broken, so it finds nothing. -/
theorem query_of_long_name (hanswers : Answers ask) {ownerID : String} {zoneName : Bytes}
    (howner : Plain (bytes ownerID)) (hname : Plain zoneName)
    (hhead : (queryHead ownerID).length ≤ 255)
    (hlong : 255 ≤ (queryHead ownerID).length + zoneName.length) (n : Nat) :
    zoneRows ask Server.noFails n db (zoneQuery ownerID zoneName) = none := by
  have htext : zoneQueryText ownerID zoneName =
      queryHead ownerID ++ (zoneName ++ bytes "\" and META().id like 'ZONE-%'") := by
    unfold zoneQueryText queryHead
    rw [cstr_of_plain hname]
    simp only [List.append_assoc]
  have hquery : zoneQuery ownerID zoneName =
      queryHead ownerID ++ zoneName.take (255 - (queryHead ownerID).length) := by
    have hcut : 255 - (queryHead ownerID).length ≤ zoneName.length := by omega
    unfold zoneQuery
    rw [htext, List.take_append, List.take_of_length_le hhead, List.take_append_of_le_length hcut]
  change ask.zones db (zoneQuery ownerID zoneName) = none
  rw [hquery]
  exact hanswers.broken db ownerID _ howner fun b hb => hname b (List.mem_of_mem_take hb)

/-- `ZoneAdd` asks rightly with a query that fits, and also with one that is broken. -/
theorem zoneAdd_asksRightly (hanswers : Answers ask) {zoneName : Bytes} {ownerID : String}
    (howner : Plain (bytes ownerID)) (hname : Plain zoneName)
    (hfits : (zoneQueryText ownerID zoneName).length ≤ 255 ∨
      (queryHead ownerID).length ≤ 255 ∧ 255 ≤ (queryHead ownerID).length + zoneName.length)
    (memberID : List String) (info : Space) (zoneUuid : String) :
    AsksRightly ask db (.zoneAdd zoneName ownerID memberID info zoneUuid) := by
  intro hrows row _
  rcases hfits with hfits | ⟨hhead, hlong⟩
  · exact hanswers.free (n := 0) howner hname hfits (by rw [hrows]; rfl)
  · rw [query_of_long_name hanswers howner hname hhead hlong] at hrows
    cases hrows

end Queries

/-! ### A zone renamed by an administrator -/

/-- Two zones of the user u. -/
def twoZones : Database
  | .storage _ => none
  | .space _ => none
  | .zone id =>
      if id = "a" then some ⟨"a", [97], "u", [], []⟩
      else if id = "b" then some ⟨"b", [98], "u", [], []⟩
      else none

theorem wellKeyed_twoZones : WellKeyed twoZones where
  spaces _ _ hsp := by cases hsp
  zones id zone hzone := by
    unfold Database.zone twoZones at hzone
    dsimp only at hzone
    split at hzone
    · rename_i hid
      cases hzone
      exact hid.symm
    · split at hzone
      · rename_i hid
        cases hzone
        exact hid.symm
      · cases hzone

theorem zoneLabel_twoZones {z : String} {label : String × Bytes}
    (h : zoneLabel twoZones z = some label) :
    z = "a" ∧ label = ("u", [97]) ∨ z = "b" ∧ label = ("u", [98]) := by
  unfold zoneLabel Database.zone twoZones at h
  dsimp only at h
  split at h
  · rename_i hz
    cases h
    exact .inl ⟨hz, rfl⟩
  · split at h
    · rename_i hz
      cases h
      exact .inr ⟨hz, rfl⟩
    · cases h

theorem uniqueZones_twoZones : UniqueZones twoZones := by
  intro z z' label hz hz'
  rcases zoneLabel_twoZones hz with ⟨rfl, rfl⟩ | ⟨rfl, rfl⟩ <;>
    rcases zoneLabel_twoZones hz' with ⟨rfl, hlabel⟩ | ⟨rfl, hlabel⟩
  · rfl
  · cases hlabel
  · cases hlabel
  · rfl

theorem zone_names_stay_unique_rename :
    Machine.Always (step noRows) UniqueZones twoZones [.zoneRename "b" "u" [99] false] ↔
      Machine.Guarded (step noRows) (fun db r => r.Fresh db → AsksRightly noRows db r) twoZones
        [.zoneRename "b" "u" [99] false] :=
  zone_names_stay_unique noRows wellKeyed_twoZones uniqueZones_twoZones _

/-- An administrator, who owns no zone, gives the zone b the name of the zone a. -/
theorem rename_by_admin :
    ¬ ∀ (ask : QueryService) (db : Database) (rs : List Request), WellKeyed db → UniqueZones db →
      Machine.Always (step ask) UniqueZones db rs := by
  intro hall
  have halways := hall noRows twoZones [.zoneRename "b" "root" [97] true] wellKeyed_twoZones
    uniqueZones_twoZones
  have hunique : UniqueZones ((Request.zoneRename "b" "root" [97] true).exec noRows twoZones) :=
    halways.2 _ rfl
  have hsame := hunique "a" "b" ("u", [97]) rfl rfl
  exact absurd hsame (by decide)

end Gvds.Manager
