/-
Module: Gvds.Proofs.DocumentKeys
Layer: Proofs
Purpose: Every request leaves the documents of spaces and zones under their own IDs, whichever of
  its calls fail.
Imports: Gvds.Proofs.ZoneOperations, Gvds.Proofs.SpaceAttributes
Trusted boundary: as Gvds.Manager.ZoneServer
Main exports: WellKeyed, wellKeyed_execFaulty
-/
import Gvds.Proofs.ZoneOperations
import Gvds.Proofs.SpaceAttributes

namespace Gvds.Manager

/-- Every document of a space or a zone stands under its own ID. -/
structure WellKeyed (db : Database) : Prop where
  spaces : Keyed db
  zones : ∀ id zone, db.zone id = some zone → zone.zoneID = id

namespace WellKeyed

variable {ask : QueryService} {fails : Nat → Bool} {db : Database} {id : String}

theorem charge (h : WellKeyed db) (key : String) (d : Int64) : WellKeyed (db.charge key d) where
  spaces s sp hsp := h.spaces s sp (by rwa [Database.space_charge] at hsp)
  zones z zone hzone := h.zones z zone (by rwa [Database.zone_charge] at hzone)

theorem putSpace (h : WellKeyed db) {sp : Space} (hid : sp.spaceID = id) :
    WellKeyed (db.putSpace id sp) where
  spaces s sp' hsp' := by
    rw [Database.space_putSpace] at hsp'
    split at hsp'
    · rename_i hs
      cases hsp'
      rw [hs, hid]
    · exact h.spaces s sp' hsp'
  zones z zone hzone := h.zones z zone (by rwa [Database.zone_putSpace] at hzone)

/-- A zone is written under its ID. -/
theorem putZone (h : WellKeyed db) {zone : Zone} (hid : zone.zoneID = id) :
    WellKeyed (db.putZone id (some zone)) where
  spaces s sp hsp := h.spaces s sp (by rwa [Database.space_putZone] at hsp)
  zones z zone' hzone := by
    rw [Database.zone_putZone] at hzone
    split at hzone
    · rename_i hz
      cases hzone
      rw [hz, hid]
    · exact h.zones z zone' hzone

/-- A zone is removed. -/
theorem removeZone (h : WellKeyed db) (id : String) : WellKeyed (db.putZone id none) where
  spaces s sp hsp := h.spaces s sp (by rwa [Database.space_putZone] at hsp)
  zones z zone hzone := by
    rw [Database.zone_putZone] at hzone
    split at hzone
    · cases hzone
    · exact h.zones z zone hzone

theorem create (h : WellKeyed db) (spaceName : Bytes) (spaceSize : Int64)
    (storage : StorageResource) (uuid : String) :
    WellKeyed (db.create spaceName spaceSize storage uuid) := (h.charge _ _).putSpace rfl

theorem reuse (h : WellKeyed db) (row : Space) : WellKeyed (db.reuse row) :=
  (h.charge _ _).putSpace rfl

theorem spaceDelete (h : WellKeyed db) (ask : QueryService) (fails : Nat → Bool) (n : Nat)
    (ids : List String) :
    WellKeyed ((server ask).execFaulty fails (spaceDelete ids) (db, n)).2.1 := by
  obtain ⟨hzone, hspace⟩ := spaceDelete_effect ask fails db n ids
  constructor
  · intro s sp hsp
    rcases hspace s with hsame | ⟨sp', hsp', -, hoff⟩
    · exact h.spaces s sp (by rwa [hsame] at hsp)
    · cases hsp.symm.trans hoff
      exact h.spaces s sp' hsp'
  · intro z zone hz
    exact h.zones z zone (by rwa [hzone] at hz)

end WellKeyed

/-- Every request writes spaces and zones under their IDs. -/
theorem wellKeyed_execFaulty {ask : QueryService} {fails : Nat → Bool} {db : Database}
    (h : WellKeyed db) (r : Request) : WellKeyed (r.execFaulty ask fails db) := by
  unfold Request.execFaulty
  cases r with
  | zoneRegister zoneName ownerID memberID spaceName spaceSize info zoneUuid spaceUuid =>
      rw [Request.program, Server.execFaulty_map]
      rcases zoneRegister_spec ask fails db zoneName ownerID memberID spaceName spaceSize info
        zoneUuid spaceUuid with ⟨-, r, n', hexec⟩ | ⟨-, storage, -, -, r, n', hexec⟩ |
        ⟨-, storage, -, -, r, n', hexec⟩ | ⟨-, storage, -, -, n', hexec⟩
      · rw [hexec]
        exact h
      · rw [hexec]
        exact h.charge _ _
      · rw [hexec]
        exact h.create _ _ _ _
      · rw [hexec]
        exact (h.create _ _ _ _).putZone rfl
  | zoneAdd zoneName ownerID memberID info zoneUuid =>
      rw [Request.program, Server.execFaulty_map]
      rcases zoneAdd_spec ask fails db zoneName ownerID memberID info zoneUuid with
        ⟨-, r, n', hexec⟩ | ⟨zone, row, -, -, -, r, n', hexec⟩ |
        ⟨zone, row, -, -, -, -, r, n', hexec⟩ | ⟨zone, row, -, -, -, -, n', hexec⟩
      · rw [hexec]
        exact h
      · rw [hexec]
        exact h.charge _ _
      · rw [hexec]
        exact h.reuse row
      · rw [hexec]
        exact (h.reuse row).putZone rfl
  | zoneCancel zoneID ownerID admin =>
      rw [Request.program, Server.execFaulty_map]
      rcases zoneCancel_spec ask fails db zoneID ownerID admin with
        ⟨-, r, n', hexec⟩ | ⟨tmp, r, db', n', -, hdelete, -, r', n'', hexec⟩ |
        ⟨tmp, db', n', -, hdelete, -, hexec⟩
      · rw [hexec]
        exact h
      · have hdeleted := h.spaceDelete ask fails 1 tmp.spaceID
        rw [hdelete] at hdeleted
        rw [hexec]
        exact hdeleted
      · have hdeleted := h.spaceDelete ask fails 1 tmp.spaceID
        rw [hdelete] at hdeleted
        rw [hexec]
        exact hdeleted.removeZone zoneID
  | mapAdd zoneID ownerID spaceName spaceSize info spaceUuid =>
      rw [Request.program]
      rcases mapAdd_spec ask fails db zoneID ownerID spaceName spaceSize info spaceUuid with
        ⟨-, r, n', hexec⟩ | ⟨tmp, storage, -, -, -, r, n', hexec⟩ |
        ⟨tmp, storage, -, -, -, r, n', hexec⟩ | ⟨tmp, storage, hadds, -, -, n', hexec⟩
      · rw [hexec]
        exact h
      · rw [hexec]
        exact h.charge _ _
      · rw [hexec]
        exact h.create _ _ _ _
      · rw [hexec]
        have hid : (tmp.withSpace spaceUuid).zoneID = zoneID := h.zones zoneID tmp hadds.2.1
        exact (h.create _ _ _ _).putZone hid
  | mapDeduct zoneID ownerID ids =>
      rw [Request.program, Server.execFaulty_map]
      have hdeleted := h.spaceDelete ask fails 1 ids
      rcases mapDeduct_spec ask fails db zoneID ownerID ids with
        ⟨-, r, n', hexec⟩ | ⟨tmp, r, db', n', -, hdelete, -, r', n'', hexec⟩ |
        ⟨tmp, r, db', n', hdeducts, hdelete, -, hexec⟩
      · rw [hexec]
        exact h
      · rw [hdelete] at hdeleted
        rw [hexec]
        exact hdeleted
      · rw [hdelete] at hdeleted
        rw [hexec]
        exact hdeleted.putZone (h.zones zoneID tmp hdeducts.2.1)
  | zoneRename zoneID ownerID newZoneName admin =>
      rw [Request.program, Server.execFaulty_map]
      rcases zoneRename_spec ask fails db zoneID ownerID newZoneName admin with
        ⟨-, r, n', hexec⟩ | ⟨tmp, hrenames, hexec⟩
      · rw [hexec]
        exact h
      · rw [hexec]
        exact h.putZone (h.zones zoneID tmp hrenames.2.1)
  | spaceRename id name =>
      rw [Request.program, Server.execFaulty_map]
      rcases spaceRename_spec ask fails db 0 id name with
        ⟨r, n', hexec, -⟩ | ⟨sp, hsp, -, hexec⟩
      · rw [hexec]
        exact h
      · rw [hexec]
        exact h.putSpace (h.spaces id sp hsp)
  | spaceSizeChange id newSize realsize =>
      rw [Request.program, Server.execFaulty_map]
      rcases spaceSizeChange_spec ask fails db 0 id newSize realsize with
        ⟨-, r, n', hexec, -⟩ | ⟨sp, -, -, n', hexec⟩ | ⟨sp, hresizes, -, hexec⟩
      · rw [hexec]
        exact h
      · rw [hexec]
        exact h.charge _ _
      · rw [hexec]
        exact (h.charge _ _).putSpace (h.spaces id sp hresizes.2.2.1)

/-- Every step of the manager keeps documents under their IDs. -/
theorem wellKeyed_step {ask : QueryService} {db db' : Database} {r : Request} (h : WellKeyed db)
    (hstep : step ask db r = some db') : WellKeyed db' := by
  unfold step at hstep
  split at hstep
  · cases hstep
    rw [Request.exec_eq]
    exact wellKeyed_execFaulty h r
  · cases hstep

end Gvds.Manager
