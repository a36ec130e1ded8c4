/-
Module: Gvds.Proofs.ZoneOperations
Layer: Proofs
Purpose: What each operation on zones does to the documents, whichever of its calls fail: one lemma
  for each, with all its outcomes.
Imports: Gvds.Manager.ZoneServer, Gvds.Proofs.FailedOperations
Trusted boundary: as Gvds.Manager.ZoneServer
Main exports: Creates, positions, spaceDelete_effect, zoneRegister_spec, zoneAdd_spec,
  zoneCancel_spec, mapAdd_spec, mapDeduct_spec, zoneRename_spec
-/
import Gvds.Manager.ZoneServer
import Gvds.Proofs.FailedOperations

namespace Gvds.Manager

variable {ask : QueryService} {fails : Nat → Bool} {db : Database} {n : Nat}

/-! ### Calls -/

theorem execFaulty_getZone (id : String) :
    (server ask).execFaulty fails (getZone id) (db, n) =
      (if fails n then none else db.zone id, db, n + 1) := by
  unfold getZone
  rw [Server.execFaulty_perform]
  split <;> rfl

theorem execFaulty_setZone (id : String) (doc : Zone) :
    (server ask).execFaulty fails (setZone id doc) (db, n) =
      (!fails n, if fails n then db else db.putZone id (some doc), n + 1) := by
  unfold setZone
  rw [Server.execFaulty_perform]
  cases fails n <;> rfl

theorem execFaulty_removeZone (id : String) :
    (server ask).execFaulty fails (removeZone id) (db, n) =
      (!fails n, if fails n then db else db.putZone id none, n + 1) := by
  unfold removeZone
  rw [Server.execFaulty_perform]
  cases fails n <;> rfl

theorem execFaulty_queryZones (text : Bytes) :
    (server ask).execFaulty fails (.perform (.queryZones text)) (db, n) =
      (if fails n then none else ask.zones db text, db, n + 1) := by
  rw [Server.execFaulty_perform]
  split <;> rfl

/-- The rows of a query for zones; none if it fails. -/
def zoneRows (ask : QueryService) (fails : Nat → Bool) (n : Nat) (db : Database) (text : Bytes) :
    Option (List Zone) := if fails n then none else ask.zones db text

/-! ### Parts of the operations -/

/-- `SpaceCreate` makes a space. -/
def Creates (ask : QueryService) (fails : Nat → Bool) (n : Nat) (db : Database) (spaceName : Bytes)
    (spaceSize : Int64) (info : Space) (storage : StorageResource) : Prop :=
  CreateCharges ask fails n db spaceSize info storage ∧
    ¬ (fails (n + 3) = true ∨ spaceName = [] ∨ spaceSize = 0 ∨ fails (n + 4) = true)

/-- The documents after `SpaceCreate` has made a space. -/
def Database.create (db : Database) (spaceName : Bytes) (spaceSize : Int64)
    (storage : StorageResource) (uuid : String) : Database :=
  (db.charge storage.key spaceSize).putSpace uuid (newSpace spaceName spaceSize storage uuid)

/-- The documents after `SpaceCheck` has taken a space into use. -/
def Database.reuse (db : Database) (row : Space) : Database :=
  (db.charge row.storageSrcID row.spaceSize).putSpace row.spaceID { row with status := true }

/-- What `GetSpacePosition` finds, from call number `n` on, and the number of its next call. -/
def positions (fails : Nat → Bool) (db : Database) : Nat → List String → List Space × Nat
  | n, [] => ([], n)
  | n, m :: ids =>
      match if fails n then none else db.space m with
      | none => ([], n + 1)
      | some sp =>
          match if fails (n + 1) then none else db.storage sp.storageSrcID with
          | none => ([], n + 2)
          | some _ => (sp :: (positions fails db (n + 2) ids).1, (positions fails db (n + 2) ids).2)

/-- `GetSpacePosition` changes nothing. -/
theorem getSpacePosition_spec (ask : QueryService) (fails : Nat → Bool) (db : Database) (n : Nat)
    (ids : List String) :
    (server ask).execFaulty fails (getSpacePosition ids) (db, n) =
      ((positions fails db n ids).1, db, (positions fails db n ids).2) := by
  induction ids generalizing n with
  | nil => rfl
  | cons m ids ih =>
      rw [getSpacePosition, Server.execFaulty_bind, execFaulty_getSpace, positions]
      cases hsp : if fails n then none else db.space m with
      | none => rfl
      | some sp =>
          dsimp only
          rw [Server.execFaulty_bind, execFaulty_getStorage]
          cases hst : if fails (n + 1) then none else db.storage sp.storageSrcID with
          | none => rfl
          | some st =>
              dsimp only
              rw [Server.execFaulty_bind, ih]
              rfl

/-- What `SpaceDelete` leaves alone, and what it may do to a listed space. -/
theorem spaceDelete_effect (ask : QueryService) (fails : Nat → Bool) (db : Database) (n : Nat)
    (ids : List String) :
    (∀ z, Database.zone ((server ask).execFaulty fails (spaceDelete ids) (db, n)).2.1 z =
      db.zone z) ∧
    ∀ m, Database.space ((server ask).execFaulty fails (spaceDelete ids) (db, n)).2.1 m =
        db.space m ∨
      ∃ sp, db.space m = some sp ∧ m ∈ ids ∧
        Database.space ((server ask).execFaulty fails (spaceDelete ids) (db, n)).2.1 m =
          some sp.deactivated := by
  induction ids generalizing db n with
  | nil => exact ⟨fun _ => rfl, fun _ => .inl rfl⟩
  | cons m' ids ih =>
      rcases spaceDelete_cons_spec ask fails db n m' ids with
        ⟨-, heq⟩ | ⟨sp, -, -, -, n', heq⟩ | ⟨sp, -, -, -, -, heq⟩ | ⟨sp, -, hsp, -, -, heq⟩
      · rw [heq]
        exact ⟨fun _ => rfl, fun _ => .inl rfl⟩
      · rw [heq]
        obtain ⟨hzone, hspace⟩ := ih db n'
        refine ⟨hzone, fun m => ?_⟩
        rcases hspace m with hsame | ⟨sp', hsp', hm, hoff⟩
        · exact .inl hsame
        · exact .inr ⟨sp', hsp', List.mem_cons_of_mem m' hm, hoff⟩
      · rw [heq]
        exact ⟨fun z => db.zone_charge _ z _, fun m => .inl (db.space_charge _ m _)⟩
      · rw [heq]
        obtain ⟨hzone, hspace⟩ := ih ((db.charge sp.storageSrcID (-sp.spaceSize)).putSpace m'
          sp.deactivated) (n + 4)
        refine ⟨fun z => ?_, fun m => ?_⟩
        · rw [Space.deactivated] at hzone
          rw [hzone, Database.zone_putSpace, Database.zone_charge]
        · by_cases hm : m = m'
          · subst hm
            refine .inr ⟨sp, hsp, List.mem_cons_self, ?_⟩
            rcases hspace m with hsame | ⟨sp', hsp', -, hoff⟩
            · rw [Space.deactivated] at hsame ⊢
              rw [hsame, Database.space_putSpace_self]
            · rw [Database.space_putSpace_self] at hsp'
              cases hsp'
              exact hoff
          · rcases hspace m with hsame | ⟨sp', hsp', hids, hoff⟩
            · rw [space_released hm] at hsame
              exact .inl hsame
            · rw [space_released hm] at hsp'
              exact .inr ⟨sp', hsp', List.mem_cons_of_mem m' hids, hoff⟩

/-- `SpaceCreate` charges no storage cluster, or charges one and makes no space, or makes a
space. -/
theorem spaceCreate_cases (ask : QueryService) (fails : Nat → Bool) (db : Database) (n : Nat)
    (spaceName : Bytes) (spaceSize : Int64) (info : Space) (uuid : String) :
    ((∀ storage, ¬ CreateCharges ask fails n db spaceSize info storage) ∧ ∃ e n',
      (server ask).execFaulty fails (spaceCreate spaceName spaceSize info uuid) (db, n) =
        (.error e, db, n')) ∨
    (∃ storage, CreateCharges ask fails n db spaceSize info storage ∧
      ¬ Creates ask fails n db spaceName spaceSize info storage ∧ ∃ e n',
      (server ask).execFaulty fails (spaceCreate spaceName spaceSize info uuid) (db, n) =
        (.error e, db.charge storage.key spaceSize, n')) ∨
    (∃ storage, Creates ask fails n db spaceName spaceSize info storage ∧
      (server ask).execFaulty fails (spaceCreate spaceName spaceSize info uuid) (db, n) =
        (.ok uuid, db.create spaceName spaceSize storage uuid, n + 5)) := by
  rcases spaceCreate_spec ask fails db n spaceName spaceSize info uuid with
    hno | ⟨storage, hcharges, hfails, hexec⟩ | ⟨storage, hcharges, hmade, hexec⟩
  · exact .inl hno
  · exact .inr (.inl ⟨storage, hcharges, fun hcreates => hcreates.2 hfails, hexec⟩)
  · exact .inr (.inr ⟨storage, ⟨hcharges, hmade⟩, hexec⟩)

/-! ### Zones come and go -/

/-- `ZoneRegister` charges no storage cluster; or it charges one and makes no space; or it makes a
space and no zone; or it makes both. -/
theorem zoneRegister_spec (ask : QueryService) (fails : Nat → Bool) (db : Database)
    (zoneName : Bytes) (ownerID : String) (memberID : List String) (spaceName : Bytes)
    (spaceSize : Int64) (info : Space) (zoneUuid spaceUuid : String) :
    (((zoneRows ask fails 0 db (zoneQuery ownerID zoneName)).getD [] ≠ [] ∨
        ∀ storage, ¬ CreateCharges ask fails 1 db spaceSize info storage) ∧ ∃ r n',
      (server ask).execFaulty fails (zoneRegister zoneName ownerID memberID spaceName spaceSize info
        zoneUuid spaceUuid) (db, 0) = (r, db, n')) ∨
    ((zoneRows ask fails 0 db (zoneQuery ownerID zoneName)).getD [] = [] ∧
      ∃ storage, CreateCharges ask fails 1 db spaceSize info storage ∧
        ¬ Creates ask fails 1 db spaceName spaceSize info storage ∧ ∃ r n',
      (server ask).execFaulty fails (zoneRegister zoneName ownerID memberID spaceName spaceSize info
        zoneUuid spaceUuid) (db, 0) = (r, db.charge storage.key spaceSize, n')) ∨
    ((zoneRows ask fails 0 db (zoneQuery ownerID zoneName)).getD [] = [] ∧
      ∃ storage, Creates ask fails 1 db spaceName spaceSize info storage ∧
        (zoneName = [] ∨ fails 6 = true) ∧ ∃ r n',
      (server ask).execFaulty fails (zoneRegister zoneName ownerID memberID spaceName spaceSize info
        zoneUuid spaceUuid) (db, 0) =
        (r, db.create spaceName spaceSize storage spaceUuid, n')) ∨
    ((zoneRows ask fails 0 db (zoneQuery ownerID zoneName)).getD [] = [] ∧
      ∃ storage, Creates ask fails 1 db spaceName spaceSize info storage ∧
        ¬ (zoneName = [] ∨ fails 6 = true) ∧ ∃ n',
      (server ask).execFaulty fails (zoneRegister zoneName ownerID memberID spaceName spaceSize info
        zoneUuid spaceUuid) (db, 0) =
        (0, (db.create spaceName spaceSize storage spaceUuid).putZone zoneUuid
          (some ⟨zoneUuid, zoneName, ownerID, memberID, [spaceUuid]⟩), n')) := by
  unfold zoneRegister
  rw [Server.execFaulty_bind, execFaulty_queryZones]
  dsimp only
  rw [← zoneRows]
  cases hrows : (zoneRows ask fails 0 db (zoneQuery ownerID zoneName)).getD [] with
  | cons row rows => exact .inl ⟨.inl (by simp), EINVAL, 1, by simp⟩
  | nil =>
      simp only [List.length_nil, ne_eq, not_true_eq_false, if_false, false_or, true_and]
      rw [Server.execFaulty_bind]
      rcases spaceCreate_cases ask fails db 1 spaceName spaceSize info spaceUuid with
        ⟨hno, e, n', hcreate⟩ | ⟨storage, hcharges, hnot, e, n', hcreate⟩ |
        ⟨storage, hcreates, hcreate⟩
      · rw [hcreate]
        exact .inl ⟨hno, errorOf e, n', rfl⟩
      · rw [hcreate]
        exact .inr (.inl ⟨storage, hcharges, hnot, errorOf e, n', rfl⟩)
      · rw [hcreate]
        right
        right
        dsimp only
        by_cases hname : zoneName = []
        · rw [if_pos hname]
          exact .inl ⟨storage, hcreates, .inl hname, EINVAL, 6, rfl⟩
        · rw [if_neg hname, Server.execFaulty_bind, execFaulty_setZone]
          cases hset : fails 6 with
          | true => exact .inl ⟨storage, hcreates, .inr rfl, EAGAIN, 7, by simp⟩
          | false =>
              refine .inr ⟨storage, hcreates, ?_, 7, by simp⟩
              rintro (h | h)
              · exact hname h
              · cases h

/-- The zone to which `ZoneAdd` adds a space, by the rows of its query: a new one or the one
found. -/
def addTarget (new : Zone) : Option (List Zone) → Option Zone
  | some [] => some new
  | some [tmp] => some tmp
  | some (_ :: _ :: _) => none
  | none => none

/-- A zone with one more space. -/
def Zone.withSpace (zone : Zone) (id : String) : Zone :=
  { zone with spaceID := zone.spaceID ++ [id] }

/-- The end of `ZoneAdd`, once it has its zone. -/
theorem addSpace_spec (ask : QueryService) (fails : Nat → Bool) (db : Database) (info : Space)
    (zone : Zone) {rest : Program Call Int}
    (hrest : rest = do
      match ← spaceCheck info with
      | none => pure EINVAL
      | some spaceID => if ← setZone zone.zoneID (zone.withSpace spaceID) then pure 0 else pure EAGAIN) :
    ((∀ row, ¬ CheckCharges ask fails 1 db info row) ∧ ∃ r n',
      (server ask).execFaulty fails rest (db, 1) = (r, db, n')) ∨
    (∃ row, CheckCharges ask fails 1 db info row ∧ fails 5 = true ∧ ∃ r n',
      (server ask).execFaulty fails rest (db, 1) =
        (r, db.charge row.storageSrcID row.spaceSize, n')) ∨
    (∃ row, CheckCharges ask fails 1 db info row ∧ fails 5 = false ∧ fails 6 = true ∧ ∃ r n',
      (server ask).execFaulty fails rest (db, 1) = (r, db.reuse row, n')) ∨
    (∃ row, CheckCharges ask fails 1 db info row ∧ fails 5 = false ∧ fails 6 = false ∧ ∃ n',
      (server ask).execFaulty fails rest (db, 1) =
        (0, (db.reuse row).putZone zone.zoneID (some (zone.withSpace row.spaceID)), n')) := by
  rw [hrest, Server.execFaulty_bind]
  rcases spaceCheck_spec ask fails db 1 info with
    ⟨hno, n', hcheck⟩ | ⟨row, hcharges, hset, n', hcheck⟩ | ⟨row, hcharges, hset, hcheck⟩
  · rw [hcheck]
    exact .inl ⟨hno, EINVAL, n', rfl⟩
  · rw [hcheck]
    exact .inr (.inl ⟨row, hcharges, hset, EINVAL, n', rfl⟩)
  · rw [hcheck]
    right
    right
    dsimp only
    rw [Server.execFaulty_bind, execFaulty_setZone]
    cases hzone : fails 6 with
    | true => exact .inl ⟨row, hcharges, hset, rfl, EAGAIN, 7, by simp [Database.reuse]⟩
    | false => exact .inr ⟨row, hcharges, hset, rfl, 7, by simp [Database.reuse]⟩

/-- `ZoneAdd` charges no storage cluster; or it charges one and takes no space into use; or it takes
a space into use and does not write the zone; or it does both. -/
theorem zoneAdd_spec (ask : QueryService) (fails : Nat → Bool) (db : Database) (zoneName : Bytes)
    (ownerID : String) (memberID : List String) (info : Space) (zoneUuid : String) :
    ((∀ zone row, addTarget ⟨zoneUuid, zoneName, ownerID, memberID, []⟩
        (zoneRows ask fails 0 db (zoneQuery ownerID zoneName)) = some zone →
          ¬ CheckCharges ask fails 1 db info row) ∧ ∃ r n',
      (server ask).execFaulty fails (zoneAdd zoneName ownerID memberID info zoneUuid) (db, 0) =
        (r, db, n')) ∨
    (∃ zone row, addTarget ⟨zoneUuid, zoneName, ownerID, memberID, []⟩
        (zoneRows ask fails 0 db (zoneQuery ownerID zoneName)) = some zone ∧
      CheckCharges ask fails 1 db info row ∧ fails 5 = true ∧ ∃ r n',
      (server ask).execFaulty fails (zoneAdd zoneName ownerID memberID info zoneUuid) (db, 0) =
        (r, db.charge row.storageSrcID row.spaceSize, n')) ∨
    (∃ zone row, addTarget ⟨zoneUuid, zoneName, ownerID, memberID, []⟩
        (zoneRows ask fails 0 db (zoneQuery ownerID zoneName)) = some zone ∧
      CheckCharges ask fails 1 db info row ∧ fails 5 = false ∧ fails 6 = true ∧ ∃ r n',
      (server ask).execFaulty fails (zoneAdd zoneName ownerID memberID info zoneUuid) (db, 0) =
        (r, db.reuse row, n')) ∨
    (∃ zone row, addTarget ⟨zoneUuid, zoneName, ownerID, memberID, []⟩
        (zoneRows ask fails 0 db (zoneQuery ownerID zoneName)) = some zone ∧
      CheckCharges ask fails 1 db info row ∧ fails 5 = false ∧ fails 6 = false ∧ ∃ n',
      (server ask).execFaulty fails (zoneAdd zoneName ownerID memberID info zoneUuid) (db, 0) =
        (0, (db.reuse row).putZone zone.zoneID (some (zone.withSpace row.spaceID)), n')) := by
  unfold zoneAdd
  rw [Server.execFaulty_bind, execFaulty_queryZones]
  dsimp only
  rw [← zoneRows]
  cases zoneRows ask fails 0 db (zoneQuery ownerID zoneName) with
  | none => exact .inl ⟨fun zone row h => (by cases h), EAGAIN, 1, rfl⟩
  | some rows =>
      match rows with
      | _ :: _ :: _ => exact .inl ⟨fun zone row h => (by cases h), EINVAL, 1, rfl⟩
      | [] =>
          rcases addSpace_spec ask fails db info ⟨zoneUuid, zoneName, ownerID, memberID, []⟩ rfl with
            ⟨hno, hexec⟩ | ⟨row, hcharges, hset, hexec⟩ | ⟨row, hcharges, hset, hzone, hexec⟩ |
            ⟨row, hcharges, hset, hzone, hexec⟩
          · exact .inl ⟨fun _ row _ => hno row, hexec⟩
          · exact .inr (.inl ⟨_, row, rfl, hcharges, hset, hexec⟩)
          · exact .inr (.inr (.inl ⟨_, row, rfl, hcharges, hset, hzone, hexec⟩))
          · exact .inr (.inr (.inr ⟨_, row, rfl, hcharges, hset, hzone, hexec⟩))
      | [tmp] =>
          rcases addSpace_spec ask fails db info tmp rfl with
            ⟨hno, hexec⟩ | ⟨row, hcharges, hset, hexec⟩ | ⟨row, hcharges, hset, hzone, hexec⟩ |
            ⟨row, hcharges, hset, hzone, hexec⟩
          · exact .inl ⟨fun _ row _ => hno row, hexec⟩
          · exact .inr (.inl ⟨_, row, rfl, hcharges, hset, hexec⟩)
          · exact .inr (.inr (.inl ⟨_, row, rfl, hcharges, hset, hzone, hexec⟩))
          · exact .inr (.inr (.inr ⟨_, row, rfl, hcharges, hset, hzone, hexec⟩))

/-- `ZoneCancel` comes to its `SpaceDelete`. -/
def Cancels (fails : Nat → Bool) (db : Database) (zoneID ownerID : String) (admin : Bool)
    (tmp : Zone) : Prop :=
  fails 0 = false ∧ db.zone zoneID = some tmp ∧ (tmp.ownerID = ownerID ∨ admin = true)

/-- `ZoneCancel` does nothing; or it deletes the spaces and leaves the zone; or it deletes both. -/
theorem zoneCancel_spec (ask : QueryService) (fails : Nat → Bool) (db : Database)
    (zoneID ownerID : String) (admin : Bool) :
    ((∀ tmp, ¬ Cancels fails db zoneID ownerID admin tmp) ∧ ∃ r n',
      (server ask).execFaulty fails (zoneCancel zoneID ownerID admin) (db, 0) = (r, db, n')) ∨
    (∃ tmp r, ∃ db' : Database, ∃ n', Cancels fails db zoneID ownerID admin tmp ∧
      (server ask).execFaulty fails (spaceDelete tmp.spaceID) (db, 1) = (r, db', n') ∧
      (r ≠ 0 ∨ fails n' = true) ∧ ∃ r' n'',
      (server ask).execFaulty fails (zoneCancel zoneID ownerID admin) (db, 0) = (r', db', n'')) ∨
    (∃ tmp, ∃ db' : Database, ∃ n', Cancels fails db zoneID ownerID admin tmp ∧
      (server ask).execFaulty fails (spaceDelete tmp.spaceID) (db, 1) = (0, db', n') ∧
      fails n' = false ∧
      (server ask).execFaulty fails (zoneCancel zoneID ownerID admin) (db, 0) =
        (0, db'.putZone zoneID none, n' + 1)) := by
  unfold zoneCancel Cancels
  rw [Server.execFaulty_bind, execFaulty_getZone]
  cases hget : fails 0 with
  | true => exact .inl ⟨fun tmp h => (by cases h.1), EAGAIN, 1, rfl⟩
  | false =>
      simp only [Bool.false_eq_true, if_false]
      cases hzone : db.zone zoneID with
      | none => exact .inl ⟨fun tmp h => (by cases h.2.1), EAGAIN, 1, rfl⟩
      | some tmp =>
          dsimp only
          by_cases howner : tmp.ownerID = ownerID ∨ admin = true
          · right
            rw [if_pos howner, Server.execFaulty_bind]
            rcases hdelete : (server ask).execFaulty fails (spaceDelete tmp.spaceID) (db, 1) with
              ⟨r, db', n'⟩
            dsimp only
            by_cases hr : r = 0
            · subst hr
              rw [if_pos rfl, Server.execFaulty_bind, execFaulty_removeZone]
              cases hremove : fails n' with
              | true =>
                  exact .inl ⟨tmp, 0, db', n', ⟨trivial, rfl, howner⟩, hdelete, .inr hremove, EAGAIN,
                    n' + 1, by simp⟩
              | false =>
                  exact .inr ⟨tmp, db', n', ⟨trivial, rfl, howner⟩, hdelete, hremove, by simp⟩
            · rw [if_neg hr]
              exact .inl ⟨tmp, r, db', n', ⟨trivial, rfl, howner⟩, hdelete, .inl hr, EAGAIN, n', rfl⟩
          · rw [if_neg howner]
            refine .inl ⟨?_, EACCES, 1, rfl⟩
            rintro tmp' ⟨-, heq, h⟩
            cases heq
            exact howner h

/-! ### The spaces of a zone change -/

/-- `MapAdd` comes to its `SpaceCreate`. -/
def MapAdds (fails : Nat → Bool) (db : Database) (zoneID ownerID : String) (spaceName : Bytes)
    (tmp : Zone) : Prop :=
  fails 0 = false ∧ db.zone zoneID = some tmp ∧
    (∀ m ∈ (positions fails db 1 tmp.spaceID).1, m.spaceName ≠ spaceName) ∧ tmp.ownerID = ownerID

/-- `MapAdd` charges no storage cluster; or it charges one and makes no space; or it makes a space
and does not write the zone; or it does both. -/
theorem mapAdd_spec (ask : QueryService) (fails : Nat → Bool) (db : Database)
    (zoneID ownerID : String) (spaceName : Bytes) (spaceSize : Int64) (info : Space)
    (spaceUuid : String) :
    ((∀ tmp storage, MapAdds fails db zoneID ownerID spaceName tmp →
        ¬ CreateCharges ask fails (positions fails db 1 tmp.spaceID).2 db spaceSize info storage) ∧
      ∃ r n', (server ask).execFaulty fails (mapAdd zoneID ownerID spaceName spaceSize info
        spaceUuid) (db, 0) = (r, db, n')) ∨
    (∃ tmp storage, MapAdds fails db zoneID ownerID spaceName tmp ∧
      CreateCharges ask fails (positions fails db 1 tmp.spaceID).2 db spaceSize info storage ∧
      ¬ Creates ask fails (positions fails db 1 tmp.spaceID).2 db spaceName spaceSize info storage ∧
      ∃ r n', (server ask).execFaulty fails (mapAdd zoneID ownerID spaceName spaceSize info
        spaceUuid) (db, 0) = (r, db.charge storage.key spaceSize, n')) ∨
    (∃ tmp storage, MapAdds fails db zoneID ownerID spaceName tmp ∧
      Creates ask fails (positions fails db 1 tmp.spaceID).2 db spaceName spaceSize info storage ∧
      fails ((positions fails db 1 tmp.spaceID).2 + 5) = true ∧
      ∃ r n', (server ask).execFaulty fails (mapAdd zoneID ownerID spaceName spaceSize info
        spaceUuid) (db, 0) = (r, db.create spaceName spaceSize storage spaceUuid, n')) ∨
    (∃ tmp storage, MapAdds fails db zoneID ownerID spaceName tmp ∧
      Creates ask fails (positions fails db 1 tmp.spaceID).2 db spaceName spaceSize info storage ∧
      fails ((positions fails db 1 tmp.spaceID).2 + 5) = false ∧
      ∃ n', (server ask).execFaulty fails (mapAdd zoneID ownerID spaceName spaceSize info
        spaceUuid) (db, 0) = (some 0, (db.create spaceName spaceSize storage spaceUuid).putZone zoneID
          (some (tmp.withSpace spaceUuid)), n')) := by
  unfold mapAdd MapAdds
  rw [Server.execFaulty_bind, execFaulty_getZone]
  cases hget : fails 0 with
  | true => exact .inl ⟨fun tmp storage h => (by cases h.1), some EAGAIN, 1, rfl⟩
  | false =>
      simp only [Bool.false_eq_true, if_false]
      cases hzone : db.zone zoneID with
      | none => exact .inl ⟨fun tmp storage h => (by cases h.2.1), some EAGAIN, 1, rfl⟩
      | some tmp =>
          dsimp only
          rw [Server.execFaulty_bind, getSpacePosition_spec]
          dsimp only
          by_cases hnames : ∀ m ∈ (positions fails db 1 tmp.spaceID).1, m.spaceName ≠ spaceName
          · rw [if_neg (by simpa using hnames)]
            by_cases howner : tmp.ownerID = ownerID
            · rw [if_pos howner, Server.execFaulty_bind]
              rcases spaceCreate_cases ask fails db (positions fails db 1 tmp.spaceID).2 spaceName
                spaceSize info spaceUuid with ⟨hno, e, n', hcreate⟩ |
                ⟨storage, hcharges, hnot, e, n', hcreate⟩ | ⟨storage, hcreates, hcreate⟩
              · rw [hcreate]
                refine .inl ⟨?_, some (errorOf e), n', rfl⟩
                rintro tmp' storage ⟨-, heq, -⟩
                cases heq
                exact hno storage
              · rw [hcreate]
                exact .inr (.inl ⟨tmp, storage, ⟨trivial, rfl, hnames, howner⟩, hcharges, hnot,
                  some (errorOf e), n', rfl⟩)
              · rw [hcreate]
                right
                right
                dsimp only
                rw [Server.execFaulty_bind, execFaulty_setZone]
                cases hset : fails ((positions fails db 1 tmp.spaceID).2 + 5) with
                | true =>
                    exact .inl ⟨tmp, storage, ⟨trivial, rfl, hnames, howner⟩, hcreates, hset,
                      some EAGAIN, _, rfl⟩
                | false =>
                    exact .inr ⟨tmp, storage, ⟨trivial, rfl, hnames, howner⟩, hcreates, hset, _, rfl⟩
            · rw [if_neg howner]
              refine .inl ⟨?_, none, _, rfl⟩
              rintro tmp' storage ⟨-, heq, -, h⟩
              cases heq
              exact absurd h howner
          · rw [if_pos (by simpa using hnames)]
            refine .inl ⟨?_, some EINVAL, _, rfl⟩
            rintro tmp' storage ⟨-, heq, h, -⟩
            cases heq
            exact absurd h hnames

/-- `MapDeduct` comes to its `SpaceDelete`. -/
def MapDeducts (fails : Nat → Bool) (db : Database) (zoneID ownerID : String) (ids : List String)
    (tmp : Zone) : Prop :=
  fails 0 = false ∧ db.zone zoneID = some tmp ∧ tmp.ownerID = ownerID ∧
    isSubset tmp.spaceID ids = true

/-- `MapDeduct` does nothing; or it deletes the spaces and does not write the zone; or it does
both. -/
theorem mapDeduct_spec (ask : QueryService) (fails : Nat → Bool) (db : Database)
    (zoneID ownerID : String) (ids : List String) :
    ((∀ tmp, ¬ MapDeducts fails db zoneID ownerID ids tmp) ∧ ∃ r n',
      (server ask).execFaulty fails (mapDeduct zoneID ownerID ids) (db, 0) = (r, db, n')) ∨
    (∃ tmp r, ∃ db' : Database, ∃ n', MapDeducts fails db zoneID ownerID ids tmp ∧
      (server ask).execFaulty fails (spaceDelete ids) (db, 1) = (r, db', n') ∧ fails n' = true ∧
      ∃ r' n'', (server ask).execFaulty fails (mapDeduct zoneID ownerID ids) (db, 0) =
        (r', db', n'')) ∨
    (∃ tmp r, ∃ db' : Database, ∃ n', MapDeducts fails db zoneID ownerID ids tmp ∧
      (server ask).execFaulty fails (spaceDelete ids) (db, 1) = (r, db', n') ∧ fails n' = false ∧
      (server ask).execFaulty fails (mapDeduct zoneID ownerID ids) (db, 0) =
        (0, db'.putZone zoneID (some { tmp with spaceID := tmp.spaceID.filter fun m => m ∉ ids }),
          n' + 1)) := by
  unfold mapDeduct MapDeducts
  rw [Server.execFaulty_bind, execFaulty_getZone]
  cases hget : fails 0 with
  | true => exact .inl ⟨fun tmp h => (by cases h.1), EAGAIN, 1, rfl⟩
  | false =>
      simp only [Bool.false_eq_true, if_false]
      cases hzone : db.zone zoneID with
      | none => exact .inl ⟨fun tmp h => (by cases h.2.1), EAGAIN, 1, rfl⟩
      | some tmp =>
          dsimp only
          by_cases howner : tmp.ownerID = ownerID
          · rw [if_pos howner]
            by_cases hsub : isSubset tmp.spaceID ids = true
            · right
              rw [if_pos hsub, Server.execFaulty_bind]
              rcases hdelete : (server ask).execFaulty fails (spaceDelete ids) (db, 1) with
                ⟨r, db', n'⟩
              dsimp only
              rw [Server.execFaulty_bind, execFaulty_setZone]
              cases hset : fails n' with
              | true =>
                  exact .inl ⟨tmp, r, db', n', ⟨trivial, rfl, howner, hsub⟩, rfl, hset, EAGAIN,
                    n' + 1, by simp⟩
              | false =>
                  exact .inr ⟨tmp, r, db', n', ⟨trivial, rfl, howner, hsub⟩, rfl, hset, by simp⟩
            · rw [if_neg hsub]
              refine .inl ⟨?_, EINVAL, 1, rfl⟩
              rintro tmp' ⟨-, heq, -, h⟩
              cases heq
              exact hsub h
          · rw [if_neg howner]
            refine .inl ⟨?_, EACCES, 1, rfl⟩
            rintro tmp' ⟨-, heq, h, -⟩
            cases heq
            exact howner h

/-! ### A zone gets another name -/

/-- `ZoneRename` writes the zone. -/
def Renames (ask : QueryService) (fails : Nat → Bool) (db : Database) (zoneID ownerID : String)
    (newZoneName : Bytes) (admin : Bool) (tmp : Zone) : Prop :=
  fails 0 = false ∧ db.zone zoneID = some tmp ∧ (tmp.ownerID = ownerID ∨ admin = true) ∧
    (zoneRows ask fails 1 db (zoneQuery ownerID (cutName newZoneName))).getD [] = [] ∧
    fails 2 = false

/-- `ZoneRename` does nothing, or changes the name of the zone. -/
theorem zoneRename_spec (ask : QueryService) (fails : Nat → Bool) (db : Database)
    (zoneID ownerID : String) (newZoneName : Bytes) (admin : Bool) :
    ((∀ tmp, ¬ Renames ask fails db zoneID ownerID newZoneName admin tmp) ∧ ∃ r n',
      (server ask).execFaulty fails (zoneRename zoneID ownerID newZoneName admin) (db, 0) =
        (r, db, n')) ∨
    (∃ tmp, Renames ask fails db zoneID ownerID newZoneName admin tmp ∧
      (server ask).execFaulty fails (zoneRename zoneID ownerID newZoneName admin) (db, 0) =
        (0, db.putZone zoneID (some { tmp with zoneName := cutName newZoneName }), 3)) := by
  unfold zoneRename Renames
  rw [Server.execFaulty_bind, execFaulty_getZone]
  cases hget : fails 0 with
  | true => exact .inl ⟨fun tmp h => (by cases h.1), EAGAIN, 1, rfl⟩
  | false =>
      simp only [Bool.false_eq_true, if_false]
      cases hzone : db.zone zoneID with
      | none => exact .inl ⟨fun tmp h => (by cases h.2.1), EAGAIN, 1, rfl⟩
      | some tmp =>
          dsimp only
          by_cases howner : tmp.ownerID = ownerID ∨ admin = true
          · rw [if_pos howner, Server.execFaulty_bind, execFaulty_queryZones]
            dsimp only
            rw [← zoneRows]
            cases hrows : (zoneRows ask fails 1 db
              (zoneQuery ownerID (cutName newZoneName))).getD [] with
            | cons row rows =>
                exact .inl ⟨fun tmp' h => (by cases h.2.2.2.1), EINVAL, 2, by simp⟩
            | nil =>
                simp only [List.length_nil, ne_eq, not_true_eq_false, if_false]
                rw [Server.execFaulty_bind, execFaulty_setZone]
                cases hset : fails 2 with
                | true => exact .inl ⟨fun tmp' h => (by cases h.2.2.2.2), EAGAIN, 3, by simp⟩
                | false =>
                    exact .inr ⟨tmp, ⟨trivial, rfl, howner, trivial, rfl⟩, by simp⟩
          · rw [if_neg howner]
            refine .inl ⟨?_, EACCES, 1, rfl⟩
            rintro tmp' ⟨-, heq, h, -⟩
            cases heq
            exact howner h

end Gvds.Manager
