/-
Module: Gvds.Proofs.CapacityAccounting
Layer: Proofs
Purpose: The capacity assigned of every storage cluster against the sizes of the spaces in use on
  it, over all runs of requests with every call succeeding. They agree, unless SpaceCreate charges a
  cluster for a space without a name, which it then refuses, or SpaceSizeChange charges one for a
  space out of use, or a capacity overflows.
Imports: Gvds.Lib.Ledger, Gvds.Proofs.ZoneLinks
Trusted boundary: as Gvds.Manager.ZoneServer
Main exports: Accounted, Accounts, accounted_step, capacity_is_accounted
-/
import Gvds.Lib.Ledger
import Gvds.Proofs.ZoneLinks

namespace Gvds.Manager

/-- The capacity assigned of a storage cluster. -/
def assigned (db : Database) (key : String) : Option Int :=
  (db.storage key).map fun st => st.assign_capacity.toInt

/-- What a space counts on a storage cluster: its size, if it is there and in use. -/
def Space.amount (sp : Space) (key : String) : Int :=
  if sp.status = true ∧ sp.storageSrcID = key then sp.spaceSize.toInt else 0

/-- What the space with an ID counts on a storage cluster. -/
def amountOn (db : Database) (id key : String) : Int :=
  ((db.space id).map fun sp => sp.amount key).getD 0

/-- The capacity assigned of every storage cluster is the sum of the sizes of the spaces in use on
it. -/
def Accounted (db : Database) : Prop := InBalance (assigned db) (amountOn db)

/-- A change of the assigned capacity does not overflow. -/
def Exact (db : Database) (key : String) (d : Int64) (δ : Int) : Prop :=
  ∀ st, db.storage key = some st → (st.assign_capacity + d).toInt = st.assign_capacity.toInt + δ

/-! ### Accounts after a change -/

section Change

variable {db db' : Database}

/-- Only capacities and what spaces count matter. -/
theorem Accounted.congr (h : Accounted db) (hassigned : ∀ key, assigned db' key = assigned db key)
    (hamount : ∀ id key, amountOn db' id key = amountOn db id key) : Accounted db' := by
  have heq : assigned db' = assigned db := funext hassigned
  have heq' : amountOn db' = amountOn db := funext fun id => funext (hamount id)
  unfold Accounted
  rw [heq, heq']
  exact h

theorem amountOn_of_none {id : String} (h : (db.space id).isNone) (key : String) :
    amountOn db id key = 0 := by
  unfold amountOn
  rw [Option.isNone_iff_eq_none.mp h]
  rfl

theorem amountOn_of_some {id : String} {sp : Space} (h : db.space id = some sp) (key : String) :
    amountOn db id key = sp.amount key := by
  unfold amountOn
  rw [h]
  rfl

/-- The document of a zone is put or removed. -/
theorem Accounted.putZone (h : Accounted db) (id : String) (zone : Option Zone) :
    Accounted (db.putZone id zone) := by
  refine h.congr (fun key => ?_) fun s key => ?_
  · unfold assigned
    rw [Database.storage_putZone]
  · unfold amountOn
    rw [Database.space_putZone]

/-- A storage cluster is charged with 0. -/
theorem Accounted.charge_zero (h : Accounted db) (key : String) : Accounted (db.charge key 0) := by
  refine h.congr (fun key' => ?_) fun s key' => ?_
  · unfold assigned
    rw [Database.storage_charge]
    split
    · rename_i hkey
      rw [hkey, Option.map_map]
      congr 1
      funext st
      simp
    · rfl
  · unfold amountOn
    rw [Database.space_charge]

/-- A space is written back with another name. -/
theorem Accounted.putSpace (h : Accounted db) {id : String} {sp sp' : Space}
    (hsp : db.space id = some sp) (hsame : ∀ key, sp'.amount key = sp.amount key) :
    Accounted (db.putSpace id sp') := by
  refine h.congr (fun key => ?_) fun s key => ?_
  · unfold assigned
    rw [Database.storage_putSpace]
  · by_cases hs : s = id
    · subst hs
      rw [amountOn_of_some (Database.space_putSpace_self db s sp'), amountOn_of_some hsp, hsame]
    · unfold amountOn
      rw [Database.space_putSpace_of_ne _ _ _ _ hs]

/-- A storage cluster is charged with what a space counts more than before. -/
theorem Accounted.post (h : Accounted db) {id key : String} {d : Int64} {δ : Int} {sp' : Space}
    (hexact : Exact db key d δ)
    (hamount : ∀ k, sp'.amount k - amountOn db id k = if k = key then δ else 0) :
    Accounted ((db.charge key d).putSpace id sp') := by
  refine InBalance.post h id (fun s hs => ?_) fun k b' hb' => ?_
  · funext k
    unfold amountOn
    rw [Database.space_putSpace_of_ne _ _ _ _ hs, Database.space_charge]
  · rw [amountOn_of_some (Database.space_putSpace_self _ id sp'), hamount]
    unfold assigned at hb' ⊢
    rw [Database.storage_putSpace, Database.storage_charge] at hb'
    split at hb'
    · rename_i hk
      rw [if_pos hk, hk]
      rw [Option.map_map] at hb'
      obtain ⟨st, hst, rfl⟩ := Option.map_eq_some_iff.mp hb'
      exact ⟨_, Option.map_eq_some_iff.mpr ⟨st, hst, rfl⟩, hexact st hst⟩
    · rename_i hk
      exact ⟨b', hb', by rw [if_neg hk, Int.add_zero]⟩

/-- A new space in use and its charge. -/
theorem Accounted.create (h : Accounted db) {spaceName : Bytes} {spaceSize : Int64}
    {storage : StorageResource} {uuid : String} (hnew : (db.space uuid).isNone)
    (hexact : Exact db storage.key spaceSize spaceSize.toInt) :
    Accounted (db.create spaceName spaceSize storage uuid) := by
  refine Accounted.post h hexact fun k => ?_
  rw [amountOn_of_none hnew, Int.sub_zero]
  unfold Space.amount newSpace
  simp only [true_and, eq_comm]

/-- A space taken into use again and its charge. -/
theorem Accounted.reuse (h : Accounted db) {row : Space} (hunused : ¬ Active db row.spaceID)
    (hexact : Exact db row.storageSrcID row.spaceSize row.spaceSize.toInt) :
    Accounted (db.reuse row) := by
  refine Accounted.post h hexact fun k => ?_
  have hzero : amountOn db row.spaceID k = 0 := by
    unfold amountOn
    cases hsp : db.space row.spaceID with
    | none => rfl
    | some sp =>
        refine if_neg fun hstatus => hunused ⟨sp, hsp, hstatus.1⟩
  rw [hzero, Int.sub_zero]
  unfold Space.amount
  simp only [true_and, eq_comm]

/-- A space goes out of use and its size is released. -/
theorem Accounted.release (h : Accounted db) {id : String} {sp : Space}
    (hsp : db.space id = some sp) (hstatus : sp.status = true)
    (hexact : Exact db sp.storageSrcID (-sp.spaceSize) (-sp.spaceSize.toInt)) :
    Accounted ((db.charge sp.storageSrcID (-sp.spaceSize)).putSpace id sp.deactivated) := by
  refine Accounted.post h hexact fun k => ?_
  rw [amountOn_of_some hsp]
  unfold Space.amount Space.deactivated
  simp only [hstatus, Bool.false_eq_true, false_and, if_false, true_and, eq_comm]
  split <;> omega

/-- A space in use changes its size. -/
theorem Accounted.resize (h : Accounted db) {id : String} {sp : Space} (hsp : db.space id = some sp)
    (hstatus : sp.status = true) {newSize : Int64}
    (hexact : Exact db sp.storageSrcID (newSize - sp.spaceSize)
      (newSize.toInt - sp.spaceSize.toInt)) :
    Accounted ((db.charge sp.storageSrcID (newSize - sp.spaceSize)).putSpace id
      { sp with spaceSize := newSize }) := by
  refine Accounted.post h hexact fun k => ?_
  rw [amountOn_of_some hsp]
  unfold Space.amount
  simp only [hstatus, true_and, eq_comm]
  split <;> omega

end Change

/-! ### One request -/

/-- No size that `SpaceDelete` releases overflows. -/
def ReleasesExact : Database → List String → Prop
  | _, [] => True
  | db, m :: ids => ∀ sp, db.space m = some sp →
      (Deducts Server.noFails 0 db sp.storageSrcID sp.spaceSize →
        Exact db sp.storageSrcID (-sp.spaceSize) (-sp.spaceSize.toInt) ∧
          ReleasesExact ((db.charge sp.storageSrcID (-sp.spaceSize)).putSpace m sp.deactivated) ids) ∧
      (¬ Deducts Server.noFails 0 db sp.storageSrcID sp.spaceSize → ReleasesExact db ids)

/-- `SpaceCreate` charges a storage cluster only for a space that it makes, and without overflow. -/
def CreatesExact (db : Database) (spaceName : Bytes) (spaceSize : Int64)
    (storage : StorageResource) : Prop :=
  (spaceName = [] → spaceSize = 0) ∧ Exact db storage.key spaceSize spaceSize.toInt

/-- The requests that charge a storage cluster only for a space in use, or one that comes into use,
and without overflow. -/
def Accounts (ask : QueryService) (db : Database) : Request → Prop
  | .zoneRegister zoneName ownerID _ spaceName spaceSize info _ _ =>
      (zoneRows ask Server.noFails 0 db (zoneQuery ownerID zoneName)).getD [] = [] →
        ∀ storage, CreateCharges ask Server.noFails 1 db spaceSize info storage →
          CreatesExact db spaceName spaceSize storage
  | .zoneAdd zoneName ownerID memberID info zoneUuid =>
      ∀ zone row, addTarget ⟨zoneUuid, zoneName, ownerID, memberID, []⟩
          (zoneRows ask Server.noFails 0 db (zoneQuery ownerID zoneName)) = some zone →
        CheckCharges ask Server.noFails 1 db info row →
          Exact db row.storageSrcID row.spaceSize row.spaceSize.toInt
  | .zoneCancel zoneID ownerID admin =>
      ∀ tmp, Cancels Server.noFails db zoneID ownerID admin tmp → ReleasesExact db tmp.spaceID
  | .mapAdd zoneID ownerID spaceName spaceSize info _ =>
      ∀ tmp storage, MapAdds Server.noFails db zoneID ownerID spaceName tmp →
        CreateCharges ask Server.noFails (positions Server.noFails db 1 tmp.spaceID).2 db spaceSize
          info storage → CreatesExact db spaceName spaceSize storage
  | .mapDeduct zoneID ownerID ids =>
      ∀ tmp, MapDeducts Server.noFails db zoneID ownerID ids tmp → ReleasesExact db ids
  | .spaceSizeChange spaceID newSize realsize =>
      ∀ sp, Resizes Server.noFails 0 db spaceID newSize realsize sp →
        sp.status = true ∧ Exact db sp.storageSrcID (newSize - sp.spaceSize)
          (newSize.toInt - sp.spaceSize.toInt)
  | .zoneRename _ _ _ _ => True
  | .spaceRename _ _ => True

section Requests

variable {ask : QueryService} {db : Database}

/-- A charge of `SpaceCreate` without a space is one of 0. -/
theorem CreatesExact.size_zero {spaceName : Bytes} {spaceSize : Int64} {info : Space}
    {storage : StorageResource} {n : Nat} (h : CreatesExact db spaceName spaceSize storage)
    (hcharges : CreateCharges ask Server.noFails n db spaceSize info storage)
    (hnot : ¬ Creates ask Server.noFails n db spaceName spaceSize info storage) : spaceSize = 0 := by
  by_contra hsize
  refine hnot ⟨hcharges, ?_⟩
  rintro (hfail | hname | hzero | hfail)
  · cases hfail
  · exact hsize (h.1 hname)
  · exact hsize hzero
  · cases hfail

/-- `SpaceDelete` of distinct spaces in use. -/
theorem Accounted.spaceDelete (ask : QueryService) {ids : List String} (n : Nat)
    (h : Accounted db) (hnodup : ids.Nodup) (huse : ∀ m ∈ ids, Active db m)
    (hexact : ReleasesExact db ids) :
    Accounted ((server ask).execFaulty Server.noFails (Manager.spaceDelete ids) (db, n)).2.1 := by
  induction ids generalizing db n with
  | nil => exact h
  | cons m ids ih =>
      obtain ⟨hm, hnodup'⟩ := List.nodup_cons.mp hnodup
      have huse' : ∀ m' ∈ ids, Active db m' := fun m' hm' => huse m' (List.mem_cons_of_mem m hm')
      rcases spaceDelete_cons_spec ask Server.noFails db n m ids with
        ⟨-, heq⟩ | ⟨sp, -, hsp, hdeducts, n', heq⟩ | ⟨sp, -, -, -, hset, -⟩ |
        ⟨sp, -, hsp, hdeducts, -, heq⟩
      · rw [heq]
        exact h
      · rw [heq]
        exact ih n' h hnodup' huse' ((hexact sp hsp).2 hdeducts)
      · cases hset
      · rw [heq]
        obtain ⟨hrelease, hrest⟩ := (hexact sp hsp).1 hdeducts
        obtain ⟨sp', hsp', hstatus⟩ := huse m List.mem_cons_self
        cases hsp.symm.trans hsp'
        refine ih (n + 4) (h.release hsp hstatus hrelease) hnodup' (fun m' hm' => ?_) hrest
        have hne : m' ≠ m := fun hne => hm (hne ▸ hm')
        obtain ⟨sp', hsp', hstatus'⟩ := huse' m' hm'
        exact ⟨sp', by rwa [space_released hne], hstatus'⟩

/-- `SpaceDelete` of spaces that a zone lists. -/
theorem Accounted.deleteListed (h : Accounted db) (hlisted : Listed (zoneSpaces db) (Active db))
    {zoneID : String} {tmp : Zone} (hzone : db.zone zoneID = some tmp) {ids : List String}
    (hids : ids.Subperm tmp.spaceID) (hexact : ReleasesExact db ids) {n n' : Nat} {r : Int}
    {db' : Database} (hdelete : (server ask).execFaulty Server.noFails (Manager.spaceDelete ids)
      (db, n) = (r, db', n')) : Accounted db' := by
  have hspaces := zoneSpaces_of_some hzone
  have hdone := h.spaceDelete ask n (nodup_of_subperm hids (hspaces ▸ hlisted.nodup zoneID))
    (fun m hm => hlisted.used zoneID m (hspaces.symm ▸ hids.subset hm)) hexact
  rw [hdelete] at hdone
  exact hdone

/-- Every request that meets the condition keeps the accounts. -/
theorem accounted_execFaulty (hkeyed : WellKeyed db)
    (hlisted : Listed (zoneSpaces db) (Active db)) (haccounted : Accounted db) {r : Request}
    (hfresh : r.Fresh db) (hok : Accounts ask db r) :
    Accounted (r.execFaulty ask Server.noFails db) := by
  unfold Request.execFaulty
  cases r with
  | zoneRegister zoneName ownerID memberID spaceName spaceSize info zoneUuid spaceUuid =>
      rw [Request.program, Server.execFaulty_map]
      rcases zoneRegister_spec ask Server.noFails db zoneName ownerID memberID spaceName spaceSize
        info zoneUuid spaceUuid with ⟨-, r, n', hexec⟩ |
        ⟨hrows, storage, hcharges, hnot, r, n', hexec⟩ | ⟨hrows, storage, hcreates, -, r, n', hexec⟩ |
        ⟨hrows, storage, hcreates, -, n', hexec⟩
      · rw [hexec]
        exact haccounted
      · rw [hexec, (hok hrows storage hcharges).size_zero hcharges hnot]
        exact haccounted.charge_zero storage.key
      · rw [hexec]
        exact haccounted.create hfresh.2 (hok hrows storage hcreates.1).2
      · rw [hexec]
        exact (haccounted.create hfresh.2 (hok hrows storage hcreates.1).2).putZone _ _
  | zoneAdd zoneName ownerID memberID info zoneUuid =>
      rw [Request.program, Server.execFaulty_map]
      rcases zoneAdd_spec ask Server.noFails db zoneName ownerID memberID info zoneUuid with
        ⟨-, r, n', hexec⟩ | ⟨zone, row, -, -, hset, -⟩ | ⟨zone, row, -, -, -, hset, -⟩ |
        ⟨zone, row, htarget, hcharges, -, -, n', hexec⟩
      · rw [hexec]
        exact haccounted
      · cases hset
      · cases hset
      · rw [hexec]
        have hexact := hok zone row htarget hcharges
        exact (haccounted.reuse (hcharges.not_active hkeyed.spaces) hexact).putZone _ _
  | zoneCancel zoneID ownerID admin =>
      rw [Request.program, Server.execFaulty_map]
      rcases zoneCancel_spec ask Server.noFails db zoneID ownerID admin with
        ⟨-, r, n', hexec⟩ | ⟨tmp, r, db', n', hcancels, hdelete, -, r', n'', hexec⟩ |
        ⟨tmp, db', n', hcancels, hdelete, -, hexec⟩
      · rw [hexec]
        exact haccounted
      · rw [hexec]
        exact haccounted.deleteListed hlisted hcancels.2.1 (List.Subperm.refl _) (hok tmp hcancels)
          hdelete
      · rw [hexec]
        have hdone := haccounted.deleteListed hlisted hcancels.2.1 (List.Subperm.refl _)
          (hok tmp hcancels) hdelete
        exact hdone.putZone _ _
  | mapAdd zoneID ownerID spaceName spaceSize info spaceUuid =>
      rw [Request.program]
      rcases mapAdd_spec ask Server.noFails db zoneID ownerID spaceName spaceSize info spaceUuid with
        ⟨-, r, n', hexec⟩ | ⟨tmp, storage, hadds, hcharges, hnot, r, n', hexec⟩ |
        ⟨tmp, storage, hadds, hcreates, hset, -⟩ | ⟨tmp, storage, hadds, hcreates, -, n', hexec⟩
      · rw [hexec]
        exact haccounted
      · rw [hexec, (hok tmp storage hadds hcharges).size_zero hcharges hnot]
        exact haccounted.charge_zero storage.key
      · cases hset
      · rw [hexec]
        exact (haccounted.create hfresh (hok tmp storage hadds hcreates.1).2).putZone _ _
  | mapDeduct zoneID ownerID ids =>
      rw [Request.program, Server.execFaulty_map]
      rcases mapDeduct_spec ask Server.noFails db zoneID ownerID ids with
        ⟨-, r, n', hexec⟩ | ⟨tmp, r, db', n', -, -, hset, -⟩ |
        ⟨tmp, r, db', n', hdeducts, hdelete, -, hexec⟩
      · rw [hexec]
        exact haccounted
      · cases hset
      · rw [hexec]
        have hids := subperm_of_isSubset hdeducts.2.2.2
        have hdone := haccounted.deleteListed hlisted hdeducts.2.1 hids (hok tmp hdeducts) hdelete
        exact hdone.putZone _ _
  | zoneRename zoneID ownerID newZoneName admin =>
      rw [Request.program, Server.execFaulty_map]
      rcases zoneRename_spec ask Server.noFails db zoneID ownerID newZoneName admin with
        ⟨-, r, n', hexec⟩ | ⟨tmp, -, hexec⟩
      · rw [hexec]
        exact haccounted
      · rw [hexec]
        exact haccounted.putZone _ _
  | spaceRename spaceID newSpaceName =>
      rw [Request.program, Server.execFaulty_map]
      rcases spaceRename_spec ask Server.noFails db 0 spaceID newSpaceName with
        ⟨r, n', hexec, -⟩ | ⟨sp, hsp, -, hexec⟩
      · rw [hexec]
        exact haccounted
      · rw [hexec]
        exact haccounted.putSpace hsp fun _ => rfl
  | spaceSizeChange spaceID newSize realsize =>
      rw [Request.program, Server.execFaulty_map]
      rcases spaceSizeChange_spec ask Server.noFails db 0 spaceID newSize realsize with
        ⟨-, r, n', hexec, -⟩ | ⟨sp, -, hset, -⟩ | ⟨sp, hresizes, -, hexec⟩
      · rw [hexec]
        exact haccounted
      · cases hset
      · rw [hexec]
        obtain ⟨hstatus, hexact⟩ := hok sp hresizes
        exact haccounted.resize hresizes.2.2.1 hstatus hexact

end Requests

/-! ### Runs -/

/-- The manager begins with storage clusters that have nothing assigned, without spaces, and with
zones that list none. -/
structure Blank (db : Database) : Prop where
  assigned : ∀ key st, db.storage key = some st → st.assign_capacity = 0
  spaces : ∀ id, (db.space id).isNone
  zones : ∀ id zone, db.zone id = some zone → zone.zoneID = id ∧ zone.spaceID = []

theorem Blank.wellKeyed {db : Database} (h : Blank db) : WellKeyed db where
  spaces id sp hsp := by simpa [hsp] using h.spaces id
  zones id zone hzone := (h.zones id zone hzone).1

theorem Blank.lists {db : Database} (h : Blank db) (z : String) : zoneSpaces db z = [] := by
  cases hzone : db.zone z with
  | none => exact zoneSpaces_of_none (by rw [hzone]; rfl)
  | some zone => rw [zoneSpaces_of_some hzone, (h.zones z zone hzone).2]

theorem Blank.listed {db : Database} (h : Blank db) : Listed (zoneSpaces db) (Active db) where
  used z s hs := by simp [h.lists] at hs
  nodup z := by simp [h.lists]
  alone z z' s hs := by simp [h.lists] at hs

theorem Blank.accounted {db : Database} (h : Blank db) : Accounted db := by
  refine InBalance.zero (fun key b hb => ?_) fun id key => amountOn_of_none (h.spaces id) key
  obtain ⟨st, hst, rfl⟩ := Option.map_eq_some_iff.mp hb
  rw [h.assigned key st hst]
  rfl

/-- **Capacity is accounted for**: in all states of a run from a blank start the capacity assigned
of every storage cluster is the sum of the sizes of the spaces in use on it, as long as the requests
charge clusters for such spaces only, and without overflow. -/
theorem capacity_is_accounted (ask : QueryService) {db : Database} (hblank : Blank db)
    {rs : List Request}
    (hguard : Machine.Guarded (step ask) (fun db r => r.Fresh db → Accounts ask db r) db rs) :
    Machine.Always (step ask) Accounted db rs := by
  have hstep : ∀ db r db',
      (WellKeyed db ∧ Listed (zoneSpaces db) (Active db) ∧ Accounted db) →
      (r.Fresh db → Accounts ask db r) → step ask db r = some db' →
      WellKeyed db' ∧ Listed (zoneSpaces db') (Active db') ∧ Accounted db' := by
    rintro db r db' ⟨hkeyed, hlisted, haccounted⟩ hok hstep
    obtain ⟨hfresh, hrelinks⟩ := step_relinks hkeyed hlisted hstep
    refine ⟨wellKeyed_step hkeyed hstep, hrelinks.listed, ?_⟩
    unfold step at hstep
    rw [if_pos hfresh] at hstep
    cases hstep
    rw [Request.exec_eq]
    exact accounted_execFaulty hkeyed hlisted haccounted hfresh (hok hfresh)
  exact hguard.always hstep (fun db h => h.2.2) ⟨hblank.wellKeyed, hblank.listed, hblank.accounted⟩

theorem blank_emptyDocuments : Blank emptyDocuments where
  assigned key st hst := by
    unfold Database.storage emptyDocuments at hst
    dsimp only at hst
    split at hst
    · cases hst
      rfl
    · cases hst
  spaces _ := rfl
  zones _ _ hzone := by cases hzone

/-- The registration of a zone meets the condition. -/
theorem capacity_is_accounted_oneZone :
    Machine.Always (step freeRows) Accounted emptyDocuments [registers [122]] := by
  refine capacity_is_accounted freeRows blank_emptyDocuments ⟨fun _ _ storage hcharges => ?_,
    fun t ht => trivial⟩
  refine ⟨fun hname => (by cases hname), fun st hst => ?_⟩
  cases hcharges.2.1
  cases hst
  decide

/-- A space without a name is charged for and then not made. -/
def registersNameless : Request := .zoneRegister [122] "u" [] [] 5 spaceOfFour "z" "t"

/-- The storage cluster stays charged with the size of a space that is not there. -/
theorem nameless_space_stays_charged :
    ¬ ∀ (ask : QueryService) (db : Database) (rs : List Request), Blank db →
      Machine.Always (step ask) Accounted db rs := by
  intro hall
  have halways := hall freeRows emptyDocuments [registersNameless] blank_emptyDocuments
  obtain ⟨ids, -, hsum⟩ := halways.2 (registersNameless.exec freeRows emptyDocuments) rfl
  have hfive : (5 : Int) =
      ∑ id ∈ ids, amountOn (registersNameless.exec freeRows emptyDocuments) id "STOR-1" :=
    hsum "STOR-1" 5 rfl
  have hzero : ∀ id ∈ ids,
      amountOn (registersNameless.exec freeRows emptyDocuments) id "STOR-1" = 0 := fun _ _ => rfl
  rw [Finset.sum_eq_zero hzero] at hfive
  cases hfive

end Gvds.Manager
