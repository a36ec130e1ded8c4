/-
Module: Gvds.Proofs.FailedOperations
Layer: Proofs
Purpose: When an operation on spaces that reports a failure has changed nothing, whichever of its
  calls fail: unless it had charged a storage cluster before. SpaceDelete reports success although
  it went past a space whose size it could not release, or stopped at one that it could not read.
Imports: Gvds.Proofs.SpaceOperations
Trusted boundary: as Gvds.Manager.SpaceServer
Main exports: SameCapacities, ReleasedOnce, Deletable, spaceCreate_failed_iff,
  spaceCheck_failed_iff, spaceSizeChange_failed_iff, spaceDelete_right_iff,
  failed_operations_change_nothing
-/
import Gvds.Proofs.SpaceOperations

namespace Gvds.Manager

/-- All storage clusters have the assigned capacity that they had, and all spaces their document. -/
def SameCapacities (db db' : Database) : Prop :=
  (∀ key, (db'.storage key).map StorageResource.assign_capacity =
    (db.storage key).map StorageResource.assign_capacity) ∧ ∀ id, db'.space id = db.space id

variable {fails : Nat → Bool} {db : Database} {n : Nat}

theorem SameCapacities.refl (db : Database) : SameCapacities db db := ⟨fun _ => rfl, fun _ => rfl⟩

/-- Only a charge by 0 changes nothing. -/
theorem sameCapacities_charge_iff {key : String} (hkey : ∃ st, db.storage key = some st)
    {d : Int64} : SameCapacities db (db.charge key d) ↔ d = 0 := by
  obtain ⟨st, hst⟩ := hkey
  constructor
  · intro hsame
    have hassign := hsame.1 key
    rw [Database.storage_charge_self, hst] at hassign
    simpa using hassign
  · rintro rfl
    refine ⟨fun key' => ?_, fun id => Database.space_charge db key id 0⟩
    rw [Database.storage_charge]
    split
    · rename_i hkey'
      rw [hkey', hst]
      simp
    · rfl

/-- A storage cluster whose capacity is raised is there. -/
theorem Adds.found {key : String} {size : Int64} (h : Adds fails n db key size) :
    ∃ st, db.storage key = some st := by
  obtain ⟨-, -, st, hst, -⟩ := h
  exact ⟨st, hst⟩

/-- A storage cluster whose capacity is lowered is there. -/
theorem Deducts.found {key : String} {size : Int64} (h : Deducts fails n db key size) :
    ∃ st, db.storage key = some st := by
  obtain ⟨-, -, st, hst, -⟩ := h
  exact ⟨st, hst⟩

/-! ### SpaceCreate, SpaceCheck and SpaceSizeChange -/

/-- A `SpaceCreate` that returns an error code changes nothing, unless it charges a storage cluster
before the directory cannot be made, the name is empty or the space cannot be written. -/
theorem spaceCreate_failed_iff (ask : QueryService) (fails : Nat → Bool) (db : Database)
    (spaceName : Bytes) (spaceSize : Int64) (info : Space) (uuid : String) :
    (∀ e db' n', (server ask).execFaulty fails (spaceCreate spaceName spaceSize info uuid) (db, 0) =
        (.error e, db', n') → SameCapacities db db') ↔
      ¬ ∃ storage, CreateCharges ask fails 0 db spaceSize info storage ∧ spaceSize ≠ 0 ∧
        (fails 3 = true ∨ spaceName = [] ∨ fails 4 = true) := by
  rcases spaceCreate_spec ask fails db 0 spaceName spaceSize info uuid with
    ⟨hno, e, n', hexec⟩ | ⟨storage, hcharges, hfail, e, n', hexec⟩ |
    ⟨storage, hcharges, hok, hexec⟩
  · rw [hexec]
    refine iff_of_true ?_ ?_
    · intro e' db' m heq
      cases heq
      exact .refl db
    · rintro ⟨storage, hcharges, -⟩
      exact hno storage hcharges
  · rw [hexec]
    have hsame := sameCapacities_charge_iff (d := spaceSize) hcharges.2.2.found
    constructor
    · rintro hall ⟨-, -, hsize, -⟩
      exact hsize (hsame.mp (hall e _ n' rfl))
    · intro hnot e' db' m heq
      cases heq
      refine hsame.mpr ?_
      by_contra hsize
      refine hnot ⟨storage, hcharges, hsize, ?_⟩
      rcases hfail with h | h | h | h
      · exact .inl h
      · exact .inr (.inl h)
      · exact absurd h hsize
      · exact .inr (.inr h)
  · rw [hexec]
    refine iff_of_true ?_ ?_
    · intro e' db' m heq
      cases heq
    · rintro ⟨-, -, -, h | h | h⟩
      · exact hok (.inl h)
      · exact hok (.inr (.inl h))
      · exact hok (.inr (.inr (.inr h)))

/-- A `SpaceCheck` that replies false changes nothing, unless it charges a storage cluster for a
space that it then cannot write. -/
theorem spaceCheck_failed_iff (ask : QueryService) (fails : Nat → Bool) (db : Database)
    (info : Space) :
    (∀ db' n', (server ask).execFaulty fails (spaceCheck info) (db, 0) = (none, db', n') →
        SameCapacities db db') ↔
      ¬ ∃ row, CheckCharges ask fails 0 db info row ∧ row.spaceSize ≠ 0 ∧ fails 4 = true := by
  rcases spaceCheck_spec ask fails db 0 info with
    ⟨hno, n', hexec⟩ | ⟨row, hcharges, hset, n', hexec⟩ | ⟨row, hcharges, hset, hexec⟩
  · rw [hexec]
    refine iff_of_true ?_ ?_
    · intro db' m heq
      cases heq
      exact .refl db
    · rintro ⟨row, hcharges, -⟩
      exact hno row hcharges
  · rw [hexec]
    have hsame := sameCapacities_charge_iff (d := row.spaceSize) hcharges.2.2.2.2.found
    constructor
    · rintro hall ⟨row', hcharges', hsize, -⟩
      obtain ⟨storage, hchosen, hrows⟩ := hcharges.2.2.1
      obtain ⟨storage', hchosen', hrows'⟩ := hcharges'.2.2.1
      rw [hchosen] at hchosen'
      cases hchosen'
      rw [hrows] at hrows'
      cases hrows'
      exact hsize (hsame.mp (hall _ n' rfl))
    · intro hnot db' m heq
      cases heq
      refine hsame.mpr ?_
      by_contra hsize
      exact hnot ⟨row, hcharges, hsize, hset⟩
  · rw [hexec]
    refine iff_of_true ?_ ?_
    · intro db' m heq
      cases heq
    · rintro ⟨-, -, -, hset'⟩
      simp [hset] at hset'

/-- A `SpaceSizeChange` that does not return 0 changes nothing, unless it charges a storage cluster
and then cannot write the space. -/
theorem spaceSizeChange_failed_iff (ask : QueryService) (fails : Nat → Bool) (db : Database)
    (id : String) (newSize realsize : Int64) :
    (∀ r db' n', (server ask).execFaulty fails (spaceSizeChange id newSize realsize) (db, 0) =
        (r, db', n') → r ≠ 0 → SameCapacities db db') ↔
      ¬ ∃ sp, Resizes fails 0 db id newSize realsize sp ∧ fails 4 = true := by
  rcases spaceSizeChange_spec ask fails db 0 id newSize realsize with
    ⟨hno, r, n', hexec, -⟩ | ⟨sp, hresizes, hset, n', hexec⟩ | ⟨sp, hresizes, hset, hexec⟩
  · rw [hexec]
    refine iff_of_true ?_ ?_
    · intro r' db' m heq hr
      cases heq
      exact .refl db
    · rintro ⟨sp, hresizes, -⟩
      exact hno sp hresizes
  · rw [hexec]
    refine iff_of_false ?_ (not_not.mpr ⟨sp, hresizes, hset⟩)
    intro hall
    have hsame := hall _ _ n' rfl EAGAIN_ne_zero
    rcases hresizes.2.2.2.2.2 with ⟨hsize, hadds⟩ | ⟨hsize, hdeducts⟩
    · have hzero := (sameCapacities_charge_iff hadds.found).mp hsame
      rw [Int64.sub_eq_iff_eq_add, Int64.zero_add] at hzero
      exact Int64.ne_of_lt hsize hzero.symm
    · have hzero := (sameCapacities_charge_iff hdeducts.found).mp hsame
      rw [Int64.sub_eq_iff_eq_add, Int64.zero_add] at hzero
      exact Int64.ne_of_lt hsize hzero
  · rw [hexec]
    refine iff_of_true ?_ ?_
    · intro r' db' m heq hr
      cases heq
      exact absurd rfl hr
    · rintro ⟨-, -, hset'⟩
      simp [hset] at hset'

/-! ### SpaceDelete -/

/-- The space out of use. -/
def Space.deactivated (space : Space) : Space := { space with status := false }

/-- At its turn each listed space is in use, its calls succeed and its size can be deducted. -/
def Deletable (fails : Nat → Bool) : Nat → Database → List String → Prop
  | _, _, [] => True
  | n, db, m :: ids =>
      fails n = false ∧ ∃ sp, db.space m = some sp ∧ sp.status = true ∧
        Deducts fails (n + 1) db sp.storageSrcID sp.spaceSize ∧ fails (n + 3) = false ∧
        Deletable fails (n + 4)
          ((db.charge sp.storageSrcID (-sp.spaceSize)).putSpace m sp.deactivated) ids

/-- The sizes of the listed spaces on a storage cluster, together. -/
def released (db : Database) (key : String) : List String → Int64
  | [] => 0
  | m :: ids =>
      (match db.space m with
        | none => 0
        | some sp => if sp.storageSrcID = key then sp.spaceSize else 0) + released db key ids

/-- Every listed space is out of use and otherwise as before, and each storage cluster has been
discharged by the sizes of the listed spaces, each counted once. -/
structure ReleasedOnce (db db' : Database) (ids : List String) : Prop where
  inactive : ∀ m ∈ ids, ∃ sp, db.space m = some sp ∧ db'.space m = some sp.deactivated
  others : ∀ m, m ∉ ids → db'.space m = db.space m
  nodup : ids.Nodup
  capacity : ∀ key, (db'.storage key).map StorageResource.assign_capacity =
    (db.storage key).map fun st => st.assign_capacity - released db key ids

/-- What `SpaceDelete` promises: after -1 nothing has changed; after 0 all sizes are released
once. -/
def DeleteRight (db : Database) (ids : List String) (r : Int) (db' : Database) : Prop :=
  (r = -1 → SameCapacities db db') ∧ (r = 0 → ReleasedOnce db db' ids)

/-- Distinct spaces in use, of a size other than 0. -/
def InUse (db : Database) (ids : List String) : Prop :=
  ids.Nodup ∧ ∀ m ∈ ids, ∃ sp, db.space m = some sp ∧ sp.status = true ∧ sp.spaceSize ≠ 0

/-- The sizes depend on the documents of the listed spaces only. -/
theorem released_congr {db' : Database} {key : String} {ids : List String}
    (h : ∀ m ∈ ids, db'.space m = db.space m) : released db' key ids = released db key ids := by
  induction ids with
  | nil => rfl
  | cons m ids ih =>
      rw [released, released, h m List.mem_cons_self,
        ih fun m' hm' => h m' (List.mem_cons_of_mem m hm')]

/-- The documents after a space has gone out of use, of the other spaces. -/
theorem space_released {m m' key : String} {d : Int64} {sp : Space} (h : m' ≠ m) :
    ((db.charge key d).putSpace m sp).space m' = db.space m' := by
  rw [Database.space_putSpace_of_ne _ _ _ _ h, Database.space_charge]

/-- A space that comes out of the loop inactive was in use when the loop took it, so no other entry
of the list is the same. -/
theorem Deletable.nodup {ids : List String} (h : Deletable fails n db ids) :
    ids.Nodup ∧ ∀ m ∈ ids, ∃ sp, db.space m = some sp ∧ sp.status = true := by
  induction ids generalizing db n with
  | nil => exact ⟨.nil, fun m hm => (by cases hm)⟩
  | cons m ids ih =>
      obtain ⟨-, sp, hsp, hstatus, -, -, hrest⟩ := h
      obtain ⟨hnodup, hall⟩ := ih hrest
      have hm : m ∉ ids := fun hm => by
        obtain ⟨sp', hsp', hstatus'⟩ := hall m hm
        rw [Database.space_putSpace_self] at hsp'
        cases hsp'
        cases hstatus'
      refine ⟨List.nodup_cons.mpr ⟨hm, hnodup⟩, fun m' hm' => ?_⟩
      rcases List.mem_cons.mp hm' with rfl | hm'
      · exact ⟨sp, hsp, hstatus⟩
      · have hne : m' ≠ m := fun hne => hm (hne ▸ hm')
        obtain ⟨sp', hsp', hstatus'⟩ := hall m' hm'
        exact ⟨sp', by rwa [space_released hne] at hsp', hstatus'⟩

/-- If each listed space can be deleted at its turn, each is, and its size released once. -/
theorem Deletable.right (ask : QueryService) {ids : List String} (h : Deletable fails n db ids) :
    ∃ db' n', (server ask).execFaulty fails (spaceDelete ids) (db, n) = (0, db', n') ∧
      ReleasedOnce db db' ids := by
  induction ids generalizing db n with
  | nil =>
      refine ⟨db, n, rfl, ⟨fun m hm => (by cases hm), fun _ _ => rfl, .nil, fun key => ?_⟩⟩
      simp [released]
  | cons m ids ih =>
      have hnodup := h.nodup.1
      have hm : m ∉ ids := (List.nodup_cons.mp hnodup).1
      obtain ⟨hget, sp, hsp, hstatus, hdeducts, hset, hrest⟩ := h
      obtain ⟨db', n', hexec, hright⟩ := ih hrest
      refine ⟨db', n', ?_, ?_⟩
      · rcases spaceDelete_cons_spec ask fails db n m ids with
          ⟨hnone, -⟩ | ⟨sp', -, hsp', hno, -⟩ | ⟨sp', -, hsp', -, hset', -⟩ |
          ⟨sp', -, hsp', -, -, heq⟩
        · rcases hnone with hnone | hnone
          · simp [hget] at hnone
          · simp [hsp] at hnone
        · cases hsp.symm.trans hsp'
          exact absurd hdeducts hno
        · simp [hset] at hset'
        · cases hsp.symm.trans hsp'
          rw [heq]
          exact hexec
      · refine ⟨fun m' hm' => ?_, fun m' hm' => ?_, hnodup, fun key => ?_⟩
        · rcases List.mem_cons.mp hm' with rfl | hm'
          · exact ⟨sp, hsp, by rw [hright.others _ hm, Database.space_putSpace_self]⟩
          · have hne : m' ≠ m := fun hne => hm (hne ▸ hm')
            obtain ⟨sp', hsp', hfinal⟩ := hright.inactive m' hm'
            exact ⟨sp', by rwa [space_released hne] at hsp', hfinal⟩
        · have hne : m' ≠ m := fun hne => hm' (hne ▸ List.mem_cons_self)
          rw [hright.others m' fun h => hm' (List.mem_cons_of_mem m h), space_released hne]
        · have hsizes : released ((db.charge sp.storageSrcID (-sp.spaceSize)).putSpace m
              sp.deactivated) key ids = released db key ids :=
            released_congr fun m' hm' => space_released fun hne => hm (hne ▸ hm')
          rw [hright.capacity key, hsizes, Database.storage_putSpace, Database.storage_charge,
            released, hsp]
          dsimp only
          by_cases hkey : key = sp.storageSrcID
          · rw [if_pos hkey, if_pos hkey.symm, hkey, Option.map_map]
            congr 1
            funext st
            change st.assign_capacity + -sp.spaceSize - _ = st.assign_capacity - (sp.spaceSize + _)
            rw [← Int64.sub_eq_add_neg, Int64.sub_sub]
          · rw [if_neg hkey, if_neg (Ne.symm hkey), Int64.zero_add]

/-- `SpaceDelete` leaves the spaces alone that are not listed. -/
theorem spaceDelete_others (ask : QueryService) {m : String} {ids : List String} (hm : m ∉ ids) :
    Database.space ((server ask).execFaulty fails (spaceDelete ids) (db, n)).2.1 m = db.space m := by
  induction ids generalizing db n with
  | nil => rfl
  | cons m' ids ih =>
      have hne : m ≠ m' := fun hne => hm (hne ▸ List.mem_cons_self)
      have hrest : m ∉ ids := fun h => hm (List.mem_cons_of_mem m' h)
      rcases spaceDelete_cons_spec ask fails db n m' ids with
        ⟨-, heq⟩ | ⟨sp, -, -, -, n', heq⟩ | ⟨sp, -, -, -, -, heq⟩ | ⟨sp, -, -, -, -, heq⟩
      · rw [heq]
      · rw [heq, ih hrest]
      · rw [heq]
        exact Database.space_charge db _ m _
      · rw [heq, ih hrest, space_released hne]

/-- `SpaceDelete` returns 0 or -1. -/
theorem spaceDelete_result (ask : QueryService) (fails : Nat → Bool) (db : Database) (n : Nat)
    (ids : List String) :
    ((server ask).execFaulty fails (spaceDelete ids) (db, n)).1 = 0 ∨
      ((server ask).execFaulty fails (spaceDelete ids) (db, n)).1 = -1 := by
  induction ids generalizing db n with
  | nil => exact .inl rfl
  | cons m ids ih =>
      rcases spaceDelete_cons_spec ask fails db n m ids with
        ⟨-, heq⟩ | ⟨sp, -, -, -, n', heq⟩ | ⟨sp, -, -, -, -, heq⟩ | ⟨sp, -, -, -, -, heq⟩
      · exact .inl (by rw [heq])
      · rw [heq]
        exact ih db n'
      · exact .inr (by rw [heq])
      · rw [heq]
        exact ih _ _

/-- If all listed spaces, distinct ones in use, are out of use after 0, each could be deleted at its
turn. -/
theorem deletable_of_inactive (ask : QueryService) {ids : List String} (hnodup : ids.Nodup)
    (huse : ∀ m ∈ ids, ∃ sp, db.space m = some sp ∧ sp.status = true)
    (hzero : ((server ask).execFaulty fails (spaceDelete ids) (db, n)).1 = 0)
    (hall : ∀ m ∈ ids, ∀ sp, Database.space
      ((server ask).execFaulty fails (spaceDelete ids) (db, n)).2.1 m = some sp →
        sp.status = false) : Deletable fails n db ids := by
  induction ids generalizing db n with
  | nil => trivial
  | cons m ids ih =>
      obtain ⟨sp, hsp, hstatus⟩ := huse m List.mem_cons_self
      obtain ⟨hm, hnodup'⟩ := List.nodup_cons.mp hnodup
      have hstays : ∀ {sp'}, Database.space
          ((server ask).execFaulty fails (spaceDelete (m :: ids)) (db, n)).2.1 m = some sp' →
          sp'.status ≠ true := fun hsp' => by
        simp [hall m List.mem_cons_self _ hsp']
      rcases spaceDelete_cons_spec ask fails db n m ids with
        ⟨-, heq⟩ | ⟨sp', -, -, -, n', heq⟩ | ⟨sp', -, -, -, -, heq⟩ |
        ⟨sp', hget, hsp', hdeducts, hset, heq⟩
      · rw [heq] at hstays
        exact absurd hstatus (hstays hsp)
      · rw [heq, spaceDelete_others ask hm] at hstays
        exact absurd hstatus (hstays hsp)
      · rw [heq] at hzero
        cases hzero
      · cases hsp.symm.trans hsp'
        rw [heq] at hzero hall
        refine ⟨hget, sp, hsp, hstatus, hdeducts, hset, ih hnodup' (fun m' hm' => ?_) hzero
          fun m' hm' => hall m' (List.mem_cons_of_mem m hm')⟩
        have hne : m' ≠ m := fun hne => hm (hne ▸ hm')
        rw [space_released hne]
        exact huse m' (List.mem_cons_of_mem m hm')

/-- After -1 something has changed: the release of the space that could not be written, and every
space that went out of use before. -/
theorem not_same_of_neg_one (ask : QueryService) {ids : List String} (huse : InUse db ids)
    (hneg : ((server ask).execFaulty fails (spaceDelete ids) (db, n)).1 = -1) :
    ¬ SameCapacities db ((server ask).execFaulty fails (spaceDelete ids) (db, n)).2.1 := by
  induction ids generalizing db n with
  | nil => cases hneg
  | cons m ids ih =>
      obtain ⟨sp, hsp, hstatus, hsize⟩ := huse.2 m List.mem_cons_self
      obtain ⟨hm, hnodup⟩ := List.nodup_cons.mp huse.1
      rcases spaceDelete_cons_spec ask fails db n m ids with
        ⟨-, heq⟩ | ⟨sp', -, -, -, n', heq⟩ | ⟨sp', -, hsp', hdeducts, -, heq⟩ |
        ⟨sp', -, hsp', -, -, heq⟩
      · rw [heq] at hneg
        cases hneg
      · rw [heq] at hneg ⊢
        exact ih ⟨hnodup, fun m' hm' => huse.2 m' (List.mem_cons_of_mem m hm')⟩ hneg
      · cases hsp.symm.trans hsp'
        rw [heq]
        intro hsame
        have hzero := (sameCapacities_charge_iff hdeducts.found).mp hsame
        rw [← @Int64.neg_neg sp.spaceSize, hzero] at hsize
        exact hsize rfl
      · cases hsp.symm.trans hsp'
        rw [heq]
        intro hsame
        have hspace := hsame.2 m
        rw [spaceDelete_others ask hm, Database.space_putSpace_self, hsp] at hspace
        have hflag := congrArg Space.status (Option.some.inj hspace)
        rw [hstatus] at hflag
        cases hflag

/-- `SpaceDelete` keeps its promise if each listed space can be deleted at its turn; for distinct
spaces in use of a size other than 0 only then. -/
theorem spaceDelete_right_iff (ask : QueryService) (fails : Nat → Bool) (db : Database)
    (ids : List String) :
    (Deletable fails 0 db ids → ∀ r db' n',
      (server ask).execFaulty fails (spaceDelete ids) (db, 0) = (r, db', n') →
        DeleteRight db ids r db') ∧
    (InUse db ids → (∀ r db' n',
      (server ask).execFaulty fails (spaceDelete ids) (db, 0) = (r, db', n') →
        DeleteRight db ids r db') → Deletable fails 0 db ids) := by
  constructor
  · intro h r db' n' hexec
    obtain ⟨db'', n'', hexec', hright⟩ := h.right ask
    rw [hexec'] at hexec
    cases hexec
    exact ⟨fun hr => absurd hr (by decide), fun _ => hright⟩
  · intro huse hall
    have hresult := spaceDelete_result ask fails db 0 ids
    rcases hexec : (server ask).execFaulty fails (spaceDelete ids) (db, 0) with ⟨r, db', n'⟩
    rw [hexec] at hresult
    obtain ⟨hneg, hzero⟩ := hall r db' n' hexec
    rcases hresult with hr | hr
    · have huse' : ∀ m ∈ ids, ∃ sp, db.space m = some sp ∧ sp.status = true := fun m hm => by
        obtain ⟨sp, hsp, hstatus, -⟩ := huse.2 m hm
        exact ⟨sp, hsp, hstatus⟩
      refine deletable_of_inactive ask huse.1 huse' (by rw [hexec]; exact hr) fun m hm sp hsp => ?_
      rw [hexec] at hsp
      obtain ⟨sp', -, hsp'⟩ := (hzero hr).inactive m hm
      cases hsp.symm.trans hsp'
      rfl
    · have hchanged := not_same_of_neg_one ask huse (by rw [hexec]; exact hr)
      rw [hexec] at hchanged
      exact absurd (hneg hr) hchanged

/-! ### All operations -/

/-- **Failed operations change nothing**, whichever calls fail, unless a storage cluster was charged
before: by SpaceCreate, when the directory is not made, the name is empty or the space is not
written; by SpaceCheck and SpaceSizeChange, when the space is not written. SpaceDelete keeps its
promise if each listed space can be deleted at its turn, and for distinct spaces in use only
then. -/
theorem failed_operations_change_nothing (ask : QueryService) (fails : Nat → Bool) (db : Database) :
    (∀ spaceName spaceSize info uuid,
      (∀ e db' n', (server ask).execFaulty fails (spaceCreate spaceName spaceSize info uuid) (db, 0) =
          (.error e, db', n') → SameCapacities db db') ↔
        ¬ ∃ storage, CreateCharges ask fails 0 db spaceSize info storage ∧ spaceSize ≠ 0 ∧
          (fails 3 = true ∨ spaceName = [] ∨ fails 4 = true)) ∧
    (∀ info,
      (∀ db' n', (server ask).execFaulty fails (spaceCheck info) (db, 0) = (none, db', n') →
          SameCapacities db db') ↔
        ¬ ∃ row, CheckCharges ask fails 0 db info row ∧ row.spaceSize ≠ 0 ∧ fails 4 = true) ∧
    (∀ id newSize realsize,
      (∀ r db' n', (server ask).execFaulty fails (spaceSizeChange id newSize realsize) (db, 0) =
          (r, db', n') → r ≠ 0 → SameCapacities db db') ↔
        ¬ ∃ sp, Resizes fails 0 db id newSize realsize sp ∧ fails 4 = true) ∧
    ∀ ids,
      (Deletable fails 0 db ids → ∀ r db' n',
        (server ask).execFaulty fails (spaceDelete ids) (db, 0) = (r, db', n') →
          DeleteRight db ids r db') ∧
      (InUse db ids → (∀ r db' n',
        (server ask).execFaulty fails (spaceDelete ids) (db, 0) = (r, db', n') →
          DeleteRight db ids r db') → Deletable fails 0 db ids) :=
  ⟨spaceCreate_failed_iff ask fails db, spaceCheck_failed_iff ask fails db,
    spaceSizeChange_failed_iff ask fails db, spaceDelete_right_iff ask fails db⟩

/-! ### One storage cluster with a space -/

/-- A storage cluster with room for 10, of which 4 are assigned. -/
def cluster : StorageResource where
  storage_src_id := "1"
  storage_src_name := "cluster"
  host_center_id := "sc"
  host_center_name := "center"
  total_capacity := 10
  assign_capacity := 4
  mgs_address := ""
  state := 1

/-- A space of size 4 on it. -/
def spaceOfFour : Space where
  spaceID := "s"
  spaceName := [115]
  spaceSize := 4
  hostCenterID := "sc"
  storageSrcID := "STOR-1"
  spacePath := "s"
  hostCenterName := "center"
  storageSrcName := "cluster"
  status := true
  replica_spaces := []

/-- The documents of both. -/
def oneCluster : Database
  | .storage key => if key = "STOR-1" then some cluster else none
  | .space id => if id = "s" then some spaceOfFour else none
  | .zone _ => none

/-- A query service that finds the storage cluster. -/
def clusterRows : QueryService where
  storages _ _ _ := [cluster]
  spaces _ _ _ _ := []
  zones _ _ := some []
  spaces_sound := noSpaces_sound
  zones_sound := noZones_sound

theorem failed_operations_change_nothing_oneCluster : ∀ r db' n',
    (server clusterRows).execFaulty (fun _ => false) (spaceDelete ["s"]) (oneCluster, 0) =
      (r, db', n') → DeleteRight oneCluster ["s"] r db' :=
  ((failed_operations_change_nothing clusterRows (fun _ => false) oneCluster).2.2.2 ["s"]).1
    ⟨rfl, spaceOfFour, rfl, rfl, ⟨rfl, rfl, cluster, rfl, by decide⟩, rfl, trivial⟩

/-- A directory that cannot be made leaves the storage cluster charged. -/
theorem failed_spaceCreate_charges :
    ¬ ∀ (ask : QueryService) (fails : Nat → Bool) (db : Database) (spaceName : Bytes)
      (spaceSize : Int64) (info : Space) (uuid e : String) (db' : Database) (n' : Nat),
      (server ask).execFaulty fails (spaceCreate spaceName spaceSize info uuid) (db, 0) =
        (.error e, db', n') → SameCapacities db db' := by
  intro hall
  have hsame := hall clusterRows (fun n => n == 3) oneCluster [116] 5 spaceOfFour "t" "-2" _ 4 rfl
  exact absurd (hsame.1 "STOR-1") (by decide)

end Gvds.Manager
