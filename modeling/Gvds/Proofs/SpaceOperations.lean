/-
Module: Gvds.Proofs.SpaceOperations
Layer: Proofs
Purpose: What each operation on spaces does to the documents, whichever of its calls fail: one lemma
  for each, with all its outcomes. A charge changes the assigned capacity of one storage cluster.
Imports: Gvds.Manager.SpaceServer
Trusted boundary: as Gvds.Manager.SpaceServer
Main exports: Database.charge, Database.putSpace, Adds, Deducts, spaceSizeAdd_spec,
  spaceSizeDeduct_spec, spaceCreate_spec, spaceCheck_spec, spaceDelete_cons_spec, spaceRename_spec,
  spaceSizeChange_spec
-/
import Gvds.Manager.SpaceServer

namespace Gvds.Manager

/-! ### Changes of the documents -/

/-- Change the assigned capacity of a storage cluster. -/
def Database.charge (db : Database) (key : String) (d : Int64) : Database :=
  Function.update db (.storage key) ((db.storage key).map fun storage =>
    { storage with assign_capacity := storage.assign_capacity + d })

/-- Put the document of a space. -/
def Database.putSpace (db : Database) (id : String) (space : Space) : Database :=
  Function.update db (.space id) (some space)

/-- Put or remove the document of a zone. -/
def Database.putZone (db : Database) (id : String) (zone : Option Zone) : Database :=
  Function.update db (.zone id) zone

namespace Database

variable (db : Database) (key id id' : String) (d : Int64) (space : Space) (zone : Option Zone)

@[simp] theorem storage_charge_self : (db.charge key d).storage key =
    (db.storage key).map fun st => { st with assign_capacity := st.assign_capacity + d } :=
  Function.update_self _ _ _

theorem storage_charge (key' : String) : (db.charge key d).storage key' =
    if key' = key then
      (db.storage key).map fun st => { st with assign_capacity := st.assign_capacity + d }
    else db.storage key' := by
  by_cases hkey : key' = key
  · subst hkey
    rw [if_pos rfl, storage_charge_self]
  · rw [if_neg hkey]
    exact Function.update_of_ne (by simpa using hkey) _ _

@[simp] theorem space_charge : (db.charge key d).space id = db.space id := by
  unfold charge space
  rw [Function.update_of_ne (by simp)]

@[simp] theorem zone_charge : (db.charge key d).zone id = db.zone id := by
  unfold charge zone
  rw [Function.update_of_ne (by simp)]

@[simp] theorem space_putSpace_self : (db.putSpace id space).space id = some space :=
  Function.update_self _ _ _

theorem space_putSpace_of_ne (h : id' ≠ id) : (db.putSpace id space).space id' = db.space id' :=
  Function.update_of_ne (by simpa using h) _ _

theorem space_putSpace : (db.putSpace id space).space id' =
    if id' = id then some space else db.space id' := by
  by_cases h : id' = id
  · subst h
    simp
  · rw [if_neg h, space_putSpace_of_ne db id id' space h]

@[simp] theorem storage_putSpace : (db.putSpace id space).storage key = db.storage key := by
  unfold putSpace storage
  rw [Function.update_of_ne (by simp)]

@[simp] theorem zone_putSpace : (db.putSpace id space).zone id' = db.zone id' := by
  unfold putSpace zone
  rw [Function.update_of_ne (by simp)]

@[simp] theorem zone_putZone_self : (db.putZone id zone).zone id = zone :=
  Function.update_self _ _ _

theorem zone_putZone : (db.putZone id zone).zone id' = if id' = id then zone else db.zone id' := by
  by_cases h : id' = id
  · subst h
    simp
  · rw [if_neg h]
    exact Function.update_of_ne (by simpa using h) _ _

@[simp] theorem storage_putZone : (db.putZone id zone).storage key = db.storage key := by
  unfold putZone storage
  rw [Function.update_of_ne (by simp)]

@[simp] theorem space_putZone : (db.putZone id zone).space id' = db.space id' := by
  unfold putZone space
  rw [Function.update_of_ne (by simp)]

end Database

variable {ask : QueryService} {fails : Nat → Bool} {db : Database} {n : Nat}

/-! ### Calls -/

theorem execFaulty_getStorage (key : String) :
    (server ask).execFaulty fails (getStorage key) (db, n) =
      (if fails n then none else db.storage key, db, n + 1) := by
  unfold getStorage
  rw [Server.execFaulty_perform]
  split <;> rfl

theorem execFaulty_setStorage (key : String) (doc : StorageResource) :
    (server ask).execFaulty fails (setStorage key doc) (db, n) =
      (!fails n, if fails n then db else Function.update db (.storage key) (some doc), n + 1) := by
  unfold setStorage
  rw [Server.execFaulty_perform]
  cases fails n <;> rfl

theorem execFaulty_getSpace (id : String) :
    (server ask).execFaulty fails (getSpace id) (db, n) =
      (if fails n then none else db.space id, db, n + 1) := by
  unfold getSpace
  rw [Server.execFaulty_perform]
  split <;> rfl

theorem execFaulty_setSpace (id : String) (doc : Space) :
    (server ask).execFaulty fails (setSpace id doc) (db, n) =
      (!fails n, if fails n then db else db.putSpace id doc, n + 1) := by
  unfold setSpace
  rw [Server.execFaulty_perform]
  cases fails n <;> rfl

theorem execFaulty_queryStorages (host stor : String) :
    (server ask).execFaulty fails (.perform (.queryStorages host stor)) (db, n) =
      (if fails n then none else some (ask.storages db host stor), db, n + 1) := by
  rw [Server.execFaulty_perform]
  split <;> rfl

theorem execFaulty_querySpaces (host stor path : String) :
    (server ask).execFaulty fails (.perform (.querySpaces host stor path)) (db, n) =
      (if fails n then none else some (ask.spaces db host stor path), db, n + 1) := by
  rw [Server.execFaulty_perform]
  split <;> rfl

theorem execFaulty_mkdir (name : String) :
    (server ask).execFaulty fails (.perform (.mkdir name)) (db, n) = (!fails n, db, n + 1) := by
  rw [Server.execFaulty_perform]
  cases fails n <;> rfl

theorem execFaulty_centerInformation :
    (server ask).execFaulty fails (.perform .centerInformation) (db, n) =
      (!fails n, db, n + 1) := by
  rw [Server.execFaulty_perform]
  cases fails n <;> rfl

/-- A capacity that is written back changed is a charge. -/
theorem update_storage {key : String} {st : StorageResource} (hst : db.storage key = some st)
    (d : Int64) :
    Function.update db (.storage key) (some { st with assign_capacity := st.assign_capacity + d }) =
      db.charge key d := by
  unfold Database.charge
  rw [hst]
  rfl

/-! ### Capacities -/

/-- The capacity of a storage cluster is raised: both calls succeed, and there is room. -/
def Adds (fails : Nat → Bool) (n : Nat) (db : Database) (key : String) (size : Int64) : Prop :=
  fails n = false ∧ fails (n + 1) = false ∧
    ∃ st, db.storage key = some st ∧ ¬ st.assign_capacity + size > st.total_capacity

/-- The capacity of a storage cluster is lowered: both calls succeed, and it stays at 0 at least. -/
def Deducts (fails : Nat → Bool) (n : Nat) (db : Database) (key : String) (size : Int64) : Prop :=
  fails n = false ∧ fails (n + 1) = false ∧
    ∃ st, db.storage key = some st ∧ ¬ st.assign_capacity - size < 0

theorem EAGAIN_ne_zero : EAGAIN ≠ 0 := by decide

theorem EINVAL_ne_zero : EINVAL ≠ 0 := by decide

theorem ENOSPC_ne_zero : ENOSPC ≠ 0 := by decide

/-- What `SpaceSizeAdd` and `SpaceSizeDeduct` have in common: the capacity assigned of a storage
cluster is written back changed, unless the cluster refuses. -/
def recharge (key : String) (refuses : StorageResource → Prop) [DecidablePred refuses] (e : Int)
    (assign : Int64 → Int64) : Program Call Int := do
  match ← getStorage key with
  | none => pure EAGAIN
  | some storage =>
      if refuses storage then pure e
      else
        if ← setStorage key { storage with assign_capacity := assign storage.assign_capacity } then
          pure 0
        else pure EAGAIN

/-- Either both calls succeed and the cluster is charged, or nothing changes. -/
theorem recharge_spec (ask : QueryService) (fails : Nat → Bool) (db : Database) (n : Nat)
    (key : String) (refuses : StorageResource → Prop) [DecidablePred refuses] {e : Int}
    (he : e ≠ 0) {assign : Int64 → Int64} {d : Int64} (hassign : ∀ c, assign c = c + d) :
    ((fails n = false ∧ fails (n + 1) = false ∧ ∃ st, db.storage key = some st ∧ ¬ refuses st) ∧
      (server ask).execFaulty fails (recharge key refuses e assign) (db, n) =
        (0, db.charge key d, n + 2)) ∨
    (¬ (fails n = false ∧ fails (n + 1) = false ∧
        ∃ st, db.storage key = some st ∧ ¬ refuses st) ∧ ∃ e' n', e' ≠ 0 ∧
      (server ask).execFaulty fails (recharge key refuses e assign) (db, n) = (e', db, n')) := by
  unfold recharge
  rw [Server.execFaulty_bind, execFaulty_getStorage]
  cases hget : fails n with
  | true => exact .inr ⟨by simp, EAGAIN, n + 1, EAGAIN_ne_zero, rfl⟩
  | false =>
      simp only [Bool.false_eq_true, if_false]
      cases hst : db.storage key with
      | none => exact .inr ⟨by simp, EAGAIN, n + 1, EAGAIN_ne_zero, rfl⟩
      | some st =>
          dsimp only
          split
          · rename_i hfull
            exact .inr ⟨by simp [hfull], e, n + 1, he, rfl⟩
          · rename_i hroom
            rw [Server.execFaulty_bind, execFaulty_setStorage]
            cases hset : fails (n + 1) with
            | true => exact .inr ⟨by simp, EAGAIN, n + 2, EAGAIN_ne_zero, rfl⟩
            | false =>
                refine .inl ⟨⟨trivial, rfl, st, rfl, hroom⟩, ?_⟩
                rw [← update_storage hst, ← hassign]
                rfl

/-- `SpaceSizeAdd` charges the storage cluster, or fails without a change. -/
theorem spaceSizeAdd_spec (ask : QueryService) (fails : Nat → Bool) (db : Database) (n : Nat)
    (key : String) (size : Int64) :
    (Adds fails n db key size ∧
      (server ask).execFaulty fails (spaceSizeAdd key size) (db, n) =
        (0, db.charge key size, n + 2)) ∨
    (¬ Adds fails n db key size ∧ ∃ e n', e ≠ 0 ∧
      (server ask).execFaulty fails (spaceSizeAdd key size) (db, n) = (e, db, n')) :=
  recharge_spec ask fails db n key (fun st => st.assign_capacity + size > st.total_capacity)
    ENOSPC_ne_zero fun _ => rfl

/-- `SpaceSizeDeduct` charges the storage cluster with less, or fails without a change. -/
theorem spaceSizeDeduct_spec (ask : QueryService) (fails : Nat → Bool) (db : Database) (n : Nat)
    (key : String) (size : Int64) :
    (Deducts fails n db key size ∧
      (server ask).execFaulty fails (spaceSizeDeduct key size) (db, n) =
        (0, db.charge key (-size), n + 2)) ∨
    (¬ Deducts fails n db key size ∧ ∃ e n', e ≠ 0 ∧
      (server ask).execFaulty fails (spaceSizeDeduct key size) (db, n) = (e, db, n')) :=
  recharge_spec ask fails db n key (fun st => st.assign_capacity - size < 0) EINVAL_ne_zero
    fun c => Int64.sub_eq_add_neg c size

/-! ### Spaces are made and taken into use -/

/-- The storage cluster that `GetSpaceCreatePath` chooses. -/
def chosen (ask : QueryService) (db : Database) (spacePathInfo : Space) : Option StorageResource :=
  ((ask.storages db spacePathInfo.hostCenterName spacePathInfo.storageSrcName).foldl preferred
    none).map Prod.snd

/-- The key of a storage cluster. -/
def StorageResource.key (storage : StorageResource) : String :=
  storagePrefix ++ storage.storage_src_id

theorem key_eq (storage : StorageResource) :
    storagePrefix ++ storage.storage_src_id = storage.key := rfl

theorem getSpaceCreatePath_spec (ask : QueryService) (fails : Nat → Bool) (db : Database) (n : Nat)
    (info : Space) :
    (server ask).execFaulty fails (getSpaceCreatePath info.hostCenterName info.storageSrcName)
      (db, n) = (if fails n then none else chosen ask db info, db, n + 1) := by
  unfold getSpaceCreatePath
  rw [Server.execFaulty_bind, execFaulty_queryStorages]
  cases fails n <;> rfl

/-- `SpaceCreate` chooses a storage cluster and charges it. -/
def CreateCharges (ask : QueryService) (fails : Nat → Bool) (n : Nat) (db : Database)
    (spaceSize : Int64) (info : Space) (storage : StorageResource) : Prop :=
  fails n = false ∧ chosen ask db info = some storage ∧ Adds fails (n + 1) db storage.key spaceSize

/-- The document of a new space. -/
def newSpace (spaceName : Bytes) (spaceSize : Int64) (storage : StorageResource) (uuid : String) :
    Space where
  spaceID := uuid
  spaceName := spaceName
  spaceSize := spaceSize
  hostCenterID := storage.host_center_id
  storageSrcID := storage.key
  spacePath := uuid
  hostCenterName := storage.host_center_name
  storageSrcName := storage.storage_src_name
  status := true
  replica_spaces := []

/-- `SpaceCreate` charges no storage cluster; or it charges one and then fails, because of a call or
of its arguments; or it makes the space. -/
theorem spaceCreate_spec (ask : QueryService) (fails : Nat → Bool) (db : Database) (n : Nat)
    (spaceName : Bytes) (spaceSize : Int64) (info : Space) (uuid : String) :
    ((∀ storage, ¬ CreateCharges ask fails n db spaceSize info storage) ∧ ∃ e n',
      (server ask).execFaulty fails (spaceCreate spaceName spaceSize info uuid) (db, n) =
        (.error e, db, n')) ∨
    (∃ storage, CreateCharges ask fails n db spaceSize info storage ∧
      (fails (n + 3) = true ∨ spaceName = [] ∨ spaceSize = 0 ∨ fails (n + 4) = true) ∧ ∃ e n',
      (server ask).execFaulty fails (spaceCreate spaceName spaceSize info uuid) (db, n) =
        (.error e, db.charge storage.key spaceSize, n')) ∨
    (∃ storage, CreateCharges ask fails n db spaceSize info storage ∧
      ¬ (fails (n + 3) = true ∨ spaceName = [] ∨ spaceSize = 0 ∨ fails (n + 4) = true) ∧
      (server ask).execFaulty fails (spaceCreate spaceName spaceSize info uuid) (db, n) =
        (.ok uuid, (db.charge storage.key spaceSize).putSpace uuid
          (newSpace spaceName spaceSize storage uuid), n + 5)) := by
  unfold spaceCreate CreateCharges
  rw [Server.execFaulty_bind, getSpaceCreatePath_spec]
  cases hquery : fails n with
  | true => exact .inl ⟨by simp, "-3", n + 1, rfl⟩
  | false =>
      simp only [Bool.false_eq_true, if_false, true_and]
      cases hchosen : chosen ask db info with
      | none => exact .inl ⟨by simp, "-3", n + 1, rfl⟩
      | some storage =>
          dsimp only
          rw [Server.execFaulty_bind]
          rcases spaceSizeAdd_spec ask fails db (n + 1) storage.key spaceSize with
            ⟨hadds, hadd⟩ | ⟨hadds, e, n', he, hadd⟩
          · right
            rw [key_eq, hadd]
            simp only [ne_eq, not_true_eq_false, if_false]
            rw [Server.execFaulty_bind, execFaulty_mkdir]
            cases hmkdir : fails (n + 3) with
            | true =>
                exact .inl ⟨storage, ⟨rfl, hadds⟩, .inl rfl, "-2", n + 4, by simp⟩
            | false =>
                simp only [Bool.not_false, if_true, Bool.false_eq_true, false_or]
                by_cases harg : spaceName = [] ∨ spaceSize = 0
                · refine .inl ⟨storage, ⟨rfl, hadds⟩, ?_, "-5", n + 4, by rw [if_pos harg]; rfl⟩
                  rcases harg with harg | harg
                  · exact .inl harg
                  · exact .inr (.inl harg)
                · rw [if_neg harg, Server.execFaulty_bind, execFaulty_setSpace]
                  cases hset : fails (n + 4) with
                  | true =>
                      exact .inl ⟨storage, ⟨rfl, hadds⟩, .inr (.inr rfl), "-2", n + 5, by simp⟩
                  | false =>
                      refine .inr ⟨storage, ⟨rfl, hadds⟩, ?_, by simp [newSpace]⟩
                      rintro (hname | hsize | hset')
                      · exact harg (.inl hname)
                      · exact harg (.inr hsize)
                      · cases hset'
          · left
            refine ⟨?_, "-1", n', ?_⟩
            · rintro storage' ⟨hsome, hadds'⟩
              cases hsome
              exact hadds hadds'
            · rw [key_eq, hadd]
              simp [he]

/-- `SpaceCheck` finds one space, which is not in use, and charges its storage cluster. -/
def CheckCharges (ask : QueryService) (fails : Nat → Bool) (n : Nat) (db : Database)
    (info row : Space) :
    Prop :=
  fails n = false ∧ fails (n + 1) = false ∧
    (∃ storage, chosen ask db info = some storage ∧
      ask.spaces db storage.host_center_id storage.key info.spacePath = [row]) ∧
    row.status = false ∧ Adds fails (n + 2) db row.storageSrcID row.spaceSize

/-- `SpaceCheck` charges no storage cluster; or it charges one and does not write the space; or it
takes the space into use, with the row of the query as its document. -/
theorem spaceCheck_spec (ask : QueryService) (fails : Nat → Bool) (db : Database) (n : Nat)
    (info : Space) :
    ((∀ row, ¬ CheckCharges ask fails n db info row) ∧ ∃ n',
      (server ask).execFaulty fails (spaceCheck info) (db, n) = (none, db, n')) ∨
    (∃ row, CheckCharges ask fails n db info row ∧ fails (n + 4) = true ∧ ∃ n',
      (server ask).execFaulty fails (spaceCheck info) (db, n) =
        (none, db.charge row.storageSrcID row.spaceSize, n')) ∨
    (∃ row, CheckCharges ask fails n db info row ∧ fails (n + 4) = false ∧
      (server ask).execFaulty fails (spaceCheck info) (db, n) =
        (some row.spaceID, (db.charge row.storageSrcID row.spaceSize).putSpace row.spaceID
          { row with status := true }, n + 5)) := by
  unfold spaceCheck CheckCharges
  rw [Server.execFaulty_bind, getSpaceCreatePath_spec]
  cases hstorages : fails n with
  | true => exact .inl ⟨by simp, n + 1, rfl⟩
  | false =>
      simp only [Bool.false_eq_true, if_false, true_and]
      cases hchosen : chosen ask db info with
      | none => exact .inl ⟨by simp, n + 1, rfl⟩
      | some storage =>
          dsimp only
          rw [Server.execFaulty_bind, key_eq, execFaulty_querySpaces]
          cases hspaces : fails (n + 1) with
          | true => exact .inl ⟨by simp, n + 2, rfl⟩
          | false =>
              simp only [Bool.false_eq_true, if_false, true_and, Option.some.injEq,
                exists_eq_left']
              cases hrows : ask.spaces db storage.host_center_id storage.key info.spacePath with
              | nil => exact .inl ⟨by simp, n + 2, rfl⟩
              | cons row rows =>
                  cases rows with
                  | cons row' rows => exact .inl ⟨by simp, n + 2, rfl⟩
                  | nil =>
                      dsimp only
                      cases hstatus : row.status with
                      | true =>
                          refine .inl ⟨?_, n + 2, by simp⟩
                          rintro row' ⟨hrow, hfree, -⟩
                          cases hrow
                          rw [hstatus] at hfree
                          cases hfree
                      | false =>
                          simp only [Bool.false_eq_true, if_false]
                          rw [Server.execFaulty_bind]
                          rcases spaceSizeAdd_spec ask fails db (n + 2) row.storageSrcID
                            row.spaceSize with ⟨hadds, hadd⟩ | ⟨hadds, e, n', he, hadd⟩
                          · right
                            rw [hadd]
                            simp only [ne_eq, not_true_eq_false, if_false]
                            rw [Server.execFaulty_bind, execFaulty_setSpace]
                            cases hset : fails (n + 4) with
                            | true => exact .inl ⟨row, ⟨rfl, hstatus, hadds⟩, rfl, n + 5, by simp⟩
                            | false => exact .inr ⟨row, ⟨rfl, hstatus, hadds⟩, rfl, by simp⟩
                          · left
                            refine ⟨?_, n', by rw [hadd]; simp [he]⟩
                            rintro row' ⟨hrow, -, hadds'⟩
                            cases hrow
                            exact hadds hadds'

/-! ### Spaces are deleted and changed -/

/-- One round of `SpaceDelete`: the space is not found and the loop ends; its size is not released
and the loop goes on; it is released but the space is not written; or the space goes out of use. -/
theorem spaceDelete_cons_spec (ask : QueryService) (fails : Nat → Bool) (db : Database) (n : Nat)
    (m : String) (ids : List String) :
    ((fails n = true ∨ db.space m = none) ∧
      (server ask).execFaulty fails (spaceDelete (m :: ids)) (db, n) = (0, db, n + 1)) ∨
    (∃ sp, fails n = false ∧ db.space m = some sp ∧
      ¬ Deducts fails (n + 1) db sp.storageSrcID sp.spaceSize ∧ ∃ n',
      (server ask).execFaulty fails (spaceDelete (m :: ids)) (db, n) =
        (server ask).execFaulty fails (spaceDelete ids) (db, n')) ∨
    (∃ sp, fails n = false ∧ db.space m = some sp ∧
      Deducts fails (n + 1) db sp.storageSrcID sp.spaceSize ∧ fails (n + 3) = true ∧
      (server ask).execFaulty fails (spaceDelete (m :: ids)) (db, n) =
        (-1, db.charge sp.storageSrcID (-sp.spaceSize), n + 4)) ∨
    (∃ sp, fails n = false ∧ db.space m = some sp ∧
      Deducts fails (n + 1) db sp.storageSrcID sp.spaceSize ∧ fails (n + 3) = false ∧
      (server ask).execFaulty fails (spaceDelete (m :: ids)) (db, n) =
        (server ask).execFaulty fails (spaceDelete ids)
          ((db.charge sp.storageSrcID (-sp.spaceSize)).putSpace m { sp with status := false },
            n + 4)) := by
  rw [spaceDelete, Server.execFaulty_bind, execFaulty_getSpace]
  cases hget : fails n with
  | true => exact .inl ⟨.inl rfl, rfl⟩
  | false =>
      simp only [Bool.false_eq_true, if_false, true_and, false_or]
      cases hsp : db.space m with
      | none => exact .inl ⟨rfl, rfl⟩
      | some sp =>
          right
          dsimp only
          rw [Server.execFaulty_bind]
          rcases spaceSizeDeduct_spec ask fails db (n + 1) sp.storageSrcID sp.spaceSize with
            ⟨hdeducts, hdeduct⟩ | ⟨hdeducts, e, n', he, hdeduct⟩
          · right
            rw [hdeduct]
            simp only [ne_eq, not_true_eq_false, if_false]
            rw [Server.execFaulty_bind, execFaulty_setSpace]
            cases hset : fails (n + 3) with
            | true => exact .inl ⟨sp, rfl, hdeducts, rfl, by simp⟩
            | false => exact .inr ⟨sp, rfl, hdeducts, rfl, by simp⟩
          · refine .inl ⟨sp, rfl, hdeducts, n', ?_⟩
            rw [hdeduct]
            simp [he]

/-- `SpaceRename` leaves the documents as they are, or changes the name of the space. -/
theorem spaceRename_spec (ask : QueryService) (fails : Nat → Bool) (db : Database) (n : Nat)
    (id : String) (name : Bytes) :
    (∃ r n', (server ask).execFaulty fails (spaceRename id name) (db, n) = (r, db, n') ∧
      (r = 0 → ∃ sp, db.space id = some sp ∧ sp.spaceName = cutName name)) ∨
    (∃ sp, db.space id = some sp ∧ sp.status = true ∧
      (server ask).execFaulty fails (spaceRename id name) (db, n) =
        (0, db.putSpace id { sp with spaceName := cutName name }, n + 2)) := by
  unfold spaceRename
  rw [Server.execFaulty_bind, execFaulty_getSpace]
  cases hget : fails n with
  | true => exact .inl ⟨-1, n + 1, rfl, fun hr => absurd hr (by decide)⟩
  | false =>
      simp only [Bool.false_eq_true, if_false]
      cases hsp : db.space id with
      | none => exact .inl ⟨-1, n + 1, rfl, fun hr => absurd hr (by decide)⟩
      | some sp =>
          dsimp only
          by_cases hstatus : sp.status = true
          · rw [if_pos hstatus]
            split
            · rename_i hname
              exact .inl ⟨0, n + 1, rfl, fun _ => ⟨sp, rfl, hname⟩⟩
            · rw [Server.execFaulty_bind, execFaulty_setSpace]
              cases hset : fails (n + 1) with
              | true => exact .inl ⟨-1, n + 2, rfl, fun hr => absurd hr (by decide)⟩
              | false => exact .inr ⟨sp, rfl, hstatus, rfl⟩
          · rw [if_neg hstatus]
            exact .inl ⟨-1, n + 1, rfl, fun hr => absurd hr (by decide)⟩

/-- `SpaceSizeChange` charges a storage cluster with a difference. -/
def Resizes (fails : Nat → Bool) (n : Nat) (db : Database) (id : String) (newSize realsize : Int64)
    (sp : Space) : Prop :=
  ¬ newSize < 0 ∧ fails n = false ∧ db.space id = some sp ∧ fails (n + 1) = false ∧
    ¬ newSize ≤ realsize / 1000000 + 1 ∧
    ((newSize > sp.spaceSize ∧
        Adds fails (n + 2) db sp.storageSrcID (newSize - sp.spaceSize)) ∨
      (newSize < sp.spaceSize ∧
        Deducts fails (n + 2) db sp.storageSrcID (sp.spaceSize - newSize)))

/-- `storeSize` after a charge: the space is written, unless the call fails. -/
theorem storeSize_spec (id : String) (sp : Space) (newSize : Int64) :
    (server ask).execFaulty fails (storeSize id sp newSize 0) (db, n) =
      (if fails n then EAGAIN else 0,
        if fails n then db else db.putSpace id { sp with spaceSize := newSize }, n + 1) := by
  unfold storeSize
  rw [if_pos rfl, Server.execFaulty_bind, execFaulty_setSpace]
  cases fails n <;> rfl

/-- `storeSize` after a failed change of the capacity does nothing. -/
theorem storeSize_of_ne (id : String) (sp : Space) (newSize : Int64) {ret : Int} (hret : ret ≠ 0) :
    (server ask).execFaulty fails (storeSize id sp newSize ret) (db, n) = (ret, db, n) := by
  unfold storeSize
  rw [if_neg hret]
  rfl

/-- A change of the capacity and `storeSize`: nothing is changed; or the storage cluster is charged
and the space is not written; or both are changed. -/
theorem charge_storeSize_spec {ask : QueryService} {fails : Nat → Bool} {db : Database} {n : Nat}
    {charging : Prop} {change : Program Call Int} {key : String} {d : Int64}
    (hchange : (charging ∧
        (server ask).execFaulty fails change (db, n) = (0, db.charge key d, n + 2)) ∨
      (¬ charging ∧ ∃ e n', e ≠ 0 ∧ (server ask).execFaulty fails change (db, n) = (e, db, n')))
    (id : String) (sp : Space) (newSize : Int64) :
    (¬ charging ∧ ∃ e n', e ≠ 0 ∧
      (server ask).execFaulty fails (change >>= storeSize id sp newSize) (db, n) = (e, db, n')) ∨
    (charging ∧ fails (n + 2) = true ∧
      (server ask).execFaulty fails (change >>= storeSize id sp newSize) (db, n) =
        (EAGAIN, db.charge key d, n + 3)) ∨
    (charging ∧ fails (n + 2) = false ∧
      (server ask).execFaulty fails (change >>= storeSize id sp newSize) (db, n) =
        (0, (db.charge key d).putSpace id { sp with spaceSize := newSize }, n + 3)) := by
  rw [Server.execFaulty_bind]
  rcases hchange with ⟨hcharging, hexec⟩ | ⟨hnot, e, n', he, hexec⟩
  · right
    rw [hexec, storeSize_spec]
    cases hset : fails (n + 2) with
    | true => exact .inl ⟨hcharging, rfl, rfl⟩
    | false => exact .inr ⟨hcharging, rfl, rfl⟩
  · left
    rw [hexec, storeSize_of_ne _ _ _ he]
    exact ⟨hnot, e, n', he, rfl⟩

/-- `SpaceSizeChange` leaves the documents as they are; or it charges the storage cluster and does
not write the space; or it changes both. -/
theorem spaceSizeChange_spec (ask : QueryService) (fails : Nat → Bool) (db : Database) (n : Nat)
    (id : String) (newSize realsize : Int64) :
    ((∀ sp, ¬ Resizes fails n db id newSize realsize sp) ∧ ∃ r n',
      (server ask).execFaulty fails (spaceSizeChange id newSize realsize) (db, n) = (r, db, n') ∧
      (r = 0 → ∃ sp, db.space id = some sp ∧ sp.spaceSize = newSize)) ∨
    (∃ sp, Resizes fails n db id newSize realsize sp ∧ fails (n + 4) = true ∧ ∃ n',
      (server ask).execFaulty fails (spaceSizeChange id newSize realsize) (db, n) =
        (EAGAIN, db.charge sp.storageSrcID (newSize - sp.spaceSize), n')) ∨
    (∃ sp, Resizes fails n db id newSize realsize sp ∧ fails (n + 4) = false ∧
      (server ask).execFaulty fails (spaceSizeChange id newSize realsize) (db, n) =
        (0, (db.charge sp.storageSrcID (newSize - sp.spaceSize)).putSpace id
          { sp with spaceSize := newSize }, n + 5)) := by
  unfold spaceSizeChange
  by_cases hneg : newSize < 0
  · rw [if_pos hneg]
    exact .inl ⟨fun sp h => h.1 hneg, EINVAL, n, rfl, fun hr => absurd hr (by decide)⟩
  rw [if_neg hneg, Server.execFaulty_bind, execFaulty_getSpace]
  cases hget : fails n with
  | true =>
      exact .inl ⟨fun sp h => by simp [Resizes, hget] at h, EAGAIN, n + 1, rfl,
        fun hr => absurd hr (by decide)⟩
  | false =>
  simp only [Bool.false_eq_true, if_false]
  cases hsp : db.space id with
  | none =>
      exact .inl ⟨fun sp h => by simp [Resizes, hsp] at h, EAGAIN, n + 1, rfl,
        fun hr => absurd hr (by decide)⟩
  | some sp =>
  dsimp only
  rw [Server.execFaulty_bind, execFaulty_centerInformation]
  cases hcenter : fails (n + 1) with
  | true =>
      exact .inl ⟨fun sp h => by simp [Resizes, hcenter] at h, EAGAIN, n + 2, rfl,
        fun hr => absurd hr (by decide)⟩
  | false =>
  -- what is left of the condition, once the calls before the charge have succeeded
  have hiff : ∀ sp', Resizes fails n db id newSize realsize sp' ↔ sp = sp' ∧
      ¬ newSize ≤ realsize / 1000000 + 1 ∧
      ((newSize > sp.spaceSize ∧
          Adds fails (n + 2) db sp.storageSrcID (newSize - sp.spaceSize)) ∨
        (newSize < sp.spaceSize ∧
          Deducts fails (n + 2) db sp.storageSrcID (sp.spaceSize - newSize))) := by
    intro sp'
    simp only [Resizes, hneg, hget, hsp, hcenter, Option.some.injEq, not_false_eq_true, true_and]
    constructor
    · rintro ⟨rfl, h⟩
      exact ⟨rfl, h⟩
    · rintro ⟨rfl, h⟩
      exact ⟨rfl, h⟩
  simp only [hiff, Bool.not_false, if_true]
  by_cases hused : newSize ≤ realsize / 1000000 + 1
  · rw [if_pos hused]
    exact .inl ⟨fun sp' h => h.2.1 hused, EINVAL, n + 2, rfl, fun hr => absurd hr (by decide)⟩
  rw [if_neg hused]
  by_cases hgrow : newSize > sp.spaceSize
  · have hnot : ¬ newSize < sp.spaceSize := Int64.lt_asymm hgrow
    rw [if_pos hgrow]
    rcases charge_storeSize_spec (spaceSizeAdd_spec ask fails db (n + 2) sp.storageSrcID
      (newSize - sp.spaceSize)) id sp newSize with
      ⟨hadds, e, n', he, hexec⟩ | ⟨hadds, hset, hexec⟩ | ⟨hadds, hset, hexec⟩
    · refine .inl ⟨?_, e, n', hexec, fun hr => absurd hr he⟩
      rintro sp' ⟨-, -, ⟨-, h⟩ | ⟨h, -⟩⟩
      · exact hadds h
      · exact hnot h
    · exact .inr (.inl ⟨sp, ⟨rfl, hused, .inl ⟨hgrow, hadds⟩⟩, hset, n + 5, hexec⟩)
    · exact .inr (.inr ⟨sp, ⟨rfl, hused, .inl ⟨hgrow, hadds⟩⟩, hset, hexec⟩)
  · rw [if_neg hgrow]
    by_cases hshrink : newSize < sp.spaceSize
    · have hdiff : -(sp.spaceSize - newSize) = newSize - sp.spaceSize := Int64.neg_sub
      rw [if_pos hshrink]
      rcases charge_storeSize_spec (spaceSizeDeduct_spec ask fails db (n + 2) sp.storageSrcID
        (sp.spaceSize - newSize)) id sp newSize with
        ⟨hdeducts, e, n', he, hexec⟩ | ⟨hdeducts, hset, hexec⟩ | ⟨hdeducts, hset, hexec⟩
      · refine .inl ⟨?_, e, n', hexec, fun hr => absurd hr he⟩
        rintro sp' ⟨-, -, ⟨h, -⟩ | ⟨-, h⟩⟩
        · exact hgrow h
        · exact hdeducts h
      · rw [hdiff] at hexec
        exact .inr (.inl ⟨sp, ⟨rfl, hused, .inr ⟨hshrink, hdeducts⟩⟩, hset, n + 5, hexec⟩)
      · rw [hdiff] at hexec
        exact .inr (.inr ⟨sp, ⟨rfl, hused, .inr ⟨hshrink, hdeducts⟩⟩, hset, hexec⟩)
    · rw [if_neg hshrink]
      left
      refine ⟨?_, 0, n + 2, rfl, fun _ => ⟨sp, rfl, ?_⟩⟩
      · rintro sp' ⟨-, -, ⟨h, -⟩ | ⟨h, -⟩⟩
        · exact hgrow h
        · exact hshrink h
      · exact Int64.le_antisymm (Int64.not_lt.mp hshrink) (Int64.not_lt.mp hgrow)

end Gvds.Manager
