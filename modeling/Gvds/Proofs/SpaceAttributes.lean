/-
Module: Gvds.Proofs.SpaceAttributes
Layer: Proofs
Purpose: What an operation on spaces that succeeds leaves of their documents: all but the attribute
  that it is about, except that a space comes back into use without its replicas, which the query in
  SpaceCheck does not ask for.
Imports: Gvds.Proofs.FailedOperations
Trusted boundary: as Gvds.Manager.SpaceServer
Main exports: Keyed, SpaceEdit, SpaceEdit.Keeps, edits_keep_other_attributes
-/
import Gvds.Proofs.FailedOperations

namespace Gvds.Manager

/-- The document of each space is under its ID. -/
def Keyed (db : Database) : Prop := ∀ id sp, db.space id = some sp → sp.spaceID = id

/-- The operations that change an attribute of spaces. -/
inductive SpaceEdit where
  | rename (spaceID : String) (newSpaceName : Bytes)
  | sizeChange (spaceID : String) (newSpaceSize realsize : Int64)
  | delete (spaceID : List String)
  | check (spacePathInfo : Space)

/-- The operation ends successfully with these documents, whichever of its calls fail. -/
def SpaceEdit.Succeeds (ask : QueryService) (fails : Nat → Bool) (db db' : Database) :
    SpaceEdit → Prop
  | .rename id name => ∃ n', (server ask).execFaulty fails (spaceRename id name) (db, 0) = (0, db', n')
  | .sizeChange id newSize realsize => ∃ n',
      (server ask).execFaulty fails (spaceSizeChange id newSize realsize) (db, 0) = (0, db', n')
  | .delete ids => ∃ n', (server ask).execFaulty fails (spaceDelete ids) (db, 0) = (0, db', n')
  | .check info => ∃ id n',
      (server ask).execFaulty fails (spaceCheck info) (db, 0) = (some id, db', n')

/-- A document that is changed in the operation's attribute only. -/
def SpaceEdit.Only (sp sp' : Space) : SpaceEdit → Prop
  | .rename _ _ => sp' = { sp with spaceName := sp'.spaceName }
  | .sizeChange _ _ _ => sp' = { sp with spaceSize := sp'.spaceSize }
  | .delete _ => sp' = { sp with status := sp'.status }
  | .check _ => sp' = { sp with status := sp'.status }

/-- Every document is still there, changed in the operation's attribute only. -/
def SpaceEdit.Keeps (db db' : Database) (e : SpaceEdit) : Prop :=
  ∀ id sp, db.space id = some sp → ∃ sp', db'.space id = some sp' ∧ e.Only sp sp'

/-- A space that `SpaceCheck` finds has no replicas. -/
def SpaceEdit.FindsNoReplicas (ask : QueryService) (db : Database) : SpaceEdit → Prop
  | .check info => ∀ storage row sp, chosen ask db info = some storage →
      ask.spaces db storage.host_center_id storage.key info.spacePath = [row] →
      db.space row.spaceID = some sp → sp.replica_spaces = []
  | .rename _ _ => True
  | .sizeChange _ _ _ => True
  | .delete _ => True

variable {ask : QueryService} {fails : Nat → Bool} {db db' : Database}

/-- A document that stays is changed in the attribute at most. -/
theorem SpaceEdit.Only.refl (e : SpaceEdit) (sp : Space) : e.Only sp sp := by
  cases e <;> rfl

/-- The documents after one is put that is changed in the attribute only. -/
theorem SpaceEdit.keeps_putSpace {e : SpaceEdit} {id key : String} {d : Int64} {sp sp' : Space}
    (hsp : db.space id = some sp) (honly : e.Only sp sp') :
    e.Keeps db ((db.charge key d).putSpace id sp') := by
  intro id' sp'' hsp''
  rw [Database.space_putSpace, Database.space_charge]
  split
  · rename_i hid
    subst hid
    cases hsp.symm.trans hsp''
    exact ⟨sp', rfl, honly⟩
  · exact ⟨sp'', hsp'', .refl e sp''⟩

/-- `SpaceDelete` changes nothing in a document but the status. -/
theorem spaceDelete_keeps (ask : QueryService) (fails : Nat → Bool) (ids : List String) (n : Nat)
    {id : String} {sp : Space} (hsp : db.space id = some sp) : ∃ sp', Database.space
      ((server ask).execFaulty fails (spaceDelete ids) (db, n)).2.1 id = some sp' ∧
        sp' = { sp with status := sp'.status } := by
  induction ids generalizing db n sp with
  | nil => exact ⟨sp, hsp, rfl⟩
  | cons m ids ih =>
      rcases spaceDelete_cons_spec ask fails db n m ids with
        ⟨-, heq⟩ | ⟨sp', -, -, -, n', heq⟩ | ⟨sp', -, -, -, -, heq⟩ | ⟨sp', -, hsp', -, -, heq⟩
      · exact ⟨sp, by rw [heq]; exact hsp, rfl⟩
      · rw [heq]
        exact ih n' hsp
      · refine ⟨sp, ?_, rfl⟩
        rw [heq]
        exact (Database.space_charge db _ id _).trans hsp
      · rw [heq]
        by_cases hid : id = m
        · subst hid
          cases hsp.symm.trans hsp'
          obtain ⟨sp'', hfinal, honly⟩ := ih (n + 4) (Database.space_putSpace_self _ id sp.deactivated)
          exact ⟨sp'', hfinal, honly⟩
        · exact ih (n + 4) ((space_released hid).trans hsp)

/-- **Editing one attribute keeps the others**: an operation that succeeds leaves all documents of
spaces but for its attribute, for SpaceCheck iff the space that it finds has no replicas. -/
theorem edits_keep_other_attributes (ask : QueryService) (fails : Nat → Bool) (e : SpaceEdit)
    (hkeyed : Keyed db) (hsucceeds : e.Succeeds ask fails db db') :
    e.Keeps db db' ↔ e.FindsNoReplicas ask db := by
  cases e with
  | rename id name =>
      obtain ⟨n', hexec⟩ := hsucceeds
      refine iff_of_true ?_ trivial
      rcases spaceRename_spec ask fails db 0 id name with
        ⟨r, n'', heq, -⟩ | ⟨sp, hsp, -, heq⟩
      · cases heq.symm.trans hexec
        exact fun id' sp hsp => ⟨sp, hsp, .refl _ sp⟩
      · cases heq.symm.trans hexec
        intro id' sp' hsp'
        rw [Database.space_putSpace]
        split
        · rename_i hid
          subst hid
          cases hsp.symm.trans hsp'
          exact ⟨_, rfl, rfl⟩
        · exact ⟨sp', hsp', .refl _ sp'⟩
  | sizeChange id newSize realsize =>
      obtain ⟨n', hexec⟩ := hsucceeds
      refine iff_of_true ?_ trivial
      rcases spaceSizeChange_spec ask fails db 0 id newSize realsize with
        ⟨-, r, n'', heq, -⟩ | ⟨sp, -, -, n'', heq⟩ | ⟨sp, hresizes, -, heq⟩
      · cases heq.symm.trans hexec
        exact fun id' sp hsp => ⟨sp, hsp, .refl _ sp⟩
      · exact absurd (congrArg Prod.fst (heq.symm.trans hexec)) EAGAIN_ne_zero
      · cases heq.symm.trans hexec
        exact SpaceEdit.keeps_putSpace hresizes.2.2.1 rfl
  | delete ids =>
      obtain ⟨n', hexec⟩ := hsucceeds
      refine iff_of_true (fun id sp hsp => ?_) trivial
      have hkeeps := spaceDelete_keeps ask fails ids 0 hsp
      rw [hexec] at hkeeps
      exact hkeeps
  | check info =>
      obtain ⟨id, n', hexec⟩ := hsucceeds
      rcases spaceCheck_spec ask fails db 0 info with
        ⟨-, n'', heq⟩ | ⟨row, -, -, n'', heq⟩ | ⟨row, hcharges, -, heq⟩
      · exact absurd (congrArg Prod.fst (heq.symm.trans hexec)) (by simp)
      · exact absurd (congrArg Prod.fst (heq.symm.trans hexec)) (by simp)
      · cases heq.symm.trans hexec
        obtain ⟨storage, hchosen, hrows⟩ := hcharges.2.2.1
        obtain ⟨id, sp, hsp, hrow⟩ := ask.spaces_sound db _ _ _ row (hrows ▸ List.mem_cons_self)
        have hid : row.spaceID = id := by
          rw [hrow]
          exact hkeyed id sp hsp
        have hat : db.space row.spaceID = some sp := hid ▸ hsp
        constructor
        · intro hkeeps storage' row' sp' hchosen' hrows' hsp'
          cases hchosen.symm.trans hchosen'
          cases hrows.symm.trans hrows'
          cases hat.symm.trans hsp'
          obtain ⟨sp'', hsp'', honly⟩ := hkeeps _ sp hat
          rw [Database.space_putSpace_self] at hsp''
          cases hsp''
          have hreplicas := congrArg Space.replica_spaces honly
          rw [hrow] at hreplicas
          exact hreplicas.symm
        · intro hnone
          have hreplicas := hnone storage row sp hchosen hrows hat
          refine SpaceEdit.keeps_putSpace hat ?_
          rw [hrow]
          cases sp
          cases hreplicas
          rfl

/-! ### A space that comes back into use -/

/-- The space s out of use, with a replica. -/
def unusedSpace : Space := { spaceOfFour with status := false, replica_spaces := ["x"] }

/-- The documents of the storage cluster and of this space. -/
def unusedDocuments : Database
  | .storage key => if key = "STOR-1" then some cluster else none
  | .space id => if id = "s" then some unusedSpace else none
  | .zone _ => none

/-- A query service that finds the storage cluster and the space s. -/
def spaceRows : QueryService where
  storages _ _ _ := [cluster]
  spaces db _ _ _ := ((db.space "s").map fun sp => { sp with replica_spaces := [] }).toList
  zones _ _ := some []
  spaces_sound db _ _ _ row hrow := by
    obtain ⟨sp, hsp, rfl⟩ := Option.map_eq_some_iff.mp (Option.mem_toList.mp hrow)
    exact ⟨"s", sp, hsp, rfl⟩
  zones_sound := noZones_sound

theorem keyed_unusedDocuments : Keyed unusedDocuments := by
  intro id sp hsp
  unfold Database.space unusedDocuments at hsp
  dsimp only at hsp
  split at hsp
  · rename_i hid
    cases hsp
    exact hid.symm
  · cases hsp

/-- The documents after `SpaceCheck`. -/
def checkedDocuments : Database :=
  ((server spaceRows).exec (spaceCheck unusedSpace) unusedDocuments).2

theorem check_succeeds : (SpaceEdit.check unusedSpace).Succeeds spaceRows (fun _ => false)
    unusedDocuments checkedDocuments := ⟨"s", 5, rfl⟩

theorem edits_keep_other_attributes_check :
    (SpaceEdit.check unusedSpace).Keeps unusedDocuments checkedDocuments ↔
      (SpaceEdit.check unusedSpace).FindsNoReplicas spaceRows unusedDocuments :=
  edits_keep_other_attributes spaceRows (fun _ => false) (.check unusedSpace)
    keyed_unusedDocuments check_succeeds

/-- The space loses its replica. -/
theorem check_loses_replicas :
    ¬ ∀ (ask : QueryService) (fails : Nat → Bool) (e : SpaceEdit) (db db' : Database), Keyed db →
      e.Succeeds ask fails db db' → e.Keeps db db' := by
  intro hall
  obtain ⟨sp', hsp', honly⟩ := hall spaceRows (fun _ => false) (.check unusedSpace) unusedDocuments
    checkedDocuments keyed_unusedDocuments check_succeeds "s" unusedSpace rfl
  have hfinal : checkedDocuments.space "s" = some { unusedSpace with
    status := true, replica_spaces := [] } := rfl
  cases hfinal.symm.trans hsp'
  have hreplicas : ([] : List String) = ["x"] := congrArg Space.replica_spaces honly
  cases hreplicas

end Gvds.Manager
