/-
Module: Gvds.Proofs.AccountNames
Layer: Proofs
Purpose: The entries of the map from account names to IDs and the documents of the accounts match as
  long as each registration that writes an entry gets to the account, no request changes a name, and
  no cancellation gets to its removals, which leave the entry of the account behind.
Imports: Gvds.Lib.Directory, Gvds.Lib.Machine, Gvds.Manager.UserModelServer
Trusted boundary: none
Main exports: entries, accounts, OneToOne, written, exec_register_unwritten, exec_register_written,
  Request, Keeps, names_match_accounts, renamed_by_modify
-/
import Gvds.Lib.Directory
import Gvds.Lib.Machine
import Gvds.Manager.UserModelServer

namespace Gvds.UserModel

open Manager (Bytes bytes)

/-! ### Keys -/

theorem userKey_ne_map (id : Bytes) : userPrefix ++ id ≠ userMapKey := by
  intro h
  have hhead : some 85 = userMapKey.head? := congrArg List.head? h
  exact absurd hhead (by decide)

theorem userKey_ne_adminlist (id : Bytes) : userPrefix ++ id ≠ adminlist := by
  intro h
  have hhead : some 85 = adminlist.head? := congrArg List.head? h
  exact absurd hhead (by decide)

theorem userKey_ne_sc (id id' : Bytes) : userPrefix ++ id ≠ scUserPrefix ++ id' := by
  intro h
  have hhead : some 85 = scUserPrefix.head? := congrArg List.head? h
  exact absurd hhead (by decide)

theorem map_ne_sc (id : Bytes) : userMapKey ≠ scUserPrefix ++ id := by
  intro h
  have hhead : userMapKey.head? = some 83 := congrArg List.head? h
  exact absurd hhead (by decide)

theorem adminlist_ne_map : adminlist ≠ userMapKey := by decide

/-! ### Names and accounts -/

/-- The map from account names to IDs. -/
def entries (db : Bucket) : Bytes → Option Bytes :=
  match db userMapKey with
  | some (.object members) => members
  | _ => noMembers

/-- The documents of the accounts, by their IDs. -/
def accounts (db : Bucket) : Bytes → Option Document := fun id => db (userPrefix ++ id)

/-- An entry leads from a name to an ID iff there is an account with the ID, and that has the
name. -/
def OneToOne (db : Bucket) : Prop :=
  Matched (fun doc => doc.toAccount.accountName) (fun doc => doc.toAccount.accountID) (entries db)
    (accounts db)

/-- A change of another document is none of the map. -/
theorem entries_update {db : Bucket} {key : Bytes} (hkey : key ≠ userMapKey)
    (cell : Option Document) :
    entries (Function.update db key cell) = entries db := by
  unfold entries
  rw [Function.update_of_ne hkey.symm]

@[simp] theorem entries_update_object (db : Bucket) (members : Bytes → Option Bytes) :
    entries (Function.update db userMapKey (some (.object members))) = members := by
  unfold entries
  rw [Function.update_self]

@[simp] theorem entries_update_none (db : Bucket) :
    entries (Function.update db userMapKey none) = noMembers := by
  unfold entries
  rw [Function.update_self]

/-- A change of another document is none of an account. -/
theorem accounts_update {db : Bucket} {key : Bytes} (hkey : ∀ id, userPrefix ++ id ≠ key)
    (cell : Option Document) : accounts (Function.update db key cell) = accounts db :=
  funext fun id => Function.update_of_ne (hkey id) _ _

@[simp] theorem accounts_update_user (db : Bucket) (id : Bytes) (cell : Option Document) :
    accounts (Function.update db (userPrefix ++ id) cell) =
      Function.update (accounts db) id cell := by
  funext id'
  by_cases hid : id' = id
  · rw [hid]
    simp only [accounts, Function.update_self]
  · simp only [accounts, Function.update_of_ne hid]
    exact Function.update_of_ne (mt List.append_cancel_left hid) _ _

/-! ### What a registration does -/

section Register

variable {svc : Service} {db : Bucket} {admin : Bool} {person : Account} {uuid : Bytes}

/-- The member of the map under which a registration writes its entry, if it gets to it. -/
def written (svc : Service) (db : Bucket) (accountName : Bytes) : Option Bytes :=
  match svc.subPath accountName, db userMapKey with
  | .member name, none => some name
  | .member name, some (.object members) => if members name = none then some name else none
  | _, _ => none

/-- The list of administrators takes a new ID. -/
def Enlists (db : Bucket) (uuid : Bytes) : Prop :=
  ∃ namelist, db adminlist = some (.adminList namelist) ∧ uuid ∉ namelist

/-- The bucket with a new entry in the map. -/
def withEntry (db : Bucket) (name uuid : Bytes) : Bucket :=
  Function.update db userMapKey (some (.object (Function.update (entries db) name (some uuid))))

theorem written_spec {accountName name : Bytes} (h : written svc db accountName = some name) :
    svc.subPath accountName = .member name ∧ entries db name = none ∧
      (db userMapKey = none ∨ ∃ members, db userMapKey = some (.object members)) := by
  unfold written at h
  unfold entries
  split at h
  · rename_i hpath hmap
    cases h
    rw [hmap]
    exact ⟨hpath, rfl, .inl rfl⟩
  · rename_i members hpath hmap
    split at h
    · rename_i hnone
      cases h
      rw [hmap]
      exact ⟨hpath, hnone, .inr ⟨members, rfl⟩⟩
    · cases h
  · cases h

/-- What stands in the map under a name. -/
theorem getMember_eq {accountName name : Bytes} (hpath : svc.subPath accountName = .member name) :
    getMember svc accountName (db userMapKey) = entries db name := by
  unfold entries
  cases db userMapKey with
  | none => rfl
  | some doc =>
      cases doc with
      | object members => simp [getMember, hpath]
      | _ => rfl

/-- The entry gets written. -/
theorem exec_setEntry (uuid : Bytes) {accountName name : Bytes}
    (h : written svc db accountName = some name) :
    (server svc).exec (setEntry accountName uuid) db = (.success, withEntry db name uuid) := by
  unfold setEntry withEntry entries
  obtain ⟨hpath, -, hmap | ⟨members, hmap⟩⟩ := written_spec h <;>
    simp [setStatus, hpath, hmap, Document.setMember]

/-- A registration that gets to its entry goes on with `enlist`. -/
theorem exec_register_written {name : Bytes} (h : written svc db person.accountName = some name) :
    (server svc).exec (register admin person uuid) db =
      (server svc).exec (do
        if ← enlist admin uuid then
          if ← .perform (.set (userPrefix ++ uuid) (.account { person with accountID := uuid })) then
            pure (.success person.accountName)
          else pure .fail
        else pure .fail) (withEntry db name uuid) := by
  have hset := exec_setEntry uuid h
  obtain ⟨hpath, hnone, -⟩ := written_spec h
  have hget : getMember svc person.accountName (db userMapKey) = none :=
    (getMember_eq hpath).trans hnone
  unfold register
  simp [hget, hset]

/-- It succeeds if the list of administrators takes the account. -/
theorem register_success {name : Bytes} (h : written svc db person.accountName = some name)
    (hadmin : admin = true → Enlists db uuid) :
    ∃ db' : Bucket, (server svc).exec (register admin person uuid) db =
        (.success person.accountName, db') ∧
      entries db' = Function.update (entries db) name (some uuid) ∧
      accounts db' = Function.update (accounts db) uuid
        (some (.account { person with accountID := uuid })) := by
  have hlist : withEntry db name uuid adminlist = db adminlist :=
    Function.update_of_ne adminlist_ne_map _ _
  have hentries : entries (withEntry db name uuid) = Function.update (entries db) name (some uuid) :=
    entries_update_object _ _
  have haccounts : accounts (withEntry db name uuid) = accounts db :=
    accounts_update userKey_ne_map _
  rw [exec_register_written h]
  cases admin with
  | false =>
      refine ⟨_, rfl, ?_, ?_⟩
      · exact (entries_update (userKey_ne_map uuid) _).trans hentries
      · exact (accounts_update_user _ uuid _).trans (by rw [haccounts])
  | true =>
      obtain ⟨namelist, hnamelist, hnew⟩ := hadmin rfl
      refine ⟨_, by simp [enlist, hlist, hnamelist, insertsUniq, hnew]; rfl, ?_, ?_⟩
      · rw [entries_update (userKey_ne_map uuid), entries_update adminlist_ne_map, hentries]
      · rw [accounts_update_user, accounts_update userKey_ne_adminlist, haccounts]

/-- It fails otherwise, and leaves its entry behind. -/
theorem register_fail {name : Bytes} (h : written svc db person.accountName = some name)
    (hadmin : ¬ (admin = true → Enlists db uuid)) :
    ∃ db' : Bucket, (server svc).exec (register admin person uuid) db = (.fail, db') ∧
      entries db' = Function.update (entries db) name (some uuid) ∧ accounts db' = accounts db := by
  have hlist : withEntry db name uuid adminlist = db adminlist :=
    Function.update_of_ne adminlist_ne_map _ _
  obtain ⟨rfl, hnot⟩ := Classical.not_imp.1 hadmin
  have hanswer : insertsUniq uuid (db adminlist) = false := by
    unfold insertsUniq
    split
    · rename_i namelist hnamelist
      exact decide_eq_false fun hnew => hnot ⟨namelist, hnamelist, hnew⟩
    · rfl
  rw [exec_register_written h]
  refine ⟨_, by simp [enlist, hlist, hanswer]; rfl, ?_, ?_⟩
  · rw [entries_update adminlist_ne_map]
    exact entries_update_object _ _
  · rw [accounts_update userKey_ne_adminlist]
    exact accounts_update userKey_ne_map _

/-- What keeps a registration from its entry. -/
theorem unwritten_cases {accountName : Bytes} (h : written svc db accountName = none) :
    (∃ id, getMember svc accountName (db userMapKey) = some id) ∨
      getMember svc accountName (db userMapKey) = none ∧
        setStatus svc accountName (db userMapKey) = .failed ∨
      db userMapKey = none ∧ svc.subPath accountName = .nested := by
  unfold written at h
  cases hpath : svc.subPath accountName with
  | member name =>
      cases hmap : db userMapKey with
      | none => simp [hpath, hmap] at h
      | some doc =>
          cases doc with
          | object members =>
              cases hname : members name with
              | none => simp [hpath, hmap, hname] at h
              | some id => exact .inl ⟨id, by simp [getMember, hpath, hname]⟩
          | _ => exact .inr (.inl ⟨rfl, by simp [setStatus, hpath]⟩)
  | nested =>
      cases hmap : db userMapKey with
      | none => exact .inr (.inr ⟨rfl, rfl⟩)
      | some doc =>
          cases doc with
          | object members =>
              exact .inr (.inl ⟨by simp [getMember, hpath], by simp [setStatus, hpath]⟩)
          | _ => exact .inr (.inl ⟨rfl, by simp [setStatus, hpath]⟩)
  | invalid =>
      refine .inr (.inl ⟨?_, by simp [setStatus, hpath]⟩)
      unfold getMember
      split
      · rw [hpath]
      · rfl

/-- A member that cannot be put leaves the document as it is. -/
theorem setMember_of_failed {path value : Bytes} {cell : Option Document}
    (h : setStatus svc path cell = .failed) :
    cell.map (fun doc => doc.setMember svc path value) = cell := by
  cases cell with
  | none => rfl
  | some doc =>
      cases doc with
      | object members =>
          cases hpath : svc.subPath path with
          | member name => simp [setStatus, hpath] at h
          | nested => simp [Document.setMember, hpath]
          | invalid => simp [Document.setMember, hpath]
      | _ => rfl

theorem exec_setEntry_failed {accountName : Bytes}
    (h : setStatus svc accountName (db userMapKey) = .failed) :
    (server svc).exec (setEntry accountName uuid) db = (.failed, db) := by
  unfold setEntry
  simp [h, setMember_of_failed h]

/-- A registration that does not get to its entry changes neither entries nor accounts. -/
theorem register_unwritten (admin : Bool) (uuid : Bytes)
    (h : written svc db person.accountName = none) :
    ∃ reply, ∃ db' : Bucket,
      (server svc).exec (register admin person uuid) db = (reply, db') ∧
      (∀ name, reply ≠ .success name) ∧ entries db' = entries db ∧ accounts db' = accounts db := by
  unfold register
  rcases unwritten_cases h with ⟨id, hget⟩ | ⟨hget, hstatus⟩ | ⟨hmap, hpath⟩
  · exact ⟨.nameExists, db, by simp [hget], by simp, rfl, rfl⟩
  · exact ⟨.fail, db, by simp [hget, exec_setEntry_failed hstatus], by simp, rfl, rfl⟩
  · refine ⟨.fail, Function.update db userMapKey (some (.object noMembers)), ?_, by simp, ?_,
      accounts_update userKey_ne_map _⟩
    · simp [getMember, setEntry, setStatus, hmap, hpath, Document.setMember]
    · rw [entries_update_object]
      unfold entries
      rw [hmap]

end Register

/-! ### What a cancellation does -/

section Cancellation

variable {svc : Service} {db : Bucket} {uuid : Bytes} {doc : Document}

/-- A cancellation of the account gets to the removal of the document whose key is the name. -/
structure RemovesName (svc : Service) (db : Bucket) (uuid : Bytes) (doc : Document) : Prop where
  account : accounts db uuid = some doc
  noZones : svc.zones db (cancelQuery svc.bucket uuid) = 0
  mapped : (db (scUserPrefix ++ uuid)).isSome
  other : doc.toAccount.accountName ≠ scUserPrefix ++ uuid
  named : (db doc.toAccount.accountName).isSome

/-- The bucket once the accounts of a user in the centers are removed. -/
def withoutCenters (db : Bucket) (uuid : Bytes) : Bucket :=
  Function.update db (scUserPrefix ++ uuid) none

theorem entries_withoutCenters : entries (withoutCenters db uuid) = entries db :=
  entries_update (map_ne_sc uuid).symm none

theorem accounts_withoutCenters : accounts (withoutCenters db uuid) = accounts db :=
  accounts_update (fun id => userKey_ne_sc id uuid) none

/-- The removals of a cancellation after its first one. -/
theorem exec_cancellation (hdoc : accounts db uuid = some doc)
    (hzones : svc.zones db (cancelQuery svc.bucket uuid) = 0)
    (hmapped : (db (scUserPrefix ++ uuid)).isSome) :
    (server svc).exec (cancellationUserAccount svc uuid) db = (server svc).exec (do
        if ← .perform (.remove doc.toAccount.accountName) then
          if ← .perform (.remove (userPrefix ++ uuid)) then pure 0 else pure (-1)
        else pure (-1)) (withoutCenters db uuid) := by
  have hdoc' : db (userPrefix ++ uuid) = some doc := hdoc
  unfold cancellationUserAccount
  simp [hdoc', hzones, hmapped, withoutCenters]

/-- A cancellation that does not get to the name removes nothing else. -/
theorem cancellation_keeps (h : ∀ doc, ¬ RemovesName svc db uuid doc) :
    ((server svc).exec (cancellationUserAccount svc uuid) db).2 = db ∨
      ((server svc).exec (cancellationUserAccount svc uuid) db).2 = withoutCenters db uuid := by
  cases hdoc : db (userPrefix ++ uuid) with
  | none => exact .inl (by simp [cancellationUserAccount, hdoc])
  | some doc =>
      by_cases hzones : svc.zones db (cancelQuery svc.bucket uuid) = 0
      · by_cases hmapped : (db (scUserPrefix ++ uuid)).isSome
        · have hgone : withoutCenters db uuid doc.toAccount.accountName = none := by
            unfold withoutCenters
            by_cases hname : doc.toAccount.accountName = scUserPrefix ++ uuid
            · rw [hname, Function.update_self]
            · rw [Function.update_of_ne hname]
              by_contra hsome
              exact h doc ⟨hdoc, hzones, hmapped, hname, Option.isSome_iff_ne_none.2 hsome⟩
          have hsame : Function.update (withoutCenters db uuid) doc.toAccount.accountName none =
              withoutCenters db uuid := Function.update_eq_self_iff.2 hgone.symm
          rw [exec_cancellation hdoc hzones hmapped]
          exact .inr (by simp [hgone, hsame])
        · have hnone : db (scUserPrefix ++ uuid) = none := Option.not_isSome_iff_eq_none.1 hmapped
          exact .inr (by simp [cancellationUserAccount, hdoc, hzones, hnone, withoutCenters])
      · exact .inl (by simp [cancellationUserAccount, hdoc, hzones])

/-- One that gets there removes what stands under the name, and the account. -/
theorem cancellation_removes (h : RemovesName svc db uuid doc) :
    ((server svc).exec (cancellationUserAccount svc uuid) db).2 =
      Function.update (Function.update (withoutCenters db uuid) doc.toAccount.accountName none)
        (userPrefix ++ uuid) none := by
  have hnamed : (withoutCenters db uuid doc.toAccount.accountName).isSome := by
    unfold withoutCenters
    rw [Function.update_of_ne h.other]
    exact h.named
  have hremoved : ((server svc).exec (.perform (.remove doc.toAccount.accountName))
      (withoutCenters db uuid)).1 = true := hnamed
  rw [exec_cancellation h.account h.noZones h.mapped, Server.exec_bind, Server.exec_ite,
    if_pos hremoved, Server.exec_bind, Server.exec_ite]
  -- the account itself may be what was removed under the name
  split <;> rfl

end Cancellation

/-! ### Requests -/

/-- The requests on accounts, with what is input of them. -/
inductive Request where
  | userRegister (person : Account) (uuid : Bytes)
  | adminUserRegister (person : Account) (uuid : Bytes)
  | modifyUserinfo (person : Account)
  | cancellationUserAccount (uuid : Bytes)

/-- No account and no administrator has the ID. -/
def FreshID (db : Bucket) (uuid : Bytes) : Prop :=
  (accounts db uuid).isNone ∧ ∀ doc ∈ db adminlist, uuid ∉ doc.toNamelist

instance (db : Bucket) (uuid : Bytes) : Decidable (FreshID db uuid) :=
  inferInstanceAs (Decidable (_ ∧ _))

/-- The UUID that a request draws is new. -/
def Request.Fresh (db : Bucket) : Request → Prop
  | .userRegister _ uuid => FreshID db uuid
  | .adminUserRegister _ uuid => FreshID db uuid
  | .modifyUserinfo _ => True
  | .cancellationUserAccount _ => True

instance (db : Bucket) (r : Request) : Decidable (r.Fresh db) := by
  cases r <;> unfold Request.Fresh <;> infer_instance

/-- The bucket after a request, with every call succeeding. -/
def Request.exec (svc : Service) (db : Bucket) : Request → Bucket
  | .userRegister person uuid => ((server svc).exec (UserModel.userRegister person uuid) db).2
  | .adminUserRegister person uuid =>
      ((server svc).exec (UserModel.adminUserRegister person uuid) db).2
  | .modifyUserinfo person => ((server svc).exec (UserModel.modifyUserinfo person) db).2
  | .cancellationUserAccount uuid =>
      ((server svc).exec (UserModel.cancellationUserAccount svc uuid) db).2

/-- The manager executes one request. -/
def step (svc : Service) (db : Bucket) (r : Request) : Option Bucket :=
  if r.Fresh db then some (r.exec svc db) else none

/-- A registration that writes an entry writes it under the name itself, and an administrator gets
into the list. -/
def Registers (svc : Service) (db : Bucket) (admin : Bool) (person : Account) : Prop :=
  ∀ name, written svc db person.accountName = some name → name = person.accountName ∧
    (admin = true → ∃ namelist, db adminlist = some (.adminList namelist))

/-- What a request must do for names and accounts to match: a registration gets from its entry to
the account; a modification is of an account, and leaves its name; a cancellation does not get to
the removal of the document under the name, or that is the map of a single account. -/
def Request.Keeps (svc : Service) (db : Bucket) : Request → Prop
  | .userRegister person _ => Registers svc db false person
  | .adminUserRegister person _ => Registers svc db true person
  | .modifyUserinfo person => ∃ doc, accounts db person.accountID = some doc ∧
      doc.toAccount.accountName = person.accountName
  | .cancellationUserAccount uuid => ∀ doc, RemovesName svc db uuid doc →
      doc.toAccount.accountName = userMapKey ∧ ∀ id ≠ uuid, accounts db id = none

/-! ### One request -/

section Step

variable {svc : Service} {db : Bucket}

/-- The list of administrators takes a new ID if it is there. -/
theorem enlists_iff {uuid : Bytes} (hfresh : FreshID db uuid) :
    Enlists db uuid ↔ ∃ namelist, db adminlist = some (.adminList namelist) :=
  ⟨fun ⟨namelist, hlist, _⟩ => ⟨namelist, hlist⟩,
    fun ⟨namelist, hlist⟩ => ⟨namelist, hlist, hfresh.2 _ hlist⟩⟩

theorem oneToOne_register {admin : Bool} {person : Account} {uuid : Bytes} (h : OneToOne db)
    (hfresh : FreshID db uuid) :
    OneToOne ((server svc).exec (register admin person uuid) db).2 ↔
      Registers svc db admin person := by
  have hnew : accounts db uuid = none := Option.isNone_iff_eq_none.1 hfresh.1
  unfold OneToOne Registers
  cases hwritten : written svc db person.accountName with
  | none =>
      obtain ⟨reply, db', hexec, -, hentries, haccounts⟩ :=
        register_unwritten admin uuid hwritten
      rw [hexec, hentries, haccounts]
      exact ⟨fun _ name hname => absurd hname (by simp), fun _ => h⟩
  | some name =>
      obtain ⟨-, hname, -⟩ := written_spec hwritten
      by_cases hadmin : admin = true → Enlists db uuid
      · obtain ⟨db', hexec, hentries, haccounts⟩ := register_success hwritten hadmin
        rw [hexec, hentries, haccounts, h.insert_iff hname hnew]
        constructor
        · rintro ⟨hsame, -⟩ _ ⟨⟩
          exact ⟨hsame.symm, fun htrue => (enlists_iff hfresh).1 (hadmin htrue)⟩
        · intro hregisters
          exact ⟨(hregisters name rfl).1.symm, rfl⟩
      · obtain ⟨db', hexec, hentries, haccounts⟩ := register_fail hwritten hadmin
        rw [hexec, hentries, haccounts]
        constructor
        · intro hmatched
          exact absurd (Function.update_self name _ _) (hmatched.entry_ne hnew)
        · intro hregisters
          exact absurd (fun htrue => (enlists_iff hfresh).2 ((hregisters name rfl).2 htrue)) hadmin

theorem oneToOne_modify {person : Account} (h : OneToOne db) :
    OneToOne ((server svc).exec (modifyUserinfo person) db).2 ↔
      ∃ doc, accounts db person.accountID = some doc ∧
        doc.toAccount.accountName = person.accountName := by
  unfold OneToOne modifyUserinfo
  rw [Server.exec_perform, after_set, entries_update (userKey_ne_map _), accounts_update_user,
    h.replace_iff]
  exact and_iff_right rfl

theorem oneToOne_cancellation {uuid : Bytes} (h : OneToOne db) :
    OneToOne ((server svc).exec (cancellationUserAccount svc uuid) db).2 ↔
      ∀ doc, RemovesName svc db uuid doc →
        doc.toAccount.accountName = userMapKey ∧ ∀ id ≠ uuid, accounts db id = none := by
  by_cases hremoves : ∃ doc, RemovesName svc db uuid doc
  · obtain ⟨doc, hdoc⟩ := hremoves
    have hall : (∀ doc', RemovesName svc db uuid doc' → doc'.toAccount.accountName = userMapKey ∧
        ∀ id ≠ uuid, accounts db id = none) ↔
        doc.toAccount.accountName = userMapKey ∧ ∀ id ≠ uuid, accounts db id = none := by
      refine ⟨fun hall => hall doc hdoc, fun hkeeps doc' hdoc' => ?_⟩
      obtain rfl := Option.some.inj (hdoc.account.symm.trans hdoc'.account)
      exact hkeeps
    unfold OneToOne
    rw [hall, cancellation_removes hdoc, entries_update (userKey_ne_map uuid), accounts_update_user]
    by_cases hname : doc.toAccount.accountName = userMapKey
    · rw [hname, entries_update_none, accounts_update userKey_ne_map, accounts_withoutCenters]
      exact Matched.clear_iff.trans (and_iff_right rfl).symm
    · rw [entries_update hname, entries_withoutCenters]
      constructor
      · intro hmatched
        exact absurd (h.entry_of_record hdoc.account)
          (hmatched.entry_ne (Function.update_self uuid _ _))
      · rintro ⟨hmap, -⟩
        exact absurd hmap hname
  · have hnone : ∀ doc, ¬ RemovesName svc db uuid doc := fun doc hdoc => hremoves ⟨doc, hdoc⟩
    refine ⟨fun _ doc hdoc => absurd hdoc (hnone doc), fun _ => ?_⟩
    unfold OneToOne
    rcases cancellation_keeps hnone with hexec | hexec
    · rwa [hexec]
    · rwa [hexec, entries_withoutCenters, accounts_withoutCenters]

/-- A request keeps names and accounts matched iff it does what it must. -/
theorem oneToOne_exec {r : Request} (h : OneToOne db) (hfresh : r.Fresh db) :
    OneToOne (r.exec svc db) ↔ r.Keeps svc db := by
  cases r with
  | userRegister person uuid => exact oneToOne_register h hfresh
  | adminUserRegister person uuid => exact oneToOne_register h hfresh
  | modifyUserinfo person => exact oneToOne_modify h
  | cancellationUserAccount uuid => exact oneToOne_cancellation h

end Step

/-! ### Runs -/

/-- **Account names and accounts correspond one to one** in all states of a run iff all requests of
the run do what they must. -/
theorem names_match_accounts (svc : Service) {db : Bucket} (h : OneToOne db) (rs : List Request) :
    Machine.Always (step svc) OneToOne db rs ↔
      Machine.Guarded (step svc) (fun db r => r.Fresh db → r.Keeps svc db) db rs := by
  have hinv : ∀ db r db', True → step svc db r = some db' → True := fun _ _ _ _ _ => trivial
  refine Machine.always_iff_guarded hinv ?_ ?_ trivial h
  · intro db r db' _ hmatched hstep
    unfold step at hstep
    split at hstep
    · rename_i hfresh
      cases hstep
      rw [oneToOne_exec hmatched hfresh]
      exact ⟨fun hkeeps _ => hkeeps, fun hkeeps => hkeeps hfresh⟩
    · cases hstep
  · intro db r hstep hfresh
    simp [step, hfresh] at hstep

/-! ### A name changed by its user -/

/-- A datastore in which the names of the accounts below are members, with no zones in it. -/
def noZoneService : Service where
  bucket := bytes "test"
  subPath := .member
  zones _ _ := 0
  accountInfo _ := false

/-- A bucket without documents. -/
def emptyBucket : Bucket := fun _ => none

/-- A bucket with a map without entries. -/
def emptyMap : Bucket := Function.update emptyBucket userMapKey (some (.object noMembers))

theorem oneToOne_emptyBucket : OneToOne emptyBucket where
  listed _ := ⟨fun ⟨_, h⟩ => (by cases h), fun h => (by cases h)⟩
  agrees _ _ _ h _ := by cases h

/-- The account of the user a. -/
def personA : Account := { accountName := [97], Password := [112] }

theorem names_match_accounts_register :
    Machine.Always (step noZoneService) OneToOne emptyBucket [.userRegister personA [49]] ↔
      Machine.Guarded (step noZoneService) (fun db r => r.Fresh db → r.Keeps noZoneService db)
        emptyBucket [.userRegister personA [49]] :=
  names_match_accounts noZoneService oneToOne_emptyBucket _

/-- The user a takes the name b: the entry still has the name a. -/
theorem renamed_by_modify :
    ¬ ∀ (svc : Service) (db : Bucket) (rs : List Request), OneToOne db →
      Machine.Always (step svc) OneToOne db rs := by
  intro hall
  have halways := hall noZoneService emptyBucket
    [.userRegister personA [49], .modifyUserinfo { accountName := [98], accountID := [49] }]
    oneToOne_emptyBucket
  have hmatched := (halways.2 _ rfl).2 _ rfl
  obtain ⟨hname, -⟩ := hmatched.agrees [97] [49]
    (.account { accountName := [98], accountID := [49] }) rfl rfl
  exact absurd hname (by decide)

end Gvds.UserModel
