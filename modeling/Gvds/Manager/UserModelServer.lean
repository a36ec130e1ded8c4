/-
Module: Gvds.Manager.UserModelServer
Layer: Manager
Purpose: The operations of UserModelServer (manager/usermodel/UserModelServer.cc) on accounts and
  session tokens, as programs of datastore calls in the order of the source. Accounts, the map from
  their names to their IDs, tokens and all other documents of the manager share one bucket.
Imports: Gvds.Lib.Program, Gvds.Manager.ZoneServer
Trusted boundary: Couchbase as in Gvds.Manager.Documents; upsert_sub puts a member into a JSON
  object, arr_insert_uniq appends a value that is not there yet. JSON is read back as it was
  written. Fresh UUIDs and the cookie of a request are input
Main exports: Account, Document, Bucket, Service, Call, server, userRegister, adminUserRegister,
  userLogin, userLoginRest, modifyUserinfo, exitUserAccount, cancellationUserAccount, authToken
-/
import Gvds.Lib.Program
import Gvds.Manager.ZoneServer

namespace Gvds.UserModel

open Manager (Bytes bytes cstr)

/-! ### Documents -/

/-- `Account`. -/
structure Account where
  accountName : Bytes := []
  Password : Bytes := []
  accountID : Bytes := []
  accountEmail : Bytes := []
  accountPhone : Bytes := []
  accountAddress : Bytes := []
  Department : Bytes := []
deriving DecidableEq

/-- The documents of the bucket. The members of an object are what they read as when they are
decoded as strings: one that is none reads as empty. -/
inductive Document where
  | object (members : Bytes → Option Bytes)
  | adminList (namelist : List Bytes)
  | account (account : Account)
  | token
  | other

/-- What stands under a key. -/
abbrev Cell (_ : Bytes) : Type := Option Document

/-- The bucket that the manager is configured with. -/
abbrev Bucket := ∀ key, Cell key

/-- `Account::deserialize`: what is not there keeps its default. -/
def Document.toAccount : Document → Account
  | .account a => a
  | .object members =>
      { accountName := (members (bytes "GVDSAccountName")).getD []
        Password := (members (bytes "GVDSPassword")).getD []
        accountID := (members (bytes "GVDSAccountID")).getD []
        accountEmail := (members (bytes "AccountEMAIL")).getD []
        accountPhone := (members (bytes "AccountPHONE")).getD []
        accountAddress := (members (bytes "AccountAddress")).getD []
        Department := (members (bytes "Department")).getD [] }
  | .adminList _ => {}
  | .token => {}
  | .other => {}

/-- `struct_AdminList::deserialize`. -/
def Document.toNamelist : Document → List Bytes
  | .adminList namelist => namelist
  | .object _ => []
  | .account _ => []
  | .token => []
  | .other => []

/-- The key of the map from account names to IDs. -/
def userMapKey : Bytes := bytes ".USER_UUID_MAP"

/-- `adminlist`. -/
def adminlist : Bytes := bytes "adminwhitelist"

/-- `user_prefix`. -/
def userPrefix : Bytes := bytes "USER-"

/-- `sc_user_prefix`. -/
def scUserPrefix : Bytes := bytes "SCUSER-"

/-- The object `{}`. -/
def noMembers : Bytes → Option Bytes := fun _ => none

/-! ### Calls -/

/-- What a sub-document path leads to: a member of the object itself, something inside a member, or
nothing, if it is no path. -/
inductive SubPath where
  | member (name : Bytes)
  | nested
  | invalid
deriving DecidableEq

/-- The error codes that `UserRegister` tells apart; `keyEnoent` is 13. -/
inductive Status where
  | success
  | keyEnoent
  | failed
deriving DecidableEq

/-- The calls on the datastore. `none` and `false` stand for an error code. -/
inductive Call : Type → Type where
  | get (key : Bytes) : Call (Option Document)
  | getSub (key path : Bytes) : Call (Option Bytes)
  | set (key : Bytes) (doc : Document) : Call Bool
  | setSub (key path value : Bytes) : Call Status
  | remove (key : Bytes) : Call Bool
  | arrInsertUniq (key value : Bytes) : Call Bool
  | queryZones (text : Bytes) : Call Nat
  | getAccountInfo (key : Bytes) : Call Bool

/-- The datastore and its configuration: `manager.bucket`, how it reads sub-document paths, the
number of rows that it returns for a query, and, where that is another bucket, whether the bucket
`account_info` has a document with a key. -/
structure Service where
  bucket : Bytes
  subPath : Bytes → SubPath
  zones : Bucket → Bytes → Nat
  accountInfo : Bytes → Bool

/-- The answer of `get_sub`. No member has members of its own, so a nested path leads to nothing. -/
def getMember (svc : Service) (path : Bytes) : Option Document → Option Bytes
  | some (.object members) =>
      match svc.subPath path with
      | .member name => members name
      | .nested => none
      | .invalid => none
  | _ => none

/-- The answer of `upsert_sub`. -/
def setStatus (svc : Service) (path : Bytes) (cell : Option Document) : Status :=
  match svc.subPath path, cell with
  | .invalid, _ => .failed
  | _, none => .keyEnoent
  | .member _, some (.object _) => .success
  | _, some _ => .failed

/-- `upsert_sub` on a document. -/
def Document.setMember (svc : Service) (path value : Bytes) : Document → Document
  | .object members =>
      match svc.subPath path with
      | .member name => .object (Function.update members name (some value))
      | .nested => .object members
      | .invalid => .object members
  | doc => doc

/-- The answer of `arr_insert_uniq`. -/
def insertsUniq (value : Bytes) : Option Document → Bool
  | some (.adminList namelist) => value ∉ namelist
  | _ => false

/-- `arr_insert_uniq` on a document. -/
def Document.insertUniq (value : Bytes) : Document → Document
  | .adminList namelist =>
      if value ∈ namelist then .adminList namelist else .adminList (namelist ++ [value])
  | doc => doc

/-- The datastore as a server. -/
def server (svc : Service) : Server Call Bytes Cell where
  answer
    | .get key, db => db key
    | .getSub key path, db => getMember svc path (db key)
    | .set _ _, _ => true
    | .setSub key path _, db => setStatus svc path (db key)
    | .remove key, db => (db key).isSome
    | .arrInsertUniq key value, db => insertsUniq value (db key)
    | .queryZones text, db => svc.zones db text
    | .getAccountInfo key, db =>
        if svc.bucket = bytes "account_info" then (db key).isSome else svc.accountInfo key
  write
    | .set key doc => some ⟨key, fun _ => some doc⟩
    | .setSub key path value => some ⟨key, Option.map fun doc => doc.setMember svc path value⟩
    | .remove key => some ⟨key, fun _ => none⟩
    | .arrInsertUniq key value => some ⟨key, Option.map fun doc => doc.insertUniq value⟩
    | .get _ => none
    | .getSub _ _ => none
    | .queryZones _ => none
    | .getAccountInfo _ => none
  failed
    | .get _ => none
    | .getSub _ _ => none
    | .set _ _ => false
    | .setSub _ _ _ => .failed
    | .remove _ => false
    | .arrInsertUniq _ _ => false
    | .queryZones _ => 0
    | .getAccountInfo _ => false

section Calls

variable (svc : Service) (db : Bucket) (key path value text : Bytes) (doc : Document)

@[simp] theorem answer_get : (server svc).answer (.get key) db = db key := rfl

@[simp] theorem after_get : (server svc).after (.get key) db = db := rfl

@[simp] theorem answer_getSub :
    (server svc).answer (.getSub key path) db = getMember svc path (db key) := rfl

@[simp] theorem after_getSub : (server svc).after (.getSub key path) db = db := rfl

@[simp] theorem answer_set : (server svc).answer (.set key doc) db = true := rfl

@[simp] theorem after_set :
    (server svc).after (.set key doc) db = Function.update db key (some doc) := rfl

@[simp] theorem answer_setSub :
    (server svc).answer (.setSub key path value) db = setStatus svc path (db key) := rfl

@[simp] theorem after_setSub : (server svc).after (.setSub key path value) db =
    Function.update db key ((db key).map fun doc => doc.setMember svc path value) := rfl

@[simp] theorem answer_remove : (server svc).answer (.remove key) db = (db key).isSome := rfl

@[simp] theorem after_remove : (server svc).after (.remove key) db = Function.update db key none :=
  rfl

@[simp] theorem answer_arrInsertUniq :
    (server svc).answer (.arrInsertUniq key value) db = insertsUniq value (db key) := rfl

@[simp] theorem after_arrInsertUniq : (server svc).after (.arrInsertUniq key value) db =
    Function.update db key ((db key).map fun doc => doc.insertUniq value) := rfl

@[simp] theorem answer_queryZones :
    (server svc).answer (.queryZones text) db = svc.zones db text := rfl

@[simp] theorem after_queryZones : (server svc).after (.queryZones text) db = db := rfl

@[simp] theorem answer_getAccountInfo : (server svc).answer (.getAccountInfo key) db =
    if svc.bucket = bytes "account_info" then (db key).isSome else svc.accountInfo key := rfl

@[simp] theorem after_getAccountInfo : (server svc).after (.getAccountInfo key) db = db := rfl

end Calls

/-! ### Registration and login -/

/-- What a registration returns. -/
inductive Reply where
  | nameExists
  | fail
  | success (accountName : Bytes)
deriving DecidableEq

/-- The text of a reply. -/
def Reply.text : Reply → Bytes
  | .nameExists => bytes "Account name already exists!"
  | .fail => bytes "Registration fail"
  | .success accountName => bytes "Dear:" ++ accountName ++ bytes ", registration success"

/-- The entry of a name is written; where the map is missing it is created, and the entry written
again. -/
def setEntry (accountName accountID : Bytes) : Program Call Status := do
  match ← .perform (.setSub userMapKey accountName accountID) with
  | .keyEnoent =>
      let _ ← .perform (.set userMapKey (.object noMembers))
      .perform (.setSub userMapKey accountName accountID)
  | .success => pure .success
  | .failed => pure .failed

/-- The entry of an administrator in `adminwhitelist`. Other accounts have none. -/
def enlist (admin : Bool) (accountID : Bytes) : Program Call Bool :=
  if admin then .perform (.arrInsertUniq adminlist accountID) else pure true

/-- The registration of an account, which differs by `enlist` for administrators. -/
def register (admin : Bool) (person : Account) (uuid : Bytes) : Program Call Reply := do
  match ← .perform (.getSub userMapKey person.accountName) with
  | some _ => pure .nameExists
  | none =>
      if (← setEntry person.accountName uuid) ≠ .success then pure .fail
      else if ← enlist admin uuid then
        if ← .perform (.set (userPrefix ++ uuid) (.account { person with accountID := uuid })) then
          pure (.success person.accountName)
        else pure .fail
      else pure .fail

/-- `UserRegister`. -/
def userRegister (person : Account) (uuid : Bytes) : Program Call Reply :=
  register false person uuid

/-- `AdminUserRegister`. -/
def adminUserRegister (person : Account) (uuid : Bytes) : Program Call Reply :=
  register true person uuid

/-- `validadminidentity`. -/
def validadminidentity (gvdsID : Bytes) : Program Call Bool := do
  match ← .perform (.get adminlist) with
  | none => pure false
  | some doc => pure (gvdsID ∈ doc.toNamelist)

/-- `UserLogin`: the ID of the account, and whether it is that of an administrator. -/
def userLogin (account pass : Bytes) : Program Call (Option (Bytes × Bool)) := do
  match ← .perform (.getSub userMapKey account) with
  | none => pure none
  | some key =>
      let identity ← validadminidentity key
      match ← .perform (.get (userPrefix ++ key)) with
      | none => pure none
      | some doc => if pass = doc.toAccount.Password then pure (some (key, identity)) else pure none

/-- `UserLoginRest`: the token that goes into the cookie, with the ID and the identity; `none` is
the reply "-1". -/
def userLoginRest (md5 : Bytes → Bytes) (accountName Password : Bytes) :
    Program Call (Option (Bytes × Bytes × Bool)) := do
  match ← userLogin accountName Password with
  | none => pure none
  | some (userID, identity) =>
      let mtoken := md5 (accountName ++ Password)
      if ← .perform (.set mtoken .token) then pure (some (mtoken, userID, identity)) else pure none

/-! ### Changes of accounts -/

/-- `modifyUserinfo`: whether it replies "Modify success". It takes the ID from the client. -/
def modifyUserinfo (person : Account) : Program Call Bool :=
  .perform (.set (userPrefix ++ person.accountID) (.account person))

/-- The query for the zones of an owner, as `snprintf` leaves it in its buffer of 256 bytes. -/
def cancelQuery (bucket ownerID : Bytes) : Bytes :=
  (bytes "select * from `" ++ cstr bucket ++ bytes "` where owner = \"" ++ cstr ownerID ++
    bytes "\"").take 255

/-- `cancellationUserAccount`: 0 for its success, else the code that it replies. It removes the
document whose key is the name of the account. -/
def cancellationUserAccount (svc : Service) (uuid : Bytes) : Program Call Int := do
  match ← .perform (.get (userPrefix ++ uuid)) with
  | none => pure (-1)
  | some doc =>
      if (← .perform (.queryZones (cancelQuery svc.bucket uuid))) ≠ 0 then pure (-2)
      else if ← .perform (.remove (scUserPrefix ++ uuid)) then
        if ← .perform (.remove doc.toAccount.accountName) then
          if ← .perform (.remove (userPrefix ++ uuid)) then pure 0 else pure (-1)
        else pure (-1)
      else pure (-1)

/-! ### Tokens -/

/-- `exitUserAccount`, with `is_exit_success`, which is true in any case. -/
def exitUserAccount (mtoken : Bytes) : Program Call (Bytes × Bool) := do
  if ← .perform (.remove mtoken) then pure (bytes "Eixt success", true)
  else pure (bytes "-1", true)

/-- `auth_token`. It looks into the bucket `account_info`. -/
def authToken (mtoken : Bytes) : Program Call Bool := .perform (.getAccountInfo mtoken)

/-! ### Requests that change other documents -/

/-- The prefixes of the keys of all other documents. -/
inductive Kind where
  | zone
  | space
  | storage
  | ioproxy
  | userApply
  | zoneApply
  | spaceApply
  | sizeApply
deriving DecidableEq

/-- The prefix of a kind. -/
def Kind.keyPrefix : Kind → Bytes
  | .zone => bytes "ZONE-"
  | .space => bytes "SPACE-"
  | .storage => bytes "STOR-"
  | .ioproxy => bytes "IOPN-"
  | .userApply => bytes "usign-"
  | .zoneApply => bytes "zregi-"
  | .spaceApply => bytes "spadd-"
  | .sizeApply => bytes "spsiz-"

/-- A document of a kind is put. -/
def putDocument (kind : Kind) (id : Bytes) : Program Call Bool :=
  .perform (.set (kind.keyPrefix ++ id) .other)

/-- A document of a kind is removed. -/
def dropDocument (kind : Kind) (id : Bytes) : Program Call Bool :=
  .perform (.remove (kind.keyPrefix ++ id))

/-- `removeoneofApplyInfoRest`: it removes the document whose key is the body of the request. -/
def removeoneofApplyInfo (info : Bytes) : Program Call Bool := .perform (.remove info)

/-- The key of the centers. -/
def centerKey : Bytes := bytes "center_information"

/-- The accounts of a new center: an object with two members that are no strings. -/
def centerAccounts : Bytes → Option Bytes := fun name =>
  if name = bytes "use_account" ∨ name = bytes "unuse_account" then some [] else none

/-- `addCenter`. For a new center it puts a document whose key is the name of the center. -/
def addCenter (centerName : Bytes) (known : Bool) : Program Call Bool := do
  if known then .perform (.set centerKey .other)
  else
    let _ ← .perform (.set centerName (.object centerAccounts))
    .perform (.set centerKey .other)

end Gvds.UserModel
