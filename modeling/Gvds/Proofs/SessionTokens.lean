/-
Module: Gvds.Proofs.SessionTokens
Layer: Proofs
Purpose: Which session tokens are accepted. Tokens share the bucket with all other documents, and a
  token is derived from name and password alone; as long as no request takes a token for another
  document, or another document for a token, exactly those are accepted that a login issued to an
  account that has not exited since.
Imports: Gvds.Lib.Machine, Gvds.Proofs.AccountNames
Trusted boundary: none
Main exports: Digest, Session, State, SessionRequest, Issued, Rightly, Isolated,
  sessions_are_isolated, exit_removes_account
-/
import Gvds.Lib.Machine
import Gvds.Proofs.AccountNames

namespace Gvds.UserModel

open Manager (Bytes bytes)

/-! ### Tokens -/

/-- A digit of what `md5` returns: 0 to 9 or a to f. -/
def HexDigit (b : UInt8) : Prop := 48 ≤ b ∧ b ≤ 57 ∨ 97 ≤ b ∧ b ≤ 102

instance (b : UInt8) : Decidable (HexDigit b) := inferInstanceAs (Decidable (_ ∨ _))

/-- What `md5` is taken for: it has no collisions, and writes hexadecimal digits. -/
structure Digest (md5 : Bytes → Bytes) : Prop where
  injective : Function.Injective md5
  hex : ∀ s, ∀ b ∈ md5 s, HexDigit b

/-- A login that has not been followed by an exit of the account. -/
structure Session where
  accountName : Bytes
  Password : Bytes
deriving DecidableEq

/-- The token of a session. -/
def Session.mtoken (md5 : Bytes → Bytes) (l : Session) : Bytes := md5 (l.accountName ++ l.Password)

/-- The bucket, with the sessions of which clients know. -/
structure State where
  db : Bucket
  live : List Session

/-! ### Requests -/

/-- The requests of a manager, with what is input of them. An exit is sent for an account, of which
the manager sees the cookie only. -/
inductive SessionRequest where
  | userLoginRest (accountName Password : Bytes)
  | exitUserAccount (accountName mtoken : Bytes)
  | authToken (mtoken : Bytes)
  | userRegister (person : Account) (uuid : Bytes)
  | adminUserRegister (person : Account) (uuid : Bytes)
  | modifyUserinfo (person : Account)
  | cancellationUserAccount (uuid : Bytes)
  | removeoneofApplyInfo (info : Bytes)
  | addCenter (centerName : Bytes) (known : Bool)
  | putDocument (kind : Kind) (id : Bytes)
  | dropDocument (kind : Kind) (id : Bytes)

/-- The bucket after a request, with every call succeeding. -/
def SessionRequest.bucket (svc : Service) (md5 : Bytes → Bytes) (db : Bucket) :
    SessionRequest → Bucket
  | .userLoginRest accountName Password =>
      ((server svc).exec (UserModel.userLoginRest md5 accountName Password) db).2
  | .exitUserAccount _ mtoken => ((server svc).exec (UserModel.exitUserAccount mtoken) db).2
  | .authToken mtoken => ((server svc).exec (UserModel.authToken mtoken) db).2
  | .userRegister person uuid => ((server svc).exec (UserModel.userRegister person uuid) db).2
  | .adminUserRegister person uuid =>
      ((server svc).exec (UserModel.adminUserRegister person uuid) db).2
  | .modifyUserinfo person => ((server svc).exec (UserModel.modifyUserinfo person) db).2
  | .cancellationUserAccount uuid =>
      ((server svc).exec (UserModel.cancellationUserAccount svc uuid) db).2
  | .removeoneofApplyInfo info => ((server svc).exec (UserModel.removeoneofApplyInfo info) db).2
  | .addCenter centerName known => ((server svc).exec (UserModel.addCenter centerName known) db).2
  | .putDocument kind id => ((server svc).exec (UserModel.putDocument kind id) db).2
  | .dropDocument kind id => ((server svc).exec (UserModel.dropDocument kind id) db).2

/-- The sessions after a request: a login that succeeds begins one, an exit ends those of the
account. -/
def SessionRequest.sessions (svc : Service) (md5 : Bytes → Bytes) (s : State) :
    SessionRequest → List Session
  | .userLoginRest accountName Password =>
      if ((server svc).exec (UserModel.userLoginRest md5 accountName Password) s.db).1.isSome then
        ⟨accountName, Password⟩ :: s.live
      else s.live
  | .exitUserAccount accountName _ => s.live.filter fun l => l.accountName ≠ accountName
  | _ => s.live

/-- The manager serves one request. -/
def serve (svc : Service) (md5 : Bytes → Bytes) (s : State) (r : SessionRequest) : Option State :=
  some ⟨r.bucket svc md5 s.db, r.sessions svc md5 s⟩

/-- Whether `auth_token` accepts a cookie. -/
def accepts (svc : Service) (db : Bucket) (mtoken : Bytes) : Bool :=
  ((server svc).exec (UserModel.authToken mtoken) db).1

/-- What is to hold of a request: `auth_token` accepts the tokens of sessions and nothing else, an
exit removes no document other than a token, and leaves the sessions of other accounts valid. -/
def Isolated (svc : Service) (md5 : Bytes → Bytes) (s : State) : SessionRequest → Prop
  | .authToken mtoken => accepts svc s.db mtoken = true ↔ ∃ l ∈ s.live, l.mtoken md5 = mtoken
  | .exitUserAccount accountName mtoken =>
      (∀ doc, s.db mtoken = some doc → doc = .token) ∧
        ∀ l ∈ s.live, l.accountName ≠ accountName → accepts svc s.db (l.mtoken md5) = true →
          accepts svc ((server svc).exec (UserModel.exitUserAccount mtoken) s.db).2
            (l.mtoken md5) = true
  | _ => True

/-! ### What keeps the tokens apart -/

/-- The tokens that stand in the bucket are those of the sessions. -/
def Issued (md5 : Bytes → Bytes) (s : State) : Prop :=
  ∀ key, s.db key = some .token ↔ ∃ l ∈ s.live, l.mtoken md5 = key

/-- `auth_token` finds no document other than a token under a cookie; where it looks into another
bucket than the manager writes, that has a document under it iff a token stands under it. -/
def FindsTokens (svc : Service) (db : Bucket) (mtoken : Bytes) : Prop :=
  if svc.bucket = bytes "account_info" then ∀ doc, db mtoken = some doc → doc = .token
  else svc.accountInfo mtoken = true ↔ db mtoken = some .token

/-- What a request must do for the sessions to stay isolated: an exit is sent with the token of all
sessions of its account and of no other one; `auth_token` finds tokens only; what is removed or put
under a name from the client is no token. -/
def SessionRequest.Rightly (svc : Service) (md5 : Bytes → Bytes) (s : State) :
    SessionRequest → Prop
  | .exitUserAccount accountName mtoken =>
      (∃ Password, mtoken = md5 (accountName ++ Password) ∧
        ⟨accountName, Password⟩ ∈ s.live ∧ ∀ l ∈ s.live,
          (l.accountName ++ l.Password = accountName ++ Password ↔ l.accountName = accountName)) ∨
      s.db mtoken = none ∧ ∀ l ∈ s.live, l.accountName ≠ accountName
  | .authToken mtoken => FindsTokens svc s.db mtoken
  | .cancellationUserAccount uuid => ∀ doc, RemovesName svc s.db uuid doc →
      s.db doc.toAccount.accountName ≠ some .token
  | .removeoneofApplyInfo info => s.db info ≠ some .token
  | .addCenter centerName known => known = false → s.db centerName ≠ some .token
  | _ => True

/-! ### Keys that are no tokens -/

/-- Only hexadecimal digits. -/
def Hex (key : Bytes) : Prop := ∀ b ∈ key, HexDigit b

theorem not_hex_append {front : Bytes} (h : ∃ b ∈ front, ¬ HexDigit b) (id : Bytes) :
    ¬ Hex (front ++ id) := by
  obtain ⟨b, hb, hnot⟩ := h
  exact fun hhex => hnot (hhex b (List.mem_append_left id hb))

theorem not_hex_user (id : Bytes) : ¬ Hex (userPrefix ++ id) := not_hex_append (by decide) id

theorem not_hex_sc (id : Bytes) : ¬ Hex (scUserPrefix ++ id) := not_hex_append (by decide) id

theorem not_hex_map : ¬ Hex userMapKey := by unfold Hex; decide

theorem not_hex_center : ¬ Hex centerKey := by unfold Hex; decide

theorem not_hex_kind (kind : Kind) (id : Bytes) : ¬ Hex (kind.keyPrefix ++ id) := by
  refine not_hex_append ?_ id
  cases kind <;> decide

/-! ### Requests that leave all tokens alone -/

/-- The same tokens stand in two buckets. -/
def SameTokens (db db' : Bucket) : Prop := ∀ key, db' key = some .token ↔ db key = some .token

theorem SameTokens.trans {db db' db'' : Bucket} (h : SameTokens db db')
    (h' : SameTokens db' db'') : SameTokens db db'' := fun key => (h' key).trans (h key)

/-- A document that is no token takes the place of one that is none. -/
theorem sameTokens_update {db : Bucket} {key : Bytes} {cell : Option Document}
    (hkey : db key ≠ some .token) (hcell : cell ≠ some .token) :
    SameTokens db (Function.update db key cell) := by
  intro key'
  by_cases hsame : key' = key
  · rw [hsame, Function.update_self]
    exact iff_of_false hcell hkey
  · rw [Function.update_of_ne hsame]

/-- A change inside a document makes no token of it, and no other document of a token. -/
theorem sameTokens_map {db : Bucket} (key : Bytes) {f : Document → Document}
    (hf : ∀ doc, f doc = .token ↔ doc = .token) :
    SameTokens db (Function.update db key ((db key).map f)) := by
  intro key'
  by_cases hsame : key' = key
  · rw [hsame, Function.update_self]
    cases db key with
    | none => rfl
    | some doc => simp only [Option.map_some, Option.some.injEq, hf]
  · rw [Function.update_of_ne hsame]

theorem setMember_eq_token (svc : Service) (path value : Bytes) (doc : Document) :
    doc.setMember svc path value = .token ↔ doc = .token := by
  cases doc with
  | object members => cases hpath : svc.subPath path <;> simp [Document.setMember, hpath]
  | _ => simp [Document.setMember]

theorem insertUniq_eq_token (value : Bytes) (doc : Document) :
    doc.insertUniq value = .token ↔ doc = .token := by
  cases doc with
  | adminList namelist => by_cases hmem : value ∈ namelist <;> simp [Document.insertUniq, hmem]
  | _ => simp [Document.insertUniq]

/-- A call that sets and removes documents only under keys that are no tokens. -/
def Harmless : ∀ β : Type, Call β → Prop
  | _, .set key doc => ¬ Hex key ∧ doc ≠ .token
  | _, .remove key => ¬ Hex key
  | _, _ => True

section Harmless

variable {svc : Service} {db : Bucket} (hhex : ∀ key, db key = some .token → Hex key)
include hhex

theorem sameTokens_after {β : Type} (c : Call β) (db' : Bucket) (hc : Harmless β c)
    (h : SameTokens db db') : SameTokens db ((server svc).after c db') := by
  have hnot : ∀ key, ¬ Hex key → db' key ≠ some .token := fun key hkey htoken =>
    hkey (hhex key ((h key).1 htoken))
  cases c with
  | set key doc => exact h.trans (sameTokens_update (hnot key hc.1) (by simpa using hc.2))
  | remove key => exact h.trans (sameTokens_update (hnot key hc) (by simp))
  | setSub key path value => exact h.trans (sameTokens_map key (setMember_eq_token svc path value))
  | arrInsertUniq key value => exact h.trans (sameTokens_map key (insertUniq_eq_token value))
  | get _ => exact h
  | getSub _ _ => exact h
  | queryZones _ => exact h
  | getAccountInfo _ => exact h

/-- A program of such calls leaves all tokens alone. -/
theorem sameTokens_exec {α : Type} {p : Program Call α} (hp : p.All Harmless) :
    SameTokens db ((server svc).exec p db).2 := by
  have hkeep : ∀ β (c : Call β) db', Harmless β c → SameTokens db db' →
      SameTokens db ((server svc).after c db') := fun _ c db' => sameTokens_after hhex c db'
  exact (server svc).exec_keeps hkeep hp fun _ => Iff.rfl

end Harmless

theorem harmless_register (admin : Bool) (person : Account) (uuid : Bytes) :
    (register admin person uuid).All Harmless := by
  have hset : (setEntry person.accountName uuid).All Harmless := by
    refine Program.All.bind (Program.all_perform.2 trivial) fun status => ?_
    cases status with
    | keyEnoent =>
        refine Program.All.bind (Program.all_perform.2 ⟨not_hex_map, by simp⟩) fun _ => ?_
        exact Program.all_perform.2 trivial
    | success => trivial
    | failed => trivial
  have henlist : (enlist admin uuid).All Harmless :=
    Program.All.ite (Program.all_perform.2 trivial) (Program.all_pure true)
  refine Program.All.bind (Program.all_perform.2 trivial) fun found => ?_
  cases found with
  | some id => trivial
  | none =>
      refine Program.All.bind hset fun status => Program.All.ite trivial ?_
      refine Program.All.bind henlist fun listed => Program.All.ite ?_ trivial
      refine Program.All.bind (Program.all_perform.2 ⟨not_hex_user uuid, by simp⟩) fun stored => ?_
      exact Program.All.ite trivial trivial

/-- `UserLogin` changes nothing. -/
theorem exec_userLogin (svc : Service) (db : Bucket) (account pass : Bytes) :
    ((server svc).exec (userLogin account pass) db).2 = db := by
  refine (server svc).exec_of_reads ?_ db
  refine Program.All.bind (Program.all_perform.2 rfl) fun found => ?_
  cases found with
  | none => trivial
  | some key =>
      refine Program.All.bind (Program.All.bind (Program.all_perform.2 rfl) fun list => ?_)
        fun identity => Program.All.bind (Program.all_perform.2 rfl) fun doc => ?_
      · cases list <;> trivial
      · cases doc with
        | none => trivial
        | some doc => exact Program.All.ite trivial trivial

/-- `exitUserAccount` removes the document under the cookie. -/
theorem exec_exitUserAccount (svc : Service) (db : Bucket) (mtoken : Bytes) :
    ((server svc).exec (exitUserAccount mtoken) db).2 = Function.update db mtoken none := by
  unfold exitUserAccount
  rw [Server.exec_bind, Server.exec_ite]
  split <;> rfl

theorem accepts_of_bucket {svc : Service} (hbucket : svc.bucket = bytes "account_info")
    (db : Bucket) (mtoken : Bytes) : accepts svc db mtoken = (db mtoken).isSome := if_pos hbucket

theorem accepts_of_other {svc : Service} (hbucket : svc.bucket ≠ bytes "account_info")
    (db : Bucket) (mtoken : Bytes) : accepts svc db mtoken = svc.accountInfo mtoken :=
  if_neg hbucket

/-! ### One request -/

section Step

variable {svc : Service} {md5 : Bytes → Bytes} {s : State}

/-- Tokens have hexadecimal digits only. -/
theorem Issued.hex (h : Issued md5 s) (hmd5 : Digest md5) (key : Bytes)
    (hkey : s.db key = some .token) : Hex key := by
  obtain ⟨l, -, rfl⟩ := (h key).1 hkey
  exact hmd5.hex _

/-- A request that leaves tokens and sessions alone leaves them in agreement. -/
theorem Issued.same (h : Issued md5 s) {db' : Bucket} (hsame : SameTokens s.db db') :
    Issued md5 ⟨db', s.live⟩ := fun key => (hsame key).trans (h key)

/-- A session that begins with its token in the bucket. -/
theorem Issued.begin (h : Issued md5 s) (l : Session) :
    Issued md5 ⟨Function.update s.db (l.mtoken md5) (some .token), l :: s.live⟩ := by
  intro key
  by_cases hkey : key = l.mtoken md5
  · rw [hkey]
    exact iff_of_true (Function.update_self _ _ _) ⟨l, List.mem_cons_self, rfl⟩
  · change Function.update s.db (l.mtoken md5) (some .token) key = some .token ↔
      ∃ l' ∈ l :: s.live, l'.mtoken md5 = key
    rw [Function.update_of_ne hkey, h key]
    constructor
    · rintro ⟨l', hl', htoken⟩
      exact ⟨l', List.mem_cons_of_mem l hl', htoken⟩
    · rintro ⟨l', hl', htoken⟩
      rcases List.mem_cons.1 hl' with rfl | hl'
      · exact absurd htoken.symm hkey
      · exact ⟨l', hl', htoken⟩

/-- A login puts the token of its session. -/
theorem issued_login (h : Issued md5 s) (accountName Password : Bytes) :
    Issued md5 ⟨(SessionRequest.userLoginRest accountName Password).bucket svc md5 s.db,
      (SessionRequest.userLoginRest accountName Password).sessions svc md5 s⟩ := by
  have hsame := exec_userLogin svc s.db accountName Password
  unfold SessionRequest.bucket SessionRequest.sessions UserModel.userLoginRest
  cases hlogin : ((server svc).exec (userLogin accountName Password) s.db).1 with
  | none => simpa [hlogin, hsame] using h
  | some login => simpa [hlogin, hsame, Session.mtoken] using h.begin ⟨accountName, Password⟩

/-- What an exit that is sent rightly says about the sessions. -/
theorem rightly_exit (h : Issued md5 s) (hmd5 : Digest md5) {accountName mtoken : Bytes}
    (hrightly : (SessionRequest.exitUserAccount accountName mtoken).Rightly svc md5 s) {l : Session}
    (hl : l ∈ s.live) : l.mtoken md5 = mtoken ↔ l.accountName = accountName := by
  rcases hrightly with ⟨Password, rfl, -, hown⟩ | ⟨hnone, hothers⟩
  · exact (hmd5.injective.eq_iff).trans (hown l hl)
  · refine iff_of_false (fun htoken => ?_) (hothers l hl)
    have hstands := (h mtoken).2 ⟨l, hl, htoken⟩
    rw [hnone] at hstands
    cases hstands

/-- Such an exit takes the token of its account, and no other. -/
theorem issued_exit (h : Issued md5 s) (hmd5 : Digest md5) {accountName mtoken : Bytes}
    (hrightly : (SessionRequest.exitUserAccount accountName mtoken).Rightly svc md5 s) :
    Issued md5 ⟨Function.update s.db mtoken none,
      s.live.filter fun l => l.accountName ≠ accountName⟩ := by
  intro key
  have hmem : (∃ l ∈ s.live.filter fun l => l.accountName ≠ accountName, l.mtoken md5 = key) ↔
      ∃ l ∈ s.live, l.accountName ≠ accountName ∧ l.mtoken md5 = key := by
    simp only [List.mem_filter, decide_eq_true_eq, and_assoc]
  refine Iff.trans ?_ hmem.symm
  by_cases hkey : key = mtoken
  · rw [hkey]
    refine iff_of_false (by simp) ?_
    rintro ⟨l, hl, hne, htoken⟩
    exact hne ((rightly_exit h hmd5 hrightly hl).1 htoken)
  · change Function.update s.db mtoken none key = some .token ↔ _
    rw [Function.update_of_ne hkey, h key]
    constructor
    · rintro ⟨l, hl, htoken⟩
      exact ⟨l, hl, fun hname => hkey (htoken.symm.trans ((rightly_exit h hmd5 hrightly hl).2 hname)),
        htoken⟩
    · rintro ⟨l, hl, -, htoken⟩
      exact ⟨l, hl, htoken⟩

/-- A cancellation leaves the tokens alone if what it removes under the name is none. -/
theorem sameTokens_cancellation (hhex : ∀ key, s.db key = some .token → Hex key) {uuid : Bytes}
    (hname : ∀ doc, RemovesName svc s.db uuid doc → s.db doc.toAccount.accountName ≠ some .token) :
    SameTokens s.db ((server svc).exec (cancellationUserAccount svc uuid) s.db).2 := by
  have hsc : SameTokens s.db (withoutCenters s.db uuid) :=
    sameTokens_update (fun htoken => not_hex_sc uuid (hhex _ htoken)) (by simp)
  by_cases hremoves : ∃ doc, RemovesName svc s.db uuid doc
  · obtain ⟨doc, hdoc⟩ := hremoves
    rw [cancellation_removes hdoc]
    have hremoved : SameTokens s.db
        (Function.update (withoutCenters s.db uuid) doc.toAccount.accountName none) :=
      hsc.trans (sameTokens_update (fun htoken => hname doc hdoc ((hsc _).1 htoken)) (by simp))
    exact hremoved.trans (sameTokens_update
      (fun htoken => not_hex_user uuid (hhex _ ((hremoved _).1 htoken))) (by simp))
  · rcases cancellation_keeps fun doc hdoc => hremoves ⟨doc, hdoc⟩ with hexec | hexec
    · rw [hexec]
      exact fun _ => Iff.rfl
    · rwa [hexec]

/-- `addCenter` leaves the tokens alone if none stands under the name of a new center. -/
theorem sameTokens_addCenter (hhex : ∀ key, s.db key = some .token → Hex key) {centerName : Bytes}
    {known : Bool} (hname : known = false → s.db centerName ≠ some .token) :
    SameTokens s.db ((server svc).exec (addCenter centerName known) s.db).2 := by
  unfold addCenter
  cases known with
  | true => exact sameTokens_update (fun htoken => not_hex_center (hhex _ htoken)) (by simp)
  | false =>
      have hput : SameTokens s.db
          (Function.update s.db centerName (some (.object centerAccounts))) :=
        sameTokens_update (hname rfl) (by simp)
      exact hput.trans (sameTokens_update
        (fun htoken => not_hex_center (hhex _ ((hput _).1 htoken))) (by simp))

/-- A request that is sent rightly leaves tokens and sessions in agreement. -/
theorem issued_serve {s' : State} {r : SessionRequest} (h : Issued md5 s) (hmd5 : Digest md5)
    (hrightly : r.Rightly svc md5 s) (hserve : serve svc md5 s r = some s') : Issued md5 s' := by
  have hhex := h.hex hmd5
  cases hserve
  cases r with
  | userLoginRest accountName Password => exact issued_login h accountName Password
  | exitUserAccount accountName mtoken =>
      have hissued := issued_exit h hmd5 hrightly
      rw [← exec_exitUserAccount svc] at hissued
      exact hissued
  | authToken mtoken => exact h
  | userRegister person uuid => exact h.same (sameTokens_exec hhex (harmless_register _ _ _))
  | adminUserRegister person uuid => exact h.same (sameTokens_exec hhex (harmless_register _ _ _))
  | modifyUserinfo person =>
      exact h.same (sameTokens_exec hhex (Program.all_perform.2 ⟨not_hex_user _, by simp⟩))
  | cancellationUserAccount uuid => exact h.same (sameTokens_cancellation hhex hrightly)
  | removeoneofApplyInfo info => exact h.same (sameTokens_update hrightly (by simp))
  | addCenter centerName known => exact h.same (sameTokens_addCenter hhex hrightly)
  | putDocument kind id =>
      exact h.same (sameTokens_exec hhex (Program.all_perform.2 ⟨not_hex_kind kind id, by simp⟩))
  | dropDocument kind id =>
      exact h.same (sameTokens_exec hhex (Program.all_perform.2 (not_hex_kind kind id)))

/-- A request that is sent rightly keeps sessions isolated. -/
theorem isolated_of_rightly {r : SessionRequest} (h : Issued md5 s) (hmd5 : Digest md5)
    (hrightly : r.Rightly svc md5 s) : Isolated svc md5 s r := by
  cases r with
  | authToken mtoken =>
      change accepts svc s.db mtoken = true ↔ ∃ l ∈ s.live, l.mtoken md5 = mtoken
      rw [← h mtoken]
      change FindsTokens svc s.db mtoken at hrightly
      unfold FindsTokens at hrightly
      by_cases hbucket : svc.bucket = bytes "account_info"
      · rw [if_pos hbucket] at hrightly
        rw [accepts_of_bucket hbucket]
        constructor
        · intro hsome
          obtain ⟨doc, hdoc⟩ := Option.isSome_iff_exists.1 hsome
          rw [hdoc, hrightly doc hdoc]
        · intro htoken
          rw [htoken]
          rfl
      · rw [if_neg hbucket] at hrightly
        rwa [accepts_of_other hbucket]
  | exitUserAccount accountName mtoken =>
      refine ⟨fun doc hdoc => ?_, fun l hl hne haccepts => ?_⟩
      · rcases hrightly with ⟨Password, rfl, hlive, -⟩ | ⟨hnone, -⟩
        · have hstands := (h (md5 (accountName ++ Password))).2 ⟨⟨accountName, Password⟩, hlive, rfl⟩
          exact Option.some.inj (hdoc.symm.trans hstands)
        · rw [hnone] at hdoc
          cases hdoc
      · have hkey : l.mtoken md5 ≠ mtoken := fun htoken =>
          hne ((rightly_exit h hmd5 hrightly hl).1 htoken)
        rw [exec_exitUserAccount]
        by_cases hbucket : svc.bucket = bytes "account_info"
        · rw [accepts_of_bucket hbucket] at haccepts ⊢
          rwa [Function.update_of_ne hkey]
        · rw [accepts_of_other hbucket] at haccepts ⊢
          exact haccepts
  | _ => trivial

end Step

/-! ### Runs -/

/-- **Sessions are isolated** in every run whose requests are all sent rightly: `auth_token` accepts
the tokens of logins that no exit of their account has followed, and nothing else, and an exit
removes no document other than a token, and no token of another account. -/
theorem sessions_are_isolated (svc : Service) {md5 : Bytes → Bytes} (hmd5 : Digest md5)
    {db : Bucket} (hdb : ∀ key, db key ≠ some .token) (rs : List SessionRequest)
    (h : Machine.Guarded (serve svc md5) (fun s r => r.Rightly svc md5 s) ⟨db, []⟩ rs) :
    Machine.Guarded (serve svc md5) (Isolated svc md5) ⟨db, []⟩ rs := by
  have hissued : Issued md5 ⟨db, []⟩ := fun key =>
    iff_of_false (hdb key) fun ⟨l, hl, _⟩ => List.not_mem_nil hl
  have hstep : ∀ s r s', Issued md5 s → r.Rightly svc md5 s → serve svc md5 s r = some s' →
      Issued md5 s' := fun _ _ _ hs hrightly hserve => issued_serve hs hmd5 hrightly hserve
  exact h.of_invariant hstep (fun _ _ hs hrightly => isolated_of_rightly hs hmd5 hrightly) hissued

/-! ### An account removed by an exit -/

/-- Bytes written with two digits: each one as so many zeros, and a one. -/
def unary : Bytes → Bytes
  | [] => []
  | b :: s => List.replicate b.toNat 48 ++ 49 :: unary s

/-- The MD5 digest of ap. -/
def apDigest : Bytes :=
  [54, 50, 99, 52, 50, 56, 53, 51, 51, 56, 51, 48, 100, 56, 52, 102, 100, 56, 98, 99,
    55, 55, 98, 102, 52, 48, 50, 53, 49, 50, 102, 99]

/-- A function without collisions that writes hexadecimal digits, with the MD5 digest of ap. -/
def sampleDigest (s : Bytes) : Bytes :=
  if s = [97, 112] then apDigest else List.replicate 33 48 ++ unary s

theorem replicate_inj {m n : Nat} {s t : Bytes}
    (h : List.replicate m 48 ++ 49 :: s = List.replicate n 48 ++ 49 :: t) : m = n ∧ s = t := by
  induction m generalizing n with
  | zero =>
      cases n with
      | zero => exact ⟨rfl, (List.cons.inj h).2⟩
      | succ n => cases h
  | succ m ih =>
      cases n with
      | zero => cases h
      | succ n =>
          obtain ⟨rfl, hst⟩ := ih (List.cons.inj h).2
          exact ⟨rfl, hst⟩

theorem unary_injective : Function.Injective unary := by
  intro s
  induction s with
  | nil =>
      intro t h
      cases t with
      | nil => rfl
      | cons c t => exact absurd h (by simp [unary])
  | cons b s ih =>
      intro t h
      cases t with
      | nil => exact absurd h (by simp [unary])
      | cons c t =>
          obtain ⟨hbyte, hrest⟩ := replicate_inj h
          rw [UInt8.toNat_inj.1 hbyte, ih hrest]

theorem unary_hex (s : Bytes) : Hex (unary s) := by
  induction s with
  | nil => exact fun b hb => absurd hb List.not_mem_nil
  | cons c s ih =>
      intro b hb
      rcases List.mem_append.1 hb with hzero | hrest
      · rw [List.eq_of_mem_replicate hzero]
        decide
      · rcases List.mem_cons.1 hrest with rfl | hrest
        · decide
        · exact ih b hrest

theorem hex_apDigest : Hex apDigest := by
  have hall : apDigest.all (fun b => decide (HexDigit b)) = true := rfl
  exact fun b hb => of_decide_eq_true (List.all_eq_true.1 hall b hb)

theorem digest_sampleDigest : Digest sampleDigest where
  injective s t h := by
    have hshort : ∀ u, apDigest ≠ List.replicate 33 48 ++ unary u := by
      intro u heq
      have hlength : 32 = (List.replicate 33 48 ++ unary u).length := congrArg List.length heq
      rw [List.length_append, List.length_replicate] at hlength
      omega
    unfold sampleDigest at h
    split at h <;> split at h
    · rename_i hs ht
      rw [hs, ht]
    · exact absurd h (hshort t)
    · exact absurd h.symm (hshort s)
    · exact unary_injective (List.append_cancel_left h)
  hex s := by
    unfold sampleDigest
    split
    · exact hex_apDigest
    · intro b hb
      rcases List.mem_append.1 hb with hzero | hrest
      · rw [List.eq_of_mem_replicate hzero]
        decide
      · exact unary_hex s b hrest

/-- The manager writes into the bucket `account_info`. -/
def accountInfoService : Service := { noZoneService with bucket := bytes "account_info" }

/-- The user a registers, logs in, and exits. -/
def ownSession : List SessionRequest :=
  [.userRegister personA [49], .userLoginRest [97] [112], .authToken apDigest,
    .exitUserAccount [97] apDigest, .authToken apDigest]

theorem sessions_are_isolated_own :
    Machine.Guarded (serve accountInfoService sampleDigest)
      (Isolated accountInfoService sampleDigest) ⟨emptyBucket, []⟩ ownSession := by
  refine sessions_are_isolated accountInfoService digest_sampleDigest (fun _ h => by cases h)
    ownSession ?_
  refine ⟨trivial, fun s₁ h₁ => ⟨trivial, fun s₂ h₂ => ⟨?_, fun s₃ h₃ => ⟨?_, fun s₄ h₄ => ⟨?_,
    fun s₅ h₅ => trivial⟩⟩⟩⟩⟩
  · cases h₁
    cases h₂
    intro doc hdoc
    exact (Option.some.inj hdoc).symm
  · cases h₁
    cases h₂
    cases h₃
    refine .inl ⟨[112], rfl, List.mem_cons_self, fun l hl => ?_⟩
    have hl' : l = ⟨[97], [112]⟩ := List.mem_singleton.1 hl
    rw [hl']
    decide
  · cases h₁
    cases h₂
    cases h₃
    cases h₄
    intro doc hdoc
    cases hdoc

/-- An exit with the key of an account as its cookie removes the account. -/
theorem exit_removes_account :
    ¬ ∀ (svc : Service) (md5 : Bytes → Bytes), Digest md5 → ∀ (db : Bucket),
      (∀ key, db key ≠ some .token) → ∀ rs : List SessionRequest,
      Machine.Guarded (serve svc md5) (Isolated svc md5) ⟨db, []⟩ rs := by
  intro hall
  have hguarded := hall accountInfoService sampleDigest digest_sampleDigest emptyBucket
    (fun _ h => by cases h)
    [.userRegister personA [49], .exitUserAccount [97] (userPrefix ++ [49])]
  obtain ⟨hremoved, -⟩ := (hguarded.2 _ rfl).1
  have htoken := hremoved (.account { personA with accountID := [49] }) rfl
  cases htoken

end Gvds.UserModel
