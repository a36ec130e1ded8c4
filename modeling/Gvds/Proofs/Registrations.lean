/-
Module: Gvds.Proofs.Registrations
Layer: Proofs
Purpose: Registrations handled at once, call by call. Where their calls come in the order of some
  sequential execution one of them wins each account name, and its user can log in; the check for
  the name and the write of its entry are two calls, so that otherwise two may win.
Imports: Gvds.Lib.Serial, Gvds.Proofs.AccountNames
Trusted boundary: none
Main exports: Registration, Registered, one_winner_per_name, two_winners
-/
import Gvds.Lib.Serial
import Gvds.Proofs.AccountNames

namespace Gvds.UserModel

open Manager (Bytes bytes)

/-- A request to register an account, of an administrator or not, with the UUID that it draws. -/
structure Registration where
  admin : Bool
  person : Account
  uuid : Bytes

/-- The operation that serves it. -/
def Registration.program (r : Registration) : Program Call Reply :=
  if r.admin then adminUserRegister r.person r.uuid else userRegister r.person r.uuid

theorem Registration.program_eq (r : Registration) :
    r.program = register r.admin r.person r.uuid := by
  unfold Registration.program
  split
  · rename_i hadmin
    rw [hadmin]
    rfl
  · rename_i hadmin
    rw [Bool.eq_false_of_not_eq_true hadmin]
    rfl

/-! ### A registered account -/

/-- The name of a request leads to its account. -/
structure Registered (svc : Service) (db : Bucket) (r : Registration) (name : Bytes) : Prop where
  path : svc.subPath r.person.accountName = .member name
  entry : entries db name = some r.uuid
  account : accounts db r.uuid = some (.account { r.person with accountID := r.uuid })

section Registered

variable {svc : Service} {db : Bucket} {r r' : Registration} {name : Bytes}

/-- What a registration that succeeds does. -/
theorem registered_of_success {reply : Bytes}
    (h : ((server svc).exec r.program db).1 = .success reply) :
    ∃ name, Registered svc ((server svc).exec r.program db).2 r name := by
  rw [r.program_eq] at h ⊢
  cases hwritten : written svc db r.person.accountName with
  | none =>
      obtain ⟨answer, db', hexec, hfails, -⟩ :=
        register_unwritten r.admin r.uuid hwritten
      rw [hexec] at h
      exact absurd h (hfails reply)
  | some name =>
      by_cases hadmin : r.admin = true → Enlists db r.uuid
      · obtain ⟨db', hexec, hentries, haccounts⟩ := register_success hwritten hadmin
        rw [hexec]
        refine ⟨name, (written_spec hwritten).1, ?_, ?_⟩
        · rw [hentries, Function.update_self]
        · rw [haccounts, Function.update_self]
      · obtain ⟨db', hexec, -⟩ := register_fail hwritten hadmin
        rw [hexec] at h
        cases h

/-- A registration with another ID leaves a registered account alone. -/
theorem Registered.register (h : Registered svc db r name) (hne : r.uuid ≠ r'.uuid) :
    Registered svc ((server svc).exec r'.program db).2 r name := by
  rw [r'.program_eq]
  cases hwritten : written svc db r'.person.accountName with
  | none =>
      obtain ⟨answer, db', hexec, -, hentries, haccounts⟩ :=
        register_unwritten r'.admin r'.uuid hwritten
      rw [hexec]
      exact ⟨h.path, by rw [hentries, h.entry], by rw [haccounts, h.account]⟩
  | some name' =>
      have hname : name ≠ name' := by
        rintro rfl
        have hnone := (written_spec hwritten).2.1
        rw [h.entry] at hnone
        cases hnone
      by_cases hadmin : r'.admin = true → Enlists db r'.uuid
      · obtain ⟨db', hexec, hentries, haccounts⟩ := register_success hwritten hadmin
        rw [hexec]
        refine ⟨h.path, ?_, ?_⟩
        · rw [hentries, Function.update_of_ne hname, h.entry]
        · rw [haccounts, Function.update_of_ne hne, h.account]
      · obtain ⟨db', hexec, hentries, haccounts⟩ := register_fail hwritten hadmin
        rw [hexec]
        refine ⟨h.path, ?_, by rw [haccounts, h.account]⟩
        rw [hentries, Function.update_of_ne hname, h.entry]

/-- A second registration of the name does not succeed. -/
theorem Registered.not_success (h : Registered svc db r name)
    (hsame : r'.person.accountName = r.person.accountName) (reply : Bytes) :
    ((server svc).exec r'.program db).1 ≠ .success reply := by
  have hwritten : written svc db r'.person.accountName = none := by
    by_contra hsome
    obtain ⟨name', hname'⟩ := Option.ne_none_iff_exists'.1 hsome
    obtain ⟨hpath, hnone, -⟩ := written_spec hname'
    rw [hsame, h.path] at hpath
    cases hpath
    rw [h.entry] at hnone
    cases hnone
  obtain ⟨answer, db', hexec, hfails, -⟩ :=
    register_unwritten r'.admin r'.uuid hwritten
  rw [r'.program_eq, hexec]
  exact hfails reply

/-- The user of a registered account can log in. -/
theorem Registered.login (h : Registered svc db r name) :
    ∃ identity, ((server svc).exec (userLogin r.person.accountName r.person.Password) db).1 =
      some (r.uuid, identity) := by
  have hget : getMember svc r.person.accountName (db userMapKey) = some r.uuid :=
    (getMember_eq h.path).trans h.entry
  have haccount : db (userPrefix ++ r.uuid) = _ := h.account
  have hidentity : ((server svc).exec (validadminidentity r.uuid) db).2 = db := by
    unfold validadminidentity
    cases hlist : db adminlist <;> simp [hlist]
  refine ⟨((server svc).exec (validadminidentity r.uuid) db).1, ?_⟩
  unfold userLogin
  simp [hget, hidentity, haccount, Document.toAccount]

/-- Registrations with other IDs leave a registered account alone. -/
theorem Registered.sequential {n : Nat} {requests : Fin n → Registration}
    (hdistinct : Function.Injective fun i => (requests i).uuid) {i : Fin n}
    {order : List (Fin n)} (hi : i ∉ order) {db : Bucket}
    (h : Registered svc db (requests i) name) :
    Registered svc (sequential (server svc) (fun i => (requests i).program) order db)
      (requests i) name := by
  induction order generalizing db with
  | nil => exact h
  | cons j order ih =>
      have hj : j ≠ i := fun heq => hi (heq ▸ List.mem_cons_self)
      have hne : (requests i).uuid ≠ (requests j).uuid := fun heq => hj (hdistinct heq).symm
      exact ih (fun hmem => hi (List.mem_cons_of_mem j hmem)) (h.register hne)

end Registered

/-! ### Winners -/

/-- **At most one registration wins an account name**, and then its user can log in, in a run to the
end if some order of the requests has the calls in order. -/
theorem one_winner_per_name (svc : Service) {n : Nat} (requests : Fin n → Registration)
    (hdistinct : Function.Injective fun i => (requests i).uuid) {db : Bucket}
    {events : List (CallEvent Call (Fin n))} {ended : Pool Call Bytes Cell (Fin n) Reply}
    (h : Interleaves (server svc) (fun i => (requests i).program, db) events ended)
    (hdone : ∀ i, ∃ reply, ended.1 i = .done reply)
    (horder : ∃ order, EachOnce order ∧ CallsInOrder (server svc) order events) :
    (∀ i j, (requests i).person.accountName = (requests j).person.accountName →
        (∃ name, ended.1 i = .done (.success name)) → (∃ name, ended.1 j = .done (.success name)) →
        i = j) ∧
      ∀ i, (∃ name, ended.1 i = .done (.success name)) →
        ∃ login, ((server svc).exec (userLogin (requests i).person.accountName
          (requests i).person.Password) ended.2).1 = some login := by
  obtain ⟨order, ⟨hnodup, hall⟩, hinOrder⟩ := horder
  obtain ⟨hstore, hresults⟩ :=
    h.serialize hinOrder hnodup (fun e _ => hall e.process) fun i _ => hdone i
  have hwins : ∀ earlier i later, order = earlier ++ i :: later →
      (∃ name, ended.1 i = .done (.success name)) →
      ∃ name, Registered svc ((server svc).exec (requests i).program
        (sequential (server svc) (fun i => (requests i).program) earlier db)).2
        (requests i) name := by
    rintro earlier i later heq ⟨reply, hreply⟩
    rw [hresults earlier i later heq] at hreply
    exact registered_of_success (Program.done.inj hreply)
  have hfirst : ∀ earlier i between j later, order = earlier ++ i :: (between ++ j :: later) →
      (requests j).person.accountName = (requests i).person.accountName →
      (∃ name, ended.1 i = .done (.success name)) →
      (∃ name, ended.1 j = .done (.success name)) → False := by
    rintro earlier i between j later heq hsame hi ⟨reply, hj⟩
    obtain ⟨name, hregistered⟩ := hwins earlier i _ heq hi
    have hbetween : i ∉ between := by
      rw [heq] at hnodup
      have hrest := (List.nodup_cons.1 (List.nodup_append.1 hnodup).2.1).1
      exact fun hmem => hrest (List.mem_append_left _ hmem)
    have hstill := hregistered.sequential hdistinct hbetween
    rw [hresults (earlier ++ i :: between) j later (by rw [heq]; simp), sequential_append] at hj
    exact hstill.not_success hsame reply (Program.done.inj hj)
  refine ⟨fun i j hsame hi hj => ?_, fun i hi => ?_⟩
  · by_contra hne
    obtain ⟨earlier, later, heq⟩ := List.append_of_mem (hall i)
    have hmem : j ∈ earlier ++ i :: later := heq ▸ hall j
    rcases List.mem_append.1 hmem with hj' | hj'
    · obtain ⟨earlier', between, rfl⟩ := List.append_of_mem hj'
      exact hfirst earlier' j between i later (by rw [heq]; simp) hsame hj hi
    · have hj'' : j ∈ later := (List.mem_cons.1 hj').resolve_left fun h => hne h.symm
      obtain ⟨between, later', rfl⟩ := List.append_of_mem hj''
      exact hfirst earlier i between j later' heq hsame.symm hi hj
  · obtain ⟨earlier, later, heq⟩ := List.append_of_mem (hall i)
    obtain ⟨name, hregistered⟩ := hwins earlier i later heq hi
    have hlater : i ∉ later := by
      rw [heq] at hnodup
      exact (List.nodup_cons.1 (List.nodup_append.1 hnodup).2.1).1
    obtain ⟨identity, hlogin⟩ := (hregistered.sequential hdistinct hlater).login
    refine ⟨((requests i).uuid, identity), ?_⟩
    rw [hstore, heq, sequential_append]
    exact hlogin

/-- Two users register the name a, with the passwords p and q. -/
def twoRegistrations : Fin 2 → Registration
  | 0 => ⟨false, { accountName := [97], Password := [112] }, [49]⟩
  | 1 => ⟨false, { accountName := [97], Password := [113] }, [50]⟩

theorem twoRegistrations_distinct :
    Function.Injective fun i => (twoRegistrations i).uuid := by
  have hall : ∀ i j, (twoRegistrations i).uuid = (twoRegistrations j).uuid → i = j := by decide
  exact fun i j h => hall i j h

/-- One registration after the other. -/
theorem registrations_in_order : ∃ events ended,
    Interleaves (server noZoneService) (fun i => (twoRegistrations i).program, emptyMap) events ended ∧
      (∀ i, ∃ reply, ended.1 i = .done reply) ∧
      CallsInOrder (server noZoneService) (List.finRange 2) events := by
  refine ⟨_, _, .cons (i := 0) rfl (.cons (i := 0) rfl (.cons (i := 0) rfl (.cons (i := 1) rfl
    (.nil _)))), fun i => ?_, ?_⟩
  · match i with
    | 0 => exact ⟨_, rfl⟩
    | 1 => exact ⟨_, rfl⟩
  · exact callsInOrder_of_processes (by decide)

/-- The first one wins, and its user can log in. -/
theorem one_winner_per_name_two : ∃ ended : Pool Call Bytes Cell (Fin 2) Reply,
    (∀ i j, (twoRegistrations i).person.accountName = (twoRegistrations j).person.accountName →
        (∃ name, ended.1 i = .done (.success name)) → (∃ name, ended.1 j = .done (.success name)) →
        i = j) ∧
      ∀ i, (∃ name, ended.1 i = .done (.success name)) → ∃ login,
        ((server noZoneService).exec (userLogin (twoRegistrations i).person.accountName
          (twoRegistrations i).person.Password) ended.2).1 = some login := by
  obtain ⟨events, ended, hrun, hdone, horder⟩ := registrations_in_order
  exact ⟨ended, one_winner_per_name noZoneService twoRegistrations twoRegistrations_distinct hrun hdone
    ⟨List.finRange 2, ⟨by decide, by decide⟩, horder⟩⟩

/-- Both requests look for the name before one of them writes its entry: both succeed. -/
theorem two_winners :
    ¬ ∀ (svc : Service) (n : Nat) (requests : Fin n → Registration)
      (_ : Function.Injective fun i => (requests i).uuid) (db : Bucket)
      (events : List (CallEvent Call (Fin n))) (ended : Pool Call Bytes Cell (Fin n) Reply),
      Interleaves (server svc) (fun i => (requests i).program, db) events ended →
      (∀ i, ∃ reply, ended.1 i = .done reply) →
      (∀ i j, (requests i).person.accountName = (requests j).person.accountName →
          (∃ name, ended.1 i = .done (.success name)) →
          (∃ name, ended.1 j = .done (.success name)) → i = j) ∧
        ∀ i, (∃ name, ended.1 i = .done (.success name)) → ∃ login,
          ((server svc).exec (userLogin (requests i).person.accountName
            (requests i).person.Password) ended.2).1 = some login := by
  intro hall
  have hrun : ∃ events ended, Interleaves (server noZoneService)
      (fun i => (twoRegistrations i).program, emptyMap) events ended ∧
      (∀ i, ended.1 i = .done (.success [97])) :=
    ⟨_, _, .cons (i := 0) rfl (.cons (i := 1) rfl (.cons (i := 0) rfl (.cons (i := 1) rfl
      (.cons (i := 0) rfl (.cons (i := 1) rfl (.nil _)))))), fun i => by
        match i with
        | 0 => rfl
        | 1 => rfl⟩
  obtain ⟨events, ended, hrun, hdone⟩ := hrun
  obtain ⟨hwinner, -⟩ := hall noZoneService 2 twoRegistrations twoRegistrations_distinct emptyMap
    events ended hrun fun i => ⟨_, hdone i⟩
  exact absurd (hwinner 0 1 rfl ⟨_, hdone 0⟩ ⟨_, hdone 1⟩) (by decide)

end Gvds.UserModel
