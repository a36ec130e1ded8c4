/-
Module: Gvds.Proofs.ZoneListings
Layer: Proofs
Purpose: What a client is told about its zones and the location of spaces. GetZoneInfo sends every
  zone of the client once, unless the client is owner and member of one, or an account is missing,
  which hides all zones behind it. GetZoneLocateInfo says that it has found all spaces although
  GetSpacePosition stopped at a document that it could not read.
Imports: Gvds.Manager.ZoneQueries, Gvds.Proofs.DocumentKeys, Mathlib.Data.List.Nodup,
  Mathlib.Data.List.TakeWhile
Trusted boundary: as Gvds.Manager.ZoneQueries. For a text that holds the ID of the client unharmed,
  the query service returns the zones that the text asks for
Main exports: Located, ReadsAll, location_complete_iff, failed_read_shortens_location, ListsOnce,
  QueriesSelect, zone_list_complete_iff, zone_list_complete_shared, owner_and_member_is_listed_twice
-/
import Gvds.Manager.ZoneQueries
import Gvds.Proofs.DocumentKeys
import Mathlib.Data.List.Nodup
import Mathlib.Data.List.TakeWhile

namespace Gvds.Manager

variable {ask : QueryService} {fails : Nat → Bool} {db : Database} {n : Nat}

/-! ### The location of spaces -/

/-- One space for each ID, in their order, each as its document is. -/
def Located (db : Database) (spaceID : List String) (result : List Space) : Prop :=
  result.map some = spaceID.map db.space

/-- From call number `n` on, the documents of all spaces and of their storage clusters are read. -/
def ReadsAll (fails : Nat → Bool) (db : Database) : Nat → List String → Prop
  | _, [] => True
  | n, m :: spaceID =>
      (fails n = false ∧ fails (n + 1) = false ∧
        ∃ sp, db.space m = some sp ∧ (db.storage sp.storageSrcID).isSome) ∧
      ReadsAll fails db (n + 2) spaceID

/-- `GetSpacePosition` finds all spaces if and only if it can read both documents for each. -/
theorem located_getSpacePosition_iff (ask : QueryService) (fails : Nat → Bool) (db : Database)
    (n : Nat) (spaceID : List String) :
    Located db spaceID ((server ask).execFaulty fails (getSpacePosition spaceID) (db, n)).1 ↔
      ReadsAll fails db n spaceID := by
  induction spaceID generalizing n with
  | nil => exact iff_of_true rfl trivial
  | cons m spaceID ih =>
      have hstop : ¬ Located db (m :: spaceID) [] := fun h => List.cons_ne_nil _ _ h.symm
      unfold getSpacePosition ReadsAll
      rw [Server.execFaulty_bind, execFaulty_getSpace]
      cases hget : fails n with
      | true => exact iff_of_false hstop (by simp)
      | false =>
      simp only [Bool.false_eq_true, if_false, true_and]
      cases hsp : db.space m with
      | none => exact iff_of_false hstop (by simp)
      | some sp =>
      dsimp only
      rw [Server.execFaulty_bind, execFaulty_getStorage]
      cases hstor : fails (n + 1) with
      | true => exact iff_of_false hstop (by simp)
      | false =>
      simp only [Bool.false_eq_true, if_false, true_and, Option.some.injEq, exists_eq_left']
      cases hst : db.storage sp.storageSrcID with
      | none => exact iff_of_false hstop (by simp)
      | some st =>
          simp only [Server.execFaulty_bind, Server.execFaulty_pure, Option.isSome_some, true_and]
          rw [← ih (n + 2)]
          unfold Located
          rw [List.map_cons, List.map_cons, hsp, List.cons_inj_right]

/-- A client with a right to the zone, which lists all the spaces, gets what `GetSpacePosition` has
found. -/
theorem execFaulty_getZoneLocateInfo {zone : Zone} {tmps : Space} {clientID zoneID : String}
    {spaceID : List String} {admin : Bool} (hget : fails 0 = false)
    (hzone : db.zone zoneID = some zone)
    (hclient : clientID = zone.ownerID ∨ clientID ∈ zone.memberID ∨ admin = true)
    (hsub : isSubset zone.spaceID spaceID = true) :
    ((server ask).execFaulty fails (getZoneLocateInfo tmps clientID zoneID spaceID admin)
        (db, 0)).1 =
      some ((server ask).execFaulty fails (getSpacePosition spaceID) (db, 1)).1 := by
  unfold getZoneLocateInfo
  rw [Server.execFaulty_bind, execFaulty_getZone]
  simp only [hget, Bool.false_eq_true, if_false, hzone]
  rw [if_pos hclient, if_pos hsub, Server.execFaulty_map, getSpacePositionInto_eq]

/-- All other requests are refused. -/
theorem execFaulty_getZoneLocateInfo_of_not {tmps : Space} {clientID zoneID : String}
    {spaceID : List String} {admin : Bool}
    (hnot : ∀ zone, fails 0 = false → db.zone zoneID = some zone →
      (clientID = zone.ownerID ∨ clientID ∈ zone.memberID ∨ admin = true) →
      isSubset zone.spaceID spaceID = true → False) :
    ((server ask).execFaulty fails (getZoneLocateInfo tmps clientID zoneID spaceID admin)
        (db, 0)).1 = none := by
  unfold getZoneLocateInfo
  rw [Server.execFaulty_bind, execFaulty_getZone]
  cases hget : fails 0 with
  | true => rfl
  | false =>
  simp only [Bool.false_eq_true, if_false]
  cases hzone : db.zone zoneID with
  | none => rfl
  | some zone =>
  dsimp only
  by_cases hclient : clientID = zone.ownerID ∨ clientID ∈ zone.memberID ∨ admin = true
  · rw [if_pos hclient, if_neg (hnot zone hget hzone hclient)]
    rfl
  · rw [if_neg hclient]
    rfl

/-- **Location answers are complete** if and only if the client is refused, or the documents of all
spaces and of their storage clusters can be read. -/
theorem location_complete_iff (ask : QueryService) (fails : Nat → Bool) (db : Database)
    (tmps : Space) (clientID zoneID : String) (spaceID : List String) (admin : Bool) :
    (∀ result, ((server ask).execFaulty fails
          (getZoneLocateInfo tmps clientID zoneID spaceID admin) (db, 0)).1 = some result →
        Located db spaceID result) ↔
      ∀ zone, fails 0 = false → db.zone zoneID = some zone →
        (clientID = zone.ownerID ∨ clientID ∈ zone.memberID ∨ admin = true) →
        isSubset zone.spaceID spaceID = true → ReadsAll fails db 1 spaceID := by
  constructor
  · intro hall zone hget hzone hclient hsub
    exact (located_getSpacePosition_iff ask fails db 1 spaceID).mp
      (hall _ (execFaulty_getZoneLocateInfo hget hzone hclient hsub))
  · intro hreads result hexec
    by_cases hserved : ∃ zone, fails 0 = false ∧ db.zone zoneID = some zone ∧
        (clientID = zone.ownerID ∨ clientID ∈ zone.memberID ∨ admin = true) ∧
        isSubset zone.spaceID spaceID = true
    · obtain ⟨zone, hget, hzone, hclient, hsub⟩ := hserved
      rw [execFaulty_getZoneLocateInfo hget hzone hclient hsub] at hexec
      cases hexec
      exact (located_getSpacePosition_iff ask fails db 1 spaceID).mpr
        (hreads zone hget hzone hclient hsub)
    · rw [execFaulty_getZoneLocateInfo_of_not fun zone hget hzone hclient hsub =>
        hserved ⟨zone, hget, hzone, hclient, hsub⟩] at hexec
      cases hexec

/-- A space of the client "u". -/
def spaceOfU : Space where
  spaceID := "s"
  spaceName := [115]
  spaceSize := 10
  hostCenterID := "1"
  storageSrcID := "STOR-a"
  spacePath := "s"
  hostCenterName := "Beijing"
  storageSrcName := "a"
  status := true
  replica_spaces := []

/-- A zone of the client. -/
def zoneOfU (memberID : List String) : Zone where
  zoneID := "z"
  zoneName := [122]
  ownerID := "u"
  memberID := memberID
  spaceID := ["s"]

/-- The documents of both. -/
def databaseOfU (memberID : List String) : Database
  | .storage _ => none
  | .space id => if id = "s" then some spaceOfU else none
  | .zone id => if id = "z" then some (zoneOfU memberID) else none

/-- A query service that knows this zone only. -/
def findsZoneOfU (memberID : List String) : QueryService where
  storages _ _ _ := []
  spaces _ _ _ _ := []
  zones db text :=
    some (if db (.zone "z") = some (zoneOfU memberID) ∧
        (text = ownerQuery "u" ∨ ∃ m ∈ memberID, text = memberQuery m) then [zoneOfU memberID]
      else [])
  spaces_sound := noSpaces_sound
  zones_sound db text rows hrows row hrow := by
    cases hrows
    split at hrow
    · rename_i hfound
      rw [List.mem_singleton.mp hrow]
      exact ⟨"z", hfound.1⟩
    · cases hrow

/-- The space is there, but not its storage cluster: the answer is an empty list. -/
theorem failed_read_shortens_location :
    ¬ ∀ (ask : QueryService) (fails : Nat → Bool) (db : Database) (tmps : Space)
      (clientID zoneID : String) (spaceID : List String) (admin : Bool) (result : List Space),
      ((server ask).execFaulty fails
          (getZoneLocateInfo tmps clientID zoneID spaceID admin) (db, 0)).1 = some result →
        Located db spaceID result := by
  intro hall
  have hexec : ((server (findsZoneOfU [])).execFaulty Server.noFails
      (getZoneLocateInfo spaceOfU "u" "z" ["s"] false) (databaseOfU [], 0)).1 = some [] :=
    execFaulty_getZoneLocateInfo rfl rfl (.inl rfl) (by simp [zoneOfU, isSubset, isSubsetLoop])
  exact List.cons_ne_nil _ _ (hall _ _ _ _ _ _ _ _ _ hexec).symm

/-! ### The zones of a client -/

/-- The client is owner or member of the zone. -/
def Concerns (clientID : String) (zone : Zone) : Prop :=
  zone.ownerID = clientID ∨ clientID ∈ zone.memberID

/-- The spaces of a zone that are in use. -/
def activeSpaces (db : Database) (zone : Zone) : List Space :=
  (zone.spaceID.filterMap db.space).filter Space.status

/-- Each zone of the client is sent exactly once, with exactly its active spaces. -/
def ListsOnce (db : Database) (clientID : String) (sent : List ZoneListing) : Prop :=
  ∀ id zone, db.zone id = some zone → Concerns clientID zone →
    ∃ entry, sent.filter (fun e => e.zoneID = zone.zoneID) = [entry] ∧
      entry.spaceBicInfo = activeSpaces db zone ∧
      entry.spaceID = (activeSpaces db zone).map Space.spaceID

/-- The accounts of the owner and of all members exist. -/
def AccountsThere (accounts : UserModel.Bucket) (zone : Zone) : Prop :=
  ∀ id ∈ zone.ownerID :: zone.memberID, (accountName accounts id).isSome

instance (accounts : UserModel.Bucket) (zone : Zone) : Decidable (AccountsThere accounts zone) :=
  inferInstanceAs (Decidable (∀ id ∈ zone.ownerID :: zone.memberID, _))

/-- The ID stands unharmed in both queries: the texts fit their buffers, and no character of it is a
control character, a quotation mark or a backslash. -/
def Unharmed (clientID : String) : Prop :=
  (ownerQueryText clientID).length ≤ 255 ∧ (memberQueryText clientID).length ≤ 255 ∧
    ∀ b ∈ bytes clientID, 32 ≤ b ∧ b ≠ 34 ∧ b ≠ 92

/-- The rows are the documents of the zones with a property, each once. -/
def Selects (db : Database) (P : Zone → Prop) (rows : List Zone) : Prop :=
  rows.Nodup ∧ ∀ zone, zone ∈ rows ↔ (∃ id, db.zone id = some zone) ∧ P zone

/-- For an ID that stands unharmed in them, the queries select the zones of which the client is
owner, and those of which it is member. -/
def QueriesSelect (ask : QueryService) (db : Database) (clientID : String) : Prop :=
  Unharmed clientID → ∃ vp vp2,
    ask.zones db (ownerQuery clientID) = some vp ∧
      Selects db (fun zone => zone.ownerID = clientID) vp ∧
    ask.zones db (memberQuery clientID) = some vp2 ∧
      Selects db (fun zone => clientID ∈ zone.memberID) vp2

/-- The rows that `GetZoneInfo` works through: none, if a query fails. -/
def listedRows (ask : QueryService) (db : Database) (clientID : String) : List Zone :=
  match ask.zones db (ownerQuery clientID), ask.zones db (memberQuery clientID) with
  | some vp, some vp2 => vp ++ vp2
  | _, _ => []

/-- The rows in front of the first zone with a missing account. -/
def leading (accounts : UserModel.Bucket) (rows : List Zone) : List Zone :=
  rows.takeWhile fun zone => AccountsThere accounts zone

/-- `GetSpaceInfo` leaves nothing of one document in the next. -/
theorem getSpaceInfo_eq (db : Database) (tmps : Space) (spaceID : List String) :
    getSpaceInfo db tmps spaceID = spaceID.filterMap db.space := by
  induction spaceID generalizing tmps with
  | nil => rfl
  | cons m spaceID ih =>
      unfold getSpaceInfo
      cases hsp : db.space m with
      | none => rw [List.filterMap_cons_none hsp, ih]
      | some sp =>
          rw [List.filterMap_cons_some hsp]
          simp only [Space.deserialize_serialize, ih]

/-- The names of accounts can be listed if and only if all accounts exist. -/
theorem mapM_accountName_isSome_iff {accounts : UserModel.Bucket} {ids : List String} :
    (ids.mapM (accountName accounts)).isSome ↔ ∀ id ∈ ids, (accountName accounts id).isSome := by
  induction ids with
  | nil => simp
  | cons id ids ih =>
      rw [List.mapM_cons, List.forall_mem_cons, ← ih]
      cases accountName accounts id with
      | none => simp
      | some name => cases ids.mapM (accountName accounts) <;> simp

/-- An entry is made if and only if no account is missing. -/
theorem zoneEntry_isSome_iff {accounts : UserModel.Bucket} {tmps : Space} {zone : Zone} :
    (zoneEntry db accounts tmps zone).isSome ↔ AccountsThere accounts zone := by
  unfold zoneEntry AccountsThere
  rw [List.forall_mem_cons, ← mapM_accountName_isSome_iff]
  cases accountName accounts zone.ownerID with
  | none => simp
  | some owner => cases zone.memberID.mapM (accountName accounts) <;> simp

/-- What an entry says about the spaces of its zone. -/
theorem zoneEntry_spaces {accounts : UserModel.Bucket} {tmps : Space} {zone : Zone}
    {entry : ZoneListing} (hentry : zoneEntry db accounts tmps zone = some entry) :
    entry.zoneID = zone.zoneID ∧ entry.spaceBicInfo = activeSpaces db zone ∧
      entry.spaceID = (activeSpaces db zone).map Space.spaceID := by
  unfold zoneEntry at hentry
  split at hentry
  · cases hentry
  · split at hentry
    · cases hentry
    · cases hentry
      rw [getSpaceInfo_eq]
      exact ⟨rfl, rfl, rfl⟩

/-- The entries that are sent are those of the rows in front of the first one with a missing
account. -/
theorem zoneEntries_eq (db : Database) (accounts : UserModel.Bucket) (tmps : Space)
    (rows : List Zone) :
    (zoneEntries db accounts tmps rows).1.map some =
      (leading accounts rows).map (zoneEntry db accounts tmps) := by
  unfold leading
  induction rows with
  | nil => rfl
  | cons it rows ih =>
      have hiff : (zoneEntry db accounts tmps it).isSome ↔ AccountsThere accounts it :=
        zoneEntry_isSome_iff
      unfold zoneEntries
      cases hentry : zoneEntry db accounts tmps it with
      | none =>
          have hnot : ¬ AccountsThere accounts it := by simpa [hentry] using hiff
          rw [List.takeWhile_cons_of_neg (by simpa using hnot)]
          rfl
      | some entry =>
          have hthere : AccountsThere accounts it := by simpa [hentry] using hiff
          rw [List.takeWhile_cons_of_pos (by simpa using hthere), List.map_cons, List.map_cons, ih,
            hentry]

/-- What is sent are the entries of the leading rows. -/
theorem getZoneInfoRest_eq (ask : QueryService) (db : Database) (accounts : UserModel.Bucket)
    (tmps : Space) (clientID : String) :
    ((getZoneInfoRest ask db accounts tmps clientID).getD []).map some =
      (leading accounts (listedRows ask db clientID)).map (zoneEntry db accounts tmps) := by
  have hsent : (getZoneInfoRest ask db accounts tmps clientID).getD [] =
      (getZoneInfo ask db accounts tmps clientID).1 := by
    unfold getZoneInfoRest
    dsimp only
    split
    · rename_i hnil
      rw [hnil]
      rfl
    · rfl
  rw [hsent]
  unfold getZoneInfo listedRows
  cases ask.zones db (ownerQuery clientID) with
  | none => rfl
  | some vp =>
      cases ask.zones db (memberQuery clientID) with
      | none => rfl
      | some vp2 => exact zoneEntries_eq db accounts tmps (vp ++ vp2)

/-- Among the entries of some rows, those of one zone are as many as its rows. -/
theorem filter_entries {accounts : UserModel.Bucket} {tmps : Space} {zone : Zone}
    {rows : List Zone} {sent : List ZoneListing}
    (hsent : sent.map some = rows.map (zoneEntry db accounts tmps))
    (hrows : ∀ row ∈ rows, row.zoneID = zone.zoneID → row = zone) :
    (sent.filter fun e => e.zoneID = zone.zoneID).map some =
      List.replicate (rows.count zone) (zoneEntry db accounts tmps zone) := by
  induction rows generalizing sent with
  | nil =>
      have hnil : sent = [] := List.map_eq_nil_iff.mp hsent
      rw [hnil]
      rfl
  | cons row rows ih =>
      obtain ⟨entry, sent, rfl, hentry, hrest⟩ := List.map_eq_cons_iff.mp hsent
      have htail := ih hrest fun row' hrow' => hrows row' (List.mem_cons_of_mem _ hrow')
      have hid := (zoneEntry_spaces hentry.symm).1
      by_cases hrow : row = zone
      · subst hrow
        rw [List.filter_cons_of_pos (by simpa using hid), List.count_cons_self,
          List.replicate_succ, List.map_cons, htail, hentry]
      · have hne : ¬ entry.zoneID = zone.zoneID := by
          rw [hid]
          exact fun h => hrow (hrows row (List.mem_cons_self ..) h)
        rw [List.filter_cons_of_neg (by simpa using hne), List.count_cons_of_ne hrow, htail]

/-- A zone is sent once, with its active spaces, if and only if it is one of the rows once. -/
theorem sent_once_iff {accounts : UserModel.Bucket} {tmps : Space} {zone : Zone}
    {rows : List Zone} {sent : List ZoneListing}
    (hsent : sent.map some = rows.map (zoneEntry db accounts tmps))
    (hrows : ∀ row ∈ rows, row.zoneID = zone.zoneID → row = zone) :
    (∃ entry, sent.filter (fun e => e.zoneID = zone.zoneID) = [entry] ∧
        entry.spaceBicInfo = activeSpaces db zone ∧
        entry.spaceID = (activeSpaces db zone).map Space.spaceID) ↔ rows.count zone = 1 := by
  have hfilter := filter_entries hsent hrows
  constructor
  · rintro ⟨entry, hone, -⟩
    rw [hone] at hfilter
    have hlen := congrArg List.length hfilter
    rw [List.length_map, List.length_singleton, List.length_replicate] at hlen
    exact hlen.symm
  · intro hone
    rw [hone] at hfilter
    obtain ⟨entry, rest, hsent', hentry, hrest⟩ := List.map_eq_cons_iff.mp hfilter
    have hnil : rest = [] := List.map_eq_nil_iff.mp hrest
    rw [hnil] at hsent'
    exact ⟨entry, hsent', (zoneEntry_spaces hentry.symm).2⟩

/-- The rows are documents. -/
theorem mem_listedRows {clientID : String} {row : Zone} (hrow : row ∈ listedRows ask db clientID) :
    ∃ id, db.zone id = some row := by
  unfold listedRows at hrow
  split at hrow
  · rename_i vp vp2 howner hmember
    rcases List.mem_append.mp hrow with hrow | hrow
    · exact ask.zones_sound db _ vp howner row hrow
    · exact ask.zones_sound db _ vp2 hmember row hrow
  · cases hrow

/-- The list is complete if and only if each zone of the client is once among the leading rows. -/
theorem listsOnce_iff (ask : QueryService) (hkeyed : WellKeyed db) (accounts : UserModel.Bucket)
    (tmps : Space) (clientID : String) :
    ListsOnce db clientID ((getZoneInfoRest ask db accounts tmps clientID).getD []) ↔
      ∀ id zone, db.zone id = some zone → Concerns clientID zone →
        (leading accounts (listedRows ask db clientID)).count zone = 1 := by
  have hsent := getZoneInfoRest_eq ask db accounts tmps clientID
  refine forall_congr' fun id => forall_congr' fun zone => forall_congr' fun hzone =>
    forall_congr' fun _ => sent_once_iff hsent fun row hrow hid => ?_
  obtain ⟨id', hrow'⟩ := mem_listedRows ((List.takeWhile_sublist _).subset hrow)
  have hsame : id' = id := by
    rw [← hkeyed.zones id' row hrow', ← hkeyed.zones id zone hzone, hid]
  rw [hsame, hzone] at hrow'
  exact (Option.some.inj hrow').symm

/-- Where all rows of a list have a property, so have those in front of the first without it. -/
theorem leading_eq {accounts : UserModel.Bucket} {rows : List Zone}
    (hrows : ∀ row ∈ rows, AccountsThere accounts row) : leading accounts rows = rows :=
  List.takeWhile_eq_self_iff.mpr fun row hrow => decide_eq_true (hrows row hrow)

/-- With the rows that the queries ask for, each zone of the client is once among the leading ones
if and only if the client is not both owner and member of one, and no account is missing. -/
theorem leading_once_iff {accounts : UserModel.Bucket} {clientID : String} {vp vp2 : List Zone}
    (howner : Selects db (fun zone => zone.ownerID = clientID) vp)
    (hmember : Selects db (fun zone => clientID ∈ zone.memberID) vp2) :
    (∀ id zone, db.zone id = some zone → Concerns clientID zone →
        (leading accounts (vp ++ vp2)).count zone = 1) ↔
      ∀ id zone, db.zone id = some zone → Concerns clientID zone →
        ¬ (zone.ownerID = clientID ∧ clientID ∈ zone.memberID) ∧ AccountsThere accounts zone := by
  have hconcerns : ∀ row ∈ vp ++ vp2, (∃ id, db.zone id = some row) ∧ Concerns clientID row := by
    intro row hrow
    rcases List.mem_append.mp hrow with hrow | hrow
    · exact ⟨((howner.2 row).mp hrow).1, .inl ((howner.2 row).mp hrow).2⟩
    · exact ⟨((hmember.2 row).mp hrow).1, .inr ((hmember.2 row).mp hrow).2⟩
  have hcount : ∀ id zone, db.zone id = some zone → Concerns clientID zone →
      ((vp ++ vp2).count zone = 1 ↔ ¬ (zone.ownerID = clientID ∧ clientID ∈ zone.memberID)) := by
    intro id zone hzone hclient
    have howned : zone ∈ vp ↔ zone.ownerID = clientID := by
      rw [howner.2]
      exact and_iff_right ⟨id, hzone⟩
    have hjoined : zone ∈ vp2 ↔ clientID ∈ zone.memberID := by
      rw [hmember.2]
      exact and_iff_right ⟨id, hzone⟩
    rw [List.count_append, howner.1.count, hmember.1.count]
    simp only [howned, hjoined]
    unfold Concerns at hclient
    split <;> split <;> simp_all
  constructor
  · intro hall
    have hthere : ∀ id zone, db.zone id = some zone → Concerns clientID zone →
        AccountsThere accounts zone := by
      intro id zone hzone hclient
      have hpos : 0 < (leading accounts (vp ++ vp2)).count zone := by
        rw [hall id zone hzone hclient]
        exact Nat.one_pos
      have hmem : zone ∈ leading accounts (vp ++ vp2) := List.count_pos_iff.mp hpos
      unfold leading at hmem
      have hdecide := List.mem_takeWhile_imp hmem
      exact of_decide_eq_true hdecide
    have hrows : leading accounts (vp ++ vp2) = vp ++ vp2 := leading_eq fun row hrow => by
      obtain ⟨⟨id, hzone⟩, hclient⟩ := hconcerns row hrow
      exact hthere id row hzone hclient
    intro id zone hzone hclient
    have hone := hall id zone hzone hclient
    rw [hrows] at hone
    exact ⟨(hcount id zone hzone hclient).mp hone, hthere id zone hzone hclient⟩
  · intro hall id zone hzone hclient
    have hrows : leading accounts (vp ++ vp2) = vp ++ vp2 := leading_eq fun row hrow => by
      obtain ⟨⟨id, hzone⟩, hclient⟩ := hconcerns row hrow
      exact (hall id row hzone hclient).2
    rw [hrows]
    exact (hcount id zone hzone hclient).mpr (hall id zone hzone hclient).1

/-- **The list of zones is complete and without duplicates** if and only if each zone of the client
is once among the rows in front of the first one with a missing account. For an ID that stands
unharmed in the queries, this says that the client is not both owner and member of a zone, and that
no account of its zones is missing. -/
theorem zone_list_complete_iff (ask : QueryService) (db : Database) (accounts : UserModel.Bucket)
    (tmps : Space) (clientID : String) (hkeyed : WellKeyed db)
    (hanswers : QueriesSelect ask db clientID) :
    (ListsOnce db clientID ((getZoneInfoRest ask db accounts tmps clientID).getD []) ↔
      ∀ id zone, db.zone id = some zone → Concerns clientID zone →
        (leading accounts (listedRows ask db clientID)).count zone = 1) ∧
    (Unharmed clientID →
      (ListsOnce db clientID ((getZoneInfoRest ask db accounts tmps clientID).getD []) ↔
        ∀ id zone, db.zone id = some zone → Concerns clientID zone →
          ¬ (zone.ownerID = clientID ∧ clientID ∈ zone.memberID) ∧
            AccountsThere accounts zone)) := by
  refine ⟨listsOnce_iff ask hkeyed accounts tmps clientID, fun hunharmed => ?_⟩
  obtain ⟨vp, vp2, hvp, howner, hvp2, hmember⟩ := hanswers hunharmed
  have hlisted : listedRows ask db clientID = vp ++ vp2 := by
    unfold listedRows
    rw [hvp, hvp2]
  rw [listsOnce_iff ask hkeyed accounts tmps clientID, hlisted]
  exact leading_once_iff howner hmember

/-- Every key has an account. -/
def everyAccount : UserModel.Bucket := fun _ => some (.account {})

/-- The zone is the only one. -/
theorem zone_databaseOfU {memberID : List String} {id : String} {zone : Zone}
    (hzone : (databaseOfU memberID).zone id = some zone) : id = "z" ∧ zone = zoneOfU memberID := by
  change (if id = "z" then some (zoneOfU memberID) else none) = some zone at hzone
  split at hzone
  · rename_i hid
    exact ⟨hid, (Option.some.inj hzone).symm⟩
  · cases hzone

/-- Its documents stand under their IDs. -/
theorem wellKeyed_databaseOfU (memberID : List String) : WellKeyed (databaseOfU memberID) where
  spaces id sp hsp := by
    change (if id = "s" then some spaceOfU else none) = some sp at hsp
    split at hsp
    · rename_i hid
      cases hsp
      exact hid.symm
    · cases hsp
  zones id zone hzone := by
    obtain ⟨rfl, rfl⟩ := zone_databaseOfU hzone
    rfl

/-- The zone is selected where it has the property. -/
theorem selects_databaseOfU {memberID : List String} {P : Zone → Prop} {rows : List Zone}
    (hrows : P (zoneOfU memberID) ∧ rows = [zoneOfU memberID] ∨
      ¬ P (zoneOfU memberID) ∧ rows = []) : Selects (databaseOfU memberID) P rows := by
  rcases hrows with ⟨hzone, rfl⟩ | ⟨hzone, rfl⟩
  · refine ⟨List.nodup_singleton _, fun zone => ?_⟩
    constructor
    · intro hmem
      rw [List.mem_singleton.mp hmem]
      exact ⟨⟨"z", rfl⟩, hzone⟩
    · rintro ⟨⟨id, hid⟩, -⟩
      rw [(zone_databaseOfU hid).2]
      exact List.mem_singleton_self _
  · refine ⟨List.nodup_nil, fun zone => ?_⟩
    constructor
    · intro hmem
      cases hmem
    · rintro ⟨⟨id, hid⟩, hP⟩
      rw [(zone_databaseOfU hid).2] at hP
      exact absurd hP hzone

/-- The client owns a zone that is shared with another one. -/
theorem zone_list_complete_shared :
    (ListsOnce (databaseOfU ["v"]) "u"
        ((getZoneInfoRest (findsZoneOfU ["v"]) (databaseOfU ["v"]) everyAccount spaceOfU "u").getD
          []) ↔
      ∀ id zone, (databaseOfU ["v"]).zone id = some zone → Concerns "u" zone →
        (leading everyAccount (listedRows (findsZoneOfU ["v"]) (databaseOfU ["v"]) "u")).count
          zone = 1) ∧
    (Unharmed "u" →
      (ListsOnce (databaseOfU ["v"]) "u"
          ((getZoneInfoRest (findsZoneOfU ["v"]) (databaseOfU ["v"]) everyAccount spaceOfU "u").getD
            []) ↔
        ∀ id zone, (databaseOfU ["v"]).zone id = some zone → Concerns "u" zone →
          ¬ (zone.ownerID = "u" ∧ "u" ∈ zone.memberID) ∧ AccountsThere everyAccount zone)) := by
  have hother : ¬ (memberQuery "u" = ownerQuery "u" ∨
      ∃ m ∈ ["v"], memberQuery "u" = memberQuery m) := by
    decide +kernel
  refine zone_list_complete_iff _ _ _ _ _ (wellKeyed_databaseOfU _) fun _ => ?_
  refine ⟨[zoneOfU ["v"]], [], congrArg some (if_pos ⟨rfl, .inl rfl⟩),
    selects_databaseOfU (.inl ⟨rfl, rfl⟩), congrArg some (if_neg fun h => hother h.2),
    selects_databaseOfU (.inr ⟨by decide, rfl⟩)⟩

/-- A client that is owner and member of its zone gets it twice. -/
theorem owner_and_member_is_listed_twice :
    ¬ ∀ (ask : QueryService) (db : Database) (accounts : UserModel.Bucket) (tmps : Space)
      (clientID : String), WellKeyed db → QueriesSelect ask db clientID →
        ListsOnce db clientID ((getZoneInfoRest ask db accounts tmps clientID).getD []) := by
  intro hall
  have howner : (findsZoneOfU ["u"]).zones (databaseOfU ["u"]) (ownerQuery "u") =
      some [zoneOfU ["u"]] := congrArg some (if_pos ⟨rfl, .inl rfl⟩)
  have hmember : (findsZoneOfU ["u"]).zones (databaseOfU ["u"]) (memberQuery "u") =
      some [zoneOfU ["u"]] :=
    congrArg some (if_pos ⟨rfl, .inr ⟨"u", List.mem_singleton_self _, rfl⟩⟩)
  have honce := hall (findsZoneOfU ["u"]) (databaseOfU ["u"]) everyAccount spaceOfU "u"
    (wellKeyed_databaseOfU _) fun _ => ⟨_, _, howner, selects_databaseOfU (.inl ⟨rfl, rfl⟩),
      hmember, selects_databaseOfU (.inl ⟨by decide, rfl⟩)⟩
  have hcount := (listsOnce_iff _ (wellKeyed_databaseOfU _) everyAccount spaceOfU "u").mp honce
    "z" (zoneOfU ["u"]) rfl (.inl rfl)
  have hrows : listedRows (findsZoneOfU ["u"]) (databaseOfU ["u"]) "u" =
      [zoneOfU ["u"], zoneOfU ["u"]] := by
    unfold listedRows
    rw [howner, hmember]
    rfl
  rw [hrows, leading_eq fun _ _ _ _ => rfl, List.count_cons_self, List.count_cons_self] at hcount
  cases hcount

end Gvds.Manager
