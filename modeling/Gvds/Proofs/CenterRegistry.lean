/-
Module: Gvds.Proofs.CenterRegistry
Layer: Proofs
Purpose: The registry of the centers against their account pools, over all runs of addCenter and
  deleteCenter. The list and the three maps of the registry always name the same centers. Every
  center has a pool of its own, unless a center gets another name, for which no pool is made, or a
  new one gets the name of another center, whose pool is made anew.
Imports: Gvds.Lib.Machine, Gvds.Manager.Mconf, Mathlib.Data.List.Nodup
Trusted boundary: as Gvds.Manager.Mconf
Main exports: Aligned, KeepsPools, Registers, step_aligned, registry_stays_aligned
-/
import Gvds.Lib.Machine
import Gvds.Manager.Mconf
import Mathlib.Data.List.Nodup

namespace Gvds.Mconf

/-! ### The registry -/

/-- The IDs are different, the maps have these and no other keys, and every center has a pool under
its name, so that an administrator's search misses none. -/
structure Aligned (db : Bucket) : Prop where
  ids : (stored db).centerID.Nodup
  ip : ∀ id, ((stored db).centerIP id).isSome ↔ id ∈ (stored db).centerID
  port : ∀ id, ((stored db).centerPort id).isSome ↔ id ∈ (stored db).centerID
  name : ∀ id, ((stored db).centerName id).isSome ↔ id ∈ (stored db).centerID
  pool : ∀ id name, (stored db).centerName id = some name → ∃ p, db name = some (.pool p)
  search : ∀ adgvdsID name, adminSearchAccountPool db adgvdsID ≠ .noPool name

/-- A center comes or changes, or goes; or another request puts a pool in which accounts have come
into use or out of it. -/
inductive Action where
  | add (fe : FECenterInfo)
  | delete (centerID : String)
  | usePool (name : String) (pool : AccountSCPool)

/-- Whether a pool stands under a name. -/
def hasPool (db : Bucket) (name : String) : Bool :=
  match db name with
  | some (.pool _) => true
  | _ => false

/-- One step of the manager. -/
def step (db : Bucket) : Action → Option Bucket
  | .add fe => some (addCenter db fe)
  | .delete centerID => some (deleteCenter db centerID).1
  | .usePool name pool =>
      if hasPool db name then some (Function.update db name (some (.pool pool))) else none

/-- A bucket without a registry. -/
def start (docs : Bucket) : Bucket := Function.update docs key none

/-- Adding or updating a center leaves the pools of all others as they are. -/
def KeepsPools (db : Bucket) : Action → Prop
  | .add fe => ∀ id name, id ≠ fe.centerID → (stored db).centerName id = some name →
      addCenter db fe name = db name
  | _ => True

/-- A center that is listed gets a name under which a pool stands; a new one gets a name that is not
the key of the registry, and that no other center has, unless nobody has used an account of that. -/
def Registers (db : Bucket) : Action → Prop
  | .add fe =>
      if fe.centerID ∈ (stored db).centerID then hasPool db fe.centerName = true
      else fe.centerName ≠ key ∧ ∀ id, (stored db).centerName id = some fe.centerName →
        db fe.centerName = some (.pool newPool)
  | _ => True

theorem hasPool_iff {db : Bucket} {name : String} :
    hasPool db name = true ↔ ∃ p, db name = some (.pool p) := by
  unfold hasPool
  constructor
  · intro h
    split at h
    · rename_i p hp
      exact ⟨p, hp⟩
    · cases h
  · rintro ⟨p, hp⟩
    rw [hp]

/-- What stands under the key is a registry. -/
def Registry (db : Bucket) : Prop := ∀ doc, db key = some doc → ∃ info, doc = .registry info

/-- The registry that has just been written. -/
theorem stored_put (db : Bucket) (info : CenterInfo) :
    stored (Function.update db key (some (.registry info))) = info := by
  unfold stored
  rw [Function.update_self]
  rfl

/-- The registry does not change with another document. -/
theorem stored_update {db : Bucket} {name : String} (hname : name ≠ key) (doc : Option Document) :
    stored (Function.update db name doc) = stored db := by
  unfold stored
  rw [Function.update_of_ne (Ne.symm hname)]

/-- The registry is no pool. -/
theorem Registry.ne_key {db : Bucket} (h : Registry db) {name : String} {p : AccountSCPool}
    (hpool : db name = some (.pool p)) : name ≠ key := by
  rintro rfl
  obtain ⟨info, hinfo⟩ := h _ hpool
  cases hinfo

/-- The search misses no pool if one stands under each of the names. -/
theorem searchPools_ne_noPool {db : Bucket} {names : List String}
    (h : ∀ name ∈ names, ∃ p, db name = some (.pool p)) (pools : List (String × Nat × Nat))
    (missing : String) : searchPools db names pools ≠ .noPool missing := by
  induction names generalizing pools with
  | nil =>
      unfold searchPools
      split <;> simp
  | cons name names ih =>
      obtain ⟨p, hp⟩ := h name List.mem_cons_self
      unfold searchPools
      rw [hp]
      exact ih (fun n hn => h n (List.mem_cons_of_mem name hn)) _

/-- The parts of the registry that the search rests on. -/
theorem search_of_pools {db : Bucket}
    (hname : ∀ id ∈ (stored db).centerID, ((stored db).centerName id).isSome)
    (hpool : ∀ id name, (stored db).centerName id = some name → ∃ p, db name = some (.pool p))
    (adgvdsID name : String) : adminSearchAccountPool db adgvdsID ≠ .noPool name := by
  unfold adminSearchAccountPool
  split
  · cases hkey : db key with
    | none => simp
    | some doc =>
        have hstored : stored db = doc.toCenterInfo := by
          unfold stored
          rw [hkey]
          rfl
        dsimp only
        rw [← hstored]
        refine searchPools_ne_noPool (fun n hn => ?_) _ _
        obtain ⟨id, hid, rfl⟩ := List.mem_map.mp hn
        obtain ⟨m, hm⟩ := Option.isSome_iff_exists.mp (hname id hid)
        rw [hm]
        exact hpool id m hm
  · simp

/-- A map with a new entry has the keys that it had, and this. -/
theorem isSome_update {m : String → Option String} {ids ids' : List String} {id value : String}
    (h : ∀ i, (m i).isSome ↔ i ∈ ids) (hids : ∀ i, i ∈ ids' ↔ i ∈ ids ∨ i = id) (i : String) :
    (Function.update m id (some value) i).isSome ↔ i ∈ ids' := by
  rw [hids]
  by_cases hi : i = id
  · subst hi
    simp
  · rw [Function.update_of_ne hi, h]
    simp [hi]

/-- A map without an entry has the other keys that it had. -/
theorem isSome_erase {m : String → Option String} {ids : List String} (hnodup : ids.Nodup)
    (id : String) (h : ∀ i, (m i).isSome ↔ i ∈ ids) (i : String) :
    (Function.update m id none i).isSome ↔ i ∈ ids.erase id := by
  rw [hnodup.mem_erase_iff]
  by_cases hi : i = id
  · subst hi
    simp
  · rw [Function.update_of_ne hi, h]
    simp [hi]

/-- The centers that are listed after `addCenter`. -/
theorem mem_put (info : CenterInfo) (fe : FECenterInfo) (id : String) :
    id ∈ (info.put fe).centerID ↔ id ∈ info.centerID ∨ id = fe.centerID := by
  unfold CenterInfo.put
  dsimp only
  split
  · rename_i hmem
    exact ⟨.inl, fun h => h.elim (fun hm => hm) fun heq => heq ▸ hmem⟩
  · simp

/-- `addCenter` keeps the list and the maps of the registry together. The pools remain to be seen
to. -/
theorem aligned_put {db db' : Bucket} (h : Aligned db) (fe : FECenterInfo)
    (hstored : stored db' = (stored db).put fe) :
    Aligned db' ↔ (∃ p, db' fe.centerName = some (.pool p)) ∧
      ∀ id name, id ≠ fe.centerID → (stored db).centerName id = some name →
        ∃ p, db' name = some (.pool p) := by
  have hname : ∀ id, ((stored db').centerName id).isSome ↔ id ∈ (stored db').centerID := by
    rw [hstored]
    exact isSome_update h.name (mem_put _ fe)
  constructor
  · intro h'
    constructor
    · refine h'.pool fe.centerID fe.centerName ?_
      rw [hstored]
      exact Function.update_self ..
    · intro id name hid hidname
      refine h'.pool id name ?_
      rw [hstored]
      exact (Function.update_of_ne hid _ _).trans hidname
  · rintro ⟨hnew, hothers⟩
    have hpool : ∀ id name, (stored db').centerName id = some name →
        ∃ p, db' name = some (.pool p) := by
      intro id name hidname
      rw [hstored] at hidname
      change Function.update _ _ _ id = _ at hidname
      by_cases hid : id = fe.centerID
      · subst hid
        rw [Function.update_self] at hidname
        cases hidname
        exact hnew
      · rw [Function.update_of_ne hid] at hidname
        exact hothers id name hid hidname
    refine ⟨?_, ?_, ?_, hname, hpool, search_of_pools (fun id hid => (hname id).mpr hid) hpool⟩
    · rw [hstored]
      unfold CenterInfo.put
      dsimp only
      split
      · exact h.ids
      · rename_i hnot
        exact List.Nodup.append h.ids (List.nodup_singleton _) (List.disjoint_singleton.mpr hnot)
    · rw [hstored]
      exact isSome_update h.ip (mem_put _ fe)
    · rw [hstored]
      exact isSome_update h.port (mem_put _ fe)

/-! ### One step -/

/-- After `addCenter` the centers are aligned and the other pools untouched iff the request meets
the condition. -/
theorem addCenter_aligned {db : Bucket} (hreg : Registry db) (h : Aligned db) (fe : FECenterInfo) :
    Aligned (addCenter db fe) ∧ KeepsPools db (.add fe) ↔ Registers db (.add fe) := by
  have hstored : stored (addCenter db fe) = (stored db).put fe := stored_put _ _
  rw [aligned_put h fe hstored]
  have hkey : addCenter db fe key = some (.registry ((stored db).put fe)) := by
    unfold addCenter
    exact Function.update_self ..
  simp only [KeepsPools, Registers]
  by_cases hknown : fe.centerID ∈ (stored db).centerID
  · rw [if_pos hknown, hasPool_iff]
    -- only the registry is written
    have hsame : ∀ name, name ≠ key → addCenter db fe name = db name := by
      intro name hname
      simp only [addCenter, if_pos hknown, Function.update_of_ne hname]
    have hothers : ∀ id name, (stored db).centerName id = some name →
        addCenter db fe name = db name := by
      intro id name hidname
      obtain ⟨p, hp⟩ := h.pool id name hidname
      exact hsame name (hreg.ne_key hp)
    constructor
    · rintro ⟨⟨⟨p, hp⟩, -⟩, -⟩
      refine ⟨p, ?_⟩
      rw [← hp, hsame]
      rintro hname
      rw [hname, hkey] at hp
      cases hp
    · rintro ⟨p, hp⟩
      refine ⟨⟨⟨p, by rw [hsame _ (hreg.ne_key hp), hp]⟩, ?_⟩, fun id name _ => hothers id name⟩
      intro id name _ hidname
      rw [hothers id name hidname]
      exact h.pool id name hidname
  · rw [if_neg hknown]
    have hother : ∀ name, name ≠ key → addCenter db fe name =
        if name = fe.centerName then some (.pool newPool) else db name := by
      intro name hname
      simp only [addCenter, if_neg hknown, Function.update_of_ne hname]
      split
      · rename_i heq
        rw [heq, Function.update_self]
      · rename_i hne
        rw [Function.update_of_ne hne]
    have hid : ∀ id name, (stored db).centerName id = some name → id ≠ fe.centerID := by
      intro id name hidname heq
      exact hknown (heq ▸ (h.name id).mp (hidname ▸ rfl))
    constructor
    · rintro ⟨⟨⟨p, hp⟩, -⟩, hkeeps⟩
      have hname : fe.centerName ≠ key := by
        intro heq
        rw [heq, hkey] at hp
        cases hp
      refine ⟨hname, fun id hidname => ?_⟩
      rw [← hkeeps id _ (hid id _ hidname) hidname, hother _ hname, if_pos rfl]
    · rintro ⟨hname, hfresh⟩
      refine ⟨⟨⟨newPool, by rw [hother _ hname, if_pos rfl]⟩, ?_⟩, ?_⟩
      · intro id name _ hidname
        obtain ⟨p, hp⟩ := h.pool id name hidname
        rw [hother name (hreg.ne_key hp)]
        split
        · exact ⟨newPool, rfl⟩
        · exact ⟨p, hp⟩
      · intro id name _ hidname
        obtain ⟨p, hp⟩ := h.pool id name hidname
        rw [hother name (hreg.ne_key hp)]
        split
        · rename_i heq
          rw [heq, hfresh id (heq ▸ hidname)]
        · rfl

/-- `deleteCenter` keeps the centers aligned. -/
theorem Aligned.deleteCenter {db : Bucket} (hreg : Registry db) (h : Aligned db)
    (centerID : String) : Aligned (Mconf.deleteCenter db centerID).1 := by
  unfold Mconf.deleteCenter
  cases hkey : db key with
  | none => exact h
  | some doc =>
      have hdoc : stored db = doc.toCenterInfo := by
        unfold stored
        rw [hkey]
        rfl
      dsimp only
      rw [← hdoc]
      split
      · have hstored := stored_put db ((stored db).erase centerID)
        dsimp only
        generalize hdb' : Function.update db key
          (some (.registry ((stored db).erase centerID))) = db' at hstored ⊢
        have hname : ∀ id, ((stored db').centerName id).isSome ↔ id ∈ (stored db').centerID := by
          rw [hstored]
          exact isSome_erase h.ids centerID h.name
        have hpool : ∀ id name, (stored db').centerName id = some name →
            ∃ p, db' name = some (.pool p) := by
          intro id name hidname
          rw [hstored] at hidname
          change Function.update _ _ _ id = _ at hidname
          by_cases hid : id = centerID
          · subst hid
            rw [Function.update_self] at hidname
            cases hidname
          · rw [Function.update_of_ne hid] at hidname
            obtain ⟨p, hp⟩ := h.pool id name hidname
            exact ⟨p, by rw [← hdb', Function.update_of_ne (hreg.ne_key hp), hp]⟩
        refine ⟨?_, ?_, ?_, hname, hpool, search_of_pools (fun id hid => (hname id).mpr hid) hpool⟩
        · rw [hstored]
          exact h.ids.erase _
        · rw [hstored]
          exact isSome_erase h.ids centerID h.ip
        · rw [hstored]
          exact isSome_erase h.ids centerID h.port
      · exact h

/-- Another content of a pool keeps the centers aligned. -/
theorem Aligned.usePool {db : Bucket} (hreg : Registry db) (h : Aligned db) {name : String}
    (hname : hasPool db name = true) (pool : AccountSCPool) :
    Aligned (Function.update db name (some (.pool pool))) := by
  obtain ⟨p, hp⟩ := hasPool_iff.mp hname
  have hstored : stored (Function.update db name (some (.pool pool))) = stored db :=
    stored_update (hreg.ne_key hp) _
  have hpool : ∀ id n, (stored (Function.update db name (some (.pool pool)))).centerName id =
      some n → ∃ p, Function.update db name (some (.pool pool)) n = some (.pool p) := by
    intro id n hidname
    rw [hstored] at hidname
    by_cases hn : n = name
    · subst hn
      exact ⟨pool, Function.update_self ..⟩
    · rw [Function.update_of_ne hn]
      exact h.pool id n hidname
  refine ⟨hstored ▸ h.ids, hstored ▸ h.ip, hstored ▸ h.port, hstored ▸ h.name, hpool,
    search_of_pools (fun id hid => ?_) hpool⟩
  rw [hstored] at hid ⊢
  exact (h.name id).mpr hid

/-- The registry stays one. -/
theorem Registry.step {db db' : Bucket} {a : Action} (h : Registry db)
    (hstep : Mconf.step db a = some db') : Registry db' := by
  cases a with
  | add fe =>
      cases hstep
      intro doc hdoc
      simp only [addCenter, Function.update_self] at hdoc
      cases hdoc
      exact ⟨_, rfl⟩
  | delete centerID =>
      cases hstep
      unfold deleteCenter
      split
      · exact h
      · split
        · intro doc hdoc
          dsimp only at hdoc
          rw [Function.update_self] at hdoc
          cases hdoc
          exact ⟨_, rfl⟩
        · exact h
  | usePool name pool =>
      simp only [Mconf.step] at hstep
      split at hstep
      · rename_i hname
        cases hstep
        obtain ⟨p, hp⟩ := hasPool_iff.mp hname
        intro doc hdoc
        rw [Function.update_of_ne (Ne.symm (h.ne_key hp))] at hdoc
        exact h doc hdoc
      · cases hstep

/-- A step keeps the centers aligned and the pools of others untouched iff it meets the
condition. -/
theorem step_aligned {db db' : Bucket} {a : Action} (hreg : Registry db) (h : Aligned db)
    (hstep : step db a = some db') : Aligned db' ∧ KeepsPools db a ↔ Registers db a := by
  cases a with
  | add fe =>
      cases hstep
      exact addCenter_aligned hreg h fe
  | delete centerID =>
      cases hstep
      exact ⟨fun _ => trivial, fun _ => ⟨h.deleteCenter hreg centerID, trivial⟩⟩
  | usePool name pool =>
      simp only [step] at hstep
      split at hstep
      · rename_i hname
        cases hstep
        exact ⟨fun _ => trivial, fun _ => ⟨h.usePool hreg hname pool, trivial⟩⟩
      · cases hstep

/-! ### Runs -/

/-- Without a registry there is no center. -/
theorem aligned_start (docs : Bucket) : Aligned (start docs) := by
  have hstored : stored (start docs) = .empty := by
    unfold stored start
    rw [Function.update_self]
    rfl
  have hpool : ∀ id name, (stored (start docs)).centerName id = some name →
      ∃ p, start docs name = some (.pool p) := by
    intro id name hname
    rw [hstored] at hname
    cases hname
  refine ⟨?_, ?_, ?_, ?_, hpool, search_of_pools (fun id hid => ?_) hpool⟩
  all_goals rw [hstored] at *
  · exact List.nodup_nil
  · simp [CenterInfo.empty]
  · simp [CenterInfo.empty]
  · simp [CenterInfo.empty]
  · cases hid

/-- **The center registry stays aligned**, and no center resets the pool of another one, along a run
iff all its requests meet the condition. -/
theorem registry_stays_aligned (docs : Bucket) (as : List Action) :
    Machine.Always step Aligned (start docs) as ∧ Machine.Guarded step KeepsPools (start docs) as ↔
      Machine.Guarded step Registers (start docs) as := by
  have hinv : ∀ db a db', Registry db → step db a = some db' → Registry db' :=
    fun _ _ _ h hstep => h.step hstep
  refine Machine.always_and_guarded_iff hinv
    (fun _ _ _ hreg h hstep => step_aligned hreg h hstep) (fun db a _ _ hnone => ?_) ?_
    (aligned_start docs)
  · cases a with
    | add fe => cases hnone
    | delete centerID => cases hnone
    | usePool name pool => exact Iff.rfl
  · intro doc hdoc
    rw [start, Function.update_self] at hdoc
    cases hdoc

/-- A center is added, and later gets another name, under which no pool is made. -/
theorem renamed_center_has_no_pool :
    ¬ ∀ (docs : Bucket) (as : List Action), Machine.Always step Aligned (start docs) as ∧
      Machine.Guarded step KeepsPools (start docs) as := by
  intro hall
  obtain ⟨halways, -⟩ := hall (fun _ => none)
    [.add ⟨"1", "10.0.0.1", "9090", "Beijing"⟩, .add ⟨"1", "10.0.0.1", "9090", "Jinan"⟩]
  obtain ⟨p, hp⟩ := ((halways.2 _ rfl).2 _ rfl).pool "1" "Jinan" rfl
  cases hp

end Gvds.Mconf
