/-
Module: Gvds.Proofs.CacheTransparency
Layer: Proofs
Purpose: The stat cache against the same client without it. A call expires what its own paths name,
  so the cache goes wrong exactly where a call changes what another path shows that it has recorded:
  below the two paths of a rename, and where the server's descriptor for the path of a write or a
  truncating open is open on a file that another path names.
Imports: Gvds.Lib.Machine, Gvds.Client.StatCache, Gvds.Proofs.PathEffects
Trusted boundary: as Gvds.Client.StatCache
Main exports: shown, Transparent, Keeps, cache_is_transparent_iff
-/
import Gvds.Lib.Machine
import Gvds.Client.StatCache
import Gvds.Proofs.PathEffects

namespace Gvds.StatCache

variable {ι β : Type*}

/-! ### What is compared -/

/-- What a getattr shows, up to the error number, times and the size of directories. -/
def shown : Answer → Option Stat
  | .error _ => none
  | .ok st => some (if st.kind = .dir then { st with size := 0 } else st)

/-- What an IO proxy shows of a path. -/
def Proxy.view (s : Proxy β) (p : PathName) : Option Stat :=
  match s.io.k.tree.node p with
  | none => none
  | some .dir => some ⟨.dir, s.mode p, 0⟩
  | some (.file ino) => some ⟨.file, s.mode p, (s.io.k.content ino).size⟩

@[simp] theorem shown_get_attr (fs : FileSystem) (s : Proxy β) (p : PathName) :
    shown (s.get_attr fs p) = s.view p := by
  cases hnode : s.io.k.tree.node p with
  | none => simp [Proxy.get_attr, Proxy.view, hnode, shown]
  | some n =>
      cases n with
      | dir => simp [Proxy.get_attr, Proxy.view, hnode, shown]
      | file ino => simp [Proxy.get_attr, Proxy.view, hnode, shown]

theorem view_eq_none_iff {s : Proxy β} {p : PathName} :
    s.view p = none ↔ s.io.k.tree.node p = none := by
  unfold Proxy.view
  split <;> simp [*]

/-- Where a path names what it named and has the permissions it had, it shows the same exactly if a
file has the same size. -/
theorem view_eq_iff {s t : Proxy β} {p : PathName}
    (hnode : t.io.k.tree.node p = s.io.k.tree.node p) (hmode : t.mode p = s.mode p) :
    t.view p = s.view p ↔ ∀ i, s.io.k.tree.node p = some (.file i) →
      (t.io.k.content i).size = (s.io.k.content i).size := by
  unfold Proxy.view
  rw [hnode, hmode]
  cases s.io.k.tree.node p with
  | none => simp
  | some n =>
      cases n with
      | dir => simp
      | file ino => simp

/-- Permissions show at their path. -/
theorem view_of_mode {s : Proxy β} {mode : PathName → BitVec 32} {p : PathName}
    (h : mode p = s.mode p) : Proxy.view ⟨s.io, mode⟩ p = s.view p := by
  have hsame : (⟨s.io, mode⟩ : Proxy β).view p = s.view p ↔ _ := view_eq_iff rfl h
  exact hsame.mpr fun _ _ => rfl

/-! ### What the cache has recorded -/

namespace ClientCache

/-- What the cache answers for a path, if it does. -/
def recorded (c : ClientCache) (p : PathName) : Option (Option Stat) :=
  match c.lookup p with
  | .found st => some (shown (.ok st))
  | .foundMissing => some none
  | .notFound => none

theorem recorded_expire (c : ClientCache) (p q : PathName) :
    (c.expire_stat p).recorded q = if q = p then none else c.recorded q := by
  by_cases h : q = p
  · subst h
    simp [recorded, lookup, expire_stat]
  · simp [recorded, lookup, expire_stat, h]

/-- The paths of a call are expired, and no others. -/
theorem recorded_expire_all (c : ClientCache) (ps : List PathName) (q : PathName) :
    (ps.foldl expire_stat c).recorded q = if q ∈ ps then none else c.recorded q := by
  induction ps generalizing c with
  | nil => simp
  | cons p ps ih =>
      rw [List.foldl_cons, ih, recorded_expire]
      by_cases hq : q ∈ ps
      · simp [hq]
      · by_cases hp : q = p
        · simp [hp]
        · simp [hq, hp]

theorem recorded_set_missing (c : ClientCache) (p q : PathName) :
    (c.set_missing p).recorded q = if q = p then some none else c.recorded q := by
  by_cases h : q = p
  · subst h
    simp [recorded, lookup, set_missing]
  · simp [recorded, lookup, set_missing, h]

theorem recorded_set_stat_of_ne (m : Int) (c : ClientCache) {p q : PathName} (st : Stat)
    (h : q ≠ p) : (c.set_stat m p st).recorded q = c.recorded q := by
  unfold set_stat
  dsimp only
  split
  · simp [recorded, lookup, h]
  · split <;> simp [recorded, lookup, h]

/-- A stat is recorded, unless there is no room. -/
theorem recorded_set_stat_self (m : Int) (c : ClientCache) (p : PathName) (st : Stat)
    {o : Option Stat} (h : (c.set_stat m p st).recorded p = some o) : o = shown (.ok st) := by
  unfold set_stat at h
  dsimp only at h
  split at h
  · simpa [recorded, lookup, eq_comm] using h
  · rename_i hnot
    split at h
    · -- without room nothing is recorded
      have hnone : c.cached p = none := by
        cases hc : c.cached p with
        | none => rfl
        | some st' => exact absurd (by simp [lookup, hc]) (hnot st')
      simp [recorded, lookup, hnone] at h
    · simpa [recorded, lookup, eq_comm] using h

end ClientCache

/-! ### Transparency -/

/-- The path there is asked for by a getattr that comes to the IO proxy. -/
def Env.Served (env : Env ι) (i : ι) (p : PathName) : Prop :=
  ∃ path, ¬ env.isZoneSpacePath path < 2 ∧ env.get_mapping path = some (i, p)

/-- A mapped path is not empty, has no dots, and its outermost name says which proxy it is on. -/
theorem Env.get_mapping_cases {env : Env ι} {path : String} {i : ι} {p : PathName}
    (h : env.get_mapping path = some (i, p)) :
    ∃ space rpath, p = rpath ++ [space] ∧ env.ioproxy space = some i ∧ "." ∉ p ∧ ".." ∉ p := by
  obtain ⟨⟨space, rpath⟩, hloc, hmap⟩ := Option.bind_eq_some_iff.mp h
  obtain ⟨iop, hiop, heq⟩ := Option.map_eq_some_iff.mp hmap
  cases heq
  obtain ⟨hdot, hdots⟩ := env.plain path space rpath hloc
  exact ⟨space, rpath, rfl, hiop, hdot, hdots⟩

/-- Paths in one space are on one proxy. -/
theorem Env.Served.same {env : Env ι} {i j : ι} {p rel : PathName} {path : String}
    (h : env.Served j (rel ++ p)) (hmap : env.get_mapping path = some (i, p)) : j = i := by
  obtain ⟨path', -, hmap'⟩ := h
  obtain ⟨space, rpath, rfl, hiop, -⟩ := env.get_mapping_cases hmap
  obtain ⟨space', rpath', heq, hiop', -⟩ := env.get_mapping_cases hmap'
  rw [← List.append_assoc] at heq
  obtain ⟨-, hspace⟩ := List.append_inj' heq rfl
  cases hspace
  rw [hiop] at hiop'
  exact (Option.some.inj hiop').symm

/-- The client with the cache and the one without it, call by call. -/
def both [DecidableEq ι] (cfg : Config ι) (s : State ι β × State ι β) (a : Call) :
    Option (State ι β × State ι β) :=
  some (step cfg s.1 a, step cfg.off s.2 a)

/-- A getattr, whichever path it is for, shows the same with the cache and without it. -/
def Transparent (cfg : Config ι) (s : State ι β × State ι β) : Prop :=
  ∀ path, shown (gvdsfs_getattr cfg s.1 path).2 = shown (gvdsfs_getattr cfg.off s.2 path).2

/-- The cache has recorded what the proxies show. -/
def Right (cfg : Config ι) (s : State ι β) : Prop :=
  ∀ i p, cfg.env.Served i p → ∀ o, s.cache.recorded p = some o → (s.servers i).view p = o

/-- The two clients have the same servers, and a cache that is off has recorded nothing. -/
structure Paired (cfg : Config ι) (s : State ι β × State ι β) : Prop where
  servers : s.1.servers = s.2.servers
  off : cfg.max_stat_cache_ct ≤ 0 → ∀ p, s.1.cache.recorded p = none

theorem transparent_iff {cfg : Config ι} {s : State ι β × State ι β} (h : Paired cfg s) :
    Transparent cfg s ↔ Right cfg s.1 := by
  have hoff : ∀ path i p, ¬ cfg.env.isZoneSpacePath path < 2 →
      cfg.env.get_mapping path = some (i, p) →
      shown (gvdsfs_getattr cfg.off s.2 path).2 = (s.1.servers i).view p := by
    intro path i p hzs hmap
    have hneg : ¬ cfg.env.isZoneSpacePath path < 0 := by omega
    simp [gvdsfs_getattr, Config.off, hneg, hzs, hmap, h.servers]
  have hon : ∀ path i p, ¬ cfg.env.isZoneSpacePath path < 2 →
      cfg.env.get_mapping path = some (i, p) →
      shown (gvdsfs_getattr cfg s.1 path).2 =
        (s.1.cache.recorded p).getD ((s.1.servers i).view p) := by
    intro path i p hzs hmap
    have hneg : ¬ cfg.env.isZoneSpacePath path < 0 := by omega
    by_cases hmax : cfg.max_stat_cache_ct > 0
    · have hreply := shown_get_attr cfg.fs (s.1.servers i) p
      simp only [gvdsfs_getattr, hneg, hzs, hmap, hmax, if_false, if_true,
        ClientCache.recorded]
      cases s.1.cache.lookup p with
      | found st => rfl
      | foundMissing => rfl
      | notFound =>
          cases hattr : (s.1.servers i).get_attr cfg.fs p with
          | error err =>
              rw [hattr] at hreply
              exact hreply
          | ok st =>
              rw [hattr] at hreply
              exact hreply
    · rw [h.off (by omega) p]
      simp [gvdsfs_getattr, hneg, hzs, hmap, hmax]
  constructor
  · rintro htrans i p ⟨path, hzs, hmap⟩ o ho
    have hpath := htrans path
    rw [hon path i p hzs hmap, hoff path i p hzs hmap, ho] at hpath
    exact hpath.symm
  · intro hright path
    by_cases hzs : cfg.env.isZoneSpacePath path < 2
    · -- the zones answer
      simp [gvdsfs_getattr, Config.off, hzs]
      split <;> rfl
    · cases hmap : cfg.env.get_mapping path with
      | none =>
          simp [gvdsfs_getattr, Config.off, hzs, hmap]
          split <;> rfl
      | some m =>
          obtain ⟨i, p⟩ := m
          rw [hon path i p hzs hmap, hoff path i p hzs hmap]
          cases ho : s.1.cache.recorded p with
          | none => rfl
          | some o => exact (hright i p ⟨path, hzs, hmap⟩ o ho).symm

/-! ### Calls that fill the cache -/

/-- Recording what the proxy of a path shows keeps the cache right. -/
theorem Right.set_stat {cfg : Config ι} {s : State ι β} (h : Right cfg s) {p : PathName} {st : Stat}
    (hst : ∀ i, cfg.env.Served i p → (s.servers i).view p = shown (.ok st)) :
    Right cfg { s with cache := s.cache.set_stat cfg.max_stat_cache_ct p st } := by
  intro i q hq o ho
  by_cases hqp : q = p
  · subst hqp
    rw [ClientCache.recorded_set_stat_self _ _ _ _ ho]
    exact hst i hq
  · rw [ClientCache.recorded_set_stat_of_ne _ _ _ hqp] at ho
    exact h i q hq o ho

theorem Right.set_missing {cfg : Config ι} {s : State ι β} (h : Right cfg s) {p : PathName}
    (hp : ∀ i, cfg.env.Served i p → (s.servers i).view p = none) :
    Right cfg { s with cache := s.cache.set_missing p } := by
  intro i q hq o ho
  rw [ClientCache.recorded_set_missing] at ho
  by_cases hqp : q = p
  · subst hqp
    rw [if_pos rfl] at ho
    rw [← Option.some.inj ho]
    exact hp i hq
  · rw [if_neg hqp] at ho
    exact h i q hq o ho

/-- A getattr keeps the cache right. -/
theorem right_getattr {cfg : Config ι} {s : State ι β} (h : Right cfg s) (path : String) :
    Right cfg { s with cache := (gvdsfs_getattr cfg s path).1 } := by
  unfold gvdsfs_getattr
  dsimp only
  split
  · exact h
  · split
    · exact h
    · cases hmap : cfg.env.get_mapping path with
      | none => exact h
      | some m =>
          obtain ⟨i, p⟩ := m
          dsimp only
          split
          · have hsame : ∀ j, cfg.env.Served j p → j = i := fun j hj =>
              (show cfg.env.Served j ([] ++ p) from hj).same hmap
            have hreply := shown_get_attr cfg.fs (s.servers i) p
            cases s.cache.lookup p with
            | found st => exact h
            | foundMissing => exact h
            | notFound =>
                cases hattr : (s.servers i).get_attr cfg.fs p with
                | error err =>
                    rw [hattr] at hreply
                    refine h.set_missing fun j hj => ?_
                    rw [hsame j hj]
                    exact hreply.symm
                | ok st =>
                    rw [hattr] at hreply
                    refine h.set_stat fun j hj => ?_
                    rw [hsame j hj]
                    exact hreply.symm
          · exact h

/-- The entries of a directory are recorded as they are. The entries with dots are not asked for. -/
theorem right_cacheEntries {cfg : Config ι} {servers : ι → Proxy β} {path : String} {i : ι}
    {p : PathName} (hmap : cfg.env.get_mapping path = some (i, p)) (names : List String)
    {c : ClientCache} (h : Right cfg ⟨servers, c⟩) :
    Right cfg ⟨servers, cacheEntries cfg (servers i) p c names⟩ := by
  unfold cacheEntries
  induction names generalizing c with
  | nil => exact h
  | cons name names ih =>
      rw [List.foldl_cons]
      refine ih ?_
      cases hattr : entryAttr cfg.fs (servers i) p name with
      | error err => exact h
      | ok st =>
          refine Right.set_stat (s := ⟨servers, c⟩) h fun j hj => ?_
          have hsame : j = i := (show cfg.env.Served j ([name] ++ p) from hj).same hmap
          obtain ⟨path', -, hmap'⟩ := hj
          obtain ⟨-, -, -, -, hdot, hdots⟩ := cfg.env.get_mapping_cases hmap'
          have hname : name ≠ "." := fun heq => hdot (heq ▸ List.mem_cons_self)
          have hname' : name ≠ ".." := fun heq => hdots (heq ▸ List.mem_cons_self)
          rw [entryAttr, if_neg hname, if_neg hname'] at hattr
          rw [hsame, ← hattr]
          exact (shown_get_attr cfg.fs (servers i) (name :: p)).symm

theorem right_readdir {cfg : Config ι} {s : State ι β} (h : Right cfg s) (path : String)
    (names : List String) : Right cfg { s with cache := gvdsfs_readdir cfg s path names } := by
  unfold gvdsfs_readdir
  split
  · exact h
  · cases hmap : cfg.env.get_mapping path with
    | none => exact h
    | some m =>
        obtain ⟨i, p⟩ := m
        dsimp only
        split
        · exact right_cacheEntries hmap names h
        · exact h

/-! ### Calls that change something -/

/-- After a change the cache is right exactly if the proxy shows the same as before of every path
that is still recorded. -/
theorem right_change_iff [DecidableEq ι] {cfg : Config ι} {s : State ι β} (h : Right cfg s)
    (hoff : cfg.max_stat_cache_ct ≤ 0 → ∀ p, s.cache.recorded p = none) (x : Sent ι) :
    Right cfg (change cfg s x) ↔
      ∀ q, cfg.env.Served x.iop q → q ∉ x.expires → (s.cache.recorded q).isSome →
        ((s.servers x.iop).doOp cfg.fs x.op).view q = (s.servers x.iop).view q := by
  have hrecorded : ∀ q, (change cfg s x).cache.recorded q =
      if q ∈ x.expires then none else s.cache.recorded q := by
    intro q
    unfold change
    by_cases hmax : cfg.max_stat_cache_ct > 0
    · simp only [hmax, if_true]
      exact ClientCache.recorded_expire_all s.cache x.expires q
    · simp [hmax, hoff (by omega)]
  have hself : (change cfg s x).servers x.iop = (s.servers x.iop).doOp cfg.fs x.op :=
    Function.update_self _ _ _
  constructor
  · intro hright q hq hnot hsome
    obtain ⟨o, ho⟩ := Option.isSome_iff_exists.mp hsome
    have hafter := hright x.iop q hq o (by rw [hrecorded, if_neg hnot, ho])
    rw [hself] at hafter
    rw [hafter, h x.iop q hq o ho]
  · intro hsteady i q hq o ho
    rw [hrecorded] at ho
    split at ho
    · cases ho
    · rename_i hnot
      by_cases hi : i = x.iop
      · subst hi
        rw [hself, hsteady q hq hnot (by simp [ho])]
        exact h _ q hq o ho
      · have hother : (change cfg s x).servers i = s.servers i := Function.update_of_ne hi _ _
        rw [hother]
        exact h i q hq o ho

/-! ### What the requests show of other paths -/

/-- A request gives permissions to its own path only. -/
theorem view_execute_iff {fs : FileSystem} {s : Proxy β} {r : Request} {p q : PathName}
    {mode : BitVec 32} (hq : q ≠ p)
    (hnode : (s.io.doOp noPeers r).1.k.tree.node q = s.io.k.tree.node q) :
    (s.execute fs r p mode).view q = s.view q ↔ ∀ i, s.io.k.tree.node q = some (.file i) →
      ((s.io.doOp noPeers r).1.k.content i).size = (s.io.k.content i).size := by
  unfold Proxy.execute
  dsimp only
  split
  · exact view_eq_iff hnode (Function.update_of_ne hq _ _)
  · exact view_eq_iff hnode rfl

theorem view_execute_of_spares {fs : FileSystem} {s : Proxy β} {r : Request} {p q : PathName}
    {mode : BitVec 32} (hq : q ≠ p)
    (h : Kernel.Spares s.io.k (s.io.doOp noPeers r).1.k q) :
    (s.execute fs r p mode).view q = s.view q :=
  (view_execute_iff hq h.node).mpr h.size

theorem view_open_iff {fs : FileSystem} {s : Proxy β} {p q : PathName} {flags : BitVec 32}
    (hq : q ≠ p) :
    (s.doOp fs (.open p flags)).view q = s.view q ↔
      (hasFlag flags oTrunc = true → ∀ file, s.io.Behind p file →
        s.io.k.tree.node q = some (.file file.ino) → (s.io.k.content file.ino).size = 0) := by
  obtain ⟨hnode, hsize⟩ := s.io.doOpen_spec flags hq
  have hopened : (s.io.doOp noPeers (.open p flags)).1.k.tree.node q = s.io.k.tree.node q := hnode
  exact (view_execute_iff hq hopened).trans hsize

theorem view_write_iff {fs : FileSystem} {s : Proxy β} {p q : PathName} {data : List UInt8}
    {off : Nat} (hq : q ≠ p) :
    (s.doOp fs (.write p data off)).view q = s.view q ↔
      ∀ file, s.io.Behind p file → s.io.k.tree.node q = some (.file file.ino) →
        IoProxy.Fits s.io.k file data off := by
  obtain ⟨hnode, hsize⟩ := s.io.doWrite_spec data off hq
  have hwritten : (s.io.doOp noPeers (.write p data off)).1.k.tree.node q = s.io.k.tree.node q :=
    hnode
  exact (view_execute_iff hq hwritten).trans hsize

/-- The requests that show other paths nothing. -/
theorem view_doOp_of_ne {fs : FileSystem} {s : Proxy β} {q : PathName} {op : Op}
    (hq : q ∉ op.paths) (hopen : ∀ p flags, op ≠ .open p flags)
    (hwrite : ∀ p data off, op ≠ .write p data off) (hrename : ∀ p p', op ≠ .rename p p') :
    (s.doOp fs op).view q = s.view q := by
  cases op with
  | «open» p flags => exact absurd rfl (hopen p flags)
  | write p data off => exact absurd rfl (hwrite p data off)
  | rename p p' => exact absurd rfl (hrename p p')
  | create p mode =>
      have hne : q ≠ p := by simpa [Op.paths] using hq
      exact view_execute_of_spares hne (s.io.spares_create hne)
  | truncate p size =>
      have hne : q ≠ p := by simpa [Op.paths] using hq
      exact view_execute_of_spares hne (s.io.spares_truncate size hne)
  | unlink p =>
      have hne : q ≠ p := by simpa [Op.paths] using hq
      exact view_execute_of_spares hne (s.io.spares_unlink hne)
  | mkdir p =>
      have hne : q ≠ p := by simpa [Op.paths] using hq
      exact view_execute_of_spares hne (s.io.spares_mkdir hne)
  | rmdir p =>
      have hne : q ≠ p := by simpa [Op.paths] using hq
      exact view_execute_of_spares hne (s.io.spares_rmdir hne)
  | chmod p mode =>
      have hne : q ≠ p := by simpa [Op.paths] using hq
      simp only [Proxy.doOp]
      split
      · have hmode : Function.update s.mode p (mode &&& permsMask) q = s.mode q :=
          Function.update_of_ne hne _ _
        exact view_of_mode hmode
      · rfl

/-- A rename that the kernel does not make shows nothing. -/
theorem view_rename_of_not {fs : FileSystem} {s : Proxy β} {src dst : PathName}
    (h : ¬ s.io.k.CanRename src dst) (q : PathName) :
    (s.doOp fs (.rename src dst)).view q = s.view q := by
  simp only [Proxy.doOp, IoProxy.doOp, IoProxy.withCall]
  cases hrename : s.io.k.sysRename src dst with
  | error e => rfl
  | ok k =>
      obtain ⟨rfl, rfl⟩ | ⟨hcan, -⟩ := Kernel.sysRename_cases hrename
      · -- the path is moved to itself
        have hmode : Proxy.movedMode s.mode src src q = s.mode q := by
          unfold Proxy.movedMode
          split
          · rename_i hsuffix
            obtain ⟨rel, rfl⟩ := hsuffix
            simp
          · rfl
        exact view_of_mode hmode
      · exact absurd hcan h

/-- What a rename that the kernel makes shows: the source is seen at the target. -/
theorem view_rename {s : Proxy β} {src dst : PathName}
    (fs : FileSystem) (h : s.io.k.CanRename src dst) :
    (∀ rel, (s.doOp fs (.rename src dst)).view (rel ++ dst) = s.view (rel ++ src)) ∧
      (∀ rel, (s.doOp fs (.rename src dst)).view (rel ++ src) = none) ∧
      ∀ q, ¬ dst <:+ q → ¬ src <:+ q → (s.doOp fs (.rename src dst)).view q = s.view q := by
  have hdone : s.doOp fs (.rename src dst) =
      ⟨{ s.io with k := s.io.k.moveName src dst }, Proxy.movedMode s.mode src dst⟩ := by
    simp only [Proxy.doOp, IoProxy.doOp, IoProxy.withCall, Kernel.sysRename_of_canRename h]
  obtain ⟨htarget, hsource, hother⟩ := IoProxy.node_moveName h.1
  rw [hdone]
  refine ⟨fun rel => ?_, fun rel => ?_, fun q hdst hsrc => ?_⟩
  · have hmode : Proxy.movedMode s.mode src dst (rel ++ dst) = s.mode (rel ++ src) := by
      simp [Proxy.movedMode]
    unfold Proxy.view
    dsimp only
    rw [htarget rel, hmode]
    rfl
  · exact view_eq_none_iff.mpr (hsource rel)
  · refine (view_eq_iff (hother q hdst hsrc) ?_).mpr fun _ _ => rfl
    simp [Proxy.movedMode, hdst]

/-! ### When the cache stays right -/

/-- A request leaves alone what the cache has recorded of other paths: a rename that the kernel makes
has no stat recorded below its source, and no missing path below its target where the source has
one; a truncating open empties no other recorded file than an empty one; and a write fits into the
file of any other recorded path. -/
def Spares (env : Env ι) (i : ι) (s : Proxy β) (c : ClientCache) : Op → Prop
  | .rename src dst => s.io.k.CanRename src dst → ∀ rel, rel ≠ [] →
      (env.Served i (rel ++ src) → ∀ st, c.recorded (rel ++ src) ≠ some (some st)) ∧
        (env.Served i (rel ++ dst) → c.recorded (rel ++ dst) = some none →
          s.io.k.tree.node (rel ++ src) = none)
  | .open path flags => hasFlag flags oTrunc = true → ∀ file q, s.io.Behind path file → q ≠ path →
      s.io.k.tree.node q = some (.file file.ino) → env.Served i q → (c.recorded q).isSome →
        (s.io.k.content file.ino).size = 0
  | .write path data off => ∀ file q, s.io.Behind path file → q ≠ path →
      s.io.k.tree.node q = some (.file file.ino) → env.Served i q → (c.recorded q).isSome →
        IoProxy.Fits s.io.k file data off
  | _ => True

theorem spares_rename_iff {cfg : Config ι} {s : State ι β} (h : Right cfg s) (i : ι)
    (src dst : PathName) :
    (∀ q, cfg.env.Served i q → q ∉ [src, dst] → (s.cache.recorded q).isSome →
        ((s.servers i).doOp cfg.fs (.rename src dst)).view q = (s.servers i).view q) ↔
      Spares cfg.env i (s.servers i) s.cache (.rename src dst) := by
  unfold Spares
  by_cases hcan : (s.servers i).io.k.CanRename src dst
  swap
  · simp only [hcan, false_imp_iff, iff_true]
    intro q _ _ _
    exact view_rename_of_not hcan q
  obtain ⟨htarget, hsource, hother⟩ := view_rename cfg.fs hcan
  have hsrc : ∀ rel : PathName, rel ≠ [] → rel ++ src ∉ [src, dst] := by
    intro rel hrel hmem
    obtain heq | heq := by simpa using hmem
    · exact hrel heq
    · exact hcan.1.2.1 (heq ▸ List.suffix_append rel src)
  have hdst : ∀ rel : PathName, rel ≠ [] → rel ++ dst ∉ [src, dst] := by
    intro rel hrel hmem
    obtain heq | heq := by simpa using hmem
    · have hnot : ¬ dst <:+ [] ++ src := IoProxy.not_suffix_of_canMove hcan.1
      exact hnot (heq ▸ List.suffix_append rel dst)
    · exact hrel heq
  have hbelow : ∀ rel : PathName, rel ≠ [] → (s.servers i).view (rel ++ dst) = none :=
    fun rel hrel => view_eq_none_iff.mpr (hcan.1.2.2.1.node_append_eq_none rel hrel)
  constructor
  · intro hsteady _ rel hrel
    constructor
    · intro hserved st hst
      have hsame := hsteady _ hserved (hsrc rel hrel) (by simp [hst])
      rw [hsource rel, h i _ hserved _ hst] at hsame
      cases hsame
    · intro hserved hmissing
      have hsame := hsteady _ hserved (hdst rel hrel) (by simp [hmissing])
      rw [htarget rel, hbelow rel hrel] at hsame
      exact view_eq_none_iff.mp hsame
  · intro hkeeps q hserved hnot hsome
    obtain ⟨o, ho⟩ := Option.isSome_iff_exists.mp hsome
    by_cases hbd : dst <:+ q
    · obtain ⟨rel, rfl⟩ := hbd
      have hrel : rel ≠ [] := by
        rintro rfl
        exact hnot (by simp)
      have hnone := hbelow rel hrel
      have hmissing : o = none := (h i _ hserved o ho).symm.trans hnone
      rw [hmissing] at ho
      rw [htarget rel, hnone]
      exact view_eq_none_iff.mpr ((hkeeps hcan rel hrel).2 hserved ho)
    · by_cases hbs : src <:+ q
      · obtain ⟨rel, rfl⟩ := hbs
        have hrel : rel ≠ [] := by
          rintro rfl
          exact hnot (by simp)
        rw [hsource rel, h i _ hserved o ho]
        cases o with
        | none => rfl
        | some st => exact absurd ho ((hkeeps hcan rel hrel).1 hserved st)
      · exact hother q hbd hbs

/-- A request keeps the cache right exactly if it leaves alone what the cache has recorded of other
paths. -/
theorem spares_iff {cfg : Config ι} {s : State ι β} (h : Right cfg s) (i : ι) (op : Op) :
    (∀ q, cfg.env.Served i q → q ∉ op.paths → (s.cache.recorded q).isSome →
        ((s.servers i).doOp cfg.fs op).view q = (s.servers i).view q) ↔
      Spares cfg.env i (s.servers i) s.cache op := by
  cases op with
  | rename src dst => exact spares_rename_iff h i src dst
  | «open» p flags =>
      constructor
      · intro hsteady htrunc file q hbehind hq hnode hserved hsome
        have hsame := hsteady q hserved (by simpa [Op.paths] using hq) hsome
        exact (view_open_iff hq).mp hsame htrunc file hbehind hnode
      · intro hspares q hserved hnot hsome
        have hq : q ≠ p := by simpa [Op.paths] using hnot
        exact (view_open_iff hq).mpr fun htrunc file hbehind hnode =>
          hspares htrunc file q hbehind hq hnode hserved hsome
  | write p data off =>
      constructor
      · intro hsteady file q hbehind hq hnode hserved hsome
        have hsame := hsteady q hserved (by simpa [Op.paths] using hq) hsome
        exact (view_write_iff hq).mp hsame file hbehind hnode
      · intro hspares q hserved hnot hsome
        have hq : q ≠ p := by simpa [Op.paths] using hnot
        exact (view_write_iff hq).mpr fun file hbehind hnode =>
          hspares file q hbehind hq hnode hserved hsome
  | _ =>
      refine iff_of_true (fun q _ hnot _ => ?_) trivial
      exact view_doOp_of_ne hnot (fun _ _ h => by cases h) (fun _ _ _ h => by cases h)
        fun _ _ h => by cases h

/-! ### Runs -/

theorem insideSpace_of_lt {path : String} {sent : Option (Sent ι)}
    (h : 3 < (splitWithStl path).length) : insideSpace path sent = sent :=
  if_neg (by omega)

variable [DecidableEq ι]

/-- A call expires the paths of its request. -/
theorem expires_of_sent {env : Env ι} {a : Call} {x : Sent ι} (h : a.sent env = some x) :
    x.expires = x.op.paths := by
  have hsend : ∀ {path : String} {op : PathName → Op}, (∀ p, (op p).paths = [p]) →
      env.send path op = some x → x.expires = x.op.paths := by
    intro path op hop hsent
    obtain ⟨⟨i, p⟩, -, rfl⟩ := Option.map_eq_some_iff.mp hsent
    exact (hop p).symm
  have hinside : ∀ {path : String} {sent : Option (Sent ι)}, insideSpace path sent = some x →
      sent = some x := by
    intro path sent hsent
    unfold insideSpace at hsent
    split at hsent
    · cases hsent
    · exact hsent
  cases a with
  | getattr path => cases h
  | readdir path names => cases h
  | «open» path flags =>
      simp only [Call.sent, Env.gvdsfs_open] at h
      split at h
      · cases h
      · exact hsend (fun _ => rfl) h
  | write path buf off =>
      have hsent : (env.send path fun rpath => .write rpath buf off) = some x := h
      exact hsend (fun _ => rfl) hsent
  | truncate path size =>
      have hsent : (env.send path fun rpath => .truncate rpath 0) = some x := h
      exact hsend (fun _ => rfl) hsent
  | mkdir path mode => exact hsend (fun _ => rfl) (hinside h)
  | unlink path =>
      have hsent : (env.send path fun rpath => .unlink rpath) = some x := h
      exact hsend (fun _ => rfl) hsent
  | rmdir path => exact hsend (fun _ => rfl) (hinside h)
  | create path mode => exact hsend (fun _ => rfl) (hinside h)
  | chmod path mode => exact hsend (fun _ => rfl) (hinside h)
  | rename path newpath =>
      have hsent := hinside h
      split at hsent
      · split at hsent
        · cases hsent
        · cases hsent
          rfl
      · cases hsent

/-- What a call sends, if it sends a request to change something, leaves alone what the cache has
recorded of other paths. -/
def Keeps (cfg : Config ι) (s : State ι β) (a : Call) : Prop :=
  ∀ x, a.sent cfg.env = some x → Spares cfg.env x.iop (s.servers x.iop) s.cache x.op

/-- A call that sends a request makes the change that it asks for. -/
theorem step_sent {cfg : Config ι} {s : State ι β} {a : Call} {x : Sent ι}
    (h : a.sent cfg.env = some x) : step cfg s a = change cfg s x := by
  cases a <;> simp only [step, h] <;> cases h

theorem right_step_iff {cfg : Config ι} {s : State ι β} (h : Right cfg s)
    (hoff : cfg.max_stat_cache_ct ≤ 0 → ∀ p, s.cache.recorded p = none) (a : Call) :
    Right cfg (step cfg s a) ↔ Keeps cfg s a := by
  cases hsent : a.sent cfg.env with
  | some x =>
      rw [step_sent hsent, right_change_iff h hoff, expires_of_sent hsent, spares_iff h]
      simp [Keeps, hsent]
  | none =>
      refine iff_of_true ?_ (by simp [Keeps, hsent])
      cases a with
      | getattr path => exact right_getattr h path
      | readdir path names => exact right_readdir h path names
      | _ =>
          simp only [step, hsent]
          exact h

/-- Only the requests reach the servers, whatever the cache is. -/
theorem servers_step (cfg : Config ι) (s : State ι β) (a : Call) :
    (step cfg s a).servers =
      match a.sent cfg.env with
      | none => s.servers
      | some x => Function.update s.servers x.iop ((s.servers x.iop).doOp cfg.fs x.op) := by
  cases hsent : a.sent cfg.env with
  | some x => rw [step_sent hsent, change]
  | none => cases a <;> simp only [step, hsent]

/-- A cache that is off stays as it is. -/
theorem cache_step_of_off {cfg : Config ι} (hoff : cfg.max_stat_cache_ct ≤ 0) (s : State ι β)
    (a : Call) : (step cfg s a).cache = s.cache := by
  have hmax : ¬ cfg.max_stat_cache_ct > 0 := by omega
  cases hsent : a.sent cfg.env with
  | some x => simp [step_sent hsent, change, hmax]
  | none =>
      cases a with
      | getattr path =>
          simp only [step, gvdsfs_getattr, hmax, if_false]
          split
          · rfl
          · split
            · rfl
            · split <;> rfl
      | readdir path names =>
          simp only [step, gvdsfs_readdir, hmax, if_false]
          split
          · rfl
          · split <;> rfl
      | _ => simp only [step, hsent]

theorem paired_step {cfg : Config ι} {s t : State ι β × State ι β} {a : Call} (h : Paired cfg s)
    (hstep : both cfg s a = some t) : Paired cfg t := by
  cases hstep
  refine ⟨?_, fun hoff => ?_⟩
  · have hon := servers_step cfg s.1 a
    have hoff := servers_step cfg.off s.2 a
    rw [← h.servers] at hoff
    exact hon.trans hoff.symm
  · rw [cache_step_of_off hoff]
    exact h.off hoff

/-- The two clients run side by side, and no call is refused. -/
theorem run_both (cfg : Config ι) (s t : State ι β) (as : List Call) :
    Machine.run (both cfg) (s, t) as = some (as.foldl (step cfg) s, as.foldl (step cfg.off) t) := by
  induction as generalizing s t with
  | nil => rfl
  | cons a as ih => exact ih (step cfg s a) (step cfg.off t a)

/-- **The stat cache is transparent** in a run of a client that has just been started exactly if
every request leaves alone what the cache has recorded of other paths: in each state of the run any
getattr shows the same with the cache and without it. -/
theorem cache_is_transparent_iff (cfg : Config ι) (servers : ι → Proxy β) (as : List Call) :
    Machine.Always (both cfg) (Transparent cfg) (State.start servers, State.start servers) as ↔
      Machine.Guarded (both cfg) (fun s a => Keeps cfg s.1 a)
        (State.start servers, State.start servers) as := by
  refine Machine.always_iff_guarded (fun s a t => paired_step) (fun s a t hpaired htrans hstep => ?_)
    (fun s a hnone => by cases hnone) ⟨rfl, fun _ _ => rfl⟩ ?_
  · rw [transparent_iff (paired_step hpaired hstep)]
    cases hstep
    exact right_step_iff ((transparent_iff hpaired).mp htrans) hpaired.off a
  · refine (transparent_iff ⟨rfl, fun _ _ => rfl⟩).mpr fun i p _ o ho => ?_
    cases ho

/-! ### A directory that is renamed -/

/-- One space, whose UUID is `u`, on one IO proxy. -/
def oneSpace : Env Unit where
  isZoneSpacePath := fun _ => 2
  zoneGetattr := fun _ => .error (-1)
  locatePosition := fun path =>
    if path = "/z/s/a" then some ("u", ["a"])
    else if path = "/z/s/a/x" then some ("u", ["x", "a"])
    else if path = "/z/s/b" then some ("u", ["b"])
    else none
  ioproxy := fun _ => some ()
  plain := by
    intro path space rpath h
    split at h
    · cases h
      decide
    · split at h
      · cases h
        decide
      · split at h
        · cases h
          decide
        · cases h

/-- A client with room for 16 entries. -/
def oneSpaceConfig : Config Unit := ⟨oneSpace, ⟨0o022#32, fun _ _ => 4096⟩, 16⟩

/-- The proxy has the directory of the space, and nothing in it. -/
def freshSpace : Proxy Unit :=
  Proxy.doOp oneSpaceConfig.fs ⟨IoProxy.blank 499, fun _ => 0o755#32⟩ (.mkdir ["u"])

/-- A directory is made with a file in it, the file is looked at, and the directory is renamed. -/
def renamesDirectory : List Call :=
  [.mkdir "/z/s/a" 0o755#32, .create "/z/s/a/x" 0o644#32, .getattr "/z/s/a/x",
    .rename "/z/s/a" "/z/s/b"]

/-- The state after these calls. -/
def afterRename (cfg : Config Unit) : State Unit Unit :=
  change cfg
    (step cfg
      (change cfg
        (change cfg (State.start fun _ => freshSpace) ⟨(), .mkdir ["a", "u"], [["a", "u"]]⟩)
        ⟨(), .create ["x", "a", "u"] 0o644#32, [["x", "a", "u"]]⟩)
      (.getattr "/z/s/a/x"))
    ⟨(), .rename ["a", "u"] ["b", "u"], [["a", "u"], ["b", "u"]]⟩

theorem foldl_renamesDirectory {cfg : Config Unit} (h : cfg.env = oneSpace) :
    renamesDirectory.foldl (step cfg) (State.start fun _ => freshSpace) = afterRename cfg := by
  have ha : 3 < (splitWithStl "/z/s/a").length := by
    simp +decide [splitWithStl, String.splitOn, String.splitOnAux]
  have hx : 3 < (splitWithStl "/z/s/a/x").length := by
    simp +decide [splitWithStl, String.splitOn, String.splitOnAux]
  have hmkdir : (Call.mkdir "/z/s/a" 0o755#32).sent cfg.env =
      some ⟨(), .mkdir ["a", "u"], [["a", "u"]]⟩ := by
    rw [h]
    exact insideSpace_of_lt ha
  have hcreate : (Call.create "/z/s/a/x" 0o644#32).sent cfg.env =
      some ⟨(), .create ["x", "a", "u"] 0o644#32, [["x", "a", "u"]]⟩ := by
    rw [h]
    exact insideSpace_of_lt hx
  have hrename : (Call.rename "/z/s/a" "/z/s/b").sent cfg.env =
      some ⟨(), .rename ["a", "u"] ["b", "u"], [["a", "u"], ["b", "u"]]⟩ := by
    rw [h]
    exact insideSpace_of_lt ha
  simp only [renamesDirectory, List.foldl_cons, List.foldl_nil, step_sent hmkdir,
    step_sent hcreate, step_sent hrename, afterRename]

/-- The file is reported for ever where it was, though nothing is there any more. -/
theorem renamed_directory_stays_cached :
    ∃ t, Machine.run (both oneSpaceConfig)
          (State.start fun _ => freshSpace, State.start fun _ => freshSpace) renamesDirectory =
        some t ∧
      shown (gvdsfs_getattr oneSpaceConfig t.1 "/z/s/a/x").2 = some ⟨.file, 0o644#32, 0⟩ ∧
      shown (gvdsfs_getattr oneSpaceConfig.off t.2 "/z/s/a/x").2 = none := by
  have hon := foldl_renamesDirectory (show oneSpaceConfig.env = oneSpace from rfl)
  have hoff := foldl_renamesDirectory (show oneSpaceConfig.off.env = oneSpace from rfl)
  refine ⟨_, run_both _ _ _ _, ?_⟩
  rw [hon, hoff]
  decide
end Gvds.StatCache
