/-
Module: Gvds.Proofs.DataDirectory
Layer: Proofs
Purpose: Requests and the data directory. Paths are joined as they come, so a path with more `..`
  than names leads out of data_path. A request concerns nothing outside, whatever the names of the
  file system are, exactly where each path that its type hands on comes back down by data_path's own
  names over the names that it goes up.
Imports: Gvds.IoProxy.DataPath, Gvds.Proofs.CenterIdCodec, Mathlib.Data.Fintype.EquivFin
Trusted boundary: as Gvds.IoProxy.DataPath
Main exports: StaysBelow, stays_iff, Confined, Stays, requests_stay_below_iff
-/
import Gvds.IoProxy.DataPath
import Gvds.Proofs.CenterIdCodec
import Mathlib.Data.Fintype.EquivFin

namespace Gvds.DataDirectory

open PathWalk (displacement resolve visited)
open ReplicaQueue (route)

/-! ### The components of joined paths -/

@[simp] theorem components_nil : components [] = [] := by decide

/-- A path without a null character is read in full. -/
theorem takeWhile_append_of_notMem {a : Path} (b : Path) (ha : nul ∉ a) :
    (a ++ b).takeWhile (· ≠ nul) = a ++ b.takeWhile (· ≠ nul) := by
  refine List.takeWhile_append_of_pos fun x hx => ?_
  exact decide_eq_true fun heq => ha (heq ▸ hx)

/-- What stands behind a null character is not read. -/
theorem takeWhile_append_of_mem {a : Path} (b : Path) (ha : nul ∈ a) :
    (a ++ b).takeWhile (· ≠ nul) = a.takeWhile (· ≠ nul) := by
  induction a with
  | nil => cases ha
  | cons x a ih =>
      by_cases hx : x = nul
      · simp [hx]
      · have hmem : nul ∈ a := (List.mem_cons.mp ha).resolve_left (Ne.symm hx)
        simp only [List.cons_append]
        rw [List.takeWhile_cons_of_pos (by simpa using hx),
          List.takeWhile_cons_of_pos (by simpa using hx), ih hmem]

theorem components_append_sep {a : Path} (b : Path) (ha : nul ∉ a) :
    components (a ++ '/' :: b) = components a ++ components b := by
  have hself : a.takeWhile (· ≠ nul) = a := by
    simpa using takeWhile_append_of_notMem [] ha
  have hsep : ('/' :: b).takeWhile (· ≠ nul) = '/' :: b.takeWhile (· ≠ nul) :=
    List.takeWhile_cons_of_pos (by decide)
  unfold components
  rw [takeWhile_append_of_notMem _ ha, hself, hsep, List.splitOn_eq_splitOnP,
    List.splitOn_eq_splitOnP, List.splitOn_eq_splitOnP,
    List.splitOnP_append_cons _ _ (by decide), List.filter_append, List.map_append]

theorem components_sep (b : Path) : components ('/' :: b) = components b := by
  have h := components_append_sep (a := []) b (by simp)
  simpa using h

/-- The components of a joined path, up to a null character. -/
theorem components_join {a : Path} (b : Path) (ha : nul ∉ a) :
    components (join a b) = components a ++ components b := by
  unfold join
  split
  · exact components_append_sep b ha
  · rename_i hnot
    by_cases hnil : a = []
    · subst hnil
      simp
    by_cases hb : b = []
    · subst hb
      simp
    by_cases hlast : a.getLast? = some '/'
    · obtain ⟨front, rfl⟩ : ∃ front, a = front ++ ['/'] := by
        obtain ⟨front, last, rfl⟩ := List.eq_nil_or_concat a |>.resolve_left hnil
        simp only [List.concat_eq_append, List.getLast?_append, List.getLast?_singleton] at hlast
        exact ⟨front, by simpa using hlast⟩
      have hfront : nul ∉ front := fun hmem => ha (List.mem_append_left _ hmem)
      rw [List.append_assoc, List.singleton_append, components_append_sep b hfront,
        components_append_sep [] hfront]
      simp
    · cases b with
      | nil => exact absurd rfl hb
      | cons c b =>
          have hc : c = '/' := by
            by_contra hne
            exact hnot ⟨hnil, hlast, hb, by simpa using hne⟩
          subst hc
          rw [components_append_sep b ha, components_sep]

/-- Nothing behind a null character counts. -/
theorem components_join_of_mem {a : Path} (b : Path) (ha : nul ∈ a) :
    components (join a b) = components a := by
  unfold join components
  split
  · rw [takeWhile_append_of_mem _ ha]
  · rw [takeWhile_append_of_mem _ ha]

/-! ### Where a joined path leads -/

/-- Some components lead from the data directory to a location at or below it, wherever it is: the
names that they go down lead back over the names that they go up, which data_path has to spell out
unless it begins at the root. -/
def StaysBelow (dp : DataPath) (cs : List String) : Prop :=
  (Absolute dp.text ∨ (displacement cs).up ≤ (displacement (components dp.text)).down.length) ∧
    (displacement (components dp.text)).down.take (displacement cs).up <:+ (displacement cs).down

instance (dp : DataPath) (cs : List String) : Decidable (StaysBelow dp cs) :=
  inferInstanceAs (Decidable (_ ∧ _))

variable {dp : DataPath}

/-- Going down by one more component than `..` stays below. -/
theorem StaysBelow.concat {cs : List String} (h : StaysBelow dp cs) {c : String} (hc : c ≠ "..") :
    StaysBelow dp (cs ++ [c]) := by
  have hpush : displacement (cs ++ [c]) = (displacement cs).push c := by
    simp [displacement]
  unfold StaysBelow
  rw [hpush, PathWalk.Displacement.push]
  split
  · exact h
  · exact ⟨h.1, h.2.trans (List.suffix_cons c _)⟩

@[simp] theorem staysBelow_nil : StaysBelow dp [] :=
  ⟨Or.inr (Nat.zero_le _), List.nil_suffix⟩

/-- What an access has to have in common with data_path and some components. -/
structure Access.Joins (a : Access) (dp : DataPath) (cs : List String) : Prop where
  start : Absolute a.path ↔ Absolute dp.text
  parts : components a.path = components dp.text ++ cs

/-- An access stays at or below the data directory on every host. -/
def Access.Stays (dp : DataPath) (a : Access) : Prop :=
  ∀ h loc, Host.Serves h dp loc → h.Within loc a

/-- The data directory lies where data_path leads to. -/
theorem Host.Serves.eq_resolve {h : Host} {loc : PathName} (hserves : h.Serves dp loc) :
    loc = resolve (if Absolute dp.text then [] else h.cwd) (components dp.text) := by
  have hloc := hserves.1
  unfold Host.locate Host.start at hloc
  by_cases habs : Absolute dp.text
  · simp only [habs, if_true, Option.bind_some] at hloc
    rw [if_pos habs]
    exact PathWalk.eq_resolve_of_locate hloc
  · simp only [habs, if_false, Option.bind_some] at hloc
    rw [if_neg habs]
    exact PathWalk.eq_resolve_of_locate hloc

/-- An access whose walk starts where that of data_path does goes on from the data directory. -/
theorem Access.Joins.eq_resolve {a : Access} {cs : List String} (ha : a.Joins dp cs) {h : Host}
    {loc q : PathName} (hserves : h.Serves dp loc) (hbase : Absolute dp.text ∨ a.base = .cwd)
    (hq : h.locate a = some q) : q = resolve loc cs := by
  obtain ⟨start, hstart, hwalk⟩ := Option.bind_eq_some_iff.mp hq
  have hsame : start = if Absolute dp.text then [] else h.cwd := by
    unfold Host.start at hstart
    by_cases habs : Absolute dp.text
    · rw [if_pos (ha.start.mpr habs)] at hstart
      rw [if_pos habs]
      exact (Option.some.inj hstart).symm
    · rw [if_neg fun h => habs (ha.start.mp h), hbase.resolve_left habs] at hstart
      rw [if_neg habs]
      exact (Option.some.inj hstart).symm
  rw [PathWalk.eq_resolve_of_locate hwalk, ha.parts, PathWalk.resolve_append, hsame,
    ← hserves.eq_resolve]

/-- A host on which both data_path and an access lead through directories, with the current directory
and that of descriptor 0 anywhere. -/
theorem Access.Joins.exists_host {a : Access} {cs : List String} (ha : a.Joins dp cs)
    (cwd zero : PathName) :
    ∃ h loc q, Host.Serves h dp loc ∧ h.locate a = some q ∧ h.cwd = cwd ∧
      q = resolve (if Absolute dp.text then [] else if a.base = .cwd then cwd else zero)
        (components dp.text ++ cs) := by
  let start := if Absolute dp.text then [] else cwd
  let other := if Absolute dp.text then [] else if a.base = .cwd then cwd else zero
  obtain ⟨t, ht⟩ := FileTree.exists_dirs
    (visited start (components dp.text) ++ visited other (components dp.text ++ cs))
  let h : Host := ⟨t, cwd, some zero⟩
  have hdp : h.locate ⟨.cwd, dp.text, false⟩ = some (resolve start (components dp.text)) := by
    have hstart : h.start ⟨.cwd, dp.text, false⟩ = some start := by
      unfold Host.start
      by_cases habs : Absolute dp.text
      · simp [habs, start]
      · simp [habs, start, h]
    rw [Host.locate, hstart, Option.bind_some]
    exact PathWalk.locate_of_dirs false fun p hp => ht p (List.mem_append_left _ hp)
  have hacc : h.locate a = some (resolve other (components dp.text ++ cs)) := by
    have hstart : h.start a = some other := by
      unfold Host.start
      by_cases habs : Absolute dp.text
      · simp [ha.start.mpr habs, habs, other]
      · rw [if_neg fun hpath => habs (ha.start.mp hpath)]
        cases hbase : a.base with
        | cwd => simp [habs, other, h, hbase]
        | descriptor0 => simp [habs, other, h, hbase]
    rw [Host.locate, hstart, Option.bind_some, ha.parts]
    exact PathWalk.locate_of_dirs a.creates fun p hp => ht p (List.mem_append_right _ hp)
  refine ⟨h, resolve start (components dp.text), _, ⟨hdp, ?_⟩, hacc, rfl, rfl⟩
  exact ht _ (List.mem_append_left _ (PathWalk.resolve_mem_visited _ _))

/-- Some name is none of some names. -/
theorem exists_name_notMem (names : List String) : ∃ x, x ∉ names := by
  have hinf : Infinite String := Infinite.of_injective String.ofList fun a b h => by
    simpa using congrArg String.toList h
  obtain ⟨x, hx⟩ := Infinite.exists_notMem_finset names.toFinset
  exact ⟨x, fun hmem => hx (List.mem_toFinset.mpr hmem)⟩

/-- A walk from deep enough among directories of one name keeps that name at the end. -/
theorem resolve_replicate (x : String) (cs : List String) (n : Nat) :
    resolve (List.replicate n x) cs =
      (displacement cs).down ++ List.replicate (n - (displacement cs).up) x := by
  rw [PathWalk.resolve_eq_apply, PathWalk.Displacement.apply, List.drop_replicate]

/-- Where a path leads that is joined to data_path and looked up from the same start. -/
theorem stays_cwd_iff {a : Access} {cs : List String} (ha : a.Joins dp cs) (hbase : a.base = .cwd) :
    a.Stays dp ↔ StaysBelow dp cs := by
  constructor
  · intro hstays
    obtain ⟨x, hx⟩ := exists_name_notMem (displacement cs).down
    let own := displacement (components dp.text)
    obtain ⟨h, loc, q, hserves, hq, hcwd, -⟩ :=
      ha.exists_host (List.replicate (own.up + 1) x) []
    have hsuffix := hstays h loc hserves q hq
    rw [ha.eq_resolve hserves (Or.inr hbase) hq, PathWalk.suffix_resolve_iff] at hsuffix
    have hloc := hserves.eq_resolve
    by_cases habs : Absolute dp.text
    · rw [if_pos habs, PathWalk.resolve_eq_apply, PathWalk.Displacement.apply, List.drop_nil,
        List.append_nil] at hloc
      rw [hloc] at hsuffix
      exact ⟨Or.inl habs, hsuffix⟩
    · rw [if_neg habs, hcwd, resolve_replicate x] at hloc
      have hone : own.up + 1 - own.up = 1 := by omega
      have hloc' : loc = own.down ++ [x] := by
        rw [hloc]
        change own.down ++ List.replicate (own.up + 1 - own.up) x = _
        rw [hone]
        rfl
      -- the name of the current directory cannot be gone over
      have hup : (displacement cs).up ≤ own.down.length := by
        by_contra hgt
        rw [hloc', List.take_of_length_le (by rw [List.length_append, List.length_singleton]; omega)]
          at hsuffix
        exact hx (hsuffix.subset (List.mem_append_right _ (List.mem_singleton_self x)))
      refine ⟨Or.inr hup, ?_⟩
      rw [hloc', List.take_append_of_le_length hup] at hsuffix
      exact hsuffix
  · rintro ⟨hup, hdown⟩ h loc hserves q hq
    rw [ha.eq_resolve hserves (Or.inr hbase) hq, PathWalk.suffix_resolve_iff]
    have hloc := hserves.eq_resolve
    rw [PathWalk.resolve_eq_apply, PathWalk.Displacement.apply] at hloc
    by_cases habs : Absolute dp.text
    · rw [if_pos habs, List.drop_nil, List.append_nil] at hloc
      rw [hloc]
      exact hdown
    · rw [hloc, List.take_append_of_le_length (hup.resolve_left habs)]
      exact hdown

/-- A path that is looked up from descriptor 0 has to begin at the root as well. -/
theorem stays_descriptor0_iff {a : Access} {cs : List String} (ha : a.Joins dp cs)
    (hbase : a.base = .descriptor0) :
    a.Stays dp ↔ Absolute dp.text ∧ StaysBelow dp cs := by
  by_cases habs : Absolute dp.text
  · -- then the start does not depend on the base
    have hsame : a.Stays dp ↔ Access.Stays dp { a with base := .cwd } := by
      have hlocate : ∀ h : Host, h.locate a = h.locate { a with base := .cwd } := by
        intro h
        have hpath := ha.start.mpr habs
        simp [Host.locate, Host.start, hpath]
      simp only [Access.Stays, Host.Within, hlocate]
    have hcwd : Access.Joins { a with base := .cwd } dp cs := ⟨ha.start, ha.parts⟩
    rw [hsame, stays_cwd_iff hcwd rfl]
    exact ⟨fun h => ⟨habs, h⟩, And.right⟩
  · refine ⟨fun hstays => ?_, fun h => absurd h.1 habs⟩
    let own := displacement (components dp.text)
    let all := displacement (components dp.text ++ cs)
    obtain ⟨h, loc, q, hserves, hq, hcwd, hqeq⟩ :=
      ha.exists_host (List.replicate (own.up + 1) "a") (List.replicate (all.up + 1) "b")
    have hsuffix := hstays h loc hserves q hq
    have hloc := hserves.eq_resolve
    rw [if_neg habs, hcwd, resolve_replicate "a"] at hloc
    rw [if_neg habs, hbase, if_neg (by decide),
      resolve_replicate "b"] at hqeq
    obtain ⟨front, hfront⟩ := hsuffix
    have hlast : loc.getLast? = some "a" := by
      rw [hloc, Nat.succ_sub (Nat.le_refl _)]
      simp
    have hlast' : q.getLast? = some "b" := by
      rw [hqeq, Nat.succ_sub (Nat.le_refl _)]
      simp
    rw [← hfront, List.getLast?_append, hlast] at hlast'
    simp at hlast'

theorem absolute_join {a : Path} (b : Path) (ha : a ≠ []) : Absolute (join a b) ↔ Absolute a := by
  obtain ⟨c, rest, rfl⟩ := List.exists_cons_of_ne_nil ha
  unfold join Absolute
  split <;> simp

/-- data_path joined with a path. -/
theorem joins_below (base : Base) (p : Path) (creates : Bool) :
    Access.Joins ⟨base, dp.below p, creates⟩ dp (components p) :=
  ⟨absolute_join p dp.ne_nil, components_join p dp.noNul⟩

/-- The same, joined with a further path. -/
theorem joins_join (base : Base) (p n : Path) (creates : Bool) :
    Access.Joins ⟨base, join (dp.below p) n, creates⟩ dp (components (join p n)) := by
  have hbelow : dp.below p ≠ [] := by
    unfold DataPath.below join
    split
    · simp
    · simp [dp.ne_nil]
  refine ⟨(absolute_join n hbelow).trans (absolute_join p dp.ne_nil), ?_⟩
  have hmem : nul ∈ dp.below p ↔ nul ∈ p := by
    have hdp := dp.noNul
    have hsep : nul ≠ '/' := by decide
    unfold DataPath.below join
    split
    · simp [hdp, hsep]
    · simp [hdp]
  have hparts : components (dp.below p) = components dp.text ++ components p :=
    components_join p dp.noNul
  by_cases hp : nul ∈ p
  · rw [components_join_of_mem n (hmem.mpr hp), components_join_of_mem n hp, hparts]
  · rw [components_join n (fun h => hp (hmem.mp h)), components_join n hp, hparts,
      List.append_assoc]

/-- All paths of a call stay at or below the data directory. -/
def SysCall.Stays (dp : DataPath) (β : Type) (c : SysCall β) : Prop :=
  ∀ a ∈ c.accesses, Access.Stays dp a

@[simp] theorem stays_below_iff (p : Path) (creates : Bool) :
    Access.Stays dp ⟨.cwd, dp.below p, creates⟩ ↔ StaysBelow dp (components p) :=
  stays_cwd_iff (joins_below .cwd p creates) rfl

@[simp] theorem stays_join_iff (p n : Path) (creates : Bool) :
    Access.Stays dp ⟨.cwd, join (dp.below p) n, creates⟩ ↔
      StaysBelow dp (components (join p n)) :=
  stays_cwd_iff (joins_join .cwd p n creates) rfl

@[simp] theorem stays_utimensat_iff (p : Path) (creates : Bool) :
    Access.Stays dp ⟨.descriptor0, dp.below p, creates⟩ ↔
      Absolute dp.text ∧ StaysBelow dp (components p) :=
  stays_descriptor0_iff (joins_below .descriptor0 p creates) rfl

/-! ### The programs of the requests -/

/-- The space of a path is at or below the data directory. -/
def SpaceStays (dp : DataPath) (path : Path) : Prop :=
  ∀ space, firstComponent path = some space → StaysBelow dp (components space)

theorem all_askSpace {r : OpRequest} (err_code : Int) (h : SpaceStays dp r.path) :
    (askSpace dp r err_code).All (SysCall.Stays dp) := by
  unfold askSpace spacePath
  split
  · exact Program.all_pure ()
  · cases hfirst : firstComponent r.path with
    | none => exact Program.all_pure ()
    | some space =>
        have hspace := h space hfirst
        simpa [Program.all_bind_iff, SysCall.Stays, SysCall.accesses] using hspace

/-- After a success the space is asked. -/
theorem spaceStays_of_all {r : OpRequest} (h : (askSpace dp r 0).All (SysCall.Stays dp)) :
    SpaceStays dp r.path := by
  intro space hfirst
  unfold askSpace spacePath at h
  simpa [hfirst, Program.all_bind_iff, SysCall.Stays, SysCall.accesses] using h

theorem all_sync_filedata_iff (path : Path) (off len : UInt64) :
    (sync_filedata dp path off len).All (SysCall.Stays dp) ↔
      StaysBelow dp (components path) ∧ SpaceStays dp path := by
  unfold sync_filedata spacePath SpaceStays
  constructor
  · intro h
    obtain ⟨hopen, hnext⟩ := Program.all_bind_iff.mp h
    refine ⟨by simpa [SysCall.Stays, SysCall.accesses] using hopen, fun space hfirst => ?_⟩
    have hsync := hnext 0 (Program.returns_perform _ _)
    rw [if_neg (by decide)] at hsync
    have hholes := (Program.all_bind_iff.mp hsync).2 true (Program.returns_perform _ _)
    simpa [hfirst, Program.all_bind_iff, SysCall.Stays, SysCall.accesses] using hholes
  · rintro ⟨hfile, hspace⟩
    refine Program.All.bind (by simpa [SysCall.Stays, SysCall.accesses] using hfile) fun fh => ?_
    split
    · exact Program.all_pure false
    · refine Program.All.bind (by simp [SysCall.Stays, SysCall.accesses]) fun holes => ?_
      split
      · cases hfirst : firstComponent path with
        | none => exact Program.all_pure false
        | some space =>
            have hstays := hspace space hfirst
            simpa [Program.all_bind_iff, SysCall.Stays, SysCall.accesses] using hstays
      · exact Program.all_pure true

theorem all_sync_unalign_page {path : Path} (off len : UInt64)
    (hfile : StaysBelow dp (components path)) (hspace : SpaceStays dp path) :
    (sync_unalign_page dp path off len).All (SysCall.Stays dp) := by
  have hsync : ∀ off len, (sync_filedata dp path off len).All (SysCall.Stays dp) :=
    fun off len => (all_sync_filedata_iff path off len).mpr ⟨hfile, hspace⟩
  refine Program.All.bind (Program.All.ite (hsync _ _) (Program.all_pure true)) fun first => ?_
  exact Program.All.ite (Program.All.ite (hsync _ _) (Program.all_pure true))
    (Program.all_pure false)

/-- A file without holes needs no syncing. -/
theorem returns_sync_filedata (path : Path) (off len : UInt64) :
    (sync_filedata dp path off len).Returns true := by
  unfold sync_filedata
  refine Program.returns_bind.mpr ⟨0, Program.returns_perform _ _, ?_⟩
  rw [if_neg (by decide)]
  exact Program.returns_bind.mpr ⟨false, Program.returns_perform _ _, rfl⟩

theorem returns_sync_unalign_page (path : Path) (off len : UInt64) :
    (sync_unalign_page dp path off len).Returns true := by
  unfold sync_unalign_page
  refine Program.returns_bind.mpr ⟨true, ?_, ?_⟩
  · split
    · exact returns_sync_filedata path _ _
    · rfl
  · rw [if_pos rfl]
    split
    · exact returns_sync_filedata path _ _
    · rfl

/-! ### Entries of directories -/

theorem components_entryName (n : EntryName) : components n.val = [String.ofList n.val] := by
  obtain ⟨hne, hsep, hnul⟩ := n.property
  have hself : n.val.takeWhile (· ≠ nul) = n.val := by
    simpa using takeWhile_append_of_notMem [] hnul
  have hone : n.val.splitOn '/' = [n.val] := by
    rw [List.splitOn_eq_splitOnP]
    refine List.splitOnP_eq_singleton fun x hx => ?_
    simpa using fun heq : x = '/' => hsep (heq ▸ hx)
  unfold components
  rw [hself, hone]
  simp [hne]

/-- An entry but the parent stays below. -/
theorem staysBelow_join {p : Path} (h : StaysBelow dp (components p)) {n : EntryName}
    (hn : n.val ≠ ['.', '.']) : StaysBelow dp (components (join p n.val)) := by
  by_cases hp : nul ∈ p
  · rw [components_join_of_mem n.val hp]
    exact h
  · rw [components_join n.val hp, components_entryName]
    refine h.concat fun heq => hn ?_
    have hlist := congrArg String.toList heq
    simpa using hlist

theorem all_get_attr_iff {path : Path} :
    (get_attr path).All (SysCall.Stays dp) ↔ SysCall.Stays dp _ (.stat path) := by
  constructor
  · intro h
    exact Program.all_perform.mp (Program.all_bind_iff.mp h).1
  · intro h
    refine Program.All.bind (Program.all_perform.mpr h) fun answer => ?_
    cases answer <;> exact Program.all_pure _

/-- The entry for the parent. -/
def parentEntry : EntryName := ⟨['.', '.'], by decide⟩

theorem all_statEntries {p : Path} (h : StaysBelow dp (components p))
    (hparent : StaysBelow dp (components (join p ['.', '.']))) (names : List EntryName) :
    (statEntries (dp.below p) names).All (SysCall.Stays dp) := by
  induction names with
  | nil => exact Program.all_pure ()
  | cons n names ih =>
      have hn : StaysBelow dp (components (join p n.val)) := by
        by_cases heq : n.val = ['.', '.']
        · rw [heq]
          exact hparent
        · exact staysBelow_join h heq
      refine Program.All.bind (all_get_attr_iff.mpr ?_) fun _ => ih
      simpa [SysCall.Stays, SysCall.accesses] using hn

/-- The scan of a directory stays below, and so do the directories that it finds. -/
theorem all_scanEntries {cur_dir : Path} (h : StaysBelow dp (components cur_dir))
    (names : List EntryName) {dirs : List Path} (hdirs : ∀ d ∈ dirs, StaysBelow dp (components d)) :
    (scanEntries dp cur_dir names dirs).All (SysCall.Stays dp) ∧
      ∀ found, (scanEntries dp cur_dir names dirs).Returns found →
        ∀ d ∈ found, StaysBelow dp (components d) := by
  induction names generalizing dirs with
  | nil =>
      refine ⟨Program.all_pure dirs, ?_⟩
      rintro found rfl
      exact hdirs
  | cons n names ih =>
      unfold scanEntries
      split
      · exact ih hdirs
      · rename_i hdots
        have hn : StaysBelow dp (components (join cur_dir n.val)) :=
          staysBelow_join h fun heq => hdots (Or.inr heq)
        have hpush : ∀ d ∈ join cur_dir n.val :: dirs, StaysBelow dp (components d) := by
          intro d hd
          cases List.mem_cons.mp hd with
          | inl heq => exact heq ▸ hn
          | inr hmem => exact hdirs d hmem
        constructor
        · refine Program.All.bind (by simpa [SysCall.Stays, SysCall.accesses] using hn) fun answer => ?_
          split
          · exact (ih hpush).1
          · exact (ih hdirs).1
        · intro found hfound
          obtain ⟨answer, -, hrest⟩ := Program.returns_bind.mp hfound
          split at hrest
          · exact (ih hpush).2 found hrest
          · exact (ih hdirs).2 found hrest

theorem all_scan (fuel : Nat) {dirs : List Path} (hdirs : ∀ d ∈ dirs, StaysBelow dp (components d)) :
    (scan dp fuel dirs).All (SysCall.Stays dp) := by
  induction fuel generalizing dirs with
  | zero => exact Program.all_pure ()
  | succ fuel ih =>
      cases dirs with
      | nil => exact Program.all_pure ()
      | cons cur_dir dirs =>
          have hcur := hdirs cur_dir List.mem_cons_self
          have hrest : ∀ d ∈ dirs, StaysBelow dp (components d) :=
            fun d hd => hdirs d (List.mem_cons_of_mem cur_dir hd)
          unfold scan
          refine Program.All.bind (by simpa [SysCall.Stays, SysCall.accesses] using hcur) fun answer => ?_
          cases answer with
          | error err => exact ih hrest
          | ok names =>
              obtain ⟨hall, hfound⟩ := all_scanEntries hcur names hrest
              exact Program.all_bind_iff.mpr ⟨hall, fun found h => ih (hfound found h)⟩

/-- Creating an entry may succeed. -/
theorem returns_createEntry (nodepath : Path) (type : NodeType) :
    (createEntry nodepath type).Returns true := by
  cases type with
  | directory => simp [createEntry]
  | regularFile => exact ⟨0, 0, 0, rfl⟩
  | link => rfl
  | unknown value => rfl

theorem all_createEntry {name : Path} (h : StaysBelow dp (components name)) (type : NodeType) :
    (createEntry (dp.below name) type).All (SysCall.Stays dp) := by
  cases type with
  | directory => simp [createEntry, Program.all_bind_iff, SysCall.Stays, SysCall.accesses, h]
  | regularFile => simp [createEntry, Program.all_bind_iff, SysCall.Stays, SysCall.accesses, h]
  | link => exact Program.all_pure true
  | unknown value => exact Program.all_pure true

/-- Creating the entries of a space concerns each of them, and sets its times. -/
theorem all_createEntries_iff (entries : List (String × NodeType)) :
    (createEntries dp entries).All (SysCall.Stays dp) ↔
      ∀ e ∈ entries, Absolute dp.text ∧ StaysBelow dp (components e.1.toList) := by
  induction entries with
  | nil => simp [createEntries]
  | cons e entries ih =>
      obtain ⟨name, type⟩ := e
      rw [List.forall_mem_cons, ← ih, createEntries]
      constructor
      · intro h
        obtain ⟨-, hnext⟩ := Program.all_bind_iff.mp h
        have hlive := hnext true (returns_createEntry _ type)
        rw [if_pos rfl] at hlive
        obtain ⟨htimes, hrest⟩ := Program.all_bind_iff.mp hlive
        exact ⟨by simpa [SysCall.Stays, SysCall.accesses] using htimes,
          hrest 0 (Program.returns_perform _ _)⟩
      · rintro ⟨⟨habs, hname⟩, hrest⟩
        refine Program.All.bind (all_createEntry hname type) fun alive => ?_
        split
        · refine Program.All.bind ?_ fun _ => hrest
          simpa [SysCall.Stays, SysCall.accesses] using ⟨habs, hname⟩
        · exact Program.all_pure ()

/-! ### The requests -/

/-- A list of centers that `create_replicated_space` can read. -/
def Readable (cids_str : List UInt8) : Prop :=
  ∀ cid ∈ CenterIds.split cids_str, (DecimalText.stoi cid).isSome

/-- With a center for every number, the loop that compresses the IDs ends well exactly where it can
read them all. -/
theorem exists_compressIds_iff (cids : List UInt8) (tmp : List (List UInt8)) :
    (∃ r, CenterIds.compressIds (fun _ => true) cids tmp = .ok r) ↔
      ∀ cid ∈ tmp, (DecimalText.stoi cid).isSome := by
  rw [← CenterIds.exists_mapM_iff]
  constructor
  · rintro ⟨r, hr⟩
    obtain ⟨ids, hids, -⟩ := CenterIds.compressIds_ok hr
    exact ⟨ids, hids⟩
  · rintro ⟨ids, hids⟩
    exact ⟨_, CenterIds.compressIds_ok_iff.mpr ⟨ids, hids, fun _ _ => rfl, rfl⟩⟩

/-- Whatever centers there are, the loop that compresses the IDs only ends well where it can read
them all. -/
theorem readable_of_compressIds {ioproxys : UInt32 → Bool} {cids r : List UInt8}
    {tmp : List (List UInt8)} (h : CenterIds.compressIds ioproxys cids tmp = .ok r) :
    ∀ cid ∈ tmp, (DecimalText.stoi cid).isSome := by
  obtain ⟨ids, hids, -⟩ := CenterIds.compressIds_ok h
  exact CenterIds.exists_mapM_iff.mp ⟨ids, hids⟩

/-- The types of requests that hand the path of their file to the system. -/
def namesFile (r : OpRequest) : Bool :=
  match r.type with
  | .getattr | .rename | .utimens | .chmod | .truncate | .open | .create | .fallocate | .mkdir
  | .rmdir | .readdir | .read | .write | .unlink | .getxattr | .listxattr | .removexattr
  | .rep_init_space | .rep_sync_data | .rep_update_index => true
  | .setxattr => r.xattr_name ≠ "user.replicate.create"
  | _ => false

/-- The requests that ask for the space of their file when they are done, so that they can be queued
for the other centers. -/
def Asks (r : OpRequest) : Prop :=
  match route r.type with
  | .change => r.extra = []
  | .write => True
  | .default => True
  | _ => False

/-- A request for a new replicated space. -/
def createsSpace (r : OpRequest) : Prop :=
  r.type = .setxattr ∧ r.xattr_name = "user.replicate.create"

instance (r : OpRequest) : Decidable (createsSpace r) := inferInstanceAs (Decidable (_ ∧ _))

/-- The requests that hand the path of the space of their file to the system: a read does where the
file has holes, and a new space has to come with centers that can be read. -/
def NamesSpace (r : OpRequest) : Prop :=
  r.type = .read ∨ if createsSpace r then Readable r.data else Asks r

/-- A request concerns nothing outside the data directory: on every host that serves data_path, and
whatever centers there are. -/
def Confined (dp : DataPath) (mcid : UInt8) (parse : List UInt8 → DirEntries) (r : OpRequest) :
    Prop :=
  ∀ ioproxys fuel h loc, Host.Serves h dp loc →
    (do_op dp ⟨mcid, ioproxys, parse⟩ fuel r).All fun _ c => ∀ a ∈ c.accesses, h.Within loc a

/-- The entries that a `rep_init_space` request creates. -/
def createdBy (parse : List UInt8 → DirEntries) (r : OpRequest) : List (String × NodeType) :=
  if r.type = .rep_init_space ∧ r.filepath ≠ "" then
    (parse r.data).entry_names.zip (parse r.data).entries
  else []

/-- The paths of a request stay at or below the data directory. -/
structure Stays (dp : DataPath) (parse : List UInt8 → DirEntries) (r : OpRequest) : Prop where
  file : namesFile r → StaysBelow dp (components r.path)
  space : NamesSpace r → SpaceStays dp r.path
  newpath : r.type = .rename → StaysBelow dp (components r.newpath)
  parent : r.type = .readdir → StaysBelow dp (components (join r.path ['.', '.']))
  times : r.type = .utimens → Absolute dp.text
  entries : ∀ e ∈ createdBy parse r, Absolute dp.text ∧ StaysBelow dp (components e.1.toList)

/-- The hosts and the data directories drop out: each path of each call has to stay. -/
theorem confined_iff_all (mcid : UInt8) (parse : List UInt8 → DirEntries) (r : OpRequest) :
    Confined dp mcid parse r ↔
      ∀ ioproxys fuel, (do_op dp ⟨mcid, ioproxys, parse⟩ fuel r).All (SysCall.Stays dp) := by
  let Served := { s : Host × PathName // Host.Serves s.1 dp s.2 }
  have hcall : ∀ β (c : SysCall β), SysCall.Stays dp β c ↔
      ∀ s : Served, ∀ a ∈ c.accesses, s.val.1.Within s.val.2 a := by
    intro β c
    constructor
    · intro h s a ha
      exact h a ha s.val.1 s.val.2 s.property
    · intro h a ha host loc hserves
      exact h ⟨(host, loc), hserves⟩ a ha
  constructor
  · intro h ioproxys fuel
    refine (Program.all_forall_iff.mpr fun s : Served => ?_).mono fun β c hc => (hcall β c).mpr hc
    exact h ioproxys fuel s.val.1 s.val.2 s.property
  · intro h ioproxys fuel host loc hserves
    exact (h ioproxys fuel).mono fun β c hc => (hcall β c).mp hc ⟨(host, loc), hserves⟩

/-! ### A new replicated space -/

variable {c : Center} {fuel : Nat} {r : OpRequest}

theorem all_create_replicated_space {path : Path} {cids_str : List UInt8}
    (h : Readable cids_str → SpaceStays dp path) :
    (create_replicated_space dp c fuel path cids_str).All (SysCall.Stays dp) := by
  unfold create_replicated_space
  split
  · exact Program.all_pure none
  · exact Program.all_pure (some (-6))
  · exact Program.all_pure none
  · rename_i cids space hids hfirst
    have hspace := h (readable_of_compressIds hids) space hfirst
    refine Program.All.bind (by simpa [SysCall.Stays, SysCall.accesses] using hspace) fun set => ?_
    split
    · exact Program.all_pure (some (-31))
    · refine Program.All.bind (all_scan fuel fun d hd => ?_) fun _ => Program.all_pure (some 0)
      rw [List.mem_singleton.mp hd]
      exact hspace

/-- Where all centers are known, the attribute of the space is set. -/
theorem spaceStays_of_create {path : Path} {cids_str : List UInt8} {mcid : UInt8}
    {parse : List UInt8 → DirEntries} (hread : Readable cids_str)
    (h : (create_replicated_space dp ⟨mcid, fun _ => true, parse⟩ fuel path cids_str).All
      (SysCall.Stays dp)) : SpaceStays dp path := by
  intro space hfirst
  obtain ⟨cids, hids⟩ := (exists_compressIds_iff [mcid] (CenterIds.split cids_str)).mpr hread
  simp only [create_replicated_space, hids, hfirst] at h
  have hset := (Program.all_bind_iff.mp h).1
  simpa [SysCall.Stays, SysCall.accesses] using hset

/-- A space that is made had a list of centers that could be read. -/
theorem readable_of_returns {path : Path} {cids_str : List UInt8} {err : Int} (herr : 0 ≤ err)
    (h : (create_replicated_space dp c fuel path cids_str).Returns (some err)) :
    Readable cids_str := by
  unfold create_replicated_space at h
  split at h
  · cases h
  · simp at h
    omega
  · cases h
  · rename_i cids space hids hfirst
    exact readable_of_compressIds hids

/-! ### What a request comes to -/

theorem all_handle_create_replicated_space_iff :
    (_handle_create_replicated_space dp c r).All (SysCall.Stays dp) ↔
      StaysBelow dp (components r.path) ∧
        ∀ e ∈ (c.parse r.data).entry_names.zip (c.parse r.data).entries,
          Absolute dp.text ∧ StaysBelow dp (components e.1.toList) := by
  rw [← all_createEntries_iff]
  unfold _handle_create_replicated_space
  constructor
  · intro h
    obtain ⟨hdir, hnext⟩ := Program.all_bind_iff.mp h
    have hmade := hnext 0 (Program.returns_perform _ _)
    rw [if_neg (by decide)] at hmade
    have hset := (Program.all_bind_iff.mp hmade).2 0 (Program.returns_perform _ _)
    rw [if_neg (by decide)] at hset
    exact ⟨by simpa [SysCall.Stays, SysCall.accesses] using hdir, hset⟩
  · rintro ⟨hpath, hentries⟩
    refine Program.All.bind (by simpa [SysCall.Stays, SysCall.accesses] using hpath) fun err => ?_
    refine Program.All.ite (Program.all_pure ()) (Program.All.bind ?_ fun set => ?_)
    · simpa [SysCall.Stays, SysCall.accesses] using hpath
    · exact Program.All.ite (Program.all_pure ()) hentries

/-- The types that the manager handles itself. -/
theorem type_of_route_handled {t : ReplicaQueue.OpType} (h : route t = .handled) :
    t = .rep_init_space ∨ t = .rep_sync_data ∨ t = .rep_update_index := by
  cases t <;> simp [route] at h ⊢

theorem all_get_file_handler_iff :
    (get_file_handler dp r).All (SysCall.Stays dp) ↔ StaysBelow dp (components r.path) := by
  simp [get_file_handler, Program.all_bind_iff, SysCall.Stays, SysCall.accesses]

/-- What `handle_replica_async` does stays below, if the space that it asks does. -/
theorem all_handle_replica_async {err : Int} (h : Stays dp c.parse r)
    (hspace : Asks r → 0 ≤ err → SpaceStays dp r.path) :
    (handle_replica_async dp c r err).All (SysCall.Stays dp) := by
  unfold handle_replica_async
  split
  · exact Program.all_pure ()
  · rename_i hpath
    have hask : Asks r → (askSpace dp r err).All (SysCall.Stays dp) := by
      intro hasks
      by_cases herr : err < 0
      · simp [askSpace, herr]
      · exact all_askSpace err (hspace hasks (by omega))
    split
    · exact Program.all_pure ()
    · rename_i hroute
      split
      · exact Program.all_pure ()
      · rename_i hextra
        exact hask (by simpa [Asks, hroute] using hextra)
    · rename_i hroute
      exact hask (by simp [Asks, hroute])
    · rename_i hroute
      exact hask (by simp [Asks, hroute])
    · rename_i hroute
      obtain htype | htype | htype := type_of_route_handled hroute
      · have hfile := h.file (by simp [namesFile, htype])
        have hentries := h.entries
        simp only [createdBy, htype, hpath, ne_eq, not_false_eq_true, and_self, if_true] at hentries
        simp only [htype]
        exact all_handle_create_replicated_space_iff.mpr ⟨hfile, hentries⟩
      · simp only [htype]
        exact all_get_file_handler_iff.mpr (h.file (by simp [namesFile, htype]))
      · simp only [htype]
        exact all_get_file_handler_iff.mpr (h.file (by simp [namesFile, htype]))

theorem all_reply_iff {call : SysCall Int} :
    (reply call).All (SysCall.Stays dp) ↔ SysCall.Stays dp Int call := by
  simp [reply, Program.all_bind_iff]

/-- The switch of `do_op` stays below. -/
theorem all_perform_op (h : Stays dp c.parse r) :
    (perform_op dp c fuel r).All (SysCall.Stays dp) := by
  have hfile := h.file
  cases htype : r.type with
  | getattr =>
      simp only [namesFile, htype, forall_const] at hfile
      simp only [perform_op, htype]
      refine Program.All.bind (all_get_attr_iff.mpr ?_) fun err => Program.all_pure _
      simpa [SysCall.Stays, SysCall.accesses] using hfile
  | rename =>
      have hnew := h.newpath htype
      simp only [namesFile, htype, forall_const] at hfile
      simp [perform_op, htype, all_reply_iff, SysCall.Stays, SysCall.accesses, hfile, hnew]
  | utimens =>
      have habs := h.times htype
      simp only [namesFile, htype, forall_const] at hfile
      simp [perform_op, htype, all_reply_iff, SysCall.Stays, SysCall.accesses, hfile, habs]
  | fallocate =>
      simp only [namesFile, htype, forall_const] at hfile
      simp only [perform_op, htype]
      refine Program.All.bind (by simpa [SysCall.Stays, SysCall.accesses] using hfile) fun fd => ?_
      refine Program.All.ite ?_ (Program.all_pure _)
      simp [all_reply_iff, SysCall.Stays, SysCall.accesses]
  | readdir =>
      have hparent := h.parent htype
      simp only [namesFile, htype, forall_const] at hfile
      simp only [perform_op, htype]
      refine Program.All.bind (by simpa [SysCall.Stays, SysCall.accesses] using hfile)
        fun answer => ?_
      cases answer with
      | error err => exact Program.all_pure _
      | ok names =>
          exact Program.All.bind (all_statEntries hfile hparent names) fun _ => Program.all_pure _
  | read =>
      have hspace := h.space (Or.inl htype)
      simp only [namesFile, htype, forall_const] at hfile
      simp only [perform_op, htype]
      refine Program.All.bind (by simpa [SysCall.Stays, SysCall.accesses] using hfile) fun fd => ?_
      refine Program.All.ite (Program.all_pure _) (Program.All.bind ?_ fun alive => ?_)
      · exact (all_sync_filedata_iff _ _ _).mpr ⟨hfile, hspace⟩
      · refine Program.All.ite ?_ (Program.all_pure _)
        simp [all_reply_iff, SysCall.Stays, SysCall.accesses]
  | write =>
      have hspace := h.space (Or.inr (by simp [createsSpace, htype, Asks, route]))
      simp only [namesFile, htype, forall_const] at hfile
      simp only [perform_op, htype]
      refine Program.All.bind (by simpa [SysCall.Stays, SysCall.accesses] using hfile) fun fd => ?_
      refine Program.All.ite (Program.all_pure _) (Program.All.bind ?_ fun alive => ?_)
      · exact all_sync_unalign_page _ _ hfile hspace
      · refine Program.All.ite ?_ (Program.all_pure _)
        simp [all_reply_iff, SysCall.Stays, SysCall.accesses]
  | setxattr =>
      simp only [perform_op, htype]
      split
      · rename_i hname
        exact all_create_replicated_space fun hread =>
          h.space (Or.inr (by simpa [createsSpace, htype, hname] using hread))
      · rename_i hname
        have hpath := hfile (by simp [namesFile, htype, hname])
        simp [all_reply_iff, SysCall.Stays, SysCall.accesses, hpath]
  | _ =>
      simp only [namesFile, htype, forall_const] at hfile
      simp [perform_op, htype, all_reply_iff, SysCall.Stays, SysCall.accesses, hfile]

/-! ### What staying below asks of a request -/

/-- The switch may end with success, unless it makes a new space. -/
theorem returns_perform_op (h : ¬ createsSpace r) : (perform_op dp c fuel r).Returns (some 0) := by
  have hreply : ∀ call, (reply call).Returns (some 0) := fun call =>
    Program.returns_bind.mpr ⟨0, Program.returns_perform _ _, rfl⟩
  cases htype : r.type with
  | getattr =>
      simp only [perform_op, htype]
      exact Program.returns_bind.mpr ⟨0, ⟨.ok true, rfl⟩, rfl⟩
  | fallocate =>
      simp only [perform_op, htype]
      refine Program.returns_bind.mpr ⟨1, Program.returns_perform _ _, ?_⟩
      rw [if_pos (by decide)]
      exact hreply _
  | readdir =>
      simp only [perform_op, htype]
      exact Program.returns_bind.mpr ⟨.ok [], Program.returns_perform _ _, rfl⟩
  | read =>
      simp only [perform_op, htype]
      refine Program.returns_bind.mpr ⟨0, Program.returns_perform _ _, ?_⟩
      rw [if_neg (by decide)]
      exact Program.returns_bind.mpr ⟨true, returns_sync_filedata _ _ _, hreply _⟩
  | write =>
      simp only [perform_op, htype]
      refine Program.returns_bind.mpr ⟨0, Program.returns_perform _ _, ?_⟩
      rw [if_neg (by decide)]
      exact Program.returns_bind.mpr ⟨true, returns_sync_unalign_page _ _ _, hreply _⟩
  | setxattr =>
      have hname : r.xattr_name ≠ "user.replicate.create" := fun heq => h ⟨htype, heq⟩
      simp only [perform_op, htype, hname, if_false]
      exact hreply _
  | _ =>
      simp only [perform_op, htype]
      first | exact hreply _ | rfl

/-- A request that asks for its space after a success. -/
theorem spaceStays_of_handle (hasks : Asks r)
    (h : (handle_replica_async dp c r 0).All (SysCall.Stays dp)) : SpaceStays dp r.path := by
  unfold handle_replica_async at h
  split at h
  · rename_i hempty
    intro space hfirst
    simp [OpRequest.path, hempty, firstComponent] at hfirst
  · split at h
    · rename_i hroute
      simp [Asks, hroute] at hasks
    · rename_i hroute
      have hextra : r.extra = [] := by simpa [Asks, hroute] using hasks
      rw [if_neg (by simp [hextra])] at h
      exact spaceStays_of_all h
    · exact spaceStays_of_all h
    · exact spaceStays_of_all h
    · rename_i hroute
      simp [Asks, hroute] at hasks

/-- A request whose type the manager handles itself. -/
theorem staysBelow_of_handle (hroute : route r.type = .handled)
    (h : (handle_replica_async dp c r 0).All (SysCall.Stays dp)) :
    StaysBelow dp (components r.path) ∧
      ∀ e ∈ createdBy c.parse r, Absolute dp.text ∧ StaysBelow dp (components e.1.toList) := by
  unfold handle_replica_async at h
  split at h
  · rename_i hempty
    simp [OpRequest.path, hempty, createdBy]
  · rename_i hpath
    simp only [hroute] at h
    obtain htype | htype | htype := type_of_route_handled hroute
    · simp only [htype] at h
      simpa [createdBy, htype, hpath] using all_handle_create_replicated_space_iff.mp h
    · simp only [htype] at h
      exact ⟨all_get_file_handler_iff.mp h, by simp [createdBy, htype]⟩
    · simp only [htype] at h
      exact ⟨all_get_file_handler_iff.mp h, by simp [createdBy, htype]⟩

/-- A request of which all calls stay below. -/
theorem stays_of_all {mcid : UInt8} {parse : List UInt8 → DirEntries}
    (h : (do_op dp ⟨mcid, fun _ => true, parse⟩ 0 r).All (SysCall.Stays dp)) :
    Stays dp parse r := by
  obtain ⟨hop, hreplica⟩ := Program.all_bind_iff.mp h
  have hdone : ¬ createsSpace r →
      (handle_replica_async dp ⟨mcid, fun _ => true, parse⟩ r 0).All (SysCall.Stays dp) :=
    fun hnot => hreplica (some 0) (returns_perform_op hnot)
  have hhandled : route r.type = .handled → StaysBelow dp (components r.path) ∧
      ∀ e ∈ createdBy parse r, Absolute dp.text ∧ StaysBelow dp (components e.1.toList) := by
    intro hroute
    refine staysBelow_of_handle hroute (hdone fun hcreates => ?_)
    rw [hcreates.1] at hroute
    cases hroute
  refine ⟨fun hnames => ?_, fun hspace => ?_, fun htype => ?_, fun htype => ?_, fun htype => ?_, ?_⟩
  · cases htype : r.type with
    | rep_init_space => exact (hhandled (by rw [htype]; rfl)).1
    | rep_sync_data => exact (hhandled (by rw [htype]; rfl)).1
    | rep_update_index => exact (hhandled (by rw [htype]; rfl)).1
    | setxattr =>
        have hname : r.xattr_name ≠ "user.replicate.create" := by simpa [namesFile, htype] using hnames
        simp only [perform_op, htype, hname, if_false] at hop
        simpa [all_reply_iff, SysCall.Stays, SysCall.accesses] using hop
    | getattr =>
        simp only [perform_op, htype] at hop
        have hstat := all_get_attr_iff.mp (Program.all_bind_iff.mp hop).1
        simpa [SysCall.Stays, SysCall.accesses] using hstat
    | fallocate =>
        simp only [perform_op, htype] at hop
        simpa [SysCall.Stays, SysCall.accesses] using (Program.all_bind_iff.mp hop).1
    | readdir =>
        simp only [perform_op, htype] at hop
        simpa [SysCall.Stays, SysCall.accesses] using (Program.all_bind_iff.mp hop).1
    | read =>
        simp only [perform_op, htype] at hop
        simpa [SysCall.Stays, SysCall.accesses] using (Program.all_bind_iff.mp hop).1
    | write =>
        simp only [perform_op, htype] at hop
        simpa [SysCall.Stays, SysCall.accesses] using (Program.all_bind_iff.mp hop).1
    | rename =>
        simp [perform_op, htype, all_reply_iff, SysCall.Stays, SysCall.accesses] at hop
        exact hop.1
    | utimens =>
        simp [perform_op, htype, all_reply_iff, SysCall.Stays, SysCall.accesses] at hop
        exact hop.2
    | _ =>
        simp only [perform_op, htype] at hop
        first
          | simpa [all_reply_iff, SysCall.Stays, SysCall.accesses] using hop
          | simp [namesFile, htype] at hnames
  · obtain hread | hspace := hspace
    · simp only [perform_op, hread] at hop
      have hopened := (Program.all_bind_iff.mp hop).2 0 (Program.returns_perform _ _)
      rw [if_neg (by decide)] at hopened
      exact ((all_sync_filedata_iff _ _ _).mp (Program.all_bind_iff.mp hopened).1).2
    · split at hspace
      · rename_i hcreates
        simp only [perform_op, hcreates.1, hcreates.2, if_true] at hop
        exact spaceStays_of_create hspace hop
      · rename_i hcreates
        exact spaceStays_of_handle hspace (hdone hcreates)
  · simp [perform_op, htype, all_reply_iff, SysCall.Stays, SysCall.accesses] at hop
    exact hop.2
  · simp only [perform_op, htype] at hop
    have hentries := (Program.all_bind_iff.mp hop).2 (.ok [parentEntry])
      (Program.returns_perform _ _)
    have hparent := (Program.all_bind_iff.mp (Program.all_bind_iff.mp hentries).1).1
    exact (stays_join_iff _ _ _).mp (all_get_attr_iff.mp hparent _ (List.mem_singleton_self _))
  · simp [perform_op, htype, all_reply_iff, SysCall.Stays, SysCall.accesses] at hop
    exact hop.1
  · intro e he
    have htype : r.type = .rep_init_space := by
      by_contra hne
      simp [createdBy, hne] at he
    exact (hhandled (by rw [htype]; rfl)).2 e he

/-- A request whose paths stay below makes only calls that do. -/
theorem all_do_op (h : Stays dp c.parse r) : (do_op dp c fuel r).All (SysCall.Stays dp) := by
  refine Program.all_bind_iff.mpr ⟨all_perform_op h, fun result hresult => ?_⟩
  cases result with
  | none => exact Program.all_pure ()
  | some err =>
      refine all_handle_replica_async h fun hasks herr => ?_
      by_cases hcreates : createsSpace r
      · simp only [perform_op, hcreates.1, hcreates.2, if_true] at hresult
        refine h.space (Or.inr ?_)
        rw [if_pos hcreates]
        exact readable_of_returns herr hresult
      · exact h.space (Or.inr (by rwa [if_neg hcreates]))

/-- A request concerns nothing outside the data directory, whatever the file system holds and
whatever centers are known, exactly where its paths stay at or below it. -/
theorem requests_stay_below_iff (dp : DataPath) (mcid : UInt8) (parse : List UInt8 → DirEntries)
    (r : OpRequest) : Confined dp mcid parse r ↔ Stays dp parse r := by
  rw [confined_iff_all]
  constructor
  · intro h
    exact stays_of_all (h (fun _ => true) 0)
  · intro h ioproxys fuel
    exact all_do_op h

/-- The data directory `/d`. -/
def dataPath : DataPath := ⟨"/d".toList, by decide, by decide⟩

/-- A client asks to remove a file beside the data directory. -/
def unlinkBeside : OpRequest where
  filepath := "../x"
  type := .unlink
  extra := []
  additional_param := .notSet
  mode := 0
  data := []

/-- The root with the data directory and a file in it. -/
def hostBeside : Host where
  tree := (FileTree.empty.add "d" [] .dir).add "x" [] (.file 1)
  cwd := []
  descriptor0 := none

/-- The file beside the data directory is what the proxy removes. -/
theorem unlink_leaves_data_directory :
    ¬ Confined dataPath 1 (fun _ => ⟨[], []⟩) unlinkBeside := by
  intro h
  have hserves : hostBeside.Serves dataPath ["d"] := ⟨by decide, by decide⟩
  have hall := h (fun _ => true) 0 hostBeside ["d"] hserves
  have hunlink := hall.1 ⟨.cwd, dataPath.below unlinkBeside.path, false⟩ (List.mem_singleton_self _)
  exact absurd (hunlink ["x"] (by decide)) (by decide)

end Gvds.DataDirectory
