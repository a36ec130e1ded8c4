/-
Module: Gvds.Proofs.SpaceScans
Layer: Proofs
Purpose: The loop of _replicate_space_request takes every directory of a space off its stack, and
  with them every symbolic link through which stat sees a directory. It stays within the directories
  of the space, and comes to each of them once, exactly where there is no such link.
Imports: Gvds.Lib.StackScan, Gvds.IoProxy.SpaceScan
Trusted boundary: as Gvds.IoProxy.SpaceScan
Main exports: found, entered, run_of_visits, Space.realDirs, NoLinkToDirectory, ScansOnce,
  scan_follows_no_link_iff, scan_follows_link
-/
import Gvds.Lib.StackScan
import Gvds.IoProxy.SpaceScan

namespace Gvds.SpaceScan

open DataDirectory (NodeType)
open ProxyProcess (Attr)
open StackScan

/-- Whether `get_attr` sees a directory. -/
def isDirectory (s : Space) (path : PathName) : Bool :=
  (get_attr s path).any fun attr => attr.type = .directory

/-- The names among some whose entries a round makes. -/
def attributed (s : Space) (d : PathName) (filenames : List String) : List String :=
  filenames.filter fun x => x ≠ "." ∧ x ≠ ".." ∧ (get_attr s (x :: d)).isSome

/-- The names of a directory whose entries a round makes. -/
def found (s : Space) (d : PathName) : List String := attributed s d ((s.readdir d).getD [])

/-- The names that a round puts on the stack, the top first. -/
def entered (s : Space) (d : PathName) : List String :=
  ((found s d).filter fun x => isDirectory s (x :: d)).reverse

/-- A path with what `get_attr` returns for it. -/
def entryAt (s : Space) (path : PathName) : Option (PathName × Attr) :=
  (get_attr s path).map fun attr => (path, attr)

/-- The entries that a round makes. -/
def entriesIn (s : Space) (d : PathName) : List (PathName × Attr) :=
  (childrenOf (found s) d).filterMap (entryAt s)

namespace Space

/-- The locations of the directories of a space. -/
def realDirs (s : Space) : List PathName :=
  s.tree.nodes.keys.filter fun p => s.name :: s.data_path <:+ p ∧ s.tree.node p = some .dir

end Space

/-- No symbolic link in a directory of the space leads to a directory. -/
def NoLinkToDirectory (s : Space) : Prop :=
  ∀ d x target, s.path <:+ d → s.tree.node (x :: d ++ s.data_path) = some (.link target) →
    s.stat (x :: d) ≠ some .dir

/-- The loop ends, puts on its stack no directory twice, whatever the path to it, and has at most as
many rounds as the space has directories. -/
structure ScansOnce (s : Space) : Prop where
  terminates : ∃ rounds, (_replicate_space_request s rounds).dirs = []
  once : ∀ rounds q, s.tree.node q = some .dir →
    ((_replicate_space_request s rounds).pushed.filter fun p => s.locate p = some q).length ≤ 1
  rounds_le : ∀ rounds, (_replicate_space_request s rounds).taken.length ≤ s.realDirs.length

variable {s : Space}

/-! ### What a round does -/

/-- The inner loop over some names. -/
theorem foldl_scanEntry (s : Space) (d : PathName) (filenames : List String) (st : Scan) :
    filenames.foldl (scanEntry s d) st =
      { st with
        dirs := (((attributed s d filenames).filter fun x => isDirectory s (x :: d)).reverse.map
          fun x => x :: d) ++ st.dirs
        entries := st.entries ++
          ((attributed s d filenames).map fun x => x :: d).filterMap (entryAt s) } := by
  induction filenames generalizing st with
  | nil => simp [attributed]
  | cons x filenames ih =>
      rw [List.foldl_cons, ih]
      by_cases hdots : x = "." ∨ x = ".."
      · have hskip : ¬ (x ≠ "." ∧ x ≠ ".." ∧ (get_attr s (x :: d)).isSome = true) := by
          rintro ⟨hdot, hdotdot, _⟩
          exact hdots.elim hdot hdotdot
        simp only [scanEntry, if_pos hdots, attributed, List.filter_cons, decide_eq_true_eq,
          if_neg hskip]
      · cases hattr : get_attr s (x :: d) with
        | none => simp [scanEntry, attributed, hdots, hattr]
        | some attr =>
            have hnames : x ≠ "." ∧ x ≠ ".." := not_or.mp hdots
            have hdir : isDirectory s (x :: d) = decide (attr.type = .directory) := by
              simp [isDirectory, hattr]
            by_cases htype : attr.type = .directory
            · simp [scanEntry, attributed, hnames, hattr, htype, hdir, entryAt]
            · simp [scanEntry, attributed, hnames, hattr, htype, hdir, entryAt]

/-- A round puts on the stack and into the list what it finds in a directory. -/
theorem scanDir_eq (s : Space) (d : PathName) (st : Scan) :
    scanDir s d st =
      { st with
        dirs := childrenOf (entered s) d ++ st.dirs
        entries := st.entries ++ entriesIn s d } := by
  unfold scanDir
  cases hread : s.readdir d with
  | none => simp [childrenOf, entered, entriesIn, found, attributed, hread]
  | some filenames =>
      simp only
      rw [foldl_scanEntry]
      simp [childrenOf, entered, entriesIn, found, hread]

theorem scanRound_cons {st : Scan} {d : PathName} {dirs : List PathName} (h : st.dirs = d :: dirs) :
    scanRound s st =
      { dirs := childrenOf (entered s) d ++ dirs
        entries := st.entries ++ entriesIn s d
        taken := st.taken ++ [d] } := by
  simp [scanRound, h, scanDir_eq]

theorem scanRound_nil {st : Scan} (h : st.dirs = []) : scanRound s st = st := by
  simp [scanRound, h]

/-! ### Rounds as a scan of names -/

/-- So many rounds of a scan that comes to an end. -/
theorem run_of_visits {visited : List PathName} (n : Nat) :
    ∀ {st : Scan}, Visits (entered s) st.dirs visited →
      ((scanRound s)^[n] st).taken = st.taken ++ visited.take n ∧
      Visits (entered s) ((scanRound s)^[n] st).dirs (visited.drop n) ∧
      ((scanRound s)^[n] st).entries = st.entries ++ (visited.take n).flatMap (entriesIn s) := by
  induction n generalizing visited with
  | zero =>
      intro st h
      simp [h]
  | succ n ih =>
      intro st h
      rw [Function.iterate_succ_apply]
      cases hdirs : st.dirs with
      | nil =>
          rw [hdirs] at h
          cases h
          rw [scanRound_nil hdirs]
          have hdone : Visits (entered s) st.dirs [] := by
            rw [hdirs]
            exact .done
          have hend := ih hdone
          simpa using hend
      | cons d dirs =>
          rw [hdirs] at h
          cases h with
          | take hrest =>
              rw [scanRound_cons hdirs]
              obtain ⟨htaken, hdirs', hentries⟩ :=
                @ih _ ⟨_, st.entries ++ entriesIn s d, st.taken ++ [d]⟩ hrest
              refine ⟨?_, hdirs', ?_⟩
              · rw [htaken]
                simp
              · rw [hentries]
                simp

/-- If the loop ends, it is a scan that comes to an end. -/
theorem visits_of_end (n : Nat) :
    ∀ {st : Scan}, ((scanRound s)^[n] st).dirs = [] →
      ∃ visited, Visits (entered s) st.dirs visited := by
  induction n with
  | zero =>
      intro st h
      rw [Function.iterate_zero_apply] at h
      rw [h]
      exact ⟨[], .done⟩
  | succ n ih =>
      intro st h
      rw [Function.iterate_succ_apply] at h
      obtain ⟨visited, hvisited⟩ := ih h
      cases hdirs : st.dirs with
      | nil => exact ⟨[], .done⟩
      | cons d dirs =>
          rw [scanRound_cons hdirs] at hvisited
          exact ⟨d :: visited, .take hvisited⟩

/-- After enough rounds of a scan that comes to an end, all of it has happened. -/
theorem request_of_visits {visited : List PathName} (h : Visits (entered s) [s.path] visited)
    {n : Nat} (hn : visited.length ≤ n) :
    (_replicate_space_request s n).dirs = [] ∧ (_replicate_space_request s n).taken = visited ∧
      (_replicate_space_request s n).entries = visited.flatMap (entriesIn s) := by
  obtain ⟨htaken, hdirs, hentries⟩ := @run_of_visits s visited n ⟨[s.path], [], []⟩ h
  rw [List.take_of_length_le hn] at htaken hentries
  rw [List.drop_of_length_le hn] at hdirs
  refine ⟨?_, ?_, ?_⟩
  · generalize hlast : ((scanRound s)^[n] ⟨[s.path], [], []⟩).dirs = dirs at hdirs
    cases hdirs
    exact hlast
  · rw [_replicate_space_request, htaken]
    rfl
  · rw [_replicate_space_request, hentries]
    rfl

/-- What has been put on the stack is part of what the scan visits. -/
theorem pushed_sublist {visited : List PathName} (h : Visits (entered s) [s.path] visited)
    (n : Nat) :
    (_replicate_space_request s n).pushed.Sublist visited := by
  obtain ⟨htaken, hdirs, -⟩ := @run_of_visits s visited n ⟨[s.path], [], []⟩ h
  rw [Scan.pushed, _replicate_space_request, htaken]
  have hsub := (List.Sublist.refl (visited.take n)).append hdirs.sublist
  rw [List.take_append_drop] at hsub
  exact hsub

/-! ### What is found in a real directory -/

theorem locate_of_plain {p : PathName} (h : s.tree.Plain (p ++ s.data_path)) :
    s.locate p = some (p ++ s.data_path) :=
  LinkTree.walk_of_plain maxLinks h

theorem stat_of_plain {p : PathName} (h : s.tree.Plain (p ++ s.data_path)) :
    s.stat p = s.tree.node (p ++ s.data_path) := by
  rw [Space.stat, locate_of_plain h, Option.bind_some]

theorem readdir_of_dir {d : PathName} (h : s.tree.node (d ++ s.data_path) = some .dir) :
    s.readdir d = some ("." :: ".." :: s.tree.names (d ++ s.data_path)) := by
  rw [Space.readdir, locate_of_plain (LinkTree.Plain.of_dir h), Option.bind_some, if_pos h]

/-- `get_attr` sees a directory where `stat` does. -/
theorem isDirectory_iff {p : PathName} : isDirectory s p = true ↔ s.stat p = some .dir := by
  unfold isDirectory get_attr
  cases s.stat p with
  | none => simp
  | some n =>
      cases n with
      | dir => simp
      | file size => simp
      | link target => simp

theorem isSome_get_attr {p : PathName} : (get_attr s p).isSome = (s.stat p).isSome := by
  unfold get_attr
  cases s.stat p with
  | none => rfl
  | some n =>
      cases n with
      | dir => rfl
      | file size => rfl
      | link target => rfl

/-- Names of the tree are found if `stat` succeeds on them. -/
theorem mem_found {d : PathName} {x : String} (h : s.tree.node (d ++ s.data_path) = some .dir) :
    x ∈ found s d ↔ (s.tree.node (x :: d ++ s.data_path)).isSome ∧ (s.stat (x :: d)).isSome := by
  rw [found, attributed, readdir_of_dir h, Option.getD_some, List.mem_filter, decide_eq_true_eq,
    isSome_get_attr, List.mem_cons, List.mem_cons, LinkTree.mem_names]
  constructor
  · rintro ⟨hname, hdot, hdots, hstat⟩
    exact ⟨(hname.resolve_left hdot).resolve_left hdots, hstat⟩
  · rintro ⟨hname, hstat⟩
    obtain ⟨n, hn⟩ := Option.isSome_iff_exists.mp hname
    obtain ⟨hdot, hdots⟩ := s.tree.named x _ n hn
    exact ⟨Or.inr (Or.inr hname), hdot, hdots, hstat⟩

/-- What is put on the stack from a real directory: the names through which `stat` sees one. -/
theorem mem_entered {d : PathName} {x : String} (h : s.tree.node (d ++ s.data_path) = some .dir) :
    x ∈ entered s d ↔
      (s.tree.node (x :: d ++ s.data_path)).isSome ∧ s.stat (x :: d) = some .dir := by
  rw [entered, List.mem_reverse, List.mem_filter, mem_found h, isDirectory_iff]
  constructor
  · rintro ⟨⟨hname, _⟩, hstat⟩
    exact ⟨hname, hstat⟩
  · rintro ⟨hname, hstat⟩
    exact ⟨⟨hname, hstat ▸ rfl⟩, hstat⟩

theorem nodup_found (s : Space) (d : PathName) : (found s d).Nodup := by
  unfold found attributed
  cases hread : s.readdir d with
  | none => simp
  | some filenames =>
      unfold Space.readdir at hread
      cases hloc : s.locate d with
      | none => simp [hloc] at hread
      | some loc =>
          rw [hloc, Option.bind_some] at hread
          split at hread
          · cases hread
            have hdots : ∀ (l : List String) (P : String → Bool), P "." = false → P ".." = false →
                ("." :: ".." :: l).filter P = l.filter P := by
              intro l P hdot hdotdot
              simp [hdot, hdotdot]
            rw [Option.getD_some, hdots _ _ (by simp) (by simp)]
            exact (LinkTree.nodup_names loc).filter _
          · cases hread

theorem nodup_entered (s : Space) (d : PathName) : (entered s d).Nodup :=
  List.nodup_reverse.mpr ((nodup_found s d).filter _)

/-- No location is visited twice. -/
theorem nodup_visited {visited : List PathName} (h : Visits (entered s) [s.path] visited) :
    visited.Nodup :=
  h.nodup (nodup_entered s) (apart_singleton s.path)

/-! ### The directories of the space -/

theorem mem_realDirs {p : PathName} :
    p ∈ s.realDirs ↔ s.name :: s.data_path <:+ p ∧ s.tree.node p = some .dir := by
  rw [Space.realDirs, List.mem_filter, decide_eq_true_eq, LinkTree.mem_keys_iff]
  constructor
  · rintro ⟨_, hp⟩
    exact hp
  · rintro ⟨hsuffix, hdir⟩
    exact ⟨hdir ▸ rfl, hsuffix, hdir⟩

theorem nodup_realDirs (s : Space) : s.realDirs.Nodup := s.tree.nodes.keys_nodup.filter _

/-- Every directory of the space is reached along its own names. -/
theorem reaches_of_dir :
    ∀ {rel : PathName}, s.tree.node (rel ++ s.path ++ s.data_path) = some .dir →
      Reaches (entered s) s.path (rel ++ s.path)
  | [], _ => .start
  | x :: rel, h => by
      have habove : s.tree.node (rel ++ s.path ++ s.data_path) = some .dir :=
        LinkTree.dir_of_name (x := x) (h ▸ rfl)
      apply Reaches.child (reaches_of_dir habove)
      apply (mem_entered habove).mpr
      refine ⟨h ▸ rfl, ?_⟩
      rw [← h]
      exact stat_of_plain (LinkTree.Plain.of_dir h)

/-- Without links to directories, the scan keeps to the directories of the space. -/
theorem dir_of_reaches (hlinks : NoLinkToDirectory s) {p : PathName}
    (h : Reaches (entered s) s.path p) : s.tree.node (p ++ s.data_path) = some .dir := by
  induction h with
  | start => exact s.is_dir
  | @child d x hd hx ih =>
      obtain ⟨hname, hstat⟩ := (mem_entered ih).mp hx
      obtain ⟨n, hn⟩ := Option.isSome_iff_exists.mp hname
      cases n with
      | dir => exact hn
      | file size =>
          have hplain : s.tree.Plain (x :: d ++ s.data_path) := ⟨_, hn, by simp⟩
          rw [stat_of_plain hplain] at hstat
          exact hstat
      | link target => exact absurd hstat (hlinks d x target hd.suffix hn)

/-- Without links to directories, the loop ends. -/
theorem exists_visits_of_noLink (hlinks : NoLinkToDirectory s) :
    ∃ visited, Visits (entered s) [s.path] visited := by
  apply @exists_visits _ _ _ fun d => s.tree.depth - (d ++ s.data_path).length
  intro d x hd hx
  have hdir := dir_of_reaches hlinks (.child hd hx)
  have hdeep : (x :: d ++ s.data_path).length ≤ s.tree.depth :=
    LinkTree.length_le_depth (hdir ▸ rfl)
  simp only [List.cons_append, List.length_cons] at hdeep ⊢
  omega

/-- A list without duplicates whose elements are all the same has at most one. -/
theorem length_le_one {α : Type*} {l : List α} (hnodup : l.Nodup) {a : α} (h : ∀ b ∈ l, b = a) :
    l.length ≤ 1 := by
  cases l with
  | nil => exact Nat.zero_le 1
  | cons b l =>
      cases l with
      | nil => exact Nat.le_refl 1
      | cons c l =>
          have hb : b = a := h b (by simp)
          have hc : c = a := h c (by simp)
          have hne : b ∉ c :: l := (List.nodup_cons.mp hnodup).1
          exact absurd (hb.trans hc.symm ▸ List.mem_cons_self) hne

theorem scansOnce_of_noLink (hlinks : NoLinkToDirectory s) : ScansOnce s := by
  obtain ⟨visited, hvisited⟩ := exists_visits_of_noLink hlinks
  have hreal : ∀ p ∈ visited, s.path <:+ p ∧ s.tree.node (p ++ s.data_path) = some .dir := by
    intro p hp
    obtain ⟨d, hd, hreach⟩ := hvisited.mem_iff.mp hp
    obtain rfl := List.mem_singleton.mp hd
    exact ⟨hreach.suffix, dir_of_reaches hlinks hreach⟩
  refine ⟨⟨visited.length, (request_of_visits hvisited le_rfl).1⟩, ?_, ?_⟩
  · intro rounds q _
    have hpushed := pushed_sublist hvisited rounds
    apply length_le_one ((hpushed.nodup (nodup_visited hvisited)).filter _)
      (a := q.take (q.length - s.data_path.length))
    intro p hp
    obtain ⟨hmem, hloc⟩ := List.mem_filter.mp hp
    obtain ⟨_, hdir⟩ := hreal p (hpushed.subset hmem)
    rw [decide_eq_true_eq, locate_of_plain (LinkTree.Plain.of_dir hdir), Option.some.injEq] at hloc
    rw [← hloc]
    simp
  · intro rounds
    have hsub : (_replicate_space_request s rounds).taken.Sublist visited :=
      (List.sublist_append_left _ _).trans (pushed_sublist hvisited rounds)
    have hnodup : (visited.map (· ++ s.data_path)).Nodup :=
      (nodup_visited hvisited).map (List.append_left_injective s.data_path)
    have hin : visited.map (· ++ s.data_path) ⊆ s.realDirs := by
      intro q hq
      obtain ⟨p, hp, rfl⟩ := List.mem_map.mp hq
      obtain ⟨⟨rel, hrel⟩, hdir⟩ := hreal p hp
      refine mem_realDirs.mpr ⟨⟨rel, ?_⟩, hdir⟩
      rw [← hrel, List.append_assoc]
      rfl
    have hle := (List.subperm_of_subset hnodup hin).length_le
    rw [List.length_map] at hle
    exact hsub.length_le.trans hle

/-- A link to a directory is visited beside all directories of the space. -/
theorem not_scansOnce_of_link {d : PathName} {x : String} {target : LinkTarget}
    (hd : s.path <:+ d)
    (hlink : s.tree.node (x :: d ++ s.data_path) = some (.link target))
    (hstat : s.stat (x :: d) = some .dir) : ¬ ScansOnce s := by
  intro h
  obtain ⟨n, hend⟩ := h.terminates
  obtain ⟨visited, hvisited⟩ := @visits_of_end s n ⟨[s.path], [], []⟩ hend
  have hmem : ∀ p, Reaches (entered s) s.path p → p ∈ visited := by
    intro p hp
    exact hvisited.mem_iff.mpr ⟨s.path, List.mem_singleton_self _, hp⟩
  have hdir : s.tree.node (d ++ s.data_path) = some .dir :=
    LinkTree.dir_of_name (x := x) (hlink ▸ rfl)
  have hreach : Reaches (entered s) s.path (x :: d) := by
    obtain ⟨rel, rfl⟩ := hd
    exact .child (reaches_of_dir hdir) ((mem_entered hdir).mpr ⟨hlink ▸ rfl, hstat⟩)
  have hsub : (x :: d ++ s.data_path) :: s.realDirs ⊆ visited.map (· ++ s.data_path) := by
    intro q hq
    cases List.mem_cons.mp hq with
    | inl heq => exact heq ▸ List.mem_map.mpr ⟨x :: d, hmem _ hreach, rfl⟩
    | inr hreal =>
        obtain ⟨⟨rel, hrel⟩, hq'⟩ := mem_realDirs.mp hreal
        have heq : rel ++ s.path ++ s.data_path = q := by
          rw [← hrel, List.append_assoc]
          rfl
        exact List.mem_map.mpr ⟨rel ++ s.path, hmem _ (reaches_of_dir (heq ▸ hq')), heq⟩
  have hnodup : ((x :: d ++ s.data_path) :: s.realDirs).Nodup := by
    apply List.nodup_cons.mpr
    refine ⟨?_, nodup_realDirs s⟩
    intro hreal
    have hdir' := (mem_realDirs.mp hreal).2
    rw [hlink] at hdir'
    cases hdir'
  have hlen := (List.subperm_of_subset hnodup hsub).length_le
  have hrounds := h.rounds_le visited.length
  rw [(request_of_visits hvisited le_rfl).2.1] at hrounds
  rw [List.length_cons, List.length_map] at hlen
  exact absurd (hlen.trans hrounds) (Nat.not_succ_le_self _)

/-- The loop comes to every directory of a space at most once, and ends after at most as many rounds
as there are directories, exactly where no link in the space leads to a directory. -/
theorem scan_follows_no_link_iff (s : Space) : ScansOnce s ↔ NoLinkToDirectory s := by
  constructor
  · intro h d x target hd hlink hstat
    exact not_scansOnce_of_link hd hlink hstat h
  · exact scansOnce_of_noLink

/-- A space with a link `l` to itself in it. -/
def selfLinkedSpace : Space where
  tree :=
    ((LinkTree.empty.add "data" [] .dir ⟨rfl, rfl, by decide, trivial⟩).add "s" ["data"] .dir
      ⟨by decide, by decide, by decide, trivial⟩).add "l" ["s", "data"] (.link ⟨false, ["."]⟩)
      ⟨by decide, by decide, by decide, trivial⟩
  data_path := ["data"]
  name := "s"
  is_dir := by decide

/-- The loop goes through the link, back into the space. -/
theorem scan_follows_link : ¬ ScansOnce selfLinkedSpace := by
  have hlink : selfLinkedSpace.tree.node ["l", "s", "data"] = some (.link ⟨false, ["."]⟩) := by
    decide
  have hstat : selfLinkedSpace.stat ["l", "s"] = some .dir := by decide
  exact not_scansOnce_of_link (d := ["s"]) List.suffix_rfl hlink hstat

end Gvds.SpaceScan
