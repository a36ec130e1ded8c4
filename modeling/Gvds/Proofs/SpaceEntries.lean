/-
Module: Gvds.Proofs.SpaceEntries
Layer: Proofs
Purpose: The entries of a space without links list it completely: each directory and each file once,
  with its attributes, and no directory after something below it. So each entry can be made when
  those before it have been made.
Imports: Gvds.Proofs.SpaceScans, Gvds.IoProxy.SpaceReplay
Trusted boundary: as Gvds.IoProxy.SpaceScan
Main exports: PlainSpace, ListsSpace, listsSpace_of_end, exists_end, Creatable, creatable_of_lists
-/
import Gvds.Proofs.SpaceScans
import Gvds.IoProxy.SpaceReplay

namespace Gvds.SpaceReplay

open DataDirectory (NodeType)
open ProxyProcess (Attr)
open SpaceScan
open StackScan

/-- A space in which there are directories and regular files only. -/
structure PlainSpace extends Space where
  plain : ∀ rel target, tree.node (rel ++ name :: data_path) ≠ some (.link target)

/-- What the attributes of an entry have to be. -/
def Describes : LinkNode → Attr → Prop
  | .dir, attr => attr.type = .directory
  | .file size, attr => attr = ⟨.regularFile, size⟩
  | .link _, _ => False

/-- A list of entries has each directory and file below a space once, with its attributes, and no
directory after something below it. -/
structure ListsSpace (s : Space) (entries : List (PathName × Attr)) : Prop where
  once : (entries.map Prod.fst).Nodup
  complete : ∀ p, p ∈ entries.map Prod.fst ↔
    ∃ rel, rel ≠ [] ∧ p = rel ++ s.path ∧ (s.tree.node (p ++ s.data_path)).isSome
  described : ∀ e ∈ entries, ∃ n, s.tree.node (e.1 ++ s.data_path) = some n ∧ Describes n e.2
  ordered : ∀ before e after, entries = before ++ e :: after → ∀ f ∈ before, ¬ e.1 <:+ f.1

/-! ### The entries of a space -/

section Entries

variable {s : PlainSpace}

theorem noLink (s : PlainSpace) : NoLinkToDirectory s.toSpace := by
  intro d x target hd hlink
  obtain ⟨rel, rfl⟩ := hd
  rw [← List.cons_append, List.append_assoc] at hlink
  exact absurd hlink (s.plain (x :: rel) target)

/-- What is below the space is no link. -/
theorem plain_of_isSome {rel : PathName}
    (h : (s.tree.node (rel ++ s.path ++ s.data_path)).isSome) :
    s.tree.Plain (rel ++ s.path ++ s.data_path) := by
  obtain ⟨n, hn⟩ := Option.isSome_iff_exists.mp h
  refine ⟨n, hn, ?_⟩
  intro target heq
  subst heq
  rw [List.append_assoc] at hn
  exact s.plain rel target hn

/-- The scan comes to the directories of the space. -/
theorem mem_visited_iff {visited : List PathName}
    (h : Visits (entered s.toSpace) [s.path] visited) {d : PathName} :
    d ∈ visited ↔
      ∃ rel, d = rel ++ s.path ∧ s.tree.node (rel ++ s.path ++ s.data_path) = some .dir := by
  rw [h.mem_iff]
  constructor
  · rintro ⟨base, hbase, hreach⟩
    obtain rfl := List.mem_singleton.mp hbase
    have hdir := dir_of_reaches (noLink s) hreach
    obtain ⟨rel, rfl⟩ := hreach.suffix
    exact ⟨rel, rfl, hdir⟩
  · rintro ⟨rel, rfl, hdir⟩
    exact ⟨s.path, List.mem_singleton_self _, reaches_of_dir hdir⟩

/-- `get_attr` describes what is there. -/
theorem describes_of_get_attr {rel : PathName}
    (h : (s.tree.node (rel ++ s.path ++ s.data_path)).isSome) :
    ∃ n attr, s.tree.node (rel ++ s.path ++ s.data_path) = some n ∧
      get_attr s.toSpace (rel ++ s.path) = some attr ∧ Describes n attr := by
  have hplain := plain_of_isSome h
  have hstat : s.stat (rel ++ s.path) = s.tree.node (rel ++ s.path ++ s.data_path) :=
    stat_of_plain hplain
  obtain ⟨n, hn, hlink⟩ := hplain
  rw [hn] at hstat
  cases n with
  | dir => exact ⟨_, ⟨.directory, 0⟩, hn, by rw [get_attr, hstat], rfl⟩
  | file size => exact ⟨_, ⟨.regularFile, size⟩, hn, by rw [get_attr, hstat], rfl⟩
  | link target => exact absurd rfl (hlink target)

/-- Where the scan has come to, everything is found. -/
theorem mem_found_iff {rel : PathName} {x : String}
    (h : s.tree.node (rel ++ s.path ++ s.data_path) = some .dir) :
    x ∈ found s.toSpace (rel ++ s.path) ↔
      (s.tree.node (x :: rel ++ s.path ++ s.data_path)).isSome := by
  rw [mem_found h]
  constructor
  · exact And.left
  · intro hname
    refine ⟨hname, ?_⟩
    have hstat : s.stat (x :: rel ++ s.path) = s.tree.node (x :: rel ++ s.path ++ s.data_path) :=
      stat_of_plain (plain_of_isSome hname)
    have hstat' : s.stat (x :: (rel ++ s.path)) = _ := hstat
    rw [hstat']
    exact hname

theorem map_fst_filterMap_entryAt (s : Space) {ps : List PathName}
    (h : ∀ p ∈ ps, (get_attr s p).isSome) : (ps.filterMap (entryAt s)).map Prod.fst = ps := by
  induction ps with
  | nil => rfl
  | cons p ps ih =>
      obtain ⟨attr, hattr⟩ := Option.isSome_iff_exists.mp (h p List.mem_cons_self)
      simp [entryAt, hattr, ih fun q hq => h q (List.mem_cons_of_mem p hq)]

/-- The names of the entries that a round makes. -/
theorem map_fst_entriesIn (s : Space) (d : PathName) :
    (entriesIn s d).map Prod.fst = childrenOf (found s) d := by
  apply map_fst_filterMap_entryAt
  intro p hp
  obtain ⟨x, hx, rfl⟩ := mem_childrenOf.mp hp
  rw [found, attributed, List.mem_filter, decide_eq_true_eq] at hx
  exact hx.2.2.2

/-- The entries of a space, in the order in which its directories are visited. -/
theorem listsSpace_of_visits {visited : List PathName}
    (h : Visits (entered s.toSpace) [s.path] visited) :
    ListsSpace s.toSpace (visited.flatMap (entriesIn s.toSpace)) := by
  have hnames : (visited.flatMap (entriesIn s.toSpace)).map Prod.fst =
      visited.flatMap (childrenOf (found s.toSpace)) := by
    rw [List.map_flatMap]
    congr 1
    funext d
    exact map_fst_entriesIn s.toSpace d
  have hpairwise : (visited.flatMap (childrenOf (found s.toSpace))).Pairwise
      fun a b => ¬ b <:+ a :=
    pairwise_found (nodup_found s.toSpace) (h.pairwise (nodup_entered s.toSpace)
      (apart_singleton s.path))
  refine ⟨?_, ?_, ?_, ?_⟩
  · rw [hnames]
    exact hpairwise.imp fun {a b} hlater (heq : a = b) => hlater (heq ▸ List.suffix_rfl)
  · intro p
    rw [hnames, List.mem_flatMap]
    constructor
    · rintro ⟨d, hd, hp⟩
      obtain ⟨rel, rfl, hdir⟩ := (mem_visited_iff h).mp hd
      obtain ⟨x, hx, rfl⟩ := mem_childrenOf.mp hp
      exact ⟨x :: rel, List.cons_ne_nil x rel, rfl, (mem_found_iff hdir).mp hx⟩
    · rintro ⟨rel, hrel, rfl, hname⟩
      cases rel with
      | nil => exact absurd rfl hrel
      | cons x rel =>
          have hdir : s.tree.node (rel ++ s.path ++ s.data_path) = some .dir :=
            LinkTree.dir_of_name hname
          exact ⟨rel ++ s.path, (mem_visited_iff h).mpr ⟨rel, rfl, hdir⟩,
            mem_childrenOf.mpr ⟨x, (mem_found_iff hdir).mpr hname, rfl⟩⟩
  · intro e he
    obtain ⟨d, hd, hin⟩ := List.mem_flatMap.mp he
    obtain ⟨rel, rfl, hdir⟩ := (mem_visited_iff h).mp hd
    obtain ⟨p, hp, hentry⟩ := List.mem_filterMap.mp hin
    obtain ⟨x, hx, rfl⟩ := mem_childrenOf.mp hp
    obtain ⟨n, attr, hn, hattr, hdescribes⟩ :=
      @describes_of_get_attr s (x :: rel) ((mem_found_iff hdir).mp hx)
    have hentry' : entryAt s.toSpace (x :: rel ++ s.path) = some e := hentry
    rw [entryAt, hattr, Option.map_some, Option.some.injEq] at hentry'
    subst hentry'
    exact ⟨n, hn, hdescribes⟩
  · intro before e after heq f hf
    rw [← hnames, heq, List.map_append, List.map_cons] at hpairwise
    exact (List.pairwise_append.mp hpairwise).2.2 f.1 (List.mem_map_of_mem hf) e.1
      List.mem_cons_self

/-- When the loop of `_replicate_space_request` has ended, its entries list the space. -/
theorem listsSpace_of_end {rounds : Nat}
    (h : (_replicate_space_request s.toSpace rounds).dirs = []) :
    ListsSpace s.toSpace (_replicate_space_request s.toSpace rounds).entries := by
  obtain ⟨visited, hvisited⟩ := @visits_of_end s.toSpace rounds ⟨[s.path], [], []⟩ h
  obtain ⟨-, hdirs, hentries⟩ := @run_of_visits s.toSpace visited rounds ⟨[s.path], [], []⟩ hvisited
  rw [_replicate_space_request] at h
  rw [h] at hdirs
  have hall : visited.take rounds = visited := by
    generalize hrest : visited.drop rounds = rest at hdirs
    cases hdirs
    exact List.take_of_length_le (List.drop_eq_nil_iff.mp hrest)
  rw [_replicate_space_request, hentries, hall]
  exact listsSpace_of_visits hvisited

theorem exists_end (s : PlainSpace) :
    ∃ rounds, (_replicate_space_request s.toSpace rounds).dirs = [] :=
  (scansOnce_of_noLink (noLink s)).terminates

end Entries

/-! ### The order of the entries -/

/-- Each entry can be made when those before it have been made: its parent has been, it has not. -/
def Creatable (path : PathName) (entries : List (PathName × Attr)) : Prop :=
  ∀ before e after, entries = before ++ e :: after →
    ∃ x d, e.1 = x :: d ∧ path <:+ d ∧
      (d = path ∨ ∃ f ∈ before, f.1 = d ∧ f.2.type = .directory) ∧
      e.1 ∉ before.map Prod.fst ∧
      (e.2.type = .directory ∨ e.2.type = .regularFile ∧ e.2.size < 2 ^ 63)

/-- A list of all entries that has directories first can be made. -/
theorem creatable_of_lists {s : Space} {entries : List (PathName × Attr)}
    (h : ListsSpace s entries) : Creatable s.path entries := by
  intro before e after heq
  have hmem : e ∈ entries := by
    rw [heq]
    exact List.mem_append_right before List.mem_cons_self
  obtain ⟨rel, hrel, hpath, hname⟩ := (h.complete e.1).mp (List.mem_map_of_mem hmem)
  cases rel with
  | nil => exact absurd rfl hrel
  | cons x rel =>
      refine ⟨x, rel ++ s.path, hpath, List.suffix_append _ _, ?_, ?_, ?_⟩
      · cases rel with
        | nil => exact Or.inl rfl
        | cons y rel =>
            right
            have hparent : s.tree.node (y :: rel ++ s.path ++ s.data_path) = some .dir := by
              apply LinkTree.dir_of_name (x := x)
              rw [hpath] at hname
              exact hname
            have hlisted : y :: rel ++ s.path ∈ entries.map Prod.fst :=
              (h.complete _).mpr ⟨y :: rel, List.cons_ne_nil y rel, rfl, hparent ▸ rfl⟩
            obtain ⟨f, hf, hfst⟩ := List.mem_map.mp hlisted
            have hdir : f.2.type = .directory := by
              obtain ⟨n, hn, hdescribes⟩ := h.described f hf
              rw [hfst, hparent, Option.some.injEq] at hn
              subst hn
              exact hdescribes
            have hbelow : f.1 <:+ e.1 := by
              rw [hfst, hpath]
              exact List.suffix_cons x _
            have hne : f ≠ e := by
              intro hfe
              have hlen := congrArg List.length (hfst.symm.trans (hfe ▸ hpath))
              simp only [List.length_append, List.length_cons] at hlen
              omega
            rw [heq] at hf
            cases List.mem_append.mp hf with
            | inl hbefore => exact ⟨f, hbefore, hfst, hdir⟩
            | inr hrest =>
                cases List.mem_cons.mp hrest with
                | inl hfe => exact absurd hfe hne
                | inr hafter =>
                    obtain ⟨mid, last, rfl⟩ := List.append_of_mem hafter
                    have hcut : entries = (before ++ e :: mid) ++ f :: last := by
                      rw [heq, List.append_assoc, List.cons_append]
                    have hlater := h.ordered _ f last hcut e
                      (List.mem_append_right before List.mem_cons_self)
                    exact absurd hbelow hlater
      · have honce := h.once
        rw [heq, List.map_append, List.map_cons] at honce
        intro hbefore
        exact (List.nodup_append.mp honce).2.2 e.1 hbefore e.1 List.mem_cons_self rfl
      · obtain ⟨n, hn, hdescribes⟩ := h.described e hmem
        cases n with
        | dir => exact Or.inl hdescribes
        | file size =>
            have hattr : e.2 = ⟨.regularFile, size⟩ := hdescribes
            rw [hattr]
            exact Or.inr ⟨rfl, s.tree.fits _ _ hn⟩
        | link target => exact hdescribes.elim

end Gvds.SpaceReplay
