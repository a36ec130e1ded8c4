/-
Module: Gvds.Proofs.SpaceReplays
Layer: Proofs
Purpose: Making the entries of a space one after the other in an empty replica directory makes the
  space again, unless the descriptors run out: each file costs two, and one of them is never closed.
Imports: Gvds.Proofs.SpaceEntries, Gvds.Proofs.EntryRounds, Mathlib.Data.List.ProdSigma
Trusted boundary: as Gvds.IoProxy.SpaceScan and Gvds.IoProxy.SpaceReplay
Main exports: descriptorsBefore, Made, createEntries_of_made, Faithful, ReplicatesFaithfully,
  fileCount, replicates_faithfully_iff, many_files_not_replicated
-/
import Gvds.Proofs.SpaceEntries
import Gvds.Proofs.EntryRounds
import Mathlib.Data.List.ProdSigma

namespace Gvds.SpaceReplay

open DataDirectory (NodeType)
open ProxyProcess (Attr)
open SpaceScan

variable {β : Type*}

/-! ### All entries -/

/-- The descriptors in use before the next file, when so many files have been made: at first `used`,
of which `cached` in a cache for `max`. -/
def descriptorsBefore (used cached max files : Nat) : Nat :=
  used + files + (min (cached + files) max - cached)

/-- There are descriptors for so many files after others. -/
def Room (limit used cached max done files : Nat) : Prop :=
  files = 0 ∨ descriptorsBefore used cached max (done + files - 1) + 2 ≤ limit

section Run

variable {c : Center β} {sender : Int} {path : PathName}

/-- Some entries have been made in an empty replica directory. -/
structure Made (r : EmptyReplica c path) (before : List (PathName × Attr)) (st : Replay β) :
    Prop where
  failed : st.failed = []
  stands : ∀ e ∈ before, Stands st.proxy.k (e.1 ++ c.replicate_data_path) e.2
  base : st.proxy.k.tree.node (path ++ c.replicate_data_path) = some .dir
  absent : ∀ p, path <:+ p → p ≠ path → p ∉ before.map Prod.fst →
    st.proxy.k.tree.node (p ++ c.replicate_data_path) = none
  sound : Sound c.limit st.proxy
  uncached : ∀ p fd, path <:+ p → st.proxy.fdm.fds.lookup (p ++ c.replicate_data_path) = some fd →
    p ∈ before.map Prod.fst
  used_eq : used st.proxy + cached r.proxy = used r.proxy + files before + cached st.proxy
  cached_eq : cached st.proxy = min (cached r.proxy + files before) r.proxy.fdm.max_fd_num
  max_eq : st.proxy.fdm.max_fd_num = r.proxy.fdm.max_fd_num

theorem files_append (entries entries' : List (PathName × Attr)) :
    files (entries ++ entries') = files entries + files entries' := by
  simp [files]

theorem files_cons (e : PathName × Attr) (entries : List (PathName × Attr)) :
    files (e :: entries) = isFile e.2 + files entries := by
  simp [files]

variable {r : EmptyReplica c path} {before : List (PathName × Attr)} {st st' : Replay β}

/-- In the beginning, nothing has been made. -/
theorem made_nil (r : EmptyReplica c path) : Made r [] ⟨r.proxy, []⟩ := by
  refine ⟨rfl, ?_, r.is_dir, ?_, ⟨r.cached_open, r.cached_inj, r.below_limit⟩, ?_, ?_, ?_, rfl⟩
  · intro e he
    cases he
  · intro p hp hne _
    obtain ⟨rel, rfl⟩ := hp
    rw [List.append_assoc]
    apply r.childless.node_append_eq_none
    intro hnil
    rw [hnil] at hne
    exact hne rfl
  · intro p fd hp hlookup
    obtain ⟨rel, rfl⟩ := hp
    rw [List.append_assoc] at hlookup
    exact absurd (List.suffix_append rel _) (r.uncached _ fd hlookup)
  · rfl
  · exact (Nat.min_eq_left r.cached_le).symm

/-- A round makes one entry more. -/
theorem Made.round (h : Made r before st) {e : PathName × Attr}
    (hround : Round c st st' e.1 e.2) : Made r (before ++ [e]) st' := by
  have hnames : ∀ p, p ∉ (before ++ [e]).map Prod.fst → p ∉ before.map Prod.fst ∧ p ≠ e.1 := by
    intro p hp
    simp only [List.map_append, List.map_cons, List.map_nil, List.mem_append,
      List.mem_singleton] at hp
    exact not_or.mp hp
  have hused := hround.used_eq
  have hcached := hround.cached_eq
  have hused₀ := h.used_eq
  have hcached₀ := h.cached_eq
  have hmax := h.max_eq
  have hfiles : files (before ++ [e]) = files before + isFile e.2 := by
    rw [files_append, files_cons]
    rfl
  refine ⟨hround.failed.trans h.failed, ?_, ?_, ?_, hround.sound, ?_, ?_, ?_,
    hround.max_eq.trans hmax⟩
  · intro f hf
    cases List.mem_append.mp hf with
    | inl hbefore => exact hround.adds.keeps _ _ (h.stands f hbefore)
    | inr hlast =>
        obtain rfl := List.mem_singleton.mp hlast
        exact hround.adds.stands
  · exact hround.adds.keeps _ ⟨.directory, 0⟩ h.base
  · intro p hp hne hp'
    obtain ⟨hbefore, hpe⟩ := hnames p hp'
    apply hround.adds.absent _ _ (h.absent p hp hne hbefore)
    intro heq
    exact hpe (List.append_cancel_right heq)
  · intro p fd hp hlookup
    rw [List.map_append, List.mem_append]
    cases hround.lookup _ fd hlookup with
    | inl heq =>
        right
        rw [List.append_cancel_right heq]
        exact List.mem_singleton_self _
    | inr hold => exact Or.inl (h.uncached p fd hp hold)
  · omega
  · omega

/-- Two descriptors are free iff there is room for one file. -/
theorem Made.room_iff (h : Made r before st) :
    used st.proxy + 2 ≤ c.limit ↔
      descriptorsBefore (used r.proxy) (cached r.proxy) r.proxy.fdm.max_fd_num (files before) + 2 ≤
        c.limit := by
  have hused := h.used_eq
  have hcached := h.cached_eq
  have hle : cached r.proxy ≤ r.proxy.fdm.max_fd_num := r.cached_le
  unfold descriptorsBefore
  omega

/-- An entry whose turn it is: a directory is made, and a file if there is room for it. -/
theorem createEntry_of_made (h : Made r before st) {entries after : List (PathName × Attr)}
    (hentries : Creatable path entries) {e : PathName × Attr}
    (heq : entries = before ++ e :: after) :
    (∃ st', createEntry c sender st e = some st' ∧ Made r (before ++ [e]) st' ∧
      (isFile e.2 = 0 ∨ isFile e.2 = 1 ∧ used st.proxy + 2 ≤ c.limit)) ∨
    createEntry c sender st e = none ∧ isFile e.2 = 1 ∧ c.limit < used st.proxy + 2 := by
  obtain ⟨x, d, hname, hpath, hparent, hnew, htype⟩ := hentries before e after heq
  obtain ⟨name, attr⟩ := e
  obtain rfl : name = x :: d := hname
  have hd : st.proxy.k.tree.node (d ++ c.replicate_data_path) = some .dir := by
    cases hparent with
    | inl hbase => exact hbase ▸ h.base
    | inr hmade =>
        obtain ⟨f, hf, hfst, hdir⟩ := hmade
        have hstands := h.stands f hf
        rw [Stands, hdir, hfst] at hstands
        exact hstands
  have hbelow : path <:+ x :: d := hpath.trans (List.suffix_cons x d)
  have hx : st.proxy.k.tree.node (x :: d ++ c.replicate_data_path) = none := by
    apply h.absent (x :: d) hbelow _ hnew
    intro hbase
    have hlen := hpath.length_le
    rw [← hbase, List.length_cons] at hlen
    exact Nat.not_succ_le_self _ hlen
  cases htype with
  | inl hdirectory =>
      have hle : cached st.proxy ≤ st.proxy.fdm.max_fd_num := by
        rw [h.cached_eq, h.max_eq]
        exact Nat.min_le_right _ _
      obtain ⟨st', hst', hround⟩ :=
        @createEntry_directory _ c sender _ _ _ _ h.sound hle hd hx hdirectory
      exact Or.inl ⟨st', hst', h.round hround, Or.inl (isFile_of_directory hdirectory)⟩
  | inr hfile =>
      obtain ⟨hregular, hsize⟩ := hfile
      have hone := isFile_of_regularFile hregular
      have huncached : st.proxy.fdm.fds.lookup (x :: d ++ c.replicate_data_path) = none := by
        cases hlookup : st.proxy.fdm.fds.lookup (x :: d ++ c.replicate_data_path) with
        | none => rfl
        | some fd => exact absurd (h.uncached (x :: d) fd hbelow hlookup) hnew
      by_cases hroom : used st.proxy + 2 ≤ c.limit
      · obtain ⟨st', hst', hround⟩ :=
          @createEntry_file _ c sender _ _ _ _ h.sound hd hx huncached hregular hsize hroom
        exact Or.inl ⟨st', hst', h.round hround, Or.inr ⟨hone, hroom⟩⟩
      · have hfull := Nat.lt_of_not_le hroom
        exact Or.inr ⟨createEntry_file_of_full h.sound hd hx huncached hregular hsize hfull, hone,
          hfull⟩

/-- The loop makes all entries, if there is room for their files, and else it does not return. -/
theorem createEntries_of_made {entries : List (PathName × Attr)}
    (hentries : Creatable path entries) :
    ∀ {before after : List (PathName × Attr)} {st : Replay β}, Made r before st →
      entries = before ++ after →
      (∃ st', createEntries c sender st after = some st' ∧ Made r entries st' ∧
        Room c.limit (used r.proxy) (cached r.proxy) r.proxy.fdm.max_fd_num (files before)
          (files after)) ∨
      createEntries c sender st after = none ∧
        ¬ Room c.limit (used r.proxy) (cached r.proxy) r.proxy.fdm.max_fd_num (files before)
          (files after)
  | before, [], st, h, heq => by
      rw [List.append_nil] at heq
      exact Or.inl ⟨st, rfl, heq ▸ h, Or.inl rfl⟩
  | before, e :: after, st, h, heq => by
      have hroom := h.room_iff
      have hfiles : files (before ++ [e]) = files before + isFile e.2 := by
        rw [files_append, files_cons]
        rfl
      have hcons := files_cons e after
      cases @createEntry_of_made _ c sender _ _ _ _ h _ _ hentries _ heq with
      | inl hone =>
          obtain ⟨st₁, hst₁, hmade, hcost⟩ := hone
          have heq' : entries = (before ++ [e]) ++ after := by
            rw [heq, List.append_assoc, List.singleton_append]
          have hrun :
              createEntries c sender st (e :: after) = createEntries c sender st₁ after := by
            rw [createEntries, Machine.run, hst₁]
            rfl
          rw [hrun]
          cases createEntries_of_made hentries hmade heq' with
          | inl hall =>
              obtain ⟨st', hst', hmade', hrest⟩ := hall
              refine Or.inl ⟨st', hst', hmade', ?_⟩
              unfold Room descriptorsBefore at *
              omega
          | inr hnone =>
              refine Or.inr ⟨hnone.1, ?_⟩
              have hrest := hnone.2
              unfold Room descriptorsBefore at *
              omega
      | inr hnone =>
          obtain ⟨hst₁, hcost, hfull⟩ := hnone
          refine Or.inr ⟨?_, ?_⟩
          · rw [createEntries, Machine.run, hst₁]
            rfl
          · unfold Room descriptorsBefore at *
            omega

end Run

/-! ### The replica of a space -/

/-- Below the replica directory stand the directories and files of the space, the files with their
sizes, and nothing else; and nothing has failed on the way. -/
structure Faithful (s : Space) (c : Center β) (st : Replay β) : Prop where
  failed : st.failed = []
  dir_iff : ∀ rel, rel ≠ [] →
    (st.proxy.k.tree.node (rel ++ s.path ++ c.replicate_data_path) = some .dir ↔
      s.tree.node (rel ++ s.path ++ s.data_path) = some .dir)
  file_iff : ∀ rel size, rel ≠ [] →
    ((∃ ino, st.proxy.k.tree.node (rel ++ s.path ++ c.replicate_data_path) = some (.file ino) ∧
        (st.proxy.k.content ino).size = size) ↔
      s.tree.node (rel ++ s.path ++ s.data_path) = some (.file size))

/-- The loop that collects the entries of a space ends, its list is complete and in order, and when
it is made in an empty replica directory, what comes out is a replica. -/
structure ReplicatesFaithfully (s : PlainSpace) (c : Center β) (r : EmptyReplica c s.path)
    (sender : Int) : Prop where
  ends : ∃ rounds, (_replicate_space_request s.toSpace rounds).dirs = []
  lists : ∀ rounds, (_replicate_space_request s.toSpace rounds).dirs = [] →
    ListsSpace s.toSpace (_replicate_space_request s.toSpace rounds).entries
  replays : ∀ rounds, (_replicate_space_request s.toSpace rounds).dirs = [] →
    ∃ st, createEntries c sender ⟨r.proxy, []⟩ (_replicate_space_request s.toSpace rounds).entries =
      some st ∧ Faithful s.toSpace c st

/-- A regular file. -/
def isRegular : LinkNode → Bool
  | .file _ => true
  | _ => false

/-- The number of files in a space. -/
def fileCount (s : Space) : Nat :=
  s.tree.nodes.keys.countP fun p =>
    s.name :: s.data_path <:+ p ∧ (s.tree.node p).any isRegular = true

/-- What stands for the entry of a name is of its kind. -/
theorem kind_of_stands {k : Kernel β} {p : PathName} {source : Option LinkNode}
    (hnone : source = none → k.tree.node p = none)
    (hsome : ∀ n, source = some n → ∃ attr, Describes n attr ∧ Stands k p attr) :
    (k.tree.node p = some .dir ↔ source = some .dir) ∧
      ∀ size, (∃ ino, k.tree.node p = some (.file ino) ∧ (k.content ino).size = size) ↔
        source = some (.file size) := by
  cases source with
  | none => simp [hnone rfl]
  | some n =>
      obtain ⟨attr, hdescribes, hstands⟩ := hsome n rfl
      cases n with
      | dir =>
          have hdir : k.tree.node p = some .dir := by
            rw [Stands, hdescribes] at hstands
            exact hstands
          simp [hdir]
      | file size =>
          obtain ⟨ino, hino, hsize⟩ :
              ∃ ino, k.tree.node p = some (.file ino) ∧ (k.content ino).size = size := by
            rw [Stands, hdescribes] at hstands
            exact hstands
          simp [hino, hsize]
      | link target => exact hdescribes.elim

/-- All entries of a space make a replica. -/
theorem faithful_of_made {s : Space} {c : Center β} {r : EmptyReplica c s.path}
    {entries : List (PathName × Attr)} (hlist : ListsSpace s entries) {st : Replay β}
    (h : Made r entries st) : Faithful s c st := by
  have hentry : ∀ rel n, rel ≠ [] → s.tree.node (rel ++ s.path ++ s.data_path) = some n →
      ∃ attr, Describes n attr ∧
        Stands st.proxy.k (rel ++ s.path ++ c.replicate_data_path) attr := by
    intro rel n hrel hn
    obtain ⟨e, he, hfst⟩ :=
      List.mem_map.mp ((hlist.complete (rel ++ s.path)).mpr ⟨rel, hrel, rfl, hn ▸ rfl⟩)
    obtain ⟨n', hn', hdescribes⟩ := hlist.described e he
    rw [hfst, hn, Option.some.injEq] at hn'
    have hstands := h.stands e he
    rw [hfst] at hstands
    exact ⟨e.2, hn' ▸ hdescribes, hstands⟩
  have hnone : ∀ rel, rel ≠ [] → s.tree.node (rel ++ s.path ++ s.data_path) = none →
      st.proxy.k.tree.node (rel ++ s.path ++ c.replicate_data_path) = none := by
    intro rel hrel hn
    apply h.absent _ (List.suffix_append rel s.path)
    · intro heq
      exact hrel (List.append_left_eq_self.mp heq)
    · intro hlisted
      obtain ⟨_, _, _, hsome⟩ := (hlist.complete _).mp hlisted
      rw [hn] at hsome
      cases hsome
  have hkind : ∀ rel, rel ≠ [] → _ :=
    fun rel hrel => kind_of_stands (hnone rel hrel) fun n hn => hentry rel n hrel hn
  exact ⟨h.failed, fun rel hrel => (hkind rel hrel).1, fun rel size hrel => (hkind rel hrel).2 size⟩

theorem files_eq_countP (entries : List (PathName × Attr)) :
    files entries = entries.countP fun e => e.2.type = .regularFile := by
  induction entries with
  | nil => rfl
  | cons e entries ih => rw [files_cons, ih, List.countP_cons, isFile, Nat.add_comm]; simp

/-- The entries of a space stand for its files. -/
theorem files_eq_fileCount {s : Space} {entries : List (PathName × Attr)}
    (h : ListsSpace s entries) : files entries = fileCount s := by
  have hregular : ∀ e ∈ entries, ∀ n, s.tree.node (e.1 ++ s.data_path) = some n →
      (e.2.type = .regularFile ↔ isRegular n = true) := by
    intro e he n hn
    obtain ⟨n', hn', hdescribes⟩ := h.described e he
    rw [hn, Option.some.injEq] at hn'
    subst hn'
    cases n with
    | dir =>
        have hdir : e.2.type = .directory := hdescribes
        simp [hdir, isRegular]
    | file size =>
        have hattr : e.2 = ⟨.regularFile, size⟩ := hdescribes
        simp [hattr, isRegular]
    | link target => exact hdescribes.elim
  rw [files_eq_countP, fileCount, List.countP_eq_length_filter, List.countP_eq_length_filter,
    ← List.length_map fun e : PathName × Attr => e.1 ++ s.data_path]
  apply List.Perm.length_eq
  apply (List.perm_ext_iff_of_nodup ?_ (s.tree.nodes.keys_nodup.filter _)).mpr
  · intro p
    rw [List.mem_map, List.mem_filter, LinkTree.mem_keys_iff, decide_eq_true_eq]
    constructor
    · rintro ⟨e, he, rfl⟩
      obtain ⟨hmem, htype⟩ := List.mem_filter.mp he
      obtain ⟨rel, _, hpath, hname⟩ := (h.complete e.1).mp (List.mem_map_of_mem hmem)
      obtain ⟨n, hn⟩ := Option.isSome_iff_exists.mp hname
      refine ⟨hname, ⟨rel, ?_⟩, ?_⟩
      · rw [hpath, List.append_assoc]
        rfl
      · rw [hn]
        exact (hregular e hmem n hn).mp (of_decide_eq_true htype)
    · rintro ⟨hname, ⟨rel, rfl⟩, hfile⟩
      obtain ⟨n, hn⟩ := Option.isSome_iff_exists.mp hname
      rw [hn] at hfile
      have heq : rel ++ s.path ++ s.data_path = rel ++ s.name :: s.data_path := by
        rw [List.append_assoc]
        rfl
      have hrel : rel ≠ [] := by
        intro hnil
        rw [hnil] at hn
        have hdir : s.tree.node ([] ++ s.name :: s.data_path) = some .dir := s.is_dir
        rw [hdir, Option.some.injEq] at hn
        subst hn
        cases hfile
      obtain ⟨e, he, hfst⟩ := List.mem_map.mp
        ((h.complete (rel ++ s.path)).mpr ⟨rel, hrel, rfl, heq ▸ hname⟩)
      have hat : e.1 ++ s.data_path = rel ++ s.name :: s.data_path := by rw [hfst, heq]
      refine ⟨e, List.mem_filter.mpr ⟨he, decide_eq_true ?_⟩, hat⟩
      exact (hregular e he n (hat ▸ hn)).mpr hfile
  · apply List.Nodup.map_on _ ((h.once.of_map _).filter _)
    intro e he f hf heq
    exact List.inj_on_of_nodup_map h.once (List.mem_of_mem_filter he) (List.mem_of_mem_filter hf)
      (List.append_cancel_right heq)

section Replicas

variable {s : PlainSpace} {c : Center β} {r : EmptyReplica c s.path} {sender : Int}

/-- The list of a space is made exactly where there is room for its files. -/
theorem createEntries_of_lists {entries : List (PathName × Attr)}
    (h : ListsSpace s.toSpace entries) :
    (∃ st, createEntries c sender ⟨r.proxy, []⟩ entries = some st ∧ Faithful s.toSpace c st) ↔
      Room c.limit (used r.proxy) (cached r.proxy) r.proxy.fdm.max_fd_num 0
        (fileCount s.toSpace) := by
  rw [← files_eq_fileCount h]
  have hnil : files ([] : List (PathName × Attr)) = 0 := rfl
  have hentries := creatable_of_lists h
  cases @createEntries_of_made _ c sender _ r _ hentries [] entries _ (made_nil r) rfl with
  | inl hall =>
      obtain ⟨st, hst, hmade, hroom⟩ := hall
      exact ⟨fun _ => hroom, fun _ => ⟨st, hst, faithful_of_made h hmade⟩⟩
  | inr hnone =>
      constructor
      · rintro ⟨st, hst, _⟩
        rw [hnone.1] at hst
        cases hst
      · intro hroom
        exact absurd hroom hnone.2

/-- A space is replicated faithfully exactly where it has no files, or before its last file two
descriptors are free, when every other file has left one open. -/
theorem replicates_faithfully_iff (s : PlainSpace) (c : Center β) (r : EmptyReplica c s.path)
    (sender : Int) :
    ReplicatesFaithfully s c r sender ↔
      fileCount s.toSpace = 0 ∨
        descriptorsBefore (used r.proxy) (cached r.proxy) r.proxy.fdm.max_fd_num
          (fileCount s.toSpace - 1) + 2 ≤ c.limit := by
  have hroom : ∀ rounds, (_replicate_space_request s.toSpace rounds).dirs = [] →
      ((∃ st, createEntries c sender ⟨r.proxy, []⟩
          (_replicate_space_request s.toSpace rounds).entries = some st ∧
          Faithful s.toSpace c st) ↔ _) :=
    fun rounds hend => createEntries_of_lists (listsSpace_of_end hend)
  unfold Room at hroom
  simp only [Nat.zero_add] at hroom
  constructor
  · intro h
    obtain ⟨rounds, hend⟩ := h.ends
    exact (hroom rounds hend).mp (h.replays rounds hend)
  · intro h
    refine ⟨exists_end s, fun rounds hend => listsSpace_of_end hend, ?_⟩
    intro rounds hend
    exact (hroom rounds hend).mpr h

end Replicas

/-! ### A space with many files -/

/-- The names of a space `s` in the data directory with some empty files in it. -/
def flatEntries (filenames : List String) : List (Sigma fun _ : PathName => LinkNode) :=
  filenames.map (fun x => ⟨[x, "s", "data"], .file 0⟩) ++
    [⟨["s", "data"], .dir⟩, ⟨["data"], .dir⟩, ⟨[], .dir⟩]

theorem mem_flatEntries {filenames : List String} {p : PathName} {n : LinkNode} :
    (⟨p, n⟩ : Sigma fun _ : PathName => LinkNode) ∈ flatEntries filenames ↔
      (∃ x ∈ filenames, [x, "s", "data"] = p ∧ .file 0 = n) ∨
        p = ["s", "data"] ∧ n = .dir ∨ p = ["data"] ∧ n = .dir ∨ p = [] ∧ n = .dir := by
  simp [flatEntries]

/-- The names of that space, in a tree. -/
def flatNodes (filenames : List String) (hnodup : filenames.Nodup) :
    AList fun _ : PathName => LinkNode where
  entries := flatEntries filenames
  nodupKeys := by
    have hinj : Function.Injective fun x : String => [x, "s", "data"] :=
      fun x y heq => (List.cons.inj heq).1
    rw [List.NodupKeys, List.keys, flatEntries]
    simp [List.nodup_append, Function.comp_def, hnodup.map hinj]

section Flat

variable {filenames : List String} (hnodup : filenames.Nodup)
  (hnamed : ∀ x ∈ filenames, x ≠ "." ∧ x ≠ "..")

theorem lookup_flatNodes {p : PathName} {n : LinkNode} :
    (flatNodes filenames hnodup).lookup p = some n ↔
      (∃ x ∈ filenames, [x, "s", "data"] = p ∧ .file 0 = n) ∨
        p = ["s", "data"] ∧ n = .dir ∨ p = ["data"] ∧ n = .dir ∨ p = [] ∧ n = .dir := by
  rw [← mem_flatEntries, ← Option.mem_def]
  exact AList.mem_lookup_iff

include hnamed in
/-- These names make a tree. -/
theorem flatNodes_wellFormed :
    (∀ x p n, (flatNodes filenames hnodup).lookup (x :: p) = some n →
      (flatNodes filenames hnodup).lookup p = some .dir ∧ x ≠ "." ∧ x ≠ "..") ∧
    ∀ p n, (flatNodes filenames hnodup).lookup p = some n → n = .file 0 ∨ n = .dir := by
  constructor
  · intro x p n h
    rw [lookup_flatNodes] at h ⊢
    obtain ⟨y, hy, hp, -⟩ | ⟨hp, -⟩ | ⟨hp, -⟩ | ⟨hp, -⟩ := h
    · obtain ⟨rfl, rfl⟩ := List.cons.inj hp
      exact ⟨by simp, hnamed y hy⟩
    · obtain ⟨rfl, rfl⟩ := List.cons.inj hp
      exact ⟨by simp, by decide⟩
    · obtain ⟨rfl, rfl⟩ := List.cons.inj hp
      exact ⟨by simp, by decide⟩
    · cases hp
  · intro p n h
    obtain ⟨_, _, -, hn⟩ | ⟨-, hn⟩ | ⟨-, hn⟩ | ⟨-, hn⟩ := (lookup_flatNodes hnodup).mp h
    · exact Or.inl hn.symm
    · exact Or.inr hn
    · exact Or.inr hn
    · exact Or.inr hn

/-- A space with some empty files in it. -/
def flatSpace : PlainSpace where
  tree :=
    { nodes := flatNodes filenames hnodup
      root := (lookup_flatNodes hnodup).mpr (by simp)
      parent := fun x p n h => ((flatNodes_wellFormed hnodup hnamed).1 x p n h).1
      named := fun x p n h => ((flatNodes_wellFormed hnodup hnamed).1 x p n h).2
      fits := by
        intro p n h
        cases (flatNodes_wellFormed hnodup hnamed).2 p n h with
        | inl hfile =>
            rw [hfile]
            exact Nat.two_pow_pos 63
        | inr hdir =>
            rw [hdir]
            exact trivial }
  data_path := ["data"]
  name := "s"
  is_dir := (lookup_flatNodes hnodup).mpr (by simp)
  plain := by
    intro rel target h
    cases (flatNodes_wellFormed hnodup hnamed).2 _ _ h with
    | inl hfile => cases hfile
    | inr hdir => cases hdir

/-- That space has as many files as names. -/
theorem fileCount_flatSpace :
    fileCount (flatSpace hnodup hnamed).toSpace = filenames.length := by
  have hnode : ∀ p n, (flatSpace hnodup hnamed).tree.node p = some n ↔ _ :=
    fun p n => lookup_flatNodes hnodup
  have hkeys : (flatSpace hnodup hnamed).tree.nodes.keys =
      filenames.map (fun x => [x, "s", "data"]) ++ [["s", "data"], ["data"], []] := by
    change (flatEntries filenames).map Sigma.fst = _
    simp [flatEntries, Function.comp_def]
  let isIn : PathName → Bool := fun p =>
    ["s", "data"] <:+ p ∧ ((flatSpace hnodup hnamed).tree.node p).any isRegular = true
  have hfiles : (filenames.map fun x => [x, "s", "data"]).countP isIn = filenames.length := by
    rw [List.countP_eq_length.mpr, List.length_map]
    intro p hp
    obtain ⟨x, hx, rfl⟩ := List.mem_map.mp hp
    have hfile := (hnode [x, "s", "data"] (.file 0)).mpr (Or.inl ⟨x, hx, rfl, rfl⟩)
    simp [isIn, hfile, isRegular]
  have hdirs : [["s", "data"], ["data"], []].countP isIn = 0 := by
    have hspace := (hnode ["s", "data"] .dir).mpr (by simp)
    have hdata := (hnode ["data"] .dir).mpr (by simp)
    simp [isIn, hspace, hdata, isRegular]
  have hcount : fileCount (flatSpace hnodup hnamed).toSpace =
      (flatSpace hnodup hnamed).tree.nodes.keys.countP isIn := rfl
  rw [hcount, hkeys, List.countP_append, hfiles, hdirs, Nat.add_zero]

end Flat

/-- Letters for the names of files. -/
def letters : List Char := "abcdefghijklmnopqrstuvwxyzABCDEF".toList

/-- Names of two letters. -/
def twoLetterNames : List String := (letters ×ˢ letters).map fun p => String.ofList [p.1, p.2]

theorem nodup_twoLetterNames : twoLetterNames.Nodup := by
  have hletters : letters.Nodup := by decide
  apply (hletters.product hletters).map
  intro p q heq
  have hlist := String.ofList_injective heq
  simpa [Prod.ext_iff] using hlist

theorem length_twoLetterNames : twoLetterNames.length = 1024 := by
  rw [twoLetterNames, List.length_map, List.length_product]
  rfl

theorem named_twoLetterNames : ∀ x ∈ twoLetterNames, x ≠ "." ∧ x ≠ ".." := by
  intro x hx
  obtain ⟨p, hp, rfl⟩ := List.mem_map.mp hx
  have hdot : p.1 ≠ '.' := by
    have hnot : '.' ∉ letters := by decide
    intro heq
    exact hnot (heq ▸ (List.pair_mem_product.mp hp).1)
  constructor
  · intro heq
    have hlist := congrArg String.toList heq
    simp at hlist
  · intro heq
    have hlist := congrArg String.toList heq
    simp at hlist
    exact hdot hlist.1

/-- A space with 1024 empty files. -/
def manyFiles : PlainSpace := flatSpace nodup_twoLetterNames named_twoLetterNames

/-- A center whose process may have 1024 descriptors. -/
def smallCenter : Center Unit where
  limit := 1024
  replicate_data_path := ["replica"]
  from_range := fun _ _ => ()

/-- A proxy that has just been started, and has no descriptor in use at all. -/
def startedReplica : EmptyReplica smallCenter manyFiles.path where
  proxy := { (IoProxy.blank 499 : IoProxy Unit) with
    k := (Kernel.blank.makeDir "replica" []).makeDir "s" ["replica"] }
  is_dir := by decide
  childless := by decide
  uncached := by
    intro p fd h
    cases h
  cached_open := by
    intro p fd h
    cases h
  cached_inj := by
    intro p q fd h
    cases h
  cached_le := by decide
  below_limit := by decide

/-- The space with 1024 files is not replicated. -/
theorem many_files_not_replicated :
    ¬ ReplicatesFaithfully manyFiles smallCenter startedReplica 1 := by
  intro h
  obtain ⟨rounds, hend⟩ := h.ends
  have hroom := (createEntries_of_lists (listsSpace_of_end hend)).mp (h.replays rounds hend)
  have hcount : fileCount manyFiles.toSpace = 1024 :=
    (fileCount_flatSpace nodup_twoLetterNames named_twoLetterNames).trans length_twoLetterNames
  have hlimit : smallCenter.limit = 1024 := rfl
  have hmax : startedReplica.proxy.fdm.max_fd_num = 500 := rfl
  rw [hcount, hlimit, hmax] at hroom
  unfold Room descriptorsBefore at hroom
  omega

end Gvds.SpaceReplay
