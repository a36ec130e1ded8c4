/-
Module: Gvds.Proofs.EntryRounds
Layer: Proofs
Purpose: What one round of the loop of _handle_create_replicated_space does in a proxy: a directory
  whose parent is there is made, and so is a file if two descriptors are free. One of them goes into
  the cache, which closes what is too much; the other one stays open.
Imports: Gvds.Proofs.FdCache, Gvds.IoProxy.SpaceReplay
Trusted boundary: as Gvds.IoProxy.SpaceReplay
Main exports: Sound, used, cached, Opened, getFileHandler_of_free, Stands, Adds, isFile, Round,
  createEntry_directory, createEntry_file, createEntry_file_of_full
-/
import Gvds.Proofs.FdCache
import Gvds.IoProxy.SpaceReplay

namespace Gvds.SpaceReplay

open DataDirectory (NodeType)
open ProxyProcess (Attr)

/-! ### The descriptors of the cache -/

variable {β : Type*}

/-- Each cached descriptor is open and belongs to one path, all descriptors are below the limit. -/
structure Sound (limit : Nat) (s : IoProxy β) : Prop where
  cached_open : ∀ p fd, s.fdm.fds.lookup p = some fd → (s.k.fdTable.get fd).isSome
  cached_inj : ∀ p q fd, s.fdm.fds.lookup p = some fd → s.fdm.fds.lookup q = some fd → p = q
  below_limit : s.k.fdTable.length ≤ limit

/-- How many descriptors are in use. -/
def used (s : IoProxy β) : Nat := s.k.fdTable.inUse

/-- How many descriptors are cached. -/
def cached (s : IoProxy β) : Nat := s.fdm.fds.size

section Cache

variable {limit : Nat} {s : IoProxy β}

theorem size_erase {l : Lru PathName Nat} {p : PathName} {fd : Nat} (h : l.oldest = some (p, fd)) :
    Lru.size (l.erase p) + 1 = l.size := by
  have hexpire : l.expire = l.erase p := by rw [Lru.expire, h]
  have hne : l.entries ≠ [] := by
    intro hnil
    rw [Lru.oldest, hnil] at h
    cases h
  rw [← hexpire, Lru.size, Lru.expire_entries, List.length_dropLast, Lru.size]
  exact Nat.sub_add_cancel (List.length_pos_iff.mpr hne)

/-- An expiry closes one descriptor. -/
theorem expireOldest_counts (h : Sound limit s) (hpos : 0 < cached s) :
    Sound limit s.expireOldest ∧ used s.expireOldest + 1 = used s ∧
      cached s.expireOldest + 1 = cached s := by
  unfold IoProxy.expireOldest
  cases hold : s.fdm.fds.oldest with
  | none =>
      have hnil : s.fdm.fds.entries = [] := by simpa [Lru.oldest] using hold
      simp [cached, Lru.size, hnil] at hpos
  | some e =>
      obtain ⟨p, fd⟩ := e
      have hp := Lru.lookup_of_oldest hold
      have hexpire : s.fdm.fds.expire = s.fdm.fds.erase p := by rw [Lru.expire, hold]
      simp only [hexpire]
      refine ⟨⟨?_, ?_, ?_⟩, ?_, ?_⟩
      · intro q fd' hq
        obtain ⟨hne, hq'⟩ := Lru.lookup_of_lookup_erase hq
        have hfd : fd' ≠ fd := by
          intro heq
          exact hne (h.cached_inj q p fd' hq' (heq ▸ hp))
        exact (SlotTable.get_free_of_ne hfd).symm ▸ h.cached_open q fd' hq'
      · intro q r fd' hq hr
        exact h.cached_inj q r fd' (Lru.lookup_of_lookup_erase hq).2
          (Lru.lookup_of_lookup_erase hr).2
      · exact (SlotTable.length_free _ _).trans_le h.below_limit
      · exact SlotTable.inUse_free (h.cached_open p fd hp)
      · exact size_erase hold

/-- Expiring what is too much closes that many descriptors. -/
theorem checkAndExpire_counts (h : Sound limit s) :
    Sound limit s.checkAndExpire ∧
      used s.checkAndExpire + cached s = used s + cached s.checkAndExpire ∧
      cached s.checkAndExpire = min (cached s) s.fdm.max_fd_num := by
  have hrun : ∀ n (s : IoProxy β), Sound limit s → n ≤ cached s →
      Sound limit (IoProxy.expireOldest^[n] s) ∧
        used (IoProxy.expireOldest^[n] s) + n = used s ∧
        cached (IoProxy.expireOldest^[n] s) + n = cached s := by
    intro n
    induction n with
    | zero => exact fun s h _ => ⟨h, rfl, rfl⟩
    | succ n ih =>
        intro s h hn
        obtain ⟨hone, hused, hcached⟩ := expireOldest_counts h (by omega)
        obtain ⟨hall, hused', hcached'⟩ := ih s.expireOldest hone (by omega)
        rw [Function.iterate_succ_apply]
        exact ⟨hall, by omega, by omega⟩
  obtain ⟨hsound, hused, hcached⟩ :=
    hrun (s.fdm.fds.size - s.fdm.max_fd_num) s h (Nat.sub_le _ _)
  refine ⟨hsound, ?_, ?_⟩
  · unfold IoProxy.checkAndExpire
    omega
  · unfold IoProxy.checkAndExpire
    simp only [cached] at hcached ⊢
    omega

/-- A new descriptor outside the cache. -/
theorem Sound.alloc (h : Sound limit s) (hfree : s.k.fdTable.firstFree < limit) {t : IoProxy β}
    (hfdm : t.fdm = s.fdm) {file : OpenFile} (hk : t.k.fdTable = s.k.fdTable.alloc file) :
    Sound limit t ∧ used t = used s + 1 := by
  refine ⟨⟨?_, ?_, ?_⟩, ?_⟩
  · intro p fd hp
    rw [hfdm] at hp
    have hopen := h.cached_open p fd hp
    have hne : fd ≠ s.k.fdTable.firstFree := by
      intro heq
      rw [heq, SlotTable.get_firstFree] at hopen
      cases hopen
    rw [hk, SlotTable.get_alloc_of_ne hne]
    exact hopen
  · rw [hfdm]
    exact h.cached_inj
  · rw [hk]
    exact SlotTable.length_alloc_le h.below_limit hfree file
  · rw [used, hk, SlotTable.inUse_alloc, used]

/-- Whether a descriptor is free is a matter of how many are in use. -/
theorem Sound.free_iff (h : Sound limit s) : s.k.fdTable.firstFree < limit ↔ used s < limit :=
  SlotTable.firstFree_lt_iff h.below_limit

/-- A new descriptor in the cache. -/
theorem Sound.touch (h : Sound limit s) (hfree : s.k.fdTable.firstFree < limit) {p : PathName}
    (hp : s.fdm.fds.lookup p = none) {t : IoProxy β}
    (hfds : t.fdm.fds = s.fdm.fds.touch p s.k.fdTable.firstFree) {file : OpenFile}
    (hk : t.k.fdTable = s.k.fdTable.alloc file) : Sound limit t := by
  obtain ⟨halloc, -⟩ := h.alloc (t := ⟨t.k, s.fdm⟩) hfree rfl hk
  have hnew : ∀ q, s.fdm.fds.lookup q ≠ some s.k.fdTable.firstFree := by
    intro q hq
    have hopen := h.cached_open q _ hq
    rw [SlotTable.get_firstFree] at hopen
    cases hopen
  refine ⟨?_, ?_, halloc.below_limit⟩
  · intro q fd hq
    rw [hfds] at hq
    by_cases hqp : q = p
    · rw [hqp, Lru.lookup_touch_self hp, Option.some.injEq] at hq
      rw [hk, ← hq, SlotTable.get_alloc_self]
      rfl
    · rw [Lru.lookup_touch_of_ne hqp] at hq
      exact halloc.cached_open q fd hq
  · intro q r fd hq hr
    rw [hfds] at hq hr
    by_cases hqp : q = p
    · by_cases hrp : r = p
      · rw [hqp, hrp]
      · rw [hqp, Lru.lookup_touch_self hp, Option.some.injEq] at hq
        rw [Lru.lookup_touch_of_ne hrp, ← hq] at hr
        exact absurd hr (hnew r)
    · by_cases hrp : r = p
      · rw [hrp, Lru.lookup_touch_self hp, Option.some.injEq] at hr
        rw [Lru.lookup_touch_of_ne hqp, ← hr] at hq
        exact absurd hq (hnew q)
      · rw [Lru.lookup_touch_of_ne hqp] at hq
        rw [Lru.lookup_touch_of_ne hrp] at hr
        exact h.cached_inj q r fd hq hr

/-- A file has been opened through the cache, which has given back what was too much. -/
structure Opened (limit : Nat) (s t : IoProxy β) (p : PathName) : Prop where
  sound : Sound limit t
  tree : t.k.tree = s.k.tree
  content : t.k.content = s.k.content
  used_eq : used t + cached s = used s + cached t
  cached_eq : cached t = min (cached s + 1) s.fdm.max_fd_num
  max_eq : t.fdm.max_fd_num = s.fdm.max_fd_num
  lookup : ∀ q fd, t.fdm.fds.lookup q = some fd → q = p ∨ s.fdm.fds.lookup q = some fd

/-- Handlers do not count. -/
theorem Opened.of_eq {t t' : IoProxy β} {p : PathName} (h : Opened limit s t p) (hk : t'.k = t.k)
    (hfds : t'.fdm.fds = t.fdm.fds) (hmax : t'.fdm.max_fd_num = t.fdm.max_fd_num) :
    Opened limit s t' p := by
  have hused : used t' = used t := by rw [used, hk, used]
  have hcached : cached t' = cached t := by rw [cached, hfds, cached]
  refine ⟨⟨?_, ?_, ?_⟩, ?_, ?_, ?_, ?_, ?_, ?_⟩
  · rw [hk, hfds]
    exact h.sound.cached_open
  · rw [hfds]
    exact h.sound.cached_inj
  · rw [hk]
    exact h.sound.below_limit
  · rw [hk, h.tree]
  · rw [hk, h.content]
  · rw [hused, hcached, h.used_eq]
  · rw [hcached, h.cached_eq]
  · rw [hmax, h.max_eq]
  · rw [hfds]
    exact h.lookup

/-- Opening a file that is not cached: a descriptor for it goes into the cache. -/
theorem opened_of_touch (h : Sound limit s) {p : PathName} {ino : Nat}
    (hp : s.fdm.fds.lookup p = none) (hfree : s.k.fdTable.firstFree < limit) {u : IoProxy β}
    (hu : u = { s.setFds (s.fdm.fds.touch p s.k.fdTable.firstFree) with
      k := s.k.allocFd ⟨ino, false⟩ }) :
    Opened limit s u.checkAndExpire p := by
  have hk : u.k.fdTable = s.k.fdTable.alloc ⟨ino, false⟩ := by rw [hu]; rfl
  have hsound : Sound limit u := h.touch hfree hp (by rw [hu]; rfl) hk
  have hused : used u = used s + 1 := by rw [used, hk, SlotTable.inUse_alloc, used]
  have hcached : cached u = cached s + 1 := by
    have hentries : (s.fdm.fds.touch p s.k.fdTable.firstFree).entries = _ :: s.fdm.fds.entries :=
      Lru.touch_entries hp _
    rw [hu, cached, Lru.size, IoProxy.setFds, hentries, List.length_cons]
    rfl
  have hmax : u.fdm.max_fd_num = s.fdm.max_fd_num := by rw [hu]; rfl
  obtain ⟨hsound', hused', hcached'⟩ := checkAndExpire_counts hsound
  refine ⟨hsound', ?_, ?_, ?_, ?_, ?_, ?_⟩
  · rw [IoProxy.checkAndExpire_tree, hu]
    rfl
  · rw [IoProxy.checkAndExpire_content, hu]
    rfl
  · omega
  · rw [hcached', hcached, hmax]
  · rw [IoProxy.checkAndExpire_max_fd_num, hmax]
  · intro q fd hq
    have hbefore := IoProxy.lookup_of_lookup_checkAndExpire hq
    rw [hu] at hbefore
    by_cases hqp : q = p
    · exact Or.inl hqp
    · exact Or.inr ((Lru.lookup_touch_of_ne hqp _).symm.trans hbefore)

/-- The handler that is kept for the opened descriptor. -/
theorem getFileHandler_of_fdmOpen {p : PathName} {u : IoProxy β} {fd : Nat}
    (h : s.fdmOpen p oRdwr = (u, .ok fd)) :
    ∃ t fh, s.getFileHandler p = (t, some fh) ∧ t.k = u.k ∧ t.fdm.fds = u.fdm.fds ∧
      t.fdm.max_fd_num = u.fdm.max_fd_num := by
  unfold IoProxy.getFileHandler
  rw [h]
  cases hhandler : u.fdm.file_handlers fd with
  | some fh => exact ⟨u, fh, by simp [hhandler], rfl, rfl, rfl⟩
  | none =>
      exact ⟨u.setHandler fd ⟨fd, fun _ => none⟩, ⟨fd, fun _ => none⟩, by simp [hhandler], rfl, rfl,
        rfl⟩

/-- `get_file_handler` of a file that is not cached, when a descriptor is free. -/
theorem getFileHandler_of_free {c : Center β} (h : Sound c.limit s) {p : PathName} {ino : Nat}
    (hp : s.fdm.fds.lookup p = none) (hnode : s.k.tree.node p = some (.file ino))
    (hfree : s.k.fdTable.firstFree < c.limit) :
    ∃ t fh, getFileHandler c s p = (t, some fh) ∧ Opened c.limit s t p := by
  have hflags : oRdwr &&& ~~~IoProxy.maskFlags = oRdwr := by decide
  have hcreat : hasFlag oRdwr oCreat = false := by decide
  have hdirectory : hasFlag oRdwr oDirectory = false := by decide
  have htrunc : hasFlag oRdwr oTrunc = false := by decide
  have happend : hasFlag oRdwr oAppend = false := by decide
  have hopen : s.fdmOpen p oRdwr =
      (({ s.setFds (s.fdm.fds.touch p s.k.fdTable.firstFree) with
        k := s.k.allocFd ⟨ino, false⟩ } : IoProxy β).checkAndExpire,
        .ok s.k.fdTable.firstFree) := by
    simp [IoProxy.fdmOpen, hp, Kernel.sysOpen, hnode, hflags, hcreat, hdirectory, htrunc, happend]
  obtain ⟨t, fh, heq, hk, hfds, hmax⟩ := getFileHandler_of_fdmOpen hopen
  refine ⟨t, fh, ?_, (opened_of_touch h hp hfree rfl).of_eq hk hfds hmax⟩
  rw [getFileHandler, if_pos (by simp [hfree]), heq]

/-- Without a free descriptor, a file that is not cached has no handler. -/
theorem getFileHandler_of_full {c : Center β} {p : PathName} (hp : s.fdm.fds.lookup p = none)
    (hfull : ¬ s.k.fdTable.firstFree < c.limit) : getFileHandler c s p = (s, none) := by
  simp [getFileHandler, hp, hfull]

end Cache

/-! ### What names stand for -/

/-- A name stands for what an entry says. -/
def Stands (k : Kernel β) (p : PathName) (attr : Attr) : Prop :=
  match attr.type with
  | .directory => k.tree.node p = some .dir
  | .regularFile => ∃ ino, k.tree.node p = some (.file ino) ∧ (k.content ino).size = attr.size
  | _ => False

/-- A new name stands for what an entry says; all else is as it was. -/
structure Adds (k k' : Kernel β) (p : PathName) (attr : Attr) : Prop where
  stands : Stands k' p attr
  keeps : ∀ q a, Stands k q a → Stands k' q a
  absent : ∀ q, q ≠ p → k.tree.node q = none → k'.tree.node q = none

section Names

variable {k : Kernel β} {x : String} {d : PathName}

theorem sysMkdir_of_free (hd : k.tree.node d = some .dir) (hx : k.tree.node (x :: d) = none) :
    k.sysMkdir (x :: d) = .ok (k.makeDir x d) := by
  simp [Kernel.sysMkdir, hd, hx]

theorem node_ne_of_none {q p : PathName} {n : Node} (hq : k.tree.node q = some n)
    (hp : k.tree.node p = none) : q ≠ p := by
  intro heq
  rw [heq, hp] at hq
  cases hq

/-- Making a directory. -/
theorem adds_makeDir (hd : k.tree.node d = some .dir) (hx : k.tree.node (x :: d) = none)
    {attr : Attr} (hattr : attr.type = .directory) : Adds k (k.makeDir x d) (x :: d) attr := by
  have hadd : k.tree.CanAdd x d .dir := ⟨hd, hx, Or.inl rfl⟩
  have hother : ∀ q, q ≠ x :: d → (k.makeDir x d).tree.node q = k.tree.node q :=
    fun q hq => FileTree.node_add_of_ne hq
  refine ⟨?_, ?_, fun q hq hnone => (hother q hq).trans hnone⟩
  · rw [Stands, hattr]
    exact FileTree.node_add_self hadd
  · intro q a hstands
    unfold Stands at hstands ⊢
    cases htype : a.type with
    | directory =>
        simp only [htype] at hstands ⊢
        rw [hother q (node_ne_of_none hstands hx)]
        exact hstands
    | regularFile =>
        simp only [htype] at hstands ⊢
        obtain ⟨ino, hino, hsize⟩ := hstands
        exact ⟨ino, (hother q (node_ne_of_none hino hx)).trans hino, hsize⟩
    | link => simp [htype] at hstands
    | unknown value => simp [htype] at hstands

/-- The kernel after a new file has been made and been given a size. -/
def withFile (k : Kernel β) (x : String) (d : PathName) (size : Nat) : Kernel β :=
  let k' := (k.makeFile x d).allocFd ⟨k.nextIno, false⟩
  k'.setContent k.nextIno ((k'.content k.nextIno).truncate size)

/-- Making a file and giving it its size. -/
theorem adds_withFile (hd : k.tree.node d = some .dir) (hx : k.tree.node (x :: d) = none)
    {attr : Attr} (hattr : attr.type = .regularFile) {k' : Kernel β}
    (htree : k'.tree = (withFile k x d attr.size).tree)
    (hcontent : k'.content = (withFile k x d attr.size).content) : Adds k k' (x :: d) attr := by
  have hadd := Kernel.canAdd_nextIno hd hx
  have hother : ∀ q, q ≠ x :: d → k'.tree.node q = k.tree.node q := by
    intro q hq
    rw [htree]
    exact FileTree.node_add_of_ne hq
  refine ⟨?_, ?_, fun q hq hnone => (hother q hq).trans hnone⟩
  · rw [Stands, hattr]
    refine ⟨k.nextIno, ?_, ?_⟩
    · rw [htree]
      exact FileTree.node_add_self hadd
    · rw [hcontent]
      simp only [withFile, Kernel.setContent, Function.update_self]
      rfl
  · intro q a hstands
    unfold Stands at hstands ⊢
    cases htype : a.type with
    | directory =>
        simp only [htype] at hstands ⊢
        rw [hother q (node_ne_of_none hstands hx)]
        exact hstands
    | regularFile =>
        simp only [htype] at hstands ⊢
        obtain ⟨ino, hino, hsize⟩ := hstands
        have hold : ino ≠ k.nextIno := Nat.ne_of_lt (k.tree_lt q ino hino)
        refine ⟨ino, (hother q (node_ne_of_none hino hx)).trans hino, ?_⟩
        rw [hcontent]
        simp only [withFile, Kernel.setContent, Kernel.allocFd, Kernel.makeFile,
          Function.update_of_ne hold]
        exact hsize
    | link => simp [htype] at hstands
    | unknown value => simp [htype] at hstands

end Names

/-! ### One entry -/

/-- How many files an entry stands for. -/
def isFile (attr : Attr) : Nat := if attr.type = .regularFile then 1 else 0

theorem isFile_of_directory {attr : Attr} (h : attr.type = .directory) : isFile attr = 0 := by
  simp [isFile, h]

theorem isFile_of_regularFile {attr : Attr} (h : attr.type = .regularFile) : isFile attr = 1 := by
  simp [isFile, h]

/-- How many files some entries stand for. -/
def files (entries : List (PathName × Attr)) : Nat := (entries.map fun e => isFile e.2).sum

/-- An entry has been made: a file has cost one descriptor outside the cache. -/
structure Round (c : Center β) (st st' : Replay β) (name : PathName) (attr : Attr) : Prop where
  failed : st'.failed = st.failed
  adds : Adds st.proxy.k st'.proxy.k (name ++ c.replicate_data_path) attr
  sound : Sound c.limit st'.proxy
  used_eq : used st'.proxy + cached st.proxy = used st.proxy + isFile attr + cached st'.proxy
  cached_eq : cached st'.proxy = min (cached st.proxy + isFile attr) st.proxy.fdm.max_fd_num
  max_eq : st'.proxy.fdm.max_fd_num = st.proxy.fdm.max_fd_num
  lookup : ∀ q fd, st'.proxy.fdm.fds.lookup q = some fd →
    q = name ++ c.replicate_data_path ∨ st.proxy.fdm.fds.lookup q = some fd

section Entry

variable {c : Center β} {sender : Int} {st : Replay β} {x : String} {d : PathName} {attr : Attr}

/-- A directory whose parent is there is made. -/
theorem createEntry_directory (h : Sound c.limit st.proxy)
    (hle : cached st.proxy ≤ st.proxy.fdm.max_fd_num)
    (hd : st.proxy.k.tree.node (d ++ c.replicate_data_path) = some .dir)
    (hx : st.proxy.k.tree.node (x :: d ++ c.replicate_data_path) = none)
    (htype : attr.type = .directory) :
    ∃ st', createEntry c sender st (x :: d, attr) = some st' ∧ Round c st st' (x :: d) attr := by
  have hmkdir := sysMkdir_of_free hd hx
  have hfile := isFile_of_directory htype
  refine ⟨{ st with proxy := { st.proxy with
    k := st.proxy.k.makeDir x (d ++ c.replicate_data_path) } }, ?_, rfl,
    adds_makeDir hd hx htype, ⟨h.cached_open, h.cached_inj, h.below_limit⟩, ?_, ?_, rfl,
    fun q fd hq => Or.inr hq⟩
  · simp only [createEntry, htype, mkdir, List.cons_append, hmkdir]
  · rw [hfile]
    rfl
  · rw [hfile, Nat.add_zero]
    exact (Nat.min_eq_left hle).symm

/-- With a free descriptor, `creat` and `truncate` make a file whose parent is there. -/
theorem createEntry_of_free (hd : st.proxy.k.tree.node (d ++ c.replicate_data_path) = some .dir)
    (hx : st.proxy.k.tree.node (x :: d ++ c.replicate_data_path) = none)
    (htype : attr.type = .regularFile) (hsize : attr.size < 2 ^ 63)
    (hfree : st.proxy.k.fdTable.firstFree < c.limit) :
    createEntry c sender st (x :: d, attr) =
      setBitmap c sender
        ⟨⟨withFile st.proxy.k x (d ++ c.replicate_data_path) attr.size, st.proxy.fdm⟩, st.failed⟩
        (x :: d) attr.size := by
  have hcreat : hasFlag (oCreat ||| oWronly ||| oTrunc) oCreat = true := by decide
  have hdirectory : hasFlag (oCreat ||| oWronly ||| oTrunc) oDirectory = false := by decide
  have happend : hasFlag (oCreat ||| oWronly ||| oTrunc) oAppend = false := by decide
  have hnode := FileTree.node_add_self (Kernel.canAdd_nextIno hd hx)
  rw [List.cons_append] at hx
  have hmade : creat c st (x :: d) =
      ⟨⟨(st.proxy.k.makeFile x (d ++ c.replicate_data_path)).allocFd ⟨st.proxy.k.nextIno, false⟩,
        st.proxy.fdm⟩, st.failed⟩ := by
    simp [creat, openWithin, Kernel.sysOpen, hd, hx, hcreat, hdirectory, happend, hfree]
  simp only [createEntry, htype, hmade]
  rw [truncate, Kernel.sysTruncate]
  simp only [List.cons_append, Kernel.allocFd_tree, Kernel.makeFile, hnode, hsize, if_true]
  rfl

/-- Without a free descriptor, `creat` fails. -/
theorem creat_of_full (hfull : ¬ st.proxy.k.fdTable.firstFree < c.limit) (name : PathName) :
    creat c st name = ⟨st.proxy, st.failed ++ [name]⟩ := by
  unfold creat openWithin
  cases hopen : st.proxy.k.sysOpen (name ++ c.replicate_data_path)
      (oCreat ||| oWronly ||| oTrunc) with
  | error e => rfl
  | ok r =>
      obtain ⟨k, fd⟩ := r
      have hfd : fd = st.proxy.k.fdTable.firstFree := (Kernel.sysOpen_cases hopen).1
      simp only
      rw [if_neg (hfd ▸ hfull)]

theorem truncate_of_none {name : PathName} {size : Nat}
    (h : st.proxy.k.tree.node (name ++ c.replicate_data_path) = none) :
    truncate c st name size = st := by
  simp only [truncate, Kernel.sysTruncate, h]

/-- With two free descriptors, a file whose parent is there is made. -/
theorem createEntry_file (h : Sound c.limit st.proxy)
    (hd : st.proxy.k.tree.node (d ++ c.replicate_data_path) = some .dir)
    (hx : st.proxy.k.tree.node (x :: d ++ c.replicate_data_path) = none)
    (huncached : st.proxy.fdm.fds.lookup (x :: d ++ c.replicate_data_path) = none)
    (htype : attr.type = .regularFile) (hsize : attr.size < 2 ^ 63)
    (hroom : used st.proxy + 2 ≤ c.limit) :
    ∃ st', createEntry c sender st (x :: d, attr) = some st' ∧ Round c st st' (x :: d) attr := by
  have hfree := h.free_iff.mpr (by omega)
  let s : IoProxy β :=
    ⟨withFile st.proxy.k x (d ++ c.replicate_data_path) attr.size, st.proxy.fdm⟩
  have htable : s.k.fdTable = st.proxy.k.fdTable.alloc ⟨st.proxy.k.nextIno, false⟩ := rfl
  have hnode : s.k.tree.node (x :: d ++ c.replicate_data_path) = some (.file st.proxy.k.nextIno) :=
    FileTree.node_add_self (Kernel.canAdd_nextIno hd hx)
  obtain ⟨hsound, hused⟩ := h.alloc (t := s) hfree rfl htable
  obtain ⟨t, fh, hhandler, hopened⟩ :=
    getFileHandler_of_free hsound huncached hnode (hsound.free_iff.mpr (by omega))
  have hfile := isFile_of_regularFile htype
  refine ⟨⟨t.setHandler fh.fd (fh.setBitmap sender (c.from_range 0 attr.size)), st.failed⟩,
    ?_, rfl, ?_, ⟨hopened.sound.cached_open, hopened.sound.cached_inj, hopened.sound.below_limit⟩,
    ?_, ?_, hopened.max_eq, hopened.lookup⟩
  · rw [createEntry_of_free hd hx htype hsize hfree, setBitmap, hhandler]
  · exact adds_withFile hd hx htype hopened.tree hopened.content
  · have hcounts := hopened.used_eq
    rw [hused] at hcounts
    rw [hfile]
    exact hcounts
  · rw [hfile]
    exact hopened.cached_eq

/-- Without two free descriptors, the file has no handler in the end. -/
theorem createEntry_file_of_full (h : Sound c.limit st.proxy)
    (hd : st.proxy.k.tree.node (d ++ c.replicate_data_path) = some .dir)
    (hx : st.proxy.k.tree.node (x :: d ++ c.replicate_data_path) = none)
    (huncached : st.proxy.fdm.fds.lookup (x :: d ++ c.replicate_data_path) = none)
    (htype : attr.type = .regularFile) (hsize : attr.size < 2 ^ 63)
    (hfull : c.limit < used st.proxy + 2) :
    createEntry c sender st (x :: d, attr) = none := by
  by_cases hfree : st.proxy.k.fdTable.firstFree < c.limit
  · -- the last free descriptor goes to `creat`
    let s : IoProxy β :=
      ⟨withFile st.proxy.k x (d ++ c.replicate_data_path) attr.size, st.proxy.fdm⟩
    have htable : s.k.fdTable = st.proxy.k.fdTable.alloc ⟨st.proxy.k.nextIno, false⟩ := rfl
    obtain ⟨hsound, hused⟩ := h.alloc (t := s) hfree rfl htable
    have hfull' : ¬ s.k.fdTable.firstFree < c.limit := by
      rw [hsound.free_iff]
      omega
    have hhandler : getFileHandler c s (x :: d ++ c.replicate_data_path) = (s, none) :=
      getFileHandler_of_full huncached hfull'
    rw [createEntry_of_free hd hx htype hsize hfree, setBitmap, hhandler]
  · have htruncate : truncate c ⟨st.proxy, st.failed ++ [x :: d]⟩ (x :: d) attr.size =
        ⟨st.proxy, st.failed ++ [x :: d]⟩ := truncate_of_none hx
    simp only [createEntry, htype, creat_of_full hfree]
    rw [htruncate, setBitmap, getFileHandler_of_full huncached hfree]

end Entry

end Gvds.SpaceReplay
