/-
Module: Gvds.Proofs.DescriptorUse
Layer: Proofs
Purpose: Whether a worker's descriptor number still stands for the file that its open resolved when
  it is used. FdManager does not know which numbers are in use: a create or an unlink closes the
  number of its path, and an open that misses the cache closes those that no longer fit in. Along
  every run in which no step closes a number that a worker holds, every use acts on the right file.
Imports: Gvds.Lib.Machine, Gvds.Proofs.HandlerOwnership, Gvds.IoProxy.FdWorkers
Trusted boundary: as Gvds.IoProxy.FdWorkers
Main exports: CacheOpen, Keeps, keeps_fdmOpen, closes, Spares, Sound, sound_step, uses_own_file,
  write_goes_to_other_file
-/
import Gvds.Lib.Machine
import Gvds.Proofs.HandlerOwnership
import Gvds.IoProxy.FdWorkers

namespace Gvds

variable {β : Type*}

namespace IoProxy

/-! ### What the calls close -/

/-- Every cached number is open, no number is cached twice, and handlers are kept under their
number. -/
structure CacheOpen (s : IoProxy β) : Prop where
  isOpen : ∀ p fd, s.fdm.fds.lookup p = some fd → ∃ file, s.k.fdTable.get fd = some file
  inj : ∀ p q fd, s.fdm.fds.lookup p = some fd → s.fdm.fds.lookup q = some fd → p = q
  numbered : ∀ fd h, s.fdm.file_handlers fd = some h → h.fd = fd

/-- A call that leads from `s` to `t` closes no number that was open but those listed, and the cache
holds open numbers afterwards. -/
structure Keeps (closed : List Nat) (s t : IoProxy β) : Prop where
  cache : CacheOpen t
  files : ∀ fd file, fd ∉ closed → s.k.fdTable.get fd = some file → t.k.fdTable.get fd = some file

theorem Keeps.mono {closed closed' : List Nat} {s t : IoProxy β} (h : Keeps closed s t)
    (hsub : ∀ fd ∈ closed, fd ∈ closed') : Keeps closed' s t where
  cache := h.cache
  files fd file hfd hfile := h.files fd file (fun hmem => hfd (hsub fd hmem)) hfile

theorem Keeps.trans {closed closed' : List Nat} {s t u : IoProxy β} (h : Keeps closed s t)
    (h' : Keeps closed' t u) : Keeps (closed ++ closed') s u where
  cache := h'.cache
  files fd file hfd hfile := by
    rw [List.mem_append, not_or] at hfd
    exact h'.files fd file hfd.2 (h.files fd file hfd.1 hfile)

/-- A step that touches neither the descriptors nor FdManager closes nothing. -/
theorem CacheOpen.keeps_of_eq {s t : IoProxy β} (h : CacheOpen s)
    (htable : t.k.fdTable = s.k.fdTable) (hfdm : t.fdm = s.fdm) : Keeps [] s t where
  cache :=
    { isOpen := by
        rw [htable, hfdm]
        exact h.isOpen
      inj := by
        rw [hfdm]
        exact h.inj
      numbered := by
        rw [hfdm]
        exact h.numbered }
  files fd file _ hfile := by rwa [htable]

/-- Dropping an entry closes its number. -/
theorem CacheOpen.keeps_drop {s : IoProxy β} (h : CacheOpen s) {p : PathName} {fd : Nat}
    (hp : s.fdm.fds.lookup p = some fd) :
    Keeps [fd] s { s.setFds (s.fdm.fds.erase p) with k := s.k.sysClose fd } where
  cache :=
    { isOpen := by
        intro q fd' hq
        obtain ⟨hne, hold⟩ := Lru.lookup_of_lookup_erase hq
        obtain ⟨file, hfile⟩ := h.isOpen q fd' hold
        have hfd : fd' ≠ fd := by
          rintro rfl
          exact hne (h.inj q p fd' hold hp)
        exact ⟨file, (SlotTable.get_free_of_ne hfd).trans hfile⟩
      inj := by
        intro q r fd' hq hr
        exact h.inj q r fd' (Lru.lookup_of_lookup_erase hq).2 (Lru.lookup_of_lookup_erase hr).2
      numbered := h.numbered }
  files fd' file hfd hfile :=
    (SlotTable.get_free_of_ne fun heq => hfd (List.mem_singleton.mpr heq)).trans hfile

/-- Expiring a path closes the number that is cached for it. -/
theorem CacheOpen.keeps_fdmExpire {s : IoProxy β} (h : CacheOpen s) (p : PathName) :
    Keeps (s.fdm.fds.lookup p).toList s (s.fdmExpire p) := by
  unfold fdmExpire
  cases hp : s.fdm.fds.lookup p with
  | none => exact h.keeps_of_eq rfl rfl
  | some fd => exact h.keeps_drop hp

/-- Each round of the expiry closes the last number of the list. -/
theorem CacheOpen.keeps_expireOldest {s : IoProxy β} (h : CacheOpen s) :
    Keeps (s.fdm.fds.entries.getLast?.map fun e => e.2).toList s s.expireOldest := by
  unfold expireOldest
  cases hlast : s.fdm.fds.entries.getLast? with
  | none =>
      simp only [Lru.oldest, hlast, Option.map_none]
      exact h.keeps_of_eq rfl rfl
  | some e =>
      have hold : s.fdm.fds.oldest = some (e.1, e.2) := by simp [Lru.oldest, hlast]
      have hdrop := h.keeps_drop (Lru.lookup_of_oldest hold)
      simp only [hold, Lru.expire]
      exact hdrop

/-- The expiry closes the numbers that do not fit into the cache. -/
theorem CacheOpen.keeps_checkAndExpire {s : IoProxy β} (h : CacheOpen s) :
    Keeps ((s.fdm.fds.entries.drop s.fdm.max_fd_num).map fun e => e.2) s s.checkAndExpire := by
  have hrounds : ∀ n, Keeps ((s.fdm.fds.entries.drop (s.fdm.fds.entries.length - n)).map fun e => e.2)
      s (expireOldest^[n] s) := by
    intro n
    induction n with
    | zero => exact (h.keeps_of_eq rfl rfl).mono fun fd hfd => by cases hfd
    | succ n ih =>
        rw [Function.iterate_succ_apply']
        refine (ih.trans ih.cache.keeps_expireOldest).mono fun fd hfd => ?_
        rcases List.mem_append.mp hfd with hfd | hfd
        · obtain ⟨e, he, rfl⟩ := List.mem_map.mp hfd
          refine List.mem_map.mpr ⟨e, ?_, rfl⟩
          exact List.drop_subset_drop_left _ (by omega) he
        · -- the last of the entries that are left
          obtain ⟨e, he, rfl⟩ := Option.map_eq_some_iff.mp (Option.mem_toList.mp hfd)
          rw [expireOldest_iterate_entries, List.getLast?_take] at he
          split at he
          · cases he
          · rename_i hpos
            have hlt : s.fdm.fds.entries.length - n - 1 < s.fdm.fds.entries.length := by omega
            rw [List.getElem?_eq_getElem hlt, Option.some_or] at he
            refine List.mem_map.mpr ⟨e, ?_, rfl⟩
            rw [← Option.some.inj he]
            exact List.mem_drop_iff_getElem.mpr ⟨0, by omega, by congr 1⟩
  unfold checkAndExpire
  refine (hrounds _).mono fun fd hfd => ?_
  obtain ⟨e, he, rfl⟩ := List.mem_map.mp hfd
  refine List.mem_map.mpr ⟨e, ?_, rfl⟩
  by_cases hfits : s.fdm.fds.entries.length ≤ s.fdm.max_fd_num
  · rw [Lru.size, Nat.sub_eq_zero_of_le hfits, Nat.sub_zero, List.drop_length] at he
    cases he
  · rw [Lru.size, Nat.sub_sub_self (by omega)] at he
    exact he

/-- Opening a file with the kernel closes nothing and gives a number that was not open. -/
theorem CacheOpen.keeps_sysOpen {s : IoProxy β} (h : CacheOpen s) {p : PathName} {flags : BitVec 32}
    {k : Kernel β} {fd : Nat} (hopen : s.k.sysOpen p flags = .ok (k, fd)) :
    Keeps [] s { s with k := k } ∧ s.k.fdTable.get fd = none ∧ ∃ file, k.fdTable.get fd = some file := by
  obtain ⟨ino, _, htable, _⟩ := Kernel.sysOpen_names hopen
  obtain ⟨rfl, -⟩ := Kernel.sysOpen_cases hopen
  have hfree := SlotTable.get_firstFree s.k.fdTable
  have hkeep : ∀ fd file, s.k.fdTable.get fd = some file → k.fdTable.get fd = some file := by
    intro fd file hfile
    have hne : fd ≠ s.k.fdTable.firstFree := by
      rintro rfl
      rw [hfree] at hfile
      cases hfile
    rw [htable, SlotTable.get_alloc_of_ne hne, hfile]
  refine ⟨⟨⟨fun q fd hq => ?_, h.inj, h.numbered⟩, fun fd file _ => hkeep fd file⟩, hfree, ?_⟩
  · obtain ⟨file, hfile⟩ := h.isOpen q fd hq
    exact ⟨file, hkeep fd file hfile⟩
  · rw [htable]
    exact ⟨_, SlotTable.get_alloc_self _ _⟩

/-- The numbers that `FdManager::open` closes: where it opens a path that is not cached, those of
the entries that the new one displaces. -/
def expires (s : IoProxy β) (p : PathName) (flags : BitVec 32) : List Nat :=
  if s.fdm.fds.lookup p = none ∧ (s.k.sysOpen p (flags &&& ~~~maskFlags)).isOk then
    (s.fdm.fds.entries.drop (s.fdm.max_fd_num - 1)).map fun e => e.2
  else []

/-- Putting a new number into the cache. -/
theorem CacheOpen.touch {s : IoProxy β} (h : CacheOpen s) {p : PathName} {fd : Nat} {k : Kernel β}
    (hp : s.fdm.fds.lookup p = none) (hkeep : Keeps [] s { s with k := k })
    (hfree : s.k.fdTable.get fd = none) (hnew : ∃ file, k.fdTable.get fd = some file) :
    Keeps [] s ({ s.setFds (s.fdm.fds.touch p fd) with k := k } : IoProxy β) where
  cache :=
    { isOpen := by
        intro q fd' hq
        by_cases hqp : q = p
        · subst hqp
          simp only [setFds, Lru.lookup_touch_self hp, Option.some.injEq] at hq
          subst hq
          exact hnew
        · simp only [setFds, Lru.lookup_touch_of_ne hqp] at hq
          exact hkeep.cache.isOpen q fd' hq
      inj := by
        have hnot : ∀ q, s.fdm.fds.lookup q ≠ some fd := by
          intro q hq
          obtain ⟨file, hfile⟩ := h.isOpen q fd hq
          rw [hfree] at hfile
          cases hfile
        intro q r fd' hq hr
        simp only [setFds] at hq hr
        by_cases hqp : q = p <;> by_cases hrp : r = p
        · rw [hqp, hrp]
        · subst hqp
          rw [Lru.lookup_touch_self hp, Option.some.injEq] at hq
          subst hq
          rw [Lru.lookup_touch_of_ne hrp] at hr
          exact absurd hr (hnot r)
        · subst hrp
          rw [Lru.lookup_touch_self hp, Option.some.injEq] at hr
          subst hr
          rw [Lru.lookup_touch_of_ne hqp] at hq
          exact absurd hq (hnot q)
        · rw [Lru.lookup_touch_of_ne hqp] at hq
          rw [Lru.lookup_touch_of_ne hrp] at hr
          exact h.inj q r fd' hq hr
      numbered := h.numbered }
  files := hkeep.files

/-- A truncation through a cached number closes nothing. -/
theorem fdTable_sysFtruncate (k : Kernel β) (fd : Nat) :
    (k.sysFtruncate fd).fdTable = k.fdTable := by
  obtain hsame | ⟨ino, c, hset⟩ := Kernel.sysFtruncate_cases k fd
  · rw [hsame]
  · rw [hset, Kernel.setContent_fdTable]

/-- What `FdManager::open` closes. -/
theorem CacheOpen.keeps_fdmOpen {s t : IoProxy β} (h : CacheOpen s) {p : PathName}
    {flags : BitVec 32}
    {r : Except Errno Nat} (hopen : s.fdmOpen p flags = (t, r)) : Keeps (expires s p flags) s t := by
  cases r with
  | error e =>
      rw [fdmOpen_error hopen]
      exact (h.keeps_of_eq rfl rfl).mono fun fd hfd => by cases hfd
  | ok fd =>
      obtain ⟨_, rfl⟩ | ⟨hp, k, hk, rfl⟩ := fdmOpen_cases hopen
      · have hhit : CacheOpen { s.setFds (s.fdm.fds.hit p) with
            k := if hasFlag flags oTrunc then s.k.sysFtruncate fd else s.k } := by
          refine ⟨fun q fd' hq => ?_, fun q r fd' hq hr => ?_, h.numbered⟩
          · simp only [setFds, Lru.lookup_hit] at hq
            split
            · rw [fdTable_sysFtruncate]
              exact h.isOpen q fd' hq
            · exact h.isOpen q fd' hq
          · simp only [setFds, Lru.lookup_hit] at hq hr
            exact h.inj q r fd' hq hr
        refine ⟨hhit, fun fd' file _ hfile => ?_⟩
        split
        · rwa [fdTable_sysFtruncate]
        · exact hfile
      · obtain ⟨hkeep, hfree, hnew⟩ := h.keeps_sysOpen hk
        have htouch := h.touch hp hkeep hfree hnew
        refine (htouch.trans htouch.cache.keeps_checkAndExpire).mono fun fd' hfd => ?_
        have hpos := s.fdm.max_fd_num_pos
        have hexpires : expires s p flags =
            (s.fdm.fds.entries.drop (s.fdm.max_fd_num - 1)).map fun e => e.2 := by
          rw [expires, if_pos ⟨hp, by rw [hk]; rfl⟩]
        obtain ⟨m, hm⟩ := Nat.exists_eq_add_of_lt hpos
        rw [List.nil_append] at hfd
        simp only [setFds, Lru.touch_entries hp] at hfd
        rw [hexpires]
        rw [hm, Nat.zero_add] at hfd ⊢
        exact hfd

/-- A number that `FdManager::open` returns is open. -/
theorem CacheOpen.isOpen_fdmOpen {s t : IoProxy β} (h : CacheOpen s) {p : PathName}
    {flags : BitVec 32}
    {fd : Nat} (hopen : s.fdmOpen p flags = (t, .ok fd)) : ∃ file, t.k.fdTable.get fd = some file :=
  (h.keeps_fdmOpen hopen).cache.isOpen p fd (lookup_fdmOpen hopen)

/-- What `FdManager::create` closes, besides the number that it opens itself. -/
theorem CacheOpen.keeps_fdmCreate {s : IoProxy β} (h : CacheOpen s) (p : PathName) :
    Keeps (if (s.k.sysOpen p (oCreat ||| oSync)).isOk then (s.fdm.fds.lookup p).toList else []) s
      (s.fdmCreate p).1 := by
  unfold fdmCreate
  cases hopen : s.k.sysOpen p (oCreat ||| oSync) with
  | error e => exact (h.keeps_of_eq rfl rfl).mono fun fd hfd => by cases hfd
  | ok r =>
      obtain ⟨k, fdNew⟩ := r
      obtain ⟨hkeep, hfree, _⟩ := h.keeps_sysOpen hopen
      have hexpire := hkeep.trans (hkeep.cache.keeps_fdmExpire p)
      have hne : ∀ fd file, s.k.fdTable.get fd = some file → fd ≠ fdNew := by
        rintro fd file hfile rfl
        rw [hfree] at hfile
        cases hfile
      have hisOk : (Except.ok (k, fdNew) : Except Errno (Kernel β × Nat)).isOk = true := rfl
      simp only [hisOk, if_true]
      refine ⟨⟨fun q fd hq => ?_, hexpire.cache.inj, hexpire.cache.numbered⟩,
        fun fd file hfd hfile => ?_⟩
      · obtain ⟨file, hfile⟩ := hexpire.cache.isOpen q fd hq
        obtain ⟨file', hfile'⟩ := h.isOpen q fd (lookup_fdmExpire hq).2
        exact ⟨file, (SlotTable.get_free_of_ne (hne fd file' hfile')).trans hfile⟩
      · refine (SlotTable.get_free_of_ne (hne fd file hfile)).trans (hexpire.files fd file ?_ hfile)
        rwa [List.nil_append]

/-- What `FdManager::remove` closes. -/
theorem CacheOpen.keeps_fdmRemove {s : IoProxy β} (h : CacheOpen s) (p : PathName) :
    Keeps (s.fdm.fds.lookup p).toList s (s.fdmRemove p).1 := by
  have hexpire := h.keeps_fdmExpire p
  unfold fdmRemove
  cases hunlink : (s.fdmExpire p).k.sysUnlink p with
  | error e =>
      simp only [hunlink]
      exact hexpire
  | ok k =>
      simp only [hunlink]
      obtain ⟨-, rfl⟩ := Kernel.sysUnlink_cases hunlink
      have hname : Keeps [] (s.fdmExpire p)
          { s.fdmExpire p with k := (s.fdmExpire p).k.removeName p } :=
        hexpire.cache.keeps_of_eq rfl rfl
      exact (hexpire.trans hname).mono fun fd hfd => by rwa [List.append_nil] at hfd

/-- The calls on names close nothing. -/
theorem CacheOpen.keeps_withCall {s : IoProxy β} (h : CacheOpen s) {r : Except Errno (Kernel β)}
    (hr : ∀ k, r = .ok k → k.fdTable = s.k.fdTable) : Keeps [] s (s.withCall r).1 := by
  cases r with
  | error e => exact h.keeps_of_eq rfl rfl
  | ok k => exact h.keeps_of_eq (hr k rfl) rfl

/-- What a call of `get_file_handler` closes, and that the number of the handler is open. -/
theorem CacheOpen.keeps_getFileHandler {s t : IoProxy β} (h : CacheOpen s) {p : PathName}
    {fh : Handler β} (hget : s.getFileHandler p = (t, some fh)) :
    Keeps (expires s p oRdwr) s t ∧ ∃ file, t.k.fdTable.get fh.fd = some file := by
  obtain ⟨u, fd, hopen, ⟨hkept, rfl⟩ | ⟨_, rfl, rfl⟩⟩ := getFileHandler_some hget
  · have hkeep := h.keeps_fdmOpen hopen
    rw [hkeep.cache.numbered fd fh hkept]
    exact ⟨hkeep, h.isOpen_fdmOpen hopen⟩
  · have hkeep := h.keeps_fdmOpen hopen
    obtain ⟨file, hfile⟩ := h.isOpen_fdmOpen hopen
    refine ⟨⟨⟨hkeep.cache.isOpen, hkeep.cache.inj, fun fd' fh' hfh => ?_⟩, hkeep.files⟩, file, hfile⟩
    by_cases hfd : fd' = fd
    · subst hfd
      simp only [setHandler, Function.update_self, Option.some.injEq] at hfh
      rw [← hfh]
    · simp only [setHandler, Function.update_of_ne hfd] at hfh
      exact hkeep.cache.numbered fd' fh' hfh

/-- The numbers that a request of one step closes. -/
def closedBy (s : IoProxy β) : Request → List Nat
  | .open path mode => expires s path (mode ||| oRdwr)
  | .create path =>
      if (s.k.sysOpen path (oCreat ||| oSync)).isOk then (s.fdm.fds.lookup path).toList else []
  | .unlink path => (s.fdm.fds.lookup path).toList
  | _ => []

theorem CacheOpen.keeps_call {s : IoProxy β} (h : CacheOpen s) {r : Request}
    (hr : FdWorkers.isCall r = true) : Keeps (closedBy s r) s (s.doOp noPeers r).1 := by
  cases r with
  | read path offset size => cases hr
  | write path data offset => cases hr
  | «open» path mode =>
      simp only [doOp, doOpen, closedBy]
      cases hopen : s.fdmOpen path (mode ||| oRdwr) with
      | mk t r =>
          cases r with
          | ok fd => exact h.keeps_fdmOpen hopen
          | error e => exact h.keeps_fdmOpen hopen
  | create path => exact h.keeps_fdmCreate path
  | unlink path => exact h.keeps_fdmRemove path
  | truncate path size =>
      refine h.keeps_withCall fun k hk => ?_
      obtain ⟨_, _, rfl⟩ := Kernel.sysTruncate_cases hk
      rfl
  | rename path newpath =>
      refine h.keeps_withCall fun k hk => ?_
      obtain ⟨_, rfl⟩ | ⟨_, rfl⟩ := Kernel.sysRename_cases hk <;> rfl
  | mkdir path =>
      refine h.keeps_withCall fun k hk => ?_
      unfold fsCreateDirectory at hk
      split at hk
      · cases hk
        rfl
      · cases hk
      · obtain ⟨_, _, _, _, rfl⟩ := Kernel.sysMkdir_cases hk
        rfl
  | rmdir path =>
      refine h.keeps_withCall fun k hk => ?_
      unfold fsRemove at hk
      split at hk
      · cases hk
        rfl
      · obtain ⟨_, rfl⟩ := Kernel.sysUnlink_cases hk
        rfl
      · obtain ⟨_, rfl⟩ := Kernel.sysRmdir_cases hk
        rfl

end IoProxy

namespace FdWorkers

open IoProxy (CacheOpen Keeps closedBy expires)

/-! ### Use of the own descriptors and its condition -/

/-- Every use acted on the file that the worker's open resolved. -/
def UsesRight (s : State β) : Prop :=
  ∀ u ∈ s.uses, ∃ ino, u.resolved = some ino ∧ u.acted = some ino

/-- A proxy that has just started: nothing is cached and no handler is kept, no worker is busy. -/
structure Start (s : State β) : Prop where
  fds : s.io.fdm.fds = ∅
  file_handlers : ∀ fd, s.io.fdm.file_handlers fd = none
  idle : ∀ w, s.worker w = .idle
  uses : s.uses = []

/-- The numbers that a step closes. -/
def closes (s : State β) : Act → List Nat
  | .call r => closedBy s.io r
  | .start _ r => expires s.io r.path r.flags
  | .sync w =>
      match s.worker w with
      | .opened r _ _ => expires s.io r.path oRdwr
      | _ => []
  | .store _ _ => []
  | .synced _ => []
  | .use _ => []

/-- The step closes no number that a worker has still to use. -/
def Spares (s : State β) (a : Act) : Prop :=
  ∀ w, ∀ h ∈ (s.worker w).holds, h.fd ∉ closes s a

theorem spares_of_closes_nil {s : State β} {a : Act} (h : closes s a = []) : Spares s a := by
  intro w held _
  simp [h]

/-! ### The invariant -/

/-- The number is open on the file that the worker's open resolved. -/
def Right (io : IoProxy β) (h : Held) : Prop :=
  ∃ ino, h.resolved = some ino ∧ resolve io h.fd = some ino

/-- What holds along the runs whose steps spare the numbers in use. -/
structure Sound (s : State β) : Prop where
  cache : CacheOpen s.io
  held : ∀ w, ∀ h ∈ (s.worker w).holds, Right s.io h
  uses : UsesRight s

theorem sound_start {s : State β} (h : Start s) : Sound s where
  cache :=
    { isOpen := fun p fd hp => by
        rw [h.fds] at hp
        cases hp
      inj := fun p q fd hp _ => by
        rw [h.fds] at hp
        cases hp
      numbered := fun fd fh hfh => by
        rw [h.file_handlers] at hfh
        cases hfh }
  held w held hheld := by
    rw [h.idle] at hheld
    cases hheld
  uses u hu := by
    rw [h.uses] at hu
    cases hu

/-- A number that is not closed stays right. -/
theorem Right.keeps {io io' : IoProxy β} {closed : List Nat} {h : Held} (hright : Right io h)
    (hkeeps : Keeps closed io io') (hspared : h.fd ∉ closed) : Right io' h := by
  obtain ⟨ino, hresolved, hresolve⟩ := hright
  obtain ⟨file, hfile, hino⟩ := Option.map_eq_some_iff.mp hresolve
  refine ⟨ino, hresolved, ?_⟩
  rw [resolve, hkeeps.files h.fd file hspared hfile, Option.map_some, hino]

/-- A number that an open has just returned is right. -/
theorem right_hold {io : IoProxy β} {fd : Nat} (h : ∃ file, io.k.fdTable.get fd = some file) :
    Right io (hold io fd) := by
  obtain ⟨file, hfile⟩ := h
  refine ⟨file.ino, ?_, ?_⟩ <;> simp [hold, resolve, hfile]

theorem Sound.keeps {s : State β} (h : Sound s) {io : IoProxy β} {closed : List Nat}
    (hkeeps : Keeps closed s.io io) (hspared : ∀ w, ∀ held ∈ (s.worker w).holds, held.fd ∉ closed) :
    Sound { s with io := io } where
  cache := hkeeps.cache
  held w held hheld := (h.held w held hheld).keeps hkeeps (hspared w held hheld)
  uses := h.uses

theorem Sound.setWorker {s : State β} (h : Sound s) {w : Nat} {x : Worker}
    (hx : ∀ held ∈ x.holds, Right s.io held) : Sound (setWorker s w x) where
  cache := h.cache
  held v held hheld := by
    simp only [FdWorkers.setWorker] at hheld ⊢
    by_cases hv : v = w
    · subst hv
      rw [Function.update_self] at hheld
      exact hx held hheld
    · rw [Function.update_of_ne hv] at hheld
      exact h.held v held hheld
  uses := h.uses

/-- The use of a number that is right. -/
theorem Sound.record {s : State β} (h : Sound s) {held : Held} (hheld : Right s.io held) :
    Sound (record s held) where
  cache := h.cache
  held := h.held
  uses u hu := by
    rcases List.mem_append.mp hu with hu | hu
    · exact h.uses u hu
    · obtain rfl := List.mem_singleton.mp hu
      exact hheld

/-- Contents may change in any way. -/
theorem Sound.setKernel {s : State β} (h : Sound s) {k : Kernel β}
    (htable : k.fdTable = s.io.k.fdTable) : Sound (setKernel s k) := by
  refine h.keeps (h.cache.keeps_of_eq htable rfl) fun w held _ => ?_
  simp

theorem fdTable_useFd (k : Kernel β) (fd : Nat) (r : DataRequest) :
    (useFd k fd r).fdTable = k.fdTable := by
  cases r with
  | read path offset size => rfl
  | write path data offset =>
      simp only [useFd]
      split
      · rename_i hwrite
        obtain ⟨_, _, _, rfl⟩ := Kernel.sysPwrite_cases hwrite
        rfl
      · rfl
  | fallocate path change =>
      simp only [useFd, changeContent]
      split <;> rfl

theorem fdTable_storePiece (k : Kernel β) (fd : Nat) (piece : Nat × List UInt8) :
    (IoProxy.storePiece k fd piece).fdTable = k.fdTable := by
  unfold IoProxy.storePiece
  split
  · rename_i hwrite
    obtain ⟨_, _, _, rfl⟩ := Kernel.sysPwrite_cases hwrite
    rfl
  · rfl

theorem Sound.start {s : State β} (h : Sound s) {w : Nat} {r : DataRequest}
    (hspares : Spares s (.start w r)) : Sound (start s w r) := by
  unfold FdWorkers.start
  cases hopen : s.io.fdmOpen r.path r.flags with
  | mk io result =>
      have hkeeps := h.keeps (h.cache.keeps_fdmOpen hopen) hspares
      cases result with
      | error e => exact hkeeps
      | ok fd =>
          simp only
          split
          · refine hkeeps.setWorker fun held hheld => ?_
            obtain rfl := List.mem_singleton.mp hheld
            exact right_hold (h.cache.isOpen_fdmOpen hopen)
          · exact hkeeps

theorem Sound.sync {s t : State β} (h : Sound s) {w : Nat} {r : DataRequest} {held : Held}
    {range : Nat × Nat} {ranges : List (Nat × Nat)}
    (hw : s.worker w = .opened r held (range :: ranges)) (hspares : Spares s (.sync w))
    (hsync : sync s w r held ranges = some t) : Sound t := by
  unfold FdWorkers.sync at hsync
  split at hsync
  · cases hsync
  · rename_i io fh hget
    cases hsync
    obtain ⟨hkeeps, hopen⟩ := h.cache.keeps_getFileHandler hget
    have hspared : ∀ v, ∀ held' ∈ (s.worker v).holds, held'.fd ∉ expires s.io r.path oRdwr := by
      intro v held' hheld'
      simpa [closes, hw] using hspares v held' hheld'
    have hheld : held ∈ (s.worker w).holds := by simp [hw, Worker.holds]
    refine (h.keeps hkeeps hspared).setWorker fun held' hheld' => ?_
    rcases List.mem_pair.mp hheld' with rfl | rfl
    · exact (h.held w held' hheld).keeps hkeeps (hspared w held' hheld)
    · exact right_hold hopen

/-- Every step that spares the numbers in use keeps the invariant. -/
theorem sound_step (s : State β) (a : Act) (t : State β) (h : Sound s) (hspares : Spares s a)
    (hstep : step s a = some t) : Sound t := by
  cases a with
  | call r =>
      simp only [step] at hstep
      split at hstep
      · rename_i hr
        cases hstep
        exact h.keeps (h.cache.keeps_call hr) hspares
      · cases hstep
  | start w r =>
      simp only [step] at hstep
      split at hstep
      · cases hstep
        exact h.start hspares
      · cases hstep
  | sync w =>
      simp only [step] at hstep
      split at hstep
      · rename_i hw
        exact h.sync hw hspares hstep
      · cases hstep
  | store w piece =>
      simp only [step] at hstep
      split at hstep
      · rename_i r held fh ranges hw
        cases hstep
        have hfh : Right s.io fh := h.held w fh (by simp [hw, Worker.holds])
        exact (h.record hfh).setKernel (fdTable_storePiece _ _ _)
      · cases hstep
  | synced w =>
      simp only [step] at hstep
      split at hstep
      · rename_i r held fh ranges hw
        cases hstep
        refine h.setWorker fun held' hheld' => ?_
        obtain rfl := List.mem_singleton.mp hheld'
        exact h.held w held' (by simp [hw, Worker.holds])
      · cases hstep
  | use w =>
      simp only [step] at hstep
      split at hstep
      · rename_i r held hw
        cases hstep
        have hheld : Right s.io held := h.held w held (by simp [hw, Worker.holds])
        refine ((h.record hheld).setKernel (fdTable_useFd _ _ _)).setWorker fun held' hheld' => ?_
        cases hheld'
      · cases hstep

/-! ### Runs -/

/-- Along every run in which no step closes a number that a worker has still to use, every use acts
on the file that the worker's own open resolved. -/
theorem uses_own_file {s t : State β} (hs : Start s) (as : List Act)
    (hguard : Machine.Guarded step Spares s as) (hrun : Machine.run step s as = some t) :
    UsesRight t :=
  (Machine.run_invariant sound_step (sound_start hs) hguard hrun).uses

/-- A proxy with room for 500 descriptors. -/
def fresh : State Unit where
  io := IoProxy.blank 499
  worker := fun _ => .idle
  uses := []

theorem start_fresh : Start fresh := ⟨rfl, fun _ => rfl, fun _ => rfl, rfl⟩

/-- Two workers on two files at a time. -/
theorem uses_own_file_two_workers :
    ∃ t, Machine.run step fresh
        [.call (.create ["f"]), .call (.create ["g"]), .start 0 (.read ["f"] 0 1),
          .start 1 (.write ["g"] [7] 0), .sync 1, .sync 0, .synced 1, .use 1, .synced 0, .use 0] =
          some t ∧
      t.uses = [⟨some 1, some 1⟩, ⟨some 0, some 0⟩] ∧ UsesRight t := by
  refine ⟨_, rfl, rfl, uses_own_file start_fresh
    [.call (.create ["f"]), .call (.create ["g"]), .start 0 (.read ["f"] 0 1),
      .start 1 (.write ["g"] [7] 0), .sync 1, .sync 0, .synced 1, .use 1, .synced 0, .use 0] ?_ rfl⟩
  refine ⟨spares_of_closes_nil rfl, fun _ h₁ => ?_⟩
  cases h₁
  refine ⟨spares_of_closes_nil rfl, fun _ h₂ => ?_⟩
  cases h₂
  refine ⟨spares_of_closes_nil rfl, fun _ h₃ => ?_⟩
  cases h₃
  refine ⟨spares_of_closes_nil rfl, fun _ h₄ => ?_⟩
  cases h₄
  refine ⟨spares_of_closes_nil rfl, fun _ h₅ => ?_⟩
  cases h₅
  refine ⟨spares_of_closes_nil rfl, fun _ h₆ => ?_⟩
  cases h₆
  exact ⟨spares_of_closes_nil rfl, fun _ _ => ⟨spares_of_closes_nil rfl, fun _ _ =>
    ⟨spares_of_closes_nil rfl, fun _ _ => ⟨spares_of_closes_nil rfl, fun _ _ => trivial⟩⟩⟩⟩

/-- While a worker holds the number of a file, another one removes that file and opens a new one,
which gets the same number: the byte goes to the other file. -/
theorem write_goes_to_other_file :
    ∃ t, Start fresh ∧
      Machine.run step fresh
        [.call (.create ["f"]), .start 0 (.write ["f"] [7] 0), .sync 0, .synced 0,
          .call (.unlink ["f"]), .call (.create ["g"]), .call (.open ["g"] oRdonly), .use 0] =
          some t ∧
      t.io.k.tree.node ["g"] = some (.file 1) ∧ (t.io.k.content 1).byte 0 = 7 ∧
      t.uses = [⟨some 0, some 1⟩] ∧ ¬ UsesRight t := by
  refine ⟨_, start_fresh, rfl, by decide, by decide, rfl, fun h => ?_⟩
  obtain ⟨ino, hresolved, hacted⟩ := h ⟨some 0, some 1⟩ List.mem_cons_self
  cases hresolved
  cases hacted

end FdWorkers

end Gvds
