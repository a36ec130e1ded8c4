/-
Module: Gvds.Proofs.FdCache
Layer: Proofs
Purpose: The descriptor cache refers to what its paths name. The operations of FdManager keep this
  as long as nobody changes a name behind their back: opening adds the descriptor of the named file,
  expiring closes exactly one entry's descriptor, and creating or removing a file first drops the
  entry of its path.
Imports: Gvds.IoProxy.FdMgr
Trusted boundary: as Gvds.IoProxy.Kernel
Main exports: IoProxy.CoherentIn, coherentIn_fdmOpen, coherentIn_fdmExpire, coherentIn_fdmCreate,
  coherentIn_fdmRemove, lookup_fdmOpen
-/
import Gvds.IoProxy.FdMgr

namespace Gvds.IoProxy

variable {β : Type*} {P : Nat → OpenFile → Prop}

/-- Every cached descriptor is open on the file that its path names, and `P` holds of its number and
that open file. -/
def CoherentIn (P : Nat → OpenFile → Prop) (s : IoProxy β) : Prop :=
  ∀ p fd, s.fdm.fds.lookup p = some fd →
    ∃ file, s.k.fdTable.get fd = some file ∧ s.k.tree.node p = some (.file file.ino) ∧
      P fd file

/-- What holds of the descriptors may be weakened. -/
theorem CoherentIn.mono {P' : Nat → OpenFile → Prop} {s : IoProxy β} (h : CoherentIn P s)
    (hP : ∀ fd file, P fd file → P' fd file) : CoherentIn P' s := by
  intro p fd hp
  obtain ⟨file, hfile, hnode, hholds⟩ := h p fd hp
  exact ⟨file, hfile, hnode, hP fd file hholds⟩

/-- Different paths have different descriptors. -/
theorem CoherentIn.fd_inj {s : IoProxy β} (h : CoherentIn P s) {p q : PathName} {fd : Nat}
    (hp : s.fdm.fds.lookup p = some fd) (hq : s.fdm.fds.lookup q = some fd) : p = q := by
  obtain ⟨file, hfile, hnode, _⟩ := h p fd hp
  obtain ⟨file', hfile', hnode', _⟩ := h q fd hq
  rw [hfile, Option.some.injEq] at hfile'
  subst hfile'
  exact s.k.tree.inj p q file.ino hnode hnode'

/-- Coherence passes to a state with fewer entries whose descriptors and names are untouched. -/
theorem CoherentIn.of_subset {s t : IoProxy β} (h : CoherentIn P s)
    (hsub : ∀ q fd, t.fdm.fds.lookup q = some fd → s.fdm.fds.lookup q = some fd ∧
      t.k.fdTable.get fd = s.k.fdTable.get fd ∧
      ∀ i, s.k.tree.node q = some (.file i) → t.k.tree.node q = some (.file i)) : CoherentIn P t := by
  intro q fd hq
  obtain ⟨hold, hslot, hname⟩ := hsub q fd hq
  obtain ⟨file, hfile, hnode, hP⟩ := h q fd hold
  exact ⟨file, by rw [hslot, hfile], hname _ hnode, hP⟩

/-! ### Expiring -/

/-- Dropping an entry and closing its descriptor keeps the other entries open. -/
theorem CoherentIn.drop {s : IoProxy β} (h : CoherentIn P s) {p : PathName} {fd : Nat}
    (hp : s.fdm.fds.lookup p = some fd) :
    CoherentIn P { s.setFds (s.fdm.fds.erase p) with k := s.k.sysClose fd } := by
  refine h.of_subset fun q fd' hq => ?_
  obtain ⟨hne, hold⟩ := Lru.lookup_of_lookup_erase hq
  refine ⟨hold, SlotTable.get_free_of_ne ?_, fun _ hi => hi⟩
  intro heq
  subst heq
  exact hne (h.fd_inj hold hp)

theorem coherentIn_fdmExpire {s : IoProxy β} (h : CoherentIn P s) (p : PathName) :
    CoherentIn P (s.fdmExpire p) := by
  unfold fdmExpire
  cases hp : s.fdm.fds.lookup p with
  | none => exact h
  | some fd => exact h.drop hp

/-- After an expiry the path has no entry, and the others keep theirs. -/
theorem lookup_fdmExpire {s : IoProxy β} {p q : PathName} {fd : Nat}
    (hq : (s.fdmExpire p).fdm.fds.lookup q = some fd) : q ≠ p ∧ s.fdm.fds.lookup q = some fd := by
  unfold fdmExpire at hq
  cases hp : s.fdm.fds.lookup p with
  | none =>
      simp only [hp] at hq
      refine ⟨fun heq => ?_, hq⟩
      subst heq
      rw [hp] at hq
      cases hq
  | some fd' =>
      simp only [hp] at hq
      exact Lru.lookup_of_lookup_erase hq

@[simp] theorem fdmExpire_tree (s : IoProxy β) (p : PathName) :
    (s.fdmExpire p).k.tree = s.k.tree := by
  unfold fdmExpire
  cases s.fdm.fds.lookup p <;> rfl

theorem coherentIn_expireOldest {s : IoProxy β} (h : CoherentIn P s) :
    CoherentIn P s.expireOldest := by
  unfold expireOldest
  cases ho : s.fdm.fds.oldest with
  | none => exact h
  | some e =>
      obtain ⟨p, fd⟩ := e
      have hdrop := h.drop (Lru.lookup_of_oldest ho)
      simp only [Lru.expire, ho]
      exact hdrop

@[simp] theorem expireOldest_tree (s : IoProxy β) : s.expireOldest.k.tree = s.k.tree := by
  unfold expireOldest
  cases s.fdm.fds.oldest <;> rfl

theorem coherentIn_checkAndExpire {s : IoProxy β} (h : CoherentIn P s) :
    CoherentIn P s.checkAndExpire := by
  unfold checkAndExpire
  generalize s.fdm.fds.size - s.fdm.max_fd_num = n
  induction n generalizing s with
  | zero => exact h
  | succ n ih => exact ih (coherentIn_expireOldest h)

@[simp] theorem checkAndExpire_tree (s : IoProxy β) : s.checkAndExpire.k.tree = s.k.tree := by
  unfold checkAndExpire
  generalize s.fdm.fds.size - s.fdm.max_fd_num = n
  induction n generalizing s with
  | zero => rfl
  | succ n ih => simp [ih]

@[simp] theorem checkAndExpire_content (s : IoProxy β) :
    s.checkAndExpire.k.content = s.k.content := by
  unfold checkAndExpire
  generalize s.fdm.fds.size - s.fdm.max_fd_num = n
  induction n generalizing s with
  | zero => rfl
  | succ n ih =>
      rw [Function.iterate_succ_apply, ih]
      unfold expireOldest
      cases s.fdm.fds.oldest <;> rfl

/-- Expiring closes descriptors and opens none. -/
theorem get_of_get_checkAndExpire {s : IoProxy β} {fd : Nat} {file : OpenFile}
    (h : s.checkAndExpire.k.fdTable.get fd = some file) : s.k.fdTable.get fd = some file := by
  unfold checkAndExpire at h
  generalize s.fdm.fds.size - s.fdm.max_fd_num = n at h
  induction n generalizing s with
  | zero => exact h
  | succ n ih =>
      rw [Function.iterate_succ_apply] at h
      have hone := ih h
      unfold expireOldest at hone
      cases ho : s.fdm.fds.oldest with
      | none => simpa [ho] using hone
      | some e =>
          simp only [ho] at hone
          exact SlotTable.get_of_get_free hone

theorem expireOldest_fds (s : IoProxy β) : s.expireOldest.fdm.fds = s.fdm.fds.expire := by
  unfold expireOldest
  cases ho : s.fdm.fds.oldest with
  | none => simp [Lru.expire, ho]
  | some e => rfl

theorem expireOldest_iterate_fds (s : IoProxy β) (n : Nat) :
    (expireOldest^[n] s).fdm.fds = Lru.expire^[n] s.fdm.fds := by
  induction n generalizing s with
  | zero => rfl
  | succ n ih => rw [Function.iterate_succ_apply, Function.iterate_succ_apply, ih, expireOldest_fds]

/-- Expiring caches nothing. -/
theorem lookup_of_lookup_checkAndExpire {s : IoProxy β} {p : PathName} {fd : Nat}
    (h : s.checkAndExpire.fdm.fds.lookup p = some fd) : s.fdm.fds.lookup p = some fd := by
  rw [checkAndExpire, expireOldest_iterate_fds] at h
  exact Lru.lookup_of_lookup_iterate_expire h

@[simp] theorem checkAndExpire_max_fd_num (s : IoProxy β) :
    s.checkAndExpire.fdm.max_fd_num = s.fdm.max_fd_num := by
  unfold checkAndExpire
  generalize s.fdm.fds.size - s.fdm.max_fd_num = n
  induction n generalizing s with
  | zero => rfl
  | succ n ih =>
      rw [Function.iterate_succ_apply, ih]
      unfold expireOldest
      cases s.fdm.fds.oldest <;> rfl

/-- What is left after expiring is a front part of the list. -/
theorem expireOldest_iterate_entries (s : IoProxy β) (n : Nat) :
    (expireOldest^[n] s).fdm.fds.entries =
      s.fdm.fds.entries.take (s.fdm.fds.entries.length - n) := by
  rw [expireOldest_iterate_fds, Lru.iterate_expire_entries]

/-- The entry in front survives. -/
theorem lookup_checkAndExpire_front {s : IoProxy β} {e : Sigma fun _ : PathName => Nat}
    {rest : List (Sigma fun _ : PathName => Nat)} (h : s.fdm.fds.entries = e :: rest) :
    s.checkAndExpire.fdm.fds.lookup e.1 = some e.2 := by
  have hpos := s.fdm.max_fd_num_pos
  have hroom : s.fdm.fds.size - s.fdm.max_fd_num < s.fdm.fds.size := by
    unfold Lru.size
    rw [h, List.length_cons]
    omega
  unfold checkAndExpire
  rw [expireOldest_iterate_fds]
  exact Lru.lookup_iterate_expire h hroom

/-! ### Opening -/

/-- What a successful open does: it serves the cached descriptor, or it opens the file, puts its
descriptor in front and expires what is too much. -/
theorem fdmOpen_cases {s t : IoProxy β} {p : PathName} {flags : BitVec 32} {fd : Nat}
    (h : s.fdmOpen p flags = (t, .ok fd)) :
    (s.fdm.fds.lookup p = some fd ∧
        t = { s.setFds (s.fdm.fds.hit p) with
          k := if hasFlag flags oTrunc then s.k.sysFtruncate fd else s.k }) ∨
      (s.fdm.fds.lookup p = none ∧ ∃ k, s.k.sysOpen p (flags &&& ~~~maskFlags) = .ok (k, fd) ∧
        t = ({ s.setFds (s.fdm.fds.touch p fd) with k := k } : IoProxy β).checkAndExpire) := by
  unfold fdmOpen at h
  cases hp : s.fdm.fds.lookup p with
  | some fd' =>
      simp only [hp, Prod.mk.injEq, Except.ok.injEq] at h
      obtain ⟨rfl, rfl⟩ := h
      exact Or.inl ⟨rfl, rfl⟩
  | none =>
      simp only [hp] at h
      cases hopen : s.k.sysOpen p (flags &&& ~~~maskFlags) with
      | error e => simp [hopen] at h
      | ok r =>
          obtain ⟨k, fd'⟩ := r
          simp only [hopen, Prod.mk.injEq, Except.ok.injEq] at h
          obtain ⟨rfl, rfl⟩ := h
          exact Or.inr ⟨rfl, k, rfl, rfl⟩

/-- A failed open changes nothing. -/
theorem fdmOpen_error {s t : IoProxy β} {p : PathName} {flags : BitVec 32} {e : Errno}
    (h : s.fdmOpen p flags = (t, .error e)) : t = s := by
  unfold fdmOpen at h
  cases hp : s.fdm.fds.lookup p with
  | some fd => simp [hp] at h
  | none =>
      simp only [hp] at h
      cases hopen : s.k.sysOpen p (flags &&& ~~~maskFlags) with
      | error e' =>
          simp only [hopen, Prod.mk.injEq] at h
          exact h.1.symm
      | ok r => simp [hopen] at h

/-- After a successful open the path is cached with the descriptor that was returned. -/
theorem lookup_fdmOpen {s t : IoProxy β} {p : PathName} {flags : BitVec 32} {fd : Nat}
    (h : s.fdmOpen p flags = (t, .ok fd)) : t.fdm.fds.lookup p = some fd := by
  obtain ⟨hp, rfl⟩ | ⟨hp, k, _, rfl⟩ := fdmOpen_cases h
  · simpa [setFds] using hp
  · let u : IoProxy β := { s.setFds (s.fdm.fds.touch p fd) with k := k }
    have hfront : u.fdm.fds.entries = ⟨p, fd⟩ :: s.fdm.fds.entries := Lru.touch_entries hp fd
    exact lookup_checkAndExpire_front hfront

/-- A cached descriptor is in use, so it is not the one that the kernel hands out next. -/
theorem CoherentIn.ne_firstFree {s : IoProxy β} (h : CoherentIn P s) {p : PathName} {fd : Nat}
    (hp : s.fdm.fds.lookup p = some fd) : fd ≠ s.k.fdTable.firstFree := by
  obtain ⟨file, hfile, _⟩ := h p fd hp
  intro heq
  rw [heq, SlotTable.get_firstFree] at hfile
  cases hfile

/-- Opening a file leaves the cached descriptors alone. -/
theorem CoherentIn.sysOpen {s : IoProxy β} (h : CoherentIn P s) {p : PathName} {flags : BitVec 32}
    {k : Kernel β} {fd : Nat} (hopen : s.k.sysOpen p flags = .ok (k, fd)) :
    CoherentIn P { s with k := k } := by
  obtain ⟨ino, _, htable, hnames⟩ := Kernel.sysOpen_names hopen
  refine h.of_subset fun q fd' hq => ⟨hq, ?_, fun i hi => hnames q _ hi⟩
  rw [htable, SlotTable.get_alloc_of_ne (h.ne_firstFree hq)]

/-- Putting a descriptor that the kernel has just opened into the cache. -/
theorem CoherentIn.insert {s : IoProxy β} (h : CoherentIn P s) {p : PathName} {flags : BitVec 32}
    {k : Kernel β} {fd : Nat} (hP : ∀ file, k.fdTable.get fd = some file → P fd file)
    (hp : s.fdm.fds.lookup p = none)
    (hopen : s.k.sysOpen p flags = .ok (k, fd)) :
    CoherentIn P ({ s.setFds (s.fdm.fds.touch p fd) with k := k } : IoProxy β) := by
  intro q fd' hq
  simp only [setFds] at hq
  by_cases hqp : q = p
  · subst hqp
    obtain ⟨rfl, -⟩ := Kernel.sysOpen_cases hopen
    obtain ⟨ino, hnode, htable, _⟩ := Kernel.sysOpen_names hopen
    rw [Lru.lookup_touch_self hp, Option.some.injEq] at hq
    subst hq
    have hget := SlotTable.get_alloc_self s.k.fdTable ⟨ino, hasFlag flags oAppend⟩
    rw [← htable] at hget
    exact ⟨_, hget, hnode, hP _ hget⟩
  · rw [Lru.lookup_touch_of_ne hqp] at hq
    exact h.sysOpen hopen q fd' hq

/-- Opening through the cache keeps it coherent, if `P` allows the descriptor that a miss opens. -/
theorem coherentIn_fdmOpen {s t : IoProxy β} (h : CoherentIn P s) {p : PathName} {flags : BitVec 32}
    (hP : s.fdm.fds.lookup p = none → ∀ k fd file,
      s.k.sysOpen p (flags &&& ~~~maskFlags) = .ok (k, fd) → k.fdTable.get fd = some file → P fd file)
    {r : Except Errno Nat} (hopen : s.fdmOpen p flags = (t, r)) : CoherentIn P t := by
  cases r with
  | error e =>
      rw [fdmOpen_error hopen]
      exact h
  | ok fd =>
      obtain ⟨_, rfl⟩ | ⟨hp, k, hk, rfl⟩ := fdmOpen_cases hopen
      · intro q fd' hq
        simp only [setFds, Lru.lookup_hit] at hq
        split
        · obtain hsame | ⟨ino, c, hset⟩ := Kernel.sysFtruncate_cases s.k fd
          · rw [hsame]
            exact h q fd' hq
          · rw [hset]
            exact h q fd' hq
        · exact h q fd' hq
      · exact coherentIn_checkAndExpire (h.insert (fun file => hP hp k fd file hk) hp hk)

/-- An open for reading and writing that misses the cache opens the file of the path, not for
appending. -/
theorem sysOpen_oRdwr {k k' : Kernel β} {p : PathName} {fd : Nat}
    (h : k.sysOpen p (oRdwr &&& ~~~maskFlags) = .ok (k', fd)) :
    ∃ ino, k.tree.node p = some (.file ino) ∧ k' = k.allocFd ⟨ino, false⟩ ∧
      fd = k.fdTable.firstFree := by
  have htrunc : hasFlag (oRdwr &&& ~~~maskFlags) oTrunc = false := by decide
  have happend : hasFlag (oRdwr &&& ~~~maskFlags) oAppend = false := by decide
  have hcreat : hasFlag (oRdwr &&& ~~~maskFlags) oCreat ≠ true := by decide
  obtain ⟨hfd, ⟨ino, hnode, rfl⟩ | ⟨_, _, _, _, hyes, _⟩⟩ := Kernel.sysOpen_cases h
  · exact ⟨ino, hnode, by simp [htrunc, happend], hfd⟩
  · exact absurd hyes hcreat

/-- The opens that the proxy makes for itself change no names. -/
theorem fdmOpen_oRdwr_tree {s t : IoProxy β} {p : PathName} {r : Except Errno Nat}
    (h : s.fdmOpen p oRdwr = (t, r)) : t.k.tree = s.k.tree := by
  have htrunc : hasFlag oRdwr oTrunc = false := by decide
  cases r with
  | error e => rw [fdmOpen_error h]
  | ok fd =>
      obtain ⟨_, rfl⟩ | ⟨_, k, hk, rfl⟩ := fdmOpen_cases h
      · simp [htrunc]
      · obtain ⟨ino, _, rfl, _⟩ := sysOpen_oRdwr hk
        simp

/-! ### Creating and removing -/

/-- Creating a file keeps the cache coherent: the entry of its path goes, and the new descriptor is
closed. -/
theorem coherentIn_fdmCreate {s : IoProxy β} (h : CoherentIn P s) (p : PathName) :
    CoherentIn P (s.fdmCreate p).1 := by
  unfold fdmCreate
  cases hopen : s.k.sysOpen p (oCreat ||| oSync) with
  | error e => exact h
  | ok r =>
      obtain ⟨k, fdNew⟩ := r
      have hopened := h.sysOpen hopen
      obtain ⟨rfl, -⟩ := Kernel.sysOpen_cases hopen
      refine (coherentIn_fdmExpire hopened p).of_subset fun q fd hq => ⟨hq, ?_, fun _ hi => hi⟩
      exact SlotTable.get_free_of_ne (h.ne_firstFree (lookup_fdmExpire hq).2)

/-- A removed file has lost its entry before. -/
theorem coherentIn_fdmRemove {s : IoProxy β} (h : CoherentIn P s) (p : PathName) :
    CoherentIn P (s.fdmRemove p).1 := by
  unfold fdmRemove
  have hexpire := coherentIn_fdmExpire h p
  cases hunlink : (s.fdmExpire p).k.sysUnlink p with
  | error e =>
      simp only [hunlink]
      exact hexpire
  | ok k =>
      simp only [hunlink]
      obtain ⟨-, rfl⟩ := Kernel.sysUnlink_cases hunlink
      refine hexpire.of_subset fun q fd hq => ⟨hq, rfl, fun i hi => ?_⟩
      exact (FileTree.node_remove_of_ne (lookup_fdmExpire hq).1).trans hi

end Gvds.IoProxy
