/-
Module: Gvds.Proofs.DescriptorsHeld
Layer: Proofs
Purpose: The descriptors that FdManager holds, over all sequences of its calls and all outcomes of
  their system calls. It has opened and not closed exactly those in its LRU, which are distinct and
  not too many; but open returns what it reads from a list node that has just been erased.
Imports: Gvds.Lib.Machine, Gvds.IoProxy.Descriptors
Trusted boundary: as Gvds.IoProxy.Descriptors
Main exports: descriptors, Accounted, Held, ReadsBack, descriptors_held_iff, open_returns_garbage
-/
import Gvds.Lib.Machine
import Gvds.IoProxy.Descriptors

namespace Gvds.Descriptors

/-- The descriptors in the LRU. -/
def descriptors (s : State) : List Int := s.fdm.fds.entries.map LRUObject.data

/-- What the manager has opened and not closed is what the LRU has, without duplicates, and it never
closed what was not open. -/
structure Accounted (s : State) : Prop where
  wellFormed : s.fdm.fds.WellFormed
  unlimited : s.fdm.fds.max_n = 0
  perm : s.opened.Perm (descriptors s)
  nodup : s.opened.Nodup
  once : s.closedTwice = false

/-- No descriptor is leaked or closed twice: those that are open are those in the LRU, pairwise
distinct and at most as many as allowed, and the one that the last call returned is open. -/
structure Held (s : State) : Prop where
  same : ∀ fd, fd ∈ s.opened ↔ fd ∈ descriptors s
  distinct : (descriptors s).Nodup
  limited : (descriptors s).length ≤ s.fdm.max_fd_num
  once : s.closedTwice = false
  returned_open : ∀ fd, s.returned = some fd → fd ∈ s.opened

/-- Where the path is in the LRU, what `open` reads back from the erased node is no descriptor, or
one that is open. -/
def ReadsBack (s : State) : Call → Prop
  | .open path _ _ stale => (s.fdm.fds.shown path).isSome → 0 ≤ stale → stale ∈ s.opened
  | .get_file_handler path _ _ stale => (s.fdm.fds.shown path).isSome → 0 ≤ stale → stale ∈ s.opened
  | _ => True

/-! ### Opening and closing -/

section Account

variable {s : State}

theorem accounted_start (num : Nat) : Accounted (start num) where
  wellFormed := LRU.wellFormed_new 0
  unlimited := rfl
  perm := List.Perm.refl _
  nodup := List.nodup_nil
  once := rfl

/-- The LRU changes, and with it the descriptors that are open. -/
theorem Accounted.setFds (h : Accounted s) {fds : LRU String Int} (hwf : fds.WellFormed)
    (hmax : fds.max_n = s.fdm.fds.max_n) (hperm : s.opened.Perm (fds.entries.map LRUObject.data)) :
    Accounted (s.setFds fds) :=
  ⟨hwf, hmax.trans h.unlimited, hperm, h.nodup, h.once⟩

/-- A descriptor leaves the LRU and is closed. -/
theorem Accounted.close (h : Accounted s) {fds : LRU String Int} {fd : Int} (hwf : fds.WellFormed)
    (hmax : fds.max_n = s.fdm.fds.max_n)
    (hperm : (descriptors s).Perm (fd :: fds.entries.map LRUObject.data)) :
    Accounted ((s.setFds fds).sysClose fd) := by
  have hopened : s.opened.Perm (fd :: fds.entries.map LRUObject.data) := h.perm.trans hperm
  have hmem : fd ∈ (s.setFds fds).opened := hopened.mem_iff.mpr List.mem_cons_self
  unfold State.sysClose
  rw [if_pos hmem]
  refine ⟨hwf, hmax.trans h.unlimited, ?_, h.nodup.erase fd, h.once⟩
  have herase := hopened.erase fd
  rwa [List.erase_cons_head] at herase

/-- Dropping a path closes its descriptor. -/
theorem Accounted.dropPath (h : Accounted s) (path : String) :
    Accounted (s.dropPath path).1 := by
  unfold State.dropPath
  cases hshown : s.fdm.fds.shown path with
  | none => exact h
  | some o =>
      obtain ⟨hentries, hwf⟩ := LRU.remove_spec h.wellFormed path
      refine h.close hwf (LRU.max_n_remove _ path) ?_
      rw [hentries]
      exact (LRU.perm_of_shown h.wellFormed hshown).map LRUObject.data

@[simp] theorem fdm_sysClose (s : State) (fd : Int) : (s.sysClose fd).fdm = s.fdm := by
  unfold State.sysClose
  split <;> rfl

/-- As many descriptors as are too many are closed, the oldest first. -/
theorem Accounted.expireRounds {n : Nat} (h : Accounted s)
    (hn : s.fdm.fds.size ≤ n + s.fdm.max_fd_num) :
    Accounted (s.expireRounds n) ∧
      (s.expireRounds n).fdm.fds.entries = s.fdm.fds.entries.take s.fdm.max_fd_num ∧
      (s.expireRounds n).fdm.max_fd_num = s.fdm.max_fd_num := by
  have hfew : s.fdm.fds.size ≤ s.fdm.max_fd_num →
      s.fdm.fds.entries = s.fdm.fds.entries.take s.fdm.max_fd_num := fun hle =>
    (List.take_of_length_le ((LRU.length_entries _).symm ▸ hle)).symm
  induction n generalizing s with
  | zero => exact ⟨h, hfew (by omega), rfl⟩
  | succ n ih =>
      rw [State.expireRounds]
      split
      · next hmany =>
          rcases List.eq_nil_or_concat' s.fdm.fds.entries with hnil | ⟨front, o, hlast⟩
          · have hzero := LRU.length_entries s.fdm.fds
            rw [hnil, List.length_nil] at hzero
            omega
          · obtain ⟨hsome, hfront, hwf⟩ := LRU.expire_of_concat h.wellFormed hlast
            have hexpire : s.fdm.fds.expire = (some o, s.fdm.fds.expire.2) := by rw [← hsome]
            have hlength := LRU.length_entries s.fdm.fds
            have hlength' := LRU.length_entries s.fdm.fds.expire.2
            rw [hlast, List.length_append, List.length_singleton] at hlength
            rw [hfront] at hlength'
            have hclose : Accounted ((s.setFds s.fdm.fds.expire.2).sysClose o.data) := by
              refine h.close hwf (LRU.max_n_expire _) ?_
              rw [hfront, descriptors, hlast, List.map_append, List.map_singleton]
              exact List.perm_append_singleton _ _
            rw [hexpire]
            obtain ⟨hacc, hentries, hmax⟩ := ih hclose
              (by simp only [fdm_sysClose, State.setFds]; omega)
              (fun hle => (List.take_of_length_le ((LRU.length_entries _).symm ▸ hle)).symm)
            refine ⟨hacc, hentries.trans ?_, hmax.trans ?_⟩
            · simp only [fdm_sysClose, State.setFds]
              rw [hfront, hlast, List.take_append_of_le_length (by omega)]
            · simp only [fdm_sysClose, State.setFds]
      · exact ⟨h, hfew (by omega), rfl⟩

/-- `checkAndExpire` keeps as many of the newest entries as are allowed. -/
theorem Accounted.checkAndExpire (h : Accounted s) :
    Accounted s.checkAndExpire ∧
      s.checkAndExpire.fdm.fds.entries = s.fdm.fds.entries.take s.fdm.max_fd_num ∧
      s.checkAndExpire.fdm.max_fd_num = s.fdm.max_fd_num :=
  h.expireRounds (Nat.le_add_right _ _)

/-- `open` of a path in the LRU returns what it reads from the erased node. -/
theorem fdmOpen_of_shown (h : Accounted s) {path : String} {o : LRUObject String Int}
    (hshown : s.fdm.fds.shown path = some o) (fd err stale : Int) :
    s.fdmOpen path fd err stale = (s.setFds (s.fdm.fds.hit path).2, stale) := by
  obtain ⟨it, hit, -⟩ := Option.bind_eq_some_iff.mp hshown
  unfold State.fdmOpen
  rw [hit]
  dsimp only
  rw [LRU.deref_hit h.wellFormed hit]
  rfl

/-- A hit changes the order only. -/
theorem Accounted.hit (h : Accounted s) {path : String} {o : LRUObject String Int}
    (hshown : s.fdm.fds.shown path = some o) :
    Accounted (s.setFds (s.fdm.fds.hit path).2) ∧
      (s.fdm.fds.hit path).2.size = s.fdm.fds.size := by
  have hkey := (h.wellFormed.shown_eq.mp hshown).2
  rw [LRU.hit_of_some h.wellFormed hshown]
  have hshown' : s.fdm.fds.shown o.key = some o := by rw [hkey, hshown]
  obtain ⟨hentries, hwf⟩ := LRU.touchObject_of_some h.wellFormed hshown'
  have hperm := LRU.perm_of_shown h.wellFormed hshown'
  rw [← hentries] at hperm
  refine ⟨h.setFds hwf (LRU.max_n_touchObject _ _) (h.perm.trans (hperm.map _)), ?_⟩
  rw [← LRU.length_entries, ← LRU.length_entries, hperm.length_eq]

/-- `open` of a path that is not in the LRU keeps the descriptor it gets. -/
theorem Accounted.fdmOpen_of_none (h : Accounted s) {path : String}
    (hnone : s.fdm.fds.shown path = none) {fd err : Int} (stale : Int) (hfd : fd ∉ s.opened)
    (herr : 0 < err) (hlimited : s.fdm.fds.size ≤ s.fdm.max_fd_num) :
    Accounted (s.fdmOpen path fd err stale).1 ∧
      (s.fdmOpen path fd err stale).1.fdm.fds.size ≤
        (s.fdmOpen path fd err stale).1.fdm.max_fd_num ∧
      (0 ≤ (s.fdmOpen path fd err stale).2 →
        (s.fdmOpen path fd err stale).2 ∈ (s.fdmOpen path fd err stale).1.opened) := by
  have hfind : s.fdm.fds.find path = none := h.wellFormed.shown_eq_none.mp hnone
  unfold State.fdmOpen
  rw [hfind]
  dsimp only
  split
  · exact ⟨h, hlimited, fun hle => absurd hle (by simp only; omega)⟩
  · split
    · obtain ⟨hentries, hwf⟩ :=
        @LRU.touchObject_of_none _ _ s.fdm.fds ⟨path, fd⟩ _ h.wellFormed hnone
      rw [LRU.kept_of_unlimited h.unlimited] at hentries
      have hopen : Accounted ((s.sysOpen fd).setFds (s.fdm.fds.touch path fd)) := by
        refine ⟨hwf, (LRU.max_n_touchObject _ _).trans h.unlimited, ?_,
          List.nodup_cons.mpr ⟨hfd, h.nodup⟩, h.once⟩
        change (fd :: s.opened).Perm ((s.fdm.fds.touchObject ⟨path, fd⟩).entries.map LRUObject.data)
        rw [hentries]
        exact h.perm.cons fd
      obtain ⟨hacc, htake, hmax⟩ := hopen.checkAndExpire
      dsimp only
      refine ⟨hacc, ?_, fun _ => ?_⟩
      · rw [hmax, ← LRU.length_entries, htake]
        exact List.length_take_le _ _
      · -- the new entry is the first one, and at least one is kept
        obtain ⟨k, hk⟩ := Nat.exists_eq_add_one_of_ne_zero (Nat.ne_of_gt s.fdm.max_fd_num_pos)
        have hfront : (s.fdm.fds.touch path fd).entries = ⟨path, fd⟩ :: s.fdm.fds.entries := hentries
        refine hacc.perm.mem_iff.mpr ?_
        rw [descriptors, htake]
        change fd ∈ (((s.fdm.fds.touch path fd).entries).take s.fdm.max_fd_num).map LRUObject.data
        rw [hfront, hk, List.take_succ_cons]
        exact List.mem_cons_self
    · exact ⟨h, hlimited, fun hle => absurd hle (by simp [EACCES])⟩

/-- Dropping a path leaves no more entries. -/
theorem Accounted.dropPath_limited (h : Accounted s) (path : String)
    (hlimited : s.fdm.fds.size ≤ s.fdm.max_fd_num) :
    (s.dropPath path).1.fdm.fds.size ≤ (s.dropPath path).1.fdm.max_fd_num := by
  unfold State.dropPath
  cases hshown : s.fdm.fds.shown path with
  | none => exact hlimited
  | some o =>
      obtain ⟨hentries, -⟩ := LRU.remove_spec h.wellFormed path
      rw [fdm_sysClose]
      refine Nat.le_trans ?_ hlimited
      change (s.fdm.fds.remove path).2.size ≤ _
      rw [← LRU.length_entries, hentries, ← LRU.length_entries]
      exact List.length_filter_le _ _

theorem dropPath_of_none {s : State} {path : String} (h : s.fdm.fds.shown path = none) :
    s.dropPath path = (s, -1) := by
  unfold State.dropPath
  rw [h]

theorem dropPath_of_some {s : State} {path : String} {o : LRUObject String Int}
    (h : s.fdm.fds.shown path = some o) :
    s.dropPath path = ((s.setFds (s.fdm.fds.remove path).2).sysClose o.data, o.data) := by
  unfold State.dropPath
  rw [h]

/-- `create` gives its own descriptor back, and drops the path. -/
theorem Accounted.create_eq (h : Accounted s) {path : String} {fd_new : Int}
    (hnonneg : fd_new ≥ 0) (hfd : fd_new ∉ s.opened) :
    (s.create path fd_new).1 = (s.dropPath path).1 := by
  unfold State.create
  rw [if_pos hnonneg]
  cases hshown : s.fdm.fds.shown path with
  | none =>
      have hopen : (s.sysOpen fd_new).fdm.fds.shown path = none := hshown
      rw [dropPath_of_none hshown, dropPath_of_none hopen]
      simp [State.sysClose, State.sysOpen]
  | some o =>
      have hopen : (s.sysOpen fd_new).fdm.fds.shown path = some o := hshown
      rw [dropPath_of_some hshown, dropPath_of_some hopen]
      have hmem : o.data ∈ s.opened :=
        h.perm.mem_iff.mpr (List.mem_map_of_mem (h.wellFormed.shown_eq.mp hshown).1)
      have hne : fd_new ≠ o.data := fun heq => hfd (heq ▸ hmem)
      simp [State.sysClose, State.sysOpen, State.setFds, hmem, hne, List.erase_cons_tail]

/-- The handlers have nothing to do with it. -/
theorem get_file_handler_eq (s : State) (path : String) (fd err stale : Int) :
    ∃ file_handlers, (s.get_file_handler path fd err stale).1 =
      { (s.fdmOpen path fd err stale).1 with
        fdm := { (s.fdmOpen path fd err stale).1.fdm with file_handlers := file_handlers } } := by
  unfold State.get_file_handler
  dsimp only
  split
  · exact ⟨_, rfl⟩
  · split
    · exact ⟨_, rfl⟩
    · exact ⟨_, rfl⟩

/-- Handlers and what was returned do not matter for the account. -/
theorem Accounted.congr {s' : State} (h : Accounted s) (hfds : s'.fdm.fds = s.fdm.fds)
    (hopened : s'.opened = s.opened) (honce : s'.closedTwice = s.closedTwice) : Accounted s' where
  wellFormed := hfds ▸ h.wellFormed
  unlimited := hfds ▸ h.unlimited
  perm := by
    unfold descriptors
    rw [hfds, hopened]
    exact h.perm
  nodup := hopened ▸ h.nodup
  once := honce.trans h.once

/-- With not too many descriptors, only what was returned can go wrong. -/
theorem Accounted.held_iff (h : Accounted s) (hlimited : s.fdm.fds.size ≤ s.fdm.max_fd_num) :
    Held s ↔ ∀ fd, s.returned = some fd → fd ∈ s.opened := by
  constructor
  · exact fun hheld => hheld.returned_open
  · intro hreturned
    refine ⟨fun fd => h.perm.mem_iff, h.perm.nodup_iff.mp h.nodup, ?_, h.once, hreturned⟩
    rw [descriptors, List.length_map, LRU.length_entries]
    exact hlimited

end Account

/-! ### Runs -/

/-- What every call keeps. -/
def Sound (s : State) : Prop := Accounted s ∧ s.fdm.fds.size ≤ s.fdm.max_fd_num

theorem Sound.dropPath {s : State} (h : Sound s) (path : String) : Sound (s.dropPath path).1 :=
  ⟨h.1.dropPath path, h.1.dropPath_limited path h.2⟩

/-- What `open` leaves and returns. -/
theorem Sound.fdmOpen {s : State} (h : Sound s) {path : String} {fd err stale : Int}
    (hfd : fd ∉ s.opened) (herr : 0 < err) :
    Sound (s.fdmOpen path fd err stale).1 ∧
      ((0 ≤ (s.fdmOpen path fd err stale).2 →
        (s.fdmOpen path fd err stale).2 ∈ (s.fdmOpen path fd err stale).1.opened) ↔
          ((s.fdm.fds.shown path).isSome → 0 ≤ stale → stale ∈ s.opened)) := by
  cases hshown : s.fdm.fds.shown path with
  | none =>
      obtain ⟨hacc, hlimited, hreturned⟩ :=
        h.1.fdmOpen_of_none hshown stale hfd herr h.2
      exact ⟨⟨hacc, hlimited⟩, iff_of_true hreturned nofun⟩
  | some o =>
      obtain ⟨hacc, hsize⟩ := h.1.hit hshown
      rw [fdmOpen_of_shown h.1 hshown]
      exact ⟨⟨hacc, Nat.le_trans (Nat.le_of_eq hsize) h.2⟩, fun hall _ => hall, fun hall => hall rfl⟩

/-- The descriptor that is returned, if one is. -/
theorem held_returning_iff {s : State} (h : Sound s) (ret : Int) :
    Held (s.returning ret) ↔ (0 ≤ ret → ret ∈ s.opened) := by
  have hacc : Accounted (s.returning ret) := h.1.congr rfl rfl rfl
  rw [hacc.held_iff h.2]
  unfold State.returning
  by_cases hret : ret ≥ 0
  · simp [hret]
  · simp [hret]

theorem held_settled {s : State} (h : Sound s) : Held s.settled := by
  have hacc : Accounted s.settled := h.1.congr rfl rfl rfl
  exact (hacc.held_iff h.2).mpr nofun

/-- One call keeps the account, and what it returns is open if and only if `open` reads back from
the erased node what is open. -/
theorem Sound.step {s s' : State} (h : Sound s) {a : Call} (hstep : Descriptors.step s a = some s') :
    Sound s' ∧ (Held s' ↔ ReadsBack s a) := by
  unfold Descriptors.step at hstep
  split at hstep
  · next hpossible =>
      have hsettled : ∀ t, Sound t → some t.settled = some s' →
          Sound s' ∧ Held s' := by
        rintro t ht ⟨⟩
        exact ⟨⟨ht.1.congr rfl rfl rfl, ht.2⟩, held_settled ht⟩
      cases a with
      | «open» path fd err stale =>
          obtain ⟨hsound, hiff⟩ := h.fdmOpen hpossible.1 hpossible.2
          cases hstep
          exact ⟨⟨hsound.1.congr rfl rfl rfl, hsound.2⟩, (held_returning_iff hsound _).trans hiff⟩
      | create path fd_new =>
          have hcreated : Sound (s.create path fd_new).1 := by
            by_cases hnonneg : fd_new ≥ 0
            · rw [h.1.create_eq hnonneg hpossible]
              exact h.dropPath path
            · unfold State.create
              rw [if_neg hnonneg]
              exact h
          obtain ⟨hsound, hheld⟩ := hsettled _ hcreated hstep
          exact ⟨hsound, iff_of_true hheld trivial⟩
      | remove path fd_new =>
          obtain ⟨hsound, hheld⟩ := hsettled _ (h.dropPath path) hstep
          exact ⟨hsound, iff_of_true hheld trivial⟩
      | expire path =>
          obtain ⟨hsound, hheld⟩ := hsettled _ (h.dropPath path) hstep
          exact ⟨hsound, iff_of_true hheld trivial⟩
      | flush path =>
          obtain ⟨hsound, hheld⟩ := hsettled _ h hstep
          exact ⟨hsound, iff_of_true hheld trivial⟩
      | get_file_handler path fd err stale =>
          obtain ⟨hsound, hiff⟩ := h.fdmOpen hpossible.1 hpossible.2
          obtain ⟨file_handlers, heq⟩ := get_file_handler_eq s path fd err stale
          have hhandled : Sound (s.get_file_handler path fd err stale).1 := by
            rw [heq]
            exact ⟨hsound.1.congr rfl rfl rfl, hsound.2⟩
          cases hstep
          refine ⟨⟨hhandled.1.congr rfl rfl rfl, hhandled.2⟩, ?_⟩
          rw [held_returning_iff hhandled, heq]
          exact hiff
  · cases hstep

theorem sound_start (num : Nat) : Sound (start num) := ⟨accounted_start num, Nat.zero_le _⟩

/-- In every run the account is kept, whatever `open` returns. -/
theorem always_sound (num : Nat) (calls : List Call) :
    Machine.Always step Sound (start num) calls :=
  Machine.Guarded.always (fun _ _ _ h _ hstep => (h.step hstep).1) (fun _ h => h)
    (sound_start num) (Machine.Guarded.of_forall (p := fun _ => True) fun _ _ => trivial)

/-- For every limit and every sequence of calls with any outcomes of the system calls: in every
state that is reached no descriptor is leaked, none was closed twice, and the one that `open`
returned is open, if and only if every `open` of a path in the LRU reads back from the erased node no
descriptor or one that is open. -/
theorem descriptors_held_iff (num : Nat) (calls : List Call) :
    Machine.Always step Held (start num) calls ↔
      Machine.Guarded step (fun s a => a.Possible s → ReadsBack s a) (start num) calls := by
  refine Machine.always_iff_guarded (fun _ _ _ h hstep => (h.step hstep).1)
    (fun s a _ h _ hstep => ?_) (fun s a hnone hpossible => ?_) (sound_start num)
    (held_settled (sound_start num))
  · have hpossible : a.Possible s := by
      unfold step at hstep
      split at hstep
      · next hpossible => exact hpossible
      · cases hstep
    exact (h.step hstep).2.trans ⟨fun hreads _ => hreads, fun hreads => hreads hpossible⟩
  · unfold step at hnone
    rw [if_pos hpossible] at hnone
    cases a <;> cases hnone

/-- A second `open` of a path returns what it finds in freed memory. -/
theorem open_returns_garbage :
    ¬ ∀ (num : Nat) (calls : List Call), Machine.Always step Held (start num) calls := by
  intro hall
  have halways := hall 500 [.open "p" 7 2 0, .open "p" 8 2 99]
  have hheld := (halways.2 _ rfl).2 _ rfl
  have hopen : (99 : Int) ∈ [7] := hheld.returned_open 99 rfl
  exact absurd hopen (by decide)

end Gvds.Descriptors
