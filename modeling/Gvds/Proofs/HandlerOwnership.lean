/-
Module: Gvds.Proofs.HandlerOwnership
Layer: Proofs
Purpose: Whose bitmaps a file handler holds. FdManager keeps handlers by descriptor number and never
  drops one, so a number that the kernel hands out again brings the old handler with it. The bitmaps
  of a handler, and the attributes that it flushes, belong to the file of the path along every run
  in which no open gets a number whose handler holds the bitmaps of another file.
Imports: Gvds.Lib.Machine, Gvds.Proofs.FdCache
Trusted boundary: as Gvds.IoProxy.Kernel and Gvds.IoProxy.FdMgr
Main exports: FdCall, Traced, IoProxy.call, Traced.step, Traced.Untainted, Traced.handlers_own
-/
import Gvds.Lib.Machine
import Gvds.Proofs.FdCache

namespace Gvds

variable {β : Type*}

/-- The calls on FdManager and on the handler that `get_file_handler` returns for a path. -/
inductive FdCall (β : Type*) where
  | open (path : PathName) (flags : BitVec 32)
  | create (path : PathName)
  | remove (path : PathName)
  | expire (path : PathName)
  | getFileHandler (path : PathName)
  | setBitmap (path : PathName) (cid : Int) (bitmap : β)
  | getBitmap (path : PathName) (cid : Int) (create : Bool)
  | flushBitmap (path : PathName) (cid : Int)

namespace IoProxy

/-- Get the handler of a path and do something with it. Where there is none, nothing is done. -/
def withHandler (s : IoProxy β) (path : PathName) (f : IoProxy β → Handler β → IoProxy β) :
    IoProxy β :=
  match s.getFileHandler path with
  | (s, none) => s
  | (s, some h) => f s h

/-- The effect of a call. Handlers are shared, so what is put into one is put into the one kept. -/
def call [Inhabited β] (s : IoProxy β) : FdCall β → IoProxy β
  | .open path flags => (s.fdmOpen path flags).1
  | .create path => (s.fdmCreate path).1
  | .remove path => (s.fdmRemove path).1
  | .expire path => s.fdmExpire path
  | .getFileHandler path => (s.getFileHandler path).1
  | .setBitmap path cid bitmap =>
      s.withHandler path fun s h => s.setHandler h.fd (h.setBitmap cid bitmap)
  | .getBitmap path cid create =>
      s.withHandler path fun s h => s.setHandler h.fd (h.getBitmap s.k cid create).1
  | .flushBitmap path cid =>
      s.withHandler path fun s h => { s with k := h.flushBitmap s.k cid }

end IoProxy

/-- A proxy with the record of the bitmaps that were set through a handler of each file. -/
structure Traced (β : Type*) where
  proxy : IoProxy β
  given : Nat → β → Prop

namespace Traced

/-- The bitmap that a call sets, if it sets one: `get_bitmap` sets a new one if it is told to. -/
def sets [Inhabited β] : FdCall β → Option (PathName × β)
  | .setBitmap path _ bitmap => some (path, bitmap)
  | .getBitmap path _ true => some (path, default)
  | _ => none

/-- One call, recorded for the file that its path names. -/
def step [Inhabited β] (s : Traced β) (c : FdCall β) : Option (Traced β) :=
  some {
    proxy := s.proxy.call c
    given := fun ino b => s.given ino b ∨
      ∃ path, sets c = some (path, b) ∧ s.proxy.k.tree.node path = some (.file ino) }

/-- A proxy that has just started: nothing is cached, no handler is kept, and the bitmaps of each
file are those in its attributes. -/
def Started (s : Traced β) : Prop :=
  s.proxy.fdm.fds = ∅ ∧ (∀ fd, s.proxy.fdm.file_handlers fd = none) ∧
    ∀ ino b, s.given ino b ↔ ∃ cid, s.proxy.k.replicaAttr ino cid = some b

/-- The path and the flags with which a call opens. -/
def opens : FdCall β → Option (PathName × BitVec 32)
  | .open path flags => some (path, flags)
  | .getFileHandler path => some (path, oRdwr)
  | .setBitmap path _ _ => some (path, oRdwr)
  | .getBitmap path _ _ => some (path, oRdwr)
  | .flushBitmap path _ => some (path, oRdwr)
  | _ => none

/-- A call that opens a path which is not cached gets a number under which FdManager keeps no
handler with the bitmaps of another file. -/
def Untainted (s : Traced β) (c : FdCall β) : Prop :=
  ∀ path flags, opens c = some (path, flags) → s.proxy.fdm.fds.lookup path = none →
    ∀ k fd file, s.proxy.k.sysOpen path (flags &&& ~~~IoProxy.maskFlags) = .ok (k, fd) →
      k.fdTable.get fd = some file →
        ∀ h, s.proxy.fdm.file_handlers fd = some h →
          ∀ cid b, h.bitmaps cid = some b → s.given file.ino b

/-- The attributes of each file hold only bitmaps that were set through a handler of that file. -/
def AttrsOwn (s : Traced β) : Prop :=
  ∀ ino cid b, s.proxy.k.replicaAttr ino cid = some b → s.given ino b

/-- The handler that `get_file_handler` returns for the path holds only bitmaps that were set
through a handler of the file that the path names. -/
def HandlerOwn (s : Traced β) (path : PathName) : Prop :=
  ∀ t h ino, s.proxy.getFileHandler path = (t, some h) →
    s.proxy.k.tree.node path = some (.file ino) →
      ∀ cid b, h.bitmaps cid = some b → s.given ino b

end Traced

namespace IoProxy

/-! ### What the calls leave alone -/

@[simp] theorem fdmExpire_file_handlers (s : IoProxy β) (p : PathName) :
    (s.fdmExpire p).fdm.file_handlers = s.fdm.file_handlers := by
  unfold fdmExpire
  cases s.fdm.fds.lookup p <;> rfl

@[simp] theorem fdmExpire_replicaAttr (s : IoProxy β) (p : PathName) :
    (s.fdmExpire p).k.replicaAttr = s.k.replicaAttr := by
  unfold fdmExpire
  cases s.fdm.fds.lookup p <;> rfl

theorem expireOldest_frame (s : IoProxy β) :
    s.expireOldest.fdm.file_handlers = s.fdm.file_handlers ∧
      s.expireOldest.k.replicaAttr = s.k.replicaAttr := by
  unfold expireOldest
  cases s.fdm.fds.oldest <;> exact ⟨rfl, rfl⟩

theorem checkAndExpire_frame (s : IoProxy β) :
    s.checkAndExpire.fdm.file_handlers = s.fdm.file_handlers ∧
      s.checkAndExpire.k.replicaAttr = s.k.replicaAttr := by
  unfold checkAndExpire
  generalize s.fdm.fds.size - s.fdm.max_fd_num = n
  induction n generalizing s with
  | zero => exact ⟨rfl, rfl⟩
  | succ n ih =>
      obtain ⟨hfh, hattr⟩ := expireOldest_frame s
      rw [Function.iterate_succ_apply, (ih _).1, (ih _).2]
      exact ⟨hfh, hattr⟩

/-- A new file has no attributes, and opening changes those of no other file. -/
theorem sysOpen_replicaAttr {k k' : Kernel β} {p : PathName} {flags : BitVec 32} {fd ino : Nat}
    {cid : Int} {b : β} (h : k.sysOpen p flags = .ok (k', fd))
    (hb : k'.replicaAttr ino cid = some b) : k.replicaAttr ino cid = some b := by
  obtain ⟨_, ⟨i, _, rfl⟩ | ⟨x, d, _, _, _, rfl⟩⟩ := Kernel.sysOpen_cases h
  · split at hb <;> simpa using hb
  · simp only [Kernel.allocFd_replicaAttr, Kernel.makeFile] at hb
    by_cases hino : ino = k.nextIno
    · subst hino
      rw [Function.update_self] at hb
      cases hb
    · rwa [Function.update_of_ne hino] at hb

theorem fdmOpen_frame {s t : IoProxy β} {p : PathName} {flags : BitVec 32} {r : Except Errno Nat}
    (h : s.fdmOpen p flags = (t, r)) :
    t.fdm.file_handlers = s.fdm.file_handlers ∧
      ∀ ino cid b, t.k.replicaAttr ino cid = some b → s.k.replicaAttr ino cid = some b := by
  cases r with
  | error e =>
      rw [fdmOpen_error h]
      exact ⟨rfl, fun _ _ _ hb => hb⟩
  | ok fd =>
      obtain ⟨_, rfl⟩ | ⟨_, k, hk, rfl⟩ := fdmOpen_cases h
      · refine ⟨rfl, fun ino cid b hb => ?_⟩
        simp only at hb
        split at hb
        · obtain hsame | ⟨i, c, hset⟩ := Kernel.sysFtruncate_cases s.k fd
          · rwa [hsame] at hb
          · rwa [hset] at hb
        · exact hb
      · obtain ⟨hfh, hattr⟩ := checkAndExpire_frame
          ({ s.setFds (s.fdm.fds.touch p fd) with k := k } : IoProxy β)
        refine ⟨hfh, fun ino cid b hb => ?_⟩
        rw [hattr] at hb
        exact sysOpen_replicaAttr hk hb

theorem fdmCreate_frame (s : IoProxy β) (p : PathName) :
    (s.fdmCreate p).1.fdm.file_handlers = s.fdm.file_handlers ∧
      ∀ ino cid b, (s.fdmCreate p).1.k.replicaAttr ino cid = some b →
        s.k.replicaAttr ino cid = some b := by
  unfold fdmCreate
  cases hopen : s.k.sysOpen p (oCreat ||| oSync) with
  | error e => exact ⟨rfl, fun _ _ _ hb => hb⟩
  | ok r =>
      obtain ⟨k, fdNew⟩ := r
      refine ⟨by simp, fun ino cid b hb => sysOpen_replicaAttr hopen ?_⟩
      simpa using hb

theorem fdmRemove_frame (s : IoProxy β) (p : PathName) :
    (s.fdmRemove p).1.fdm.file_handlers = s.fdm.file_handlers ∧
      ∀ ino cid b, (s.fdmRemove p).1.k.replicaAttr ino cid = some b →
        s.k.replicaAttr ino cid = some b := by
  unfold fdmRemove
  cases hunlink : (s.fdmExpire p).k.sysUnlink p with
  | error e => simp [hunlink]
  | ok k =>
      obtain ⟨_, rfl⟩ := Kernel.sysUnlink_cases hunlink
      simp [hunlink, Kernel.removeName]

/-- What `get_file_handler` does when it returns a handler: it opens the path, and returns the
handler kept for the descriptor, or a new one that it keeps. -/
theorem getFileHandler_some {s t : IoProxy β} {p : PathName} {h : Handler β}
    (hget : s.getFileHandler p = (t, some h)) :
    ∃ u fd, s.fdmOpen p oRdwr = (u, .ok fd) ∧
      ((u.fdm.file_handlers fd = some h ∧ t = u) ∨
        (u.fdm.file_handlers fd = none ∧ h = ⟨fd, fun _ => none⟩ ∧ t = u.setHandler fd h)) := by
  unfold getFileHandler at hget
  cases hopen : s.fdmOpen p oRdwr with
  | mk u r =>
      cases r with
      | error e => simp [hopen] at hget
      | ok fd =>
          refine ⟨u, fd, rfl, ?_⟩
          simp only [hopen] at hget
          cases hfh : u.fdm.file_handlers fd with
          | some h' =>
              simp only [hfh, Prod.mk.injEq, Option.some.injEq] at hget
              obtain ⟨rfl, rfl⟩ := hget
              exact Or.inl ⟨rfl, rfl⟩
          | none =>
              simp only [hfh, Prod.mk.injEq, Option.some.injEq] at hget
              obtain ⟨rfl, rfl⟩ := hget
              exact Or.inr ⟨rfl, rfl, rfl⟩

/-- A path that is not cached gets the handler kept for the number that the kernel hands out. -/
theorem getFileHandler_of_kept {s : IoProxy β} {p : PathName} {k : Kernel β} {fd : Nat}
    {h : Handler β}
    (hp : s.fdm.fds.lookup p = none) (hopen : s.k.sysOpen p (oRdwr &&& ~~~maskFlags) = .ok (k, fd))
    (hkept : s.fdm.file_handlers fd = some h) : ∃ t, s.getFileHandler p = (t, some h) := by
  obtain ⟨t, hfdm⟩ : ∃ t, s.fdmOpen p oRdwr = (t, .ok fd) := by simp [fdmOpen, hp, hopen]
  obtain ⟨hfh, _⟩ := fdmOpen_frame hfdm
  refine ⟨t, ?_⟩
  simp only [getFileHandler, hfdm, hfh, hkept]

theorem getFileHandler_none {s t : IoProxy β} {p : PathName}
    (hget : s.getFileHandler p = (t, none)) :
    t = s := by
  unfold getFileHandler at hget
  cases hopen : s.fdmOpen p oRdwr with
  | mk u r =>
      cases r with
      | error e =>
          simp only [hopen, Prod.mk.injEq, and_true] at hget
          rw [← hget, fdmOpen_error hopen]
      | ok fd => cases hfh : u.fdm.file_handlers fd <;> simp [hopen, hfh] at hget

end IoProxy

namespace Traced

/-! ### The invariant -/

/-- The handler kept under a number holds only bitmaps that were set for the open file. -/
def Owns (given : Nat → β → Prop) (file_handlers : Nat → Option (Handler β)) (fd : Nat)
    (file : OpenFile) : Prop :=
  ∀ h, file_handlers fd = some h → ∀ cid b, h.bitmaps cid = some b → given file.ino b

/-- What holds along the runs without a tainted number. -/
structure Inv (s : Traced β) : Prop where
  coherent : IoProxy.CoherentIn (Owns s.given s.proxy.fdm.file_handlers) s.proxy
  numbered : ∀ fd h, s.proxy.fdm.file_handlers fd = some h → h.fd = fd
  attrs : s.AttrsOwn

theorem inv_of_started {s : Traced β} (h : s.Started) : s.Inv := by
  obtain ⟨hfds, hfh, hgiven⟩ := h
  refine ⟨?_, ?_, ?_⟩
  · intro p fd hp
    rw [hfds] at hp
    cases hp
  · intro fd h hh
    rw [hfh] at hh
    cases hh
  · exact fun ino cid b hb => (hgiven ino b).mpr ⟨cid, hb⟩

/-- A call that keeps the cache coherent, changes no handler and adds nothing to the attributes. -/
theorem Inv.of_frame {s : Traced β} (h : s.Inv) {t : IoProxy β}
    (hcoherent : IoProxy.CoherentIn (Owns s.given s.proxy.fdm.file_handlers) t)
    (hframe : t.fdm.file_handlers = s.proxy.fdm.file_handlers ∧
      ∀ ino cid b, t.k.replicaAttr ino cid = some b → s.proxy.k.replicaAttr ino cid = some b) :
    Inv ⟨t, s.given⟩ := by
  obtain ⟨hfh, hattr⟩ := hframe
  refine ⟨?_, ?_, fun ino cid b hb => h.attrs ino cid b (hattr ino cid b hb)⟩
  · rw [← hfh] at hcoherent
    exact hcoherent
  · intro fd fh hkept
    rw [hfh] at hkept
    exact h.numbered fd fh hkept

theorem Inv.fdmOpen {s : Traced β} (h : s.Inv) {p : PathName} {flags : BitVec 32}
    (hguard : s.proxy.fdm.fds.lookup p = none → ∀ k fd file,
      s.proxy.k.sysOpen p (flags &&& ~~~IoProxy.maskFlags) = .ok (k, fd) →
        k.fdTable.get fd = some file → Owns s.given s.proxy.fdm.file_handlers fd file)
    {t : IoProxy β} {r : Except Errno Nat} (hopen : s.proxy.fdmOpen p flags = (t, r)) :
    Inv ⟨t, s.given⟩ := by
  exact h.of_frame (IoProxy.coherentIn_fdmOpen h.coherent hguard hopen) (IoProxy.fdmOpen_frame hopen)

/-- Keeping a changed handler for a cached path, whose bitmaps are set for the file of the path. -/
theorem Inv.setHandler {s : Traced β} (h : s.Inv) {p : PathName} {fd : Nat} {file : OpenFile}
    (hp : s.proxy.fdm.fds.lookup p = some fd) (hfile : s.proxy.k.fdTable.get fd = some file)
    {fh : Handler β} (hfd : fh.fd = fd) {given : Nat → β → Prop}
    (hgiven : ∀ ino b, s.given ino b → given ino b)
    (hown : ∀ cid b, fh.bitmaps cid = some b → given file.ino b) :
    Inv ⟨s.proxy.setHandler fd fh, given⟩ := by
  refine ⟨?_, ?_, fun ino cid b hb => hgiven ino b (h.attrs ino cid b hb)⟩
  · intro q fd' hq
    obtain ⟨file', hfile', hnode, howns⟩ := h.coherent q fd' hq
    refine ⟨file', hfile', hnode, fun fh' hfh' cid b hb => ?_⟩
    by_cases hsame : fd' = fd
    · subst hsame
      obtain rfl := Option.some.inj (hfile.symm.trans hfile')
      simp only [IoProxy.setHandler, Function.update_self, Option.some.injEq] at hfh'
      subst hfh'
      exact hown cid b hb
    · simp only [IoProxy.setHandler, Function.update_of_ne hsame] at hfh'
      exact hgiven _ b (howns fh' hfh' cid b hb)
  · intro fd' fh' hfh'
    by_cases hsame : fd' = fd
    · subst hsame
      simp only [IoProxy.setHandler, Function.update_self, Option.some.injEq] at hfh'
      rw [← hfh', hfd]
    · simp only [IoProxy.setHandler, Function.update_of_ne hsame] at hfh'
      exact h.numbered fd' fh' hfh'

/-- What `get_file_handler` gives: the handler kept for the descriptor of the path, open on the file
that the path names. -/
theorem Inv.getFileHandler {s : Traced β} (h : s.Inv) {p : PathName}
    (hguard : s.Untainted (.getFileHandler p)) {t : IoProxy β} {fh : Handler β}
    (hget : s.proxy.getFileHandler p = (t, some fh)) :
    Inv ⟨t, s.given⟩ ∧ ∃ file, t.fdm.fds.lookup p = some fh.fd ∧
      t.k.fdTable.get fh.fd = some file ∧ t.fdm.file_handlers fh.fd = some fh ∧
      s.proxy.k.tree.node p = some (.file file.ino) ∧
      ∀ cid b, fh.bitmaps cid = some b → s.given file.ino b := by
  obtain ⟨u, fd, hopen, hkept⟩ := IoProxy.getFileHandler_some hget
  have hu : Inv ⟨u, s.given⟩ := h.fdmOpen (hguard p oRdwr rfl) hopen
  have hp := IoProxy.lookup_fdmOpen hopen
  obtain ⟨file, hfile, hnode, howns⟩ := hu.coherent p fd hp
  simp only [IoProxy.fdmOpen_oRdwr_tree hopen] at hnode
  obtain ⟨hfh, rfl⟩ | ⟨hnone, rfl, rfl⟩ := hkept
  · obtain rfl := hu.numbered fd fh hfh
    exact ⟨hu, file, hp, hfile, hfh, hnode, howns fh hfh⟩
  · refine ⟨hu.setHandler hp hfile rfl (fun _ _ hb => hb) (by simp), file, hp, hfile, ?_, hnode,
      by simp⟩
    simp [IoProxy.setHandler]

/-- More may be recorded. -/
theorem Inv.mono {s : Traced β} (h : s.Inv) {given : Nat → β → Prop}
    (hgiven : ∀ ino b, s.given ino b → given ino b) : Inv ⟨s.proxy, given⟩ :=
  ⟨h.coherent.mono fun _ file howns fh hfh cid b hb => hgiven file.ino b (howns fh hfh cid b hb),
    h.numbered, fun ino cid b hb => hgiven ino b (h.attrs ino cid b hb)⟩

/-- What `get_bitmap` leaves in the handler: what was there, what the attributes hold, or a new
bitmap. -/
theorem getBitmap_spec [Inhabited β] (h : Handler β) (k : Kernel β) (cid : Int) (create : Bool) :
    (h.getBitmap k cid create).1.fd = h.fd ∧
      ∀ c b, (h.getBitmap k cid create).1.bitmaps c = some b →
        h.bitmaps c = some b ∨ h.attr k cid = some b ∨ (create = true ∧ b = default) := by
  have hput : ∀ b c b', (h.put cid b).bitmaps c = some b' → h.bitmaps c = some b' ∨ b' = b := by
    intro b c b' hb
    by_cases hc : c = cid
    · subst hc
      simp only [Handler.put, Function.update_self, Option.some.injEq] at hb
      exact Or.inr hb.symm
    · simp only [Handler.put, Function.update_of_ne hc] at hb
      exact Or.inl hb
  unfold Handler.getBitmap
  cases hheld : h.bitmaps cid with
  | some b => exact ⟨rfl, fun c b' hb => Or.inl hb⟩
  | none =>
      cases hattr : h.attr k cid with
      | some b =>
          refine ⟨rfl, fun c b' hb => ?_⟩
          obtain hold | rfl := hput b c b' hb
          · exact Or.inl hold
          · exact Or.inr (Or.inl rfl)
      | none =>
          cases create with
          | false => exact ⟨rfl, fun c b' hb => Or.inl hb⟩
          | true =>
              refine ⟨rfl, fun c b' hb => ?_⟩
              obtain hold | rfl := hput default c b' hb
              · exact Or.inl hold
              · exact Or.inr (Or.inr ⟨rfl, rfl⟩)

/-- A call through the handler of a path keeps the invariant, if what it does with the handler
does. -/
theorem Inv.withHandler {s : Traced β} (h : s.Inv) {p : PathName}
    (hguard : s.Untainted (.getFileHandler p)) {given : Nat → β → Prop}
    (hgiven : ∀ ino b, s.given ino b → given ino b) {f : IoProxy β → Handler β → IoProxy β}
    (hf : ∀ t fh file, Inv ⟨t, s.given⟩ → t.fdm.fds.lookup p = some fh.fd →
      t.k.fdTable.get fh.fd = some file → s.proxy.k.tree.node p = some (.file file.ino) →
        (∀ cid b, fh.bitmaps cid = some b → s.given file.ino b) → Inv ⟨f t fh, given⟩) :
    Inv ⟨s.proxy.withHandler p f, given⟩ := by
  unfold IoProxy.withHandler
  cases hget : s.proxy.getFileHandler p with
  | mk t r =>
      cases r with
      | none =>
          rw [IoProxy.getFileHandler_none hget]
          exact h.mono hgiven
      | some fh =>
          obtain ⟨ht, file, hp, hfile, _, hnode, hown⟩ := h.getFileHandler hguard hget
          exact hf t fh file ht hp hfile hnode hown

/-- Every call whose open gets no tainted number keeps the invariant. -/
theorem inv_step [Inhabited β] {s t : Traced β} {c : FdCall β} (h : s.Inv)
    (hguard : s.Untainted c) (hstep : s.step c = some t) : t.Inv := by
  cases hstep
  cases c with
  | «open» p flags =>
      exact (h.fdmOpen (hguard p flags rfl) rfl).mono fun _ _ hb => Or.inl hb
  | create p =>
      have hcoherent := IoProxy.coherentIn_fdmCreate h.coherent p
      exact (h.of_frame hcoherent (IoProxy.fdmCreate_frame _ p)).mono fun _ _ hb => Or.inl hb
  | remove p =>
      have hcoherent := IoProxy.coherentIn_fdmRemove h.coherent p
      exact (h.of_frame hcoherent (IoProxy.fdmRemove_frame _ p)).mono fun _ _ hb => Or.inl hb
  | expire p =>
      have hcoherent := IoProxy.coherentIn_fdmExpire h.coherent p
      refine (h.of_frame hcoherent ⟨?_, fun ino cid b hb => ?_⟩).mono fun _ _ hb => Or.inl hb
      · exact IoProxy.fdmExpire_file_handlers s.proxy p
      · rwa [IoProxy.fdmExpire_replicaAttr] at hb
  | getFileHandler p =>
      have hkept : Inv ⟨(s.proxy.getFileHandler p).1, s.given⟩ := by
        cases hget : s.proxy.getFileHandler p with
        | mk t r =>
            cases r with
            | none =>
                rw [IoProxy.getFileHandler_none hget]
                exact h
            | some fh => exact (h.getFileHandler hguard hget).1
      exact hkept.mono fun _ _ hb => Or.inl hb
  | setBitmap p cid bitmap =>
      refine h.withHandler hguard (fun _ _ hb => Or.inl hb) ?_
      intro t fh file ht hp hfile hnode hown
      have hfd : (fh.setBitmap cid bitmap).fd = fh.fd := rfl
      refine Inv.setHandler (s := ⟨t, s.given⟩) ht hp hfile hfd (fun _ _ hb => Or.inl hb) ?_
      intro c b hb
      by_cases hc : c = cid
      · subst hc
        simp only [Handler.setBitmap, Handler.put, Function.update_self, Option.some.injEq] at hb
        subst hb
        exact Or.inr ⟨p, rfl, hnode⟩
      · simp only [Handler.setBitmap, Handler.put, Function.update_of_ne hc] at hb
        exact Or.inl (hown c b hb)
  | getBitmap p cid create =>
      refine h.withHandler hguard (fun _ _ hb => Or.inl hb) ?_
      intro t fh file ht hp hfile hnode hown
      obtain ⟨hfd, hheld⟩ := getBitmap_spec fh t.k cid create
      refine Inv.setHandler (s := ⟨t, s.given⟩) ht hp hfile hfd (fun _ _ hb => Or.inl hb) ?_
      intro c b hb
      obtain hold | hattr | ⟨rfl, rfl⟩ := hheld c b hb
      · exact Or.inl (hown c b hold)
      · simp only [Handler.attr, hfile, Option.bind_some] at hattr
        exact Or.inl (ht.attrs file.ino cid b hattr)
      · exact Or.inr ⟨p, rfl, hnode⟩
  | flushBitmap p cid =>
      refine h.withHandler hguard (fun _ _ hb => Or.inl hb) ?_
      intro t fh file ht hp hfile hnode hown
      have hflush : Inv ⟨{ t with k := fh.flushBitmap t.k cid }, s.given⟩ := by
        unfold Handler.flushBitmap
        cases hb : fh.bitmaps cid with
        | none => exact ht
        | some b =>
            simp only [hfile]
            refine ⟨ht.coherent, ht.numbered, fun ino c b' hb' => ?_⟩
            by_cases hino : ino = file.ino
            · subst hino
              simp only [Function.update_self] at hb'
              by_cases hc : c = cid
              · subst hc
                rw [Function.update_self, Option.some.injEq] at hb'
                exact hown c b' (hb.trans (congrArg some hb'))
              · rw [Function.update_of_ne hc] at hb'
                exact ht.attrs file.ino c b' hb'
            · simp only [Function.update_of_ne hino] at hb'
              exact ht.attrs ino c b' hb'
      exact hflush.mono fun _ _ hb => Or.inl hb

/-! ### Runs -/

/-- In a state of the invariant the handler of a path is its own exactly if no tainted number is
handed out for it. -/
theorem Inv.handlerOwn_iff {s : Traced β} (h : s.Inv) (p : PathName) :
    s.HandlerOwn p ↔ s.Untainted (.getFileHandler p) := by
  constructor
  · intro hown path flags hopens hp k fd file hopen hfile fh hkept cid b hb
    cases hopens
    obtain ⟨ino, hnode, rfl, rfl⟩ := IoProxy.sysOpen_oRdwr hopen
    have hino : file.ino = ino := by
      rw [Kernel.allocFd_fdTable, SlotTable.get_alloc_self, Option.some.injEq] at hfile
      rw [← hfile]
    rw [hino]
    obtain ⟨t, hget⟩ := IoProxy.getFileHandler_of_kept hp hopen hkept
    exact hown t fh ino hget hnode cid b hb
  · intro hguard t fh ino hget hnode cid b hb
    obtain ⟨_, file, _, _, _, hnode', hown⟩ := h.getFileHandler hguard hget
    obtain rfl := Node.file.inj (Option.some.inj (hnode.symm.trans hnode'))
    exact hown cid b hb

/-- Along every run of calls whose opens get no tainted number, the attributes of each file hold
only bitmaps that were set through a handler of that file, and the handler that `get_file_handler`
returns then holds only bitmaps of the file of the path, exactly if its open gets no tainted number
either. -/
theorem handlers_own [Inhabited β] {s t : Traced β} (hs : s.Started) (cs : List (FdCall β))
    (hguard : Machine.Guarded step Untainted s cs) (hrun : Machine.run step s cs = some t) :
    t.AttrsOwn ∧ ∀ path, t.HandlerOwn path ↔ t.Untainted (.getFileHandler path) := by
  have hstep : ∀ (u : Traced β) c v, u.Inv → u.Untainted c → u.step c = some v → v.Inv :=
    fun u c v hu hc hv => inv_step hu hc hv
  have ht := Machine.run_invariant hstep (inv_of_started hs) hguard hrun
  exact ⟨ht.attrs, ht.handlerOwn_iff⟩

/-- A proxy that has just started on an empty directory. -/
def blank (n : Nat) : Traced β := ⟨IoProxy.blank n, fun _ _ => False⟩

theorem blank_started (n : Nat) : Started (blank n : Traced β) :=
  ⟨rfl, fun _ => rfl, fun _ _ => ⟨False.elim, fun ⟨_, hb⟩ => nomatch hb⟩⟩

/-- A bitmap is set and flushed through the handler of one file. -/
theorem handlers_own_one_file :
    ∃ t, Machine.run step (blank 499 : Traced Nat)
        [.create ["a"], .setBitmap ["a"] 2 7, .flushBitmap ["a"] 2] = some t ∧
      t.proxy.k.replicaAttr 0 2 = some 7 ∧ t.AttrsOwn ∧ t.HandlerOwn ["a"] := by
  obtain ⟨t, hrun⟩ : ∃ t, Machine.run step (blank 499 : Traced Nat)
      [.create ["a"], .setBitmap ["a"] 2 7, .flushBitmap ["a"] 2] = some t := ⟨_, rfl⟩
  have hattr : t.proxy.k.replicaAttr 0 2 = some 7 := by
    cases hrun
    decide
  have hcached : t.proxy.fdm.fds.lookup ["a"] ≠ none := by
    cases hrun
    decide
  have hguard : Machine.Guarded step Untainted (blank 499 : Traced Nat)
      [.create ["a"], .setBitmap ["a"] 2 7, .flushBitmap ["a"] 2] := by
    refine ⟨fun _ _ hopens => (nomatch hopens), fun _ h₁ => ?_⟩
    cases h₁
    refine ⟨fun _ _ _ _ _ fd _ _ _ h hkept => ?_, fun _ h₂ => ?_⟩
    · have hnone := (IoProxy.fdmCreate_frame (IoProxy.blank 499 : IoProxy Nat) ["a"]).1
      exact absurd ((congrFun hnone fd).symm.trans hkept) (by simp [IoProxy.blank])
    · cases h₂
      refine ⟨fun _ _ hopens hnone => ?_, fun _ _ => trivial⟩
      cases hopens
      exact absurd hnone (by decide)
  obtain ⟨hattrs, hown⟩ := handlers_own (blank_started 499) _ hguard hrun
  refine ⟨t, hrun, hattr, hattrs, (hown ["a"]).mpr ?_⟩
  intro path flags hopens hnone
  cases hopens
  exact absurd hnone hcached

/-- A file is removed, and the next file gets its descriptor number: a flush writes the bitmap of
the first into the attributes of the second. -/
theorem recycled_number_leaks_bitmap :
    ∃ t, Machine.run step (blank 499 : Traced Nat)
        [.create ["a"], .setBitmap ["a"] 2 7, .remove ["a"], .create ["b"],
          .flushBitmap ["b"] 2] = some t ∧
      ¬ t.AttrsOwn ∧ ¬ t.HandlerOwn ["b"] := by
  obtain ⟨t, hrun⟩ : ∃ t, Machine.run step (blank 499 : Traced Nat)
      [.create ["a"], .setBitmap ["a"] 2 7, .remove ["a"], .create ["b"],
        .flushBitmap ["b"] 2] = some t := ⟨_, rfl⟩
  have hgiven : ¬ t.given 1 7 := by
    cases hrun
    rintro (((((hb | ⟨_, hb, _⟩) | ⟨_, hb, hnode⟩) | ⟨_, hb, _⟩) | ⟨_, hb, _⟩) | ⟨_, hb, _⟩)
    · exact hb
    · cases hb
    · cases hb
      exact absurd hnode (by decide)
    · cases hb
    · cases hb
    · cases hb
  have hattr : t.proxy.k.replicaAttr 1 2 = some 7 := by
    cases hrun
    decide
  have hnode : t.proxy.k.tree.node ["b"] = some (.file 1) := by
    cases hrun
    decide
  have hheld : (t.proxy.getFileHandler ["b"]).2.bind (fun h => h.bitmaps 2) = some 7 := by
    cases hrun
    decide
  refine ⟨t, hrun, fun hattrs => hgiven (hattrs 1 2 7 hattr), fun hown => hgiven ?_⟩
  obtain ⟨h, hget, hb⟩ := Option.bind_eq_some_iff.mp hheld
  exact hown _ h 1 (Prod.ext rfl hget) hnode 2 7 hb

end Traced

end Gvds
