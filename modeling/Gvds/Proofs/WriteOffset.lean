/-
Module: Gvds.Proofs.WriteOffset
Layer: Proofs
Purpose: Where a write request lands. The request is served by the cached descriptor of its path,
  with the flags of whoever opened it first, and FdManager::open does not drop `O_APPEND`: the data
  goes to its offset exactly if that descriptor is open on the file of the path and not for
  appending, or if that makes no difference to the contents.
Imports: Gvds.Proofs.FdCoherence
Trusted boundary: as Gvds.IoProxy.Kernel
Main exports: IoProxy.beforeWrite, IoProxy.Lands, IoProxy.ServesInPlace, IoProxy.lands_iff,
  IoProxy.write_lands
-/
import Gvds.Proofs.FdCoherence

namespace Gvds.IoProxy

variable {β : Type*}

/-- The contents that the `pwrite` of a write request finds: those before the request, with what the
peers have sent for its first and last page. -/
def beforeWrite (s : IoProxy β) (peers : Peers) (path : PathName) (data : List UInt8)
    (offset : Nat) :
    Nat → ByteFile :=
  ((s.fdmOpen path oRdwr).1.syncUnalignPage peers path offset data.length).k.content

/-- From contents `c` a write request has put its data at its offset in the file of its path, and
has changed nothing else. -/
def Lands (s : IoProxy β) (c : Nat → ByteFile) (t : IoProxy β) (path : PathName) (data : List UInt8)
    (offset : Nat) : Prop :=
  ∃ ino, s.k.tree.node path = some (.file ino) ∧
    t.k.content = Function.update c ino ((c ino).write offset data)

/-- Where a descriptor puts data that is meant for an offset. -/
def position (c : Nat → ByteFile) (file : OpenFile) (offset : Nat) : Nat :=
  if file.append then (c file.ino).size else offset

/-- The open file that serves the data requests on a path: that of the cached descriptor, or else a
new one on the file of the path. -/
def Serves (s : IoProxy β) (path : PathName) (file : OpenFile) : Prop :=
  match s.fdm.fds.lookup path with
  | some fd => s.k.fdTable.get fd = some file
  | none => s.k.tree.node path = some (.file file.ino) ∧ file.append = false

/-- The path is served by an open file that is its own, and not for appending, or the data is empty
or meant for the end; or it is served by another file, and the bytes that are overwritten there and
the bytes of its own file are equal to the data anyway. -/
def ServesInPlace (s : IoProxy β) (c : Nat → ByteFile) (path : PathName) (data : List UInt8)
    (offset : Nat) : Prop :=
  ∃ file ino, s.Serves path file ∧ s.k.tree.node path = some (.file ino) ∧
    if ino = file.ino then file.append = false ∨ data = [] ∨ offset = (c ino).size
    else (c file.ino).write (position c file offset) data = c file.ino ∧
      (c ino).write offset data = c ino

/-! ### The descriptor that serves a request -/

/-- A path that is cached is looked up without any effect but its place in the cache. -/
theorem getFileHandler_cached {s : IoProxy β} {p : PathName} {fd : Nat}
    (hp : s.fdm.fds.lookup p = some fd) :
    (s.getFileHandler p).1.k = s.k ∧
      ∀ q, (s.getFileHandler p).1.fdm.fds.lookup q = s.fdm.fds.lookup q := by
  have htrunc : hasFlag oRdwr oTrunc = false := by decide
  unfold getFileHandler fdmOpen
  simp only [hp, htrunc]
  split
  · exact ⟨rfl, fun q => by simp [setFds]⟩
  · exact ⟨rfl, fun q => by simp [setFds, setHandler]⟩

/-- What is stored for the peers changes contents, not descriptors or names. -/
theorem storePieces_frame (k : Kernel β) (fd : Nat) (pieces : List (Nat × List UInt8)) :
    (pieces.foldl (fun k piece => storePiece k fd piece) k).fdTable = k.fdTable ∧
      (pieces.foldl (fun k piece => storePiece k fd piece) k).tree = k.tree := by
  induction pieces generalizing k with
  | nil => exact ⟨rfl, rfl⟩
  | cons piece pieces ih =>
      obtain hsame | ⟨ino, c, hset⟩ := storePiece_cases k fd piece
      · simp only [List.foldl_cons, hsame]
        exact ih k
      · simp only [List.foldl_cons, hset]
        exact ih (k.setContent ino c)

/-- The sync of a cached path keeps descriptors, names and entries. -/
theorem syncFiledata_cached {s : IoProxy β} {p : PathName} {fd : Nat}
    (hp : s.fdm.fds.lookup p = some fd) (peers : Peers) (off len : Nat) :
    (s.syncFiledata peers p off len).fdm.fds.lookup p = some fd ∧
      (s.syncFiledata peers p off len).k.fdTable = s.k.fdTable := by
  obtain ⟨hk, hfds⟩ := getFileHandler_cached hp
  unfold syncFiledata
  cases hget : s.getFileHandler p with
  | mk t r =>
      rw [hget] at hk hfds
      cases r with
      | none => exact ⟨(hfds p).trans hp, congrArg Kernel.fdTable hk⟩
      | some fh =>
          obtain ⟨htable, _⟩ := storePieces_frame t.k fh.fd (peers p off len)
          exact ⟨(hfds p).trans hp, htable.trans (congrArg Kernel.fdTable hk)⟩

theorem syncUnalignPage_cached {s : IoProxy β} {p : PathName} {fd : Nat}
    (hp : s.fdm.fds.lookup p = some fd) (peers : Peers) (off len : Nat) :
    (s.syncUnalignPage peers p off len).k.fdTable = s.k.fdTable := by
  unfold syncUnalignPage
  by_cases hfirst : off % 4096 ≠ 0
  · obtain ⟨hone, htable⟩ := syncFiledata_cached hp peers (off / 4096 * 4096) 4096
    rw [if_pos hfirst]
    split
    · exact (syncFiledata_cached hone peers _ _).2.trans htable
    · exact htable
  · rw [if_neg hfirst]
    split
    · exact (syncFiledata_cached hp peers _ _).2
    · rfl

/-- The opens that the proxy makes for itself change no contents. -/
theorem fdmOpen_oRdwr_content (s : IoProxy β) (p : PathName) :
    (s.fdmOpen p oRdwr).1.k.content = s.k.content := by
  have htrunc : hasFlag oRdwr oTrunc = false := by decide
  cases hopen : s.fdmOpen p oRdwr with
  | mk t r =>
      cases r with
      | error e => rw [fdmOpen_error hopen]
      | ok fd =>
          obtain ⟨_, rfl⟩ | ⟨_, k, hk, rfl⟩ := fdmOpen_cases hopen
          · simp [htrunc]
          · obtain ⟨ino, _, rfl, _⟩ := sysOpen_oRdwr hk
            simp

theorem getFileHandler_content (s : IoProxy β) (p : PathName) :
    (s.getFileHandler p).1.k.content = s.k.content := by
  have hcontent := fdmOpen_oRdwr_content s p
  unfold getFileHandler
  cases hopen : s.fdmOpen p oRdwr with
  | mk t r =>
      rw [hopen] at hcontent
      cases r with
      | error e => exact hcontent
      | ok fd =>
          cases hfd : t.fdm.file_handlers fd with
          | some fh => simpa [hfd] using hcontent
          | none => simpa [hfd, setHandler] using hcontent

theorem syncFiledata_noPeers (s : IoProxy β) (p : PathName) (off len : Nat) :
    (s.syncFiledata noPeers p off len).k.content = s.k.content := by
  have hcontent := getFileHandler_content s p
  unfold syncFiledata
  cases hget : s.getFileHandler p with
  | mk t r =>
      rw [hget] at hcontent
      cases r with
      | none => exact hcontent
      | some fh => exact hcontent

/-- Where no peers send anything, the write finds the contents that were there before the
request. -/
theorem beforeWrite_noPeers (s : IoProxy β) (path : PathName) (data : List UInt8) (offset : Nat) :
    s.beforeWrite noPeers path data offset = s.k.content := by
  have hopen := fdmOpen_oRdwr_content s path
  unfold beforeWrite syncUnalignPage
  simp only
  split
  · split
    · rw [syncFiledata_noPeers, syncFiledata_noPeers, hopen]
    · rw [syncFiledata_noPeers, hopen]
  · split
    · rw [syncFiledata_noPeers, hopen]
    · rw [hopen]

/-- A write request that succeeds has put its data into the file that serves the path. -/
theorem doWrite_done {s t : IoProxy β} {peers : Peers} {path : PathName} {data : List UInt8}
    {offset : Nat} {n : Int} (h : s.doWrite peers path data offset = (t, .done n)) :
    ∃ file, s.Serves path file ∧
      t.k.content = Function.update (s.beforeWrite peers path data offset) file.ino
        ((s.beforeWrite peers path data offset file.ino).write
          (position (s.beforeWrite peers path data offset) file offset) data) := by
  have htrunc : hasFlag oRdwr oTrunc = false := by decide
  unfold doWrite at h
  unfold beforeWrite
  cases hopen : s.fdmOpen path oRdwr with
  | mk u r =>
      cases r with
      | error e => simp [hopen] at h
      | ok fd =>
          have htable := syncUnalignPage_cached (lookup_fdmOpen hopen) peers offset data.length
          simp only [hopen] at h ⊢
          cases hwrite :
              (u.syncUnalignPage peers path offset data.length).k.sysPwrite fd data offset with
          | error e => simp [hwrite] at h
          | ok r =>
              obtain ⟨k, n'⟩ := r
              obtain ⟨_, file, hfile, rfl⟩ := Kernel.sysPwrite_cases hwrite
              simp only [hwrite, Prod.mk.injEq] at h
              obtain ⟨rfl, _⟩ := h
              rw [htable] at hfile
              refine ⟨file, ?_, rfl⟩
              obtain ⟨hp, rfl⟩ | ⟨hp, k', hk', rfl⟩ := fdmOpen_cases hopen
              · simp only [htrunc, Bool.false_eq_true, if_false] at hfile
                simpa [Serves, hp] using hfile
              · obtain ⟨ino, hnode, rfl, rfl⟩ := sysOpen_oRdwr hk'
                have hnew := get_of_get_checkAndExpire hfile
                simp only [Kernel.allocFd_fdTable, SlotTable.get_alloc_self,
                  Option.some.injEq] at hnew
                subst hnew
                simpa [Serves, hp] using hnode

/-! ### Where the data lands -/

/-- Only one open file serves a path. -/
theorem Serves.unique {s : IoProxy β} {path : PathName} {file file' : OpenFile}
    (h : s.Serves path file) (h' : s.Serves path file') : file = file' := by
  unfold Serves at h h'
  cases hp : s.fdm.fds.lookup path with
  | some fd =>
      simp only [hp] at h h'
      exact Option.some.inj (h.symm.trans h')
  | none =>
      simp only [hp] at h h'
      obtain ⟨hnode, happend⟩ := h
      obtain ⟨hnode', happend'⟩ := h'
      have hino := Option.some.inj (hnode.symm.trans hnode')
      cases file
      cases file'
      simp_all

/-- Two changes of single values agree only where they are of the same place, or are none. -/
theorem update_eq_update_iff {α : Type*} {c : Nat → α} {i j : Nat} (hij : j ≠ i) (x y : α) :
    Function.update c i x = Function.update c j y ↔ x = c i ∧ y = c j := by
  constructor
  · intro heq
    have hi := congrFun heq i
    have hj := congrFun heq j
    rw [Function.update_self, Function.update_of_ne hij.symm] at hi
    rw [Function.update_self, Function.update_of_ne hij] at hj
    exact ⟨hi, hj.symm⟩
  · rintro ⟨rfl, rfl⟩
    rw [Function.update_eq_self, Function.update_eq_self]

/-- Data that goes through an open file to its position goes to its offset. -/
theorem write_position_iff (c : Nat → ByteFile) (file : OpenFile) (data : List UInt8)
    (offset : Nat) :
    (c file.ino).write (position c file offset) data = (c file.ino).write offset data ↔
      file.append = false ∨ data = [] ∨ offset = (c file.ino).size := by
  unfold position
  cases happend : file.append with
  | false => simp
  | true => simpa using ByteFile.write_size_eq_iff

/-- The exact condition under which a successful write changes the bytes it is meant for and no
others. -/
theorem lands_iff {s t : IoProxy β} {peers : Peers} {path : PathName} {data : List UInt8}
    {offset : Nat} {n : Int} (h : s.doOp peers (.write path data offset) = (t, .done n)) :
    Lands s (s.beforeWrite peers path data offset) t path data offset ↔
      ServesInPlace s (s.beforeWrite peers path data offset) path data offset := by
  obtain ⟨file, hserves, hcontent⟩ := doWrite_done h
  generalize s.beforeWrite peers path data offset = c at hcontent ⊢
  have hsame : ∀ ino, Function.update c file.ino
        ((c file.ino).write (position c file offset) data) =
          Function.update c ino ((c ino).write offset data) ↔
      if ino = file.ino then file.append = false ∨ data = [] ∨ offset = (c ino).size
      else (c file.ino).write (position c file offset) data = c file.ino ∧
        (c ino).write offset data = c ino := by
    intro ino
    by_cases hino : ino = file.ino
    · subst hino
      rw [if_pos rfl, ← write_position_iff]
      exact (Function.update_injective c file.ino).eq_iff
    · rw [if_neg hino]
      exact update_eq_update_iff hino _ _
  unfold Lands ServesInPlace
  rw [hcontent]
  constructor
  · rintro ⟨ino, hnode, heq⟩
    exact ⟨file, ino, hserves, hnode, (hsame ino).mp heq⟩
  · rintro ⟨file', ino, hserves', hnode, hplace⟩
    obtain rfl := hserves.unique hserves'
    exact ⟨ino, hnode, (hsame ino).mpr hplace⟩

/-! ### Runs -/

/-- A new descriptor is not opened for appending, and no name is changed behind the cache. -/
def PlainOpens (s : IoProxy β) (a : Peers × Request) : Prop :=
  Undisturbed s a ∧ OpensWith (fun append => append = false) s a

/-- In a coherent cache without descriptors for appending every path is served by its own file. -/
theorem servesInPlace_of_coherentIn {s : IoProxy β}
    (hs : CoherentIn (Appends fun append => append = false) s)
    {path : PathName} {file : OpenFile} (h : s.Serves path file) (c : Nat → ByteFile)
    (data : List UInt8) (offset : Nat) : ServesInPlace s c path data offset := by
  have hown : s.k.tree.node path = some (.file file.ino) ∧ file.append = false := by
    unfold Serves at h
    cases hp : s.fdm.fds.lookup path with
    | none =>
        simp only [hp] at h
        exact h
    | some fd =>
        simp only [hp] at h
        obtain ⟨file', hfile', hnode, happend⟩ := hs path fd hp
        obtain rfl := Option.some.inj (h.symm.trans hfile')
        exact ⟨hnode, happend⟩
  refine ⟨file, file.ino, h, hown.1, ?_⟩
  rw [if_pos rfl]
  exact Or.inl hown.2

/-- After any history of requests a successful write lands at its offset exactly if the open file
that serves its path puts it there; and it does so along every run that opens no new descriptor for
appending and changes no name of a cached path. -/
theorem write_lands {s t u : IoProxy β} (hs : s.fdm.fds = ∅) (as : List (Peers × Request))
    (hrun : Machine.run handle s as = some t) {peers : Peers} {path : PathName} {data : List UInt8}
    {offset : Nat} {n : Int} (h : t.doOp peers (.write path data offset) = (u, .done n)) :
    (Lands t (t.beforeWrite peers path data offset) u path data offset ↔
        ServesInPlace t (t.beforeWrite peers path data offset) path data offset) ∧
      (Machine.Guarded handle PlainOpens s as →
        Lands t (t.beforeWrite peers path data offset) u path data offset) := by
  refine ⟨lands_iff h, fun hguard => (lands_iff h).mpr ?_⟩
  obtain ⟨file, hserves, _⟩ := doWrite_done h
  exact servesInPlace_of_coherentIn (coherentIn_run rfl hs hguard hrun) hserves _ data offset

/-- Two writes through a cached descriptor, the second one at the front of the file. -/
theorem write_lands_cached :
    ∃ t u, Machine.run handle (blank 499 : IoProxy Unit)
        [(noPeers, .create ["a"]), (noPeers, .open ["a"] oWronly),
          (noPeers, .write ["a"] [1] 0)] = some t ∧
      t.doOp noPeers (.write ["a"] [2] 0) = (u, .done 1) ∧
      Lands t (t.beforeWrite noPeers ["a"] [2] 0) u ["a"] [2] 0 := by
  obtain ⟨t, hrun⟩ : ∃ t, Machine.run handle (blank 499 : IoProxy Unit)
      [(noPeers, .create ["a"]), (noPeers, .open ["a"] oWronly), (noPeers, .write ["a"] [1] 0)] =
        some t := ⟨_, rfl⟩
  have hreply : (t.doOp noPeers (.write ["a"] [2] 0)).2 = .done 1 := by
    cases hrun
    decide
  have hwrite : t.doOp noPeers (.write ["a"] [2] 0) = (_, .done 1) := Prod.ext rfl hreply
  refine ⟨t, _, hrun, hwrite, (write_lands rfl _ hrun hwrite).2 ?_⟩
  refine ⟨⟨trivial, trivial⟩, fun _ _ => ⟨⟨trivial, fun _ => by decide⟩, fun _ _ => ?_⟩⟩
  exact ⟨⟨trivial, trivial⟩, fun _ _ => trivial⟩

/-- A client has opened the file for appending; another client's write to its front goes to the
end. -/
theorem appending_open_moves_write :
    ∃ t u, Machine.run handle (blank 499 : IoProxy Unit)
        [(noPeers, .create ["a"]), (noPeers, .open ["a"] (oWronly ||| oAppend)),
          (noPeers, .write ["a"] [1] 0)] = some t ∧
      t.doOp noPeers (.write ["a"] [2] 0) = (u, .done 1) ∧
      ¬ Lands t (t.beforeWrite noPeers ["a"] [2] 0) u ["a"] [2] 0 := by
  obtain ⟨t, hrun⟩ : ∃ t, Machine.run handle (blank 499 : IoProxy Unit)
      [(noPeers, .create ["a"]), (noPeers, .open ["a"] (oWronly ||| oAppend)),
        (noPeers, .write ["a"] [1] 0)] = some t := ⟨_, rfl⟩
  have hreply : (t.doOp noPeers (.write ["a"] [2] 0)).2 = .done 1 := by
    cases hrun
    decide
  refine ⟨t, _, hrun, Prod.ext rfl hreply, ?_⟩
  rw [beforeWrite_noPeers]
  rintro ⟨ino, hnode, hcontent⟩
  have hbyte : ((t.doOp noPeers (.write ["a"] [2] 0)).1.k.content 0).byte 0 = 1 := by
    cases hrun
    decide
  have hname : t.k.tree.node ["a"] = some (.file 0) := by
    cases hrun
    decide
  obtain rfl := Node.file.inj (Option.some.inj (hname.symm.trans hnode))
  rw [hcontent, Function.update_self, ByteFile.write_byte_of_inRange (by decide)] at hbyte
  exact absurd hbyte (by decide)

end Gvds.IoProxy
