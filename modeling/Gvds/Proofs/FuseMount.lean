/-
Module: Gvds.Proofs.FuseMount
Layer: Proofs
Purpose: From the FUSE call to the file and back: over any run of calls on a mount whose proxies keep
  descriptors in their caches, every call returns what it returns on plain file systems used by
  path, and leaves the same files, as long as no name of a cached path is moved or taken away.
Imports: Gvds.Client.FuseMount, Gvds.Proofs.PlainProxy
Trusted boundary: as Gvds.Client.FuseMount
Main exports: sysOpen_by_path, Mount.Follows, mount_acts_by_path, one_file_mounted
-/
import Gvds.Client.FuseMount
import Gvds.Proofs.PlainProxy

namespace Gvds

variable {β : Type*}

theorem SameFiles.trans {k₁ k₂ k₃ : Kernel β} (h : SameFiles k₁ k₂) (h' : SameFiles k₂ k₃) :
    SameFiles k₁ k₃ :=
  ⟨h.tree.trans h'.tree, h.content.trans h'.content, h.nextIno.trans h'.nextIno⟩

theorem SameFiles.rfl {k : Kernel β} : SameFiles k k := ⟨.refl _, .refl _, .refl _⟩

/-- Only the files of the plain counterpart matter. -/
theorem Refines.of_sameFiles {s : IoProxy β} {k k' : Kernel β} (h : Refines s k)
    (hfiles : SameFiles k k') : Refines s k' :=
  ⟨h.files.trans hfiles, h.coherent, h.handlers⟩

/-! ### Requests of the plain proxy -/

section Plain

variable {k : Kernel β} {p : PathName} {flags : BitVec 32}

/-- Flags of an open that neither makes a file nor asks for a directory nor appends. -/
def OpenFlags (flags : BitVec 32) : Prop :=
  hasFlag flags oCreat = false ∧ hasFlag flags oDirectory = false ∧ hasFlag flags oAppend = false

theorem OpenFlags.plain (h : OpenFlags flags) : PlainFlags flags :=
  ⟨by rw [h.1, Bool.false_and], h.2.1, h.2.2⟩

theorem openFlags_zero : OpenFlags 0#32 := by
  unfold OpenFlags
  decide

/-- The access mode that `do_op` adds is not one of them. -/
theorem OpenFlags.or_oRdwr (h : OpenFlags flags) : OpenFlags (flags ||| oRdwr) := by
  unfold OpenFlags
  rw [hasFlag_or_oRdwr (by decide), hasFlag_or_oRdwr (by decide), hasFlag_or_oRdwr (by decide)]
  exact h

theorem hasFlag_oCreat (h : OpenFlags flags) :
    hasFlag ((flags ||| oRdwr) &&& ~~~IoProxy.maskFlags) oCreat = false := by
  rw [hasFlag_mask_or (by decide) (by decide)]
  exact h.1

/-- Such an open of a path that names no file fails as any use of the path does. -/
theorem sysOpen_of_none (h : OpenFlags flags) (hnode : k.tree.node p = none) :
    k.sysOpen p ((flags ||| oRdwr) &&& ~~~IoProxy.maskFlags) = .error (k.missing p) := by
  have hcreat := hasFlag_oCreat h
  unfold Kernel.sysOpen
  rw [hnode]
  cases p with
  | nil => rfl
  | cons x d =>
      simp only [hcreat, Bool.false_eq_true, if_false]
      split_ifs with hd
      · rw [Kernel.missing, hd]
      · rfl

theorem sysOpen_of_dir (h : OpenFlags flags) (hnode : k.tree.node p = some .dir) :
    k.sysOpen p ((flags ||| oRdwr) &&& ~~~IoProxy.maskFlags) = .error .eisdir := by
  have hcreat := hasFlag_oCreat h
  unfold Kernel.sysOpen
  rw [hnode]
  simp only [hcreat, Bool.false_and, Bool.false_eq_true, if_false]

/-- To open the file of a path, use it and close it is to use it by path, if the use through a
descriptor is one of the file. -/
theorem plain_withFile (h : OpenFlags flags) {use : Kernel β → Nat → Kernel β × Reply}
    {use' : Nat → Kernel β × FuseResult} {finish : Reply → FuseResult}
    (hfailed : ∀ e, finish (.failed e) = PlainMount.fail e)
    (huse : ∀ ino k' fd, k'.OpenOn fd ino →
      SameFiles k' (if hasFlag flags oTrunc then k.setContent ino ByteFile.empty else k) →
      SameFiles (use k' fd).1 (use' ino).1 ∧ finish (use k' fd).2 = (use' ino).2) :
    SameFiles (PlainProxy.withFile k p (flags ||| oRdwr) .failed use).1
        (PlainMount.withFile k p use').1 ∧
      finish (PlainProxy.withFile k p (flags ||| oRdwr) .failed use).2 =
        (PlainMount.withFile k p use').2 := by
  unfold PlainProxy.withFile PlainMount.withFile
  cases hnode : k.tree.node p with
  | none =>
      rw [sysOpen_of_none h hnode]
      exact ⟨.rfl, hfailed _⟩
  | some n =>
      cases n with
      | dir =>
          rw [sysOpen_of_dir h hnode]
          exact ⟨.rfl, hfailed _⟩
      | file ino =>
          rw [sysOpen_of_plain h.plain hnode]
          have hopen : ((if hasFlag flags oTrunc then k.setContent ino ByteFile.empty
              else k).allocFd ⟨ino, false⟩).OpenOn k.fdTable.firstFree ino := by
            have htable : (if hasFlag flags oTrunc then k.setContent ino ByteFile.empty
                else k).fdTable = k.fdTable := by split <;> rfl
            rw [Kernel.OpenOn, Kernel.allocFd_fdTable, htable]
            exact SlotTable.get_alloc_self ..
          obtain ⟨hfiles, hresult⟩ := huse ino _ _ hopen ⟨.refl _, .refl _, .refl _⟩
          exact ⟨⟨hfiles.tree, hfiles.content, hfiles.nextIno⟩, hresult⟩

/-! ### One lemma for each request -/

theorem Errno.number_pos (e : Errno) : 0 < e.number := by cases e <;> decide

/-- Every call reports an error number as it is. -/
theorem FileCall.finish_failed (c : FileCall) (e : Errno) :
    c.finish (.failed e) = PlainMount.fail e := by
  have hpos := e.number_pos
  cases c with
  | «open» path flags =>
      have hneg : ¬ Reply.errCode (.failed e) > 0 := by
        simp only [Reply.errCode]
        omega
      rw [FileCall.finish, if_neg hneg]
      rfl
  | read path size offset =>
      have hneg : Reply.errCode (.failed e) ≤ 0 := by
        simp only [Reply.errCode]
        omega
      rw [FileCall.finish, if_pos hneg]
      rfl
  | _ => rfl

/-- An open that succeeds returns 0, whatever its descriptor. -/
theorem FileCall.finish_open (path : String) (fd : Nat) :
    (FileCall.open path flags).finish (.done fd) = ⟨0, []⟩ := by
  cases fd with
  | zero => rfl
  | succ fd =>
      have hpos : Reply.errCode (.done (fd + 1 : Nat)) > 0 := by
        simp only [Reply.errCode]
        omega
      rw [FileCall.finish, if_pos hpos]

/-- A read puts the bytes of the reply into the buffer. -/
theorem FileCall.finish_read (path : String) (size offset : BitVec 64) (bytes : List UInt8) :
    (FileCall.read path size offset).finish (.data bytes) = ⟨bytes.length, bytes⟩ := by
  cases bytes with
  | nil => rfl
  | cons b bytes =>
      have hpos : ¬ Reply.errCode (.data (b :: bytes)) ≤ 0 := by
        simp only [Reply.errCode, List.length_cons]
        omega
      simp only [FileCall.finish, if_neg hpos]
      simp [Reply.errCode, Reply.bytes]

theorem plain_open (h : OpenFlags flags) (path : String) :
    SameFiles (PlainProxy.doOpen k p (flags ||| oRdwr)).1 (PlainMount.openFile flags k p).1 ∧
      (FileCall.open path flags).finish (PlainProxy.doOpen k p (flags ||| oRdwr)).2 =
        (PlainMount.openFile flags k p).2 := by
  refine plain_withFile h.or_oRdwr (FileCall.finish_failed _) fun ino k' fd _ hfiles => ?_
  rw [hasFlag_or_oRdwr (by decide)] at hfiles
  exact ⟨hfiles, FileCall.finish_open path fd⟩

theorem plain_read (path : String) (size offset : BitVec 64) :
    SameFiles (PlainProxy.doRead k noPeers p offset.toNat size.toNat).1
        (PlainMount.readFile size.toNat offset.toNat k p).1 ∧
      (FileCall.read path size offset).finish
          (PlainProxy.doRead k noPeers p offset.toNat size.toNat).2 =
        (PlainMount.readFile size.toNat offset.toNat k p).2 := by
  have hrdwr : oRdwr = 0#32 ||| oRdwr := by decide
  unfold PlainProxy.doRead
  rw [hrdwr]
  refine plain_withFile openFlags_zero (FileCall.finish_failed _) fun ino k' fd hopen hfiles => ?_
  have htrunc : hasFlag 0#32 oTrunc = false := by decide
  simp only [htrunc, Bool.false_eq_true, if_false] at hfiles
  simp only [PlainProxy.sync, noPeers, List.foldl_nil, Kernel.sysPread]
  rw [hopen, hfiles.content]
  split_ifs
  · exact ⟨hfiles, FileCall.finish_read path size offset _⟩
  · exact ⟨hfiles, FileCall.finish_failed _ _⟩

theorem plain_write (path : String) (buf data : List UInt8) (size offset : BitVec 64) (off : Nat) :
    SameFiles (PlainProxy.doWrite k noPeers p data off).1 (PlainMount.writeFile data off k p).1 ∧
      (FileCall.write path buf size offset).finish (PlainProxy.doWrite k noPeers p data off).2 =
        (PlainMount.writeFile data off k p).2 := by
  have hrdwr : oRdwr = 0#32 ||| oRdwr := by decide
  unfold PlainProxy.doWrite
  rw [hrdwr]
  refine plain_withFile openFlags_zero (FileCall.finish_failed _) fun ino k' fd hopen hfiles => ?_
  have htrunc : hasFlag 0#32 oTrunc = false := by decide
  have hsync : PlainProxy.syncEnds noPeers p k' fd off data.length = k' := by
    simp [PlainProxy.syncEnds, PlainProxy.sync, noPeers]
  simp only [htrunc, Bool.false_eq_true, if_false] at hfiles
  simp only [hsync, Kernel.sysPwrite]
  rw [hopen, hfiles.content]
  simp only [Bool.false_eq_true, if_false]
  split_ifs
  · exact ⟨hfiles.setContent ino _, rfl⟩
  · exact ⟨hfiles, FileCall.finish_failed _ _⟩

theorem plain_create (path : String) (mode : BitVec 32) :
    SameFiles (PlainProxy.doOp k noPeers (.create p)).1 (PlainMount.createFile k p).1 ∧
      (FileCall.create path mode).finish (PlainProxy.doOp k noPeers (.create p)).2 =
        (PlainMount.createFile k p).2 := by
  have hexcl : hasFlag (oCreat ||| oSync) oExcl = false := by decide
  have hcreat : hasFlag (oCreat ||| oSync) oCreat = true := by decide
  have hdirectory : hasFlag (oCreat ||| oSync) oDirectory = false := by decide
  have htrunc : hasFlag (oCreat ||| oSync) oTrunc = false := by decide
  unfold PlainProxy.doOp PlainProxy.create PlainMount.createFile Kernel.sysOpen
  simp only [hexcl, hcreat, hdirectory, htrunc, Bool.and_false, Bool.false_eq_true, if_false,
    if_true]
  cases hnode : k.tree.node p with
  | some n =>
      cases n with
      | dir => exact ⟨.rfl, rfl⟩
      | file ino => exact ⟨⟨.refl _, .refl _, .refl _⟩, rfl⟩
  | none =>
      cases p with
      | nil => exact ⟨.rfl, rfl⟩
      | cons x d =>
          simp only
          split_ifs
          · exact ⟨⟨.refl _, .refl _, .refl _⟩, rfl⟩
          · exact ⟨.rfl, rfl⟩

theorem plain_unlink (path : String) :
    SameFiles (PlainProxy.doOp k noPeers (.unlink p)).1 (PlainMount.removeFile k p).1 ∧
      (FileCall.unlink path).finish (PlainProxy.doOp k noPeers (.unlink p)).2 =
        (PlainMount.removeFile k p).2 := by
  simp only [PlainProxy.doOp, PlainProxy.remove, PlainMount.removeFile]
  cases k.sysUnlink p with
  | error e => exact ⟨.rfl, rfl⟩
  | ok k' => exact ⟨.rfl, rfl⟩

/-- A system call by path is one of the plain proxy. -/
theorem plain_call (r : Except Errno (Kernel β)) {c : FileCall}
    (hdone : c.finish (.done 0) = ⟨0, []⟩) :
    SameFiles (PlainProxy.withCall k r).1 (PlainMount.byPath (-·.number) k r).1 ∧
      c.finish (PlainProxy.withCall k r).2 = (PlainMount.byPath (-·.number) k r).2 := by
  cases r with
  | error e => exact ⟨.rfl, c.finish_failed e⟩
  | ok k' => exact ⟨.rfl, hdone⟩

end Plain

/-! ### One call -/

section Call

variable {s : String → IoProxy β} {k : String → Kernel β} {a : Attempt}

/-- The call means the same to a file system used by path: an open is with plain flags, and no name
of a path whose descriptor is cached is moved or taken away behind the back of the cache. -/
def Mount.Follows (s : String → IoProxy β) (a : Attempt) : Prop :=
  (∀ path flags, a.call = .open path flags → OpenFlags flags) ∧
    ∀ request iop r, a.call.run a.env = .submit request →
      (a.env.getMapping a.call.path).1 = some iop → (dispatch request).toRequest = some r →
      IoProxy.Undisturbed (s iop) (noPeers, r)

/-- If the call goes on as `step`, then it has the outcome `out`. -/
def Acts (s : String → IoProxy β) (k : String → Kernel β) (a : Attempt) (step : ClientStep)
    (out : (String → Kernel β) × FuseResult) : Prop :=
  a.call.run a.env = step →
    ∃ t, Mount.call s a = some (t, out.2) ∧ ∀ iop, Refines (t iop) (out.1 iop)

theorem acts_done (h : ∀ iop, Refines (s iop) (k iop)) (retstat : Int) :
    Acts s k a (.done retstat) (k, ⟨retstat, []⟩) := by
  intro hrun
  refine ⟨s, ?_, h⟩
  rw [Mount.call, hrun]

/-- A path outside the spaces is refused. -/
theorem acts_inside (h : ∀ iop, Refines (s iop) (k iop)) {path : String} {step : ClientStep}
    {out : (String → Kernel β) × FuseResult} (hstep : Acts s k a step out) :
    Acts s k a (ClientEnv.insideSpace ePerm path step) (PlainMount.inside k path out) := by
  unfold ClientEnv.insideSpace PlainMount.inside
  split_ifs
  · exact acts_done h _
  · exact hstep

/-- A path that no IO proxy serves is refused. -/
theorem acts_withIop (h : ∀ iop, Refines (s iop) (k iop)) {path : String}
    {step : String → ClientStep} {use : Kernel β → PathName → Kernel β × FuseResult}
    (hstep : ∀ iop rpath, a.env.getMapping path = (some iop, rpath) →
      Acts s k a (step rpath) (PlainMount.onProxy a.delivery k iop rpath use)) :
    Acts s k a (a.env.withIop eNoent path step) (PlainMount.onPath a k path use) := by
  unfold ClientEnv.withIop PlainMount.onPath
  rcases hmap : a.env.getMapping path with ⟨_ | iop, rpath⟩
  · exact acts_done h _
  · exact hstep iop rpath hmap

/-- Of two kernels that are updated at one proxy. -/
theorem refines_update (h : ∀ iop, Refines (s iop) (k iop)) {iop : String} {t : IoProxy β}
    {k' : Kernel β} (ht : Refines t k') (i : String) :
    Refines (Function.update s iop t i) (Function.update k iop k' i) := by
  by_cases hi : i = iop
  · subst hi
    rw [Function.update_self, Function.update_self]
    exact ht
  · rw [Function.update_of_ne hi, Function.update_of_ne hi]
    exact h i

/-- A request that reaches its proxy is a use of the file system there, if it is one for the plain
proxy. -/
theorem acts_submit (h : ∀ iop, Refines (s iop) (k iop)) (hfollows : Mount.Follows s a)
    {iop rpath : String} (hiop : (a.env.getMapping a.call.path).1 = some iop) {request : OpRequest}
    {r : Request} (hr : (dispatch request).toRequest = some r) (hopens : PlainOpens r)
    (hfinish : ∀ p mode, r = .open p mode → ∀ fd fd' : Nat,
      a.call.finish (.done fd) = a.call.finish (.done fd'))
    {use : Kernel β → PathName → Kernel β × FuseResult}
    (hplain : SameFiles (PlainProxy.doOp (k iop) noPeers r).1
        (use (k iop) (componentsOf rpath)).1 ∧
      a.call.finish (PlainProxy.doOp (k iop) noPeers r).2 =
        (use (k iop) (componentsOf rpath)).2) :
    Acts s k a (.submit request) (PlainMount.onProxy a.delivery k iop rpath use) := by
  intro hrun
  obtain ⟨hrefines, hagree⟩ :=
    refines_doOp (h iop) (hfollows.2 request iop r hrun hiop hr) hopens
  have hnext := hrefines.of_sameFiles hplain.1
  have hresult : a.call.finish ((s iop).doOp noPeers r).2 =
      (use (k iop) (componentsOf rpath)).2 := by
    rw [← hplain.2]
    cases r with
    | «open» p mode =>
        rcases hagree with hsame | ⟨fd, fd', hfd, hfd'⟩
        · rw [Answer.reply.inj hsame]
        · rw [Answer.reply.inj hfd, Answer.reply.inj hfd']
          exact hfinish p mode rfl fd fd'
    | _ => exact congrArg a.call.finish (Answer.reply.inj hagree)
  unfold Mount.call PlainMount.onProxy
  rw [hrun]
  simp only [hiop, hr, Option.bind_some, Option.map_some]
  cases a.delivery with
  | answered => exact ⟨_, by rw [hresult], refines_update h hnext⟩
  | lost => exact ⟨s, rfl, h⟩
  | unheard => exact ⟨_, rfl, refines_update h hnext⟩

/-- A call on the mount is a call on the file systems. -/
theorem mount_call (h : ∀ iop, Refines (s iop) (k iop)) (hfollows : Mount.Follows s a) :
    ∃ t, Mount.call s a = some (t, (PlainMount.call k a).2) ∧
      ∀ iop, Refines (t iop) ((PlainMount.call k a).1 iop) := by
  obtain ⟨env, c, delivery⟩ := a
  have hacts : Acts s k ⟨env, c, delivery⟩ (c.run env) (PlainMount.call k ⟨env, c, delivery⟩) := by
    cases c with
    | truncate path size =>
        refine acts_withIop h fun iop rpath hmap => ?_
        exact acts_submit h hfollows (congrArg Prod.fst hmap) (r := .truncate _ 0) rfl trivial
          (by simp) (plain_call _ rfl)
    | rename path newpath flags =>
        refine acts_inside h ?_
        dsimp only
        rcases hmap : env.getMapping path with ⟨_ | siop, srpath⟩ <;>
          rcases hmap' : env.getMapping newpath with ⟨_ | diop, drpath⟩
        · exact acts_done h _
        · exact acts_done h _
        · exact acts_done h _
        · dsimp only
          split_ifs
          · exact acts_done h _
          · exact acts_submit h hfollows (congrArg Prod.fst hmap) (r := .rename _ _) rfl trivial
              (by simp) (plain_call _ rfl)
    | «open» path flags =>
        simp only [FileCall.run, ClientEnv.gvdsfsOpen, PlainMount.call]
        split_ifs
        · exact acts_done h _
        · exact acts_done h _
        · refine acts_withIop h fun iop rpath hmap => ?_
          have hflags := hfollows.1 path flags rfl
          exact acts_submit h hfollows (congrArg Prod.fst hmap) (r := .open _ _) rfl
            hflags.or_oRdwr.plain
            (fun _ _ _ fd fd' => by rw [FileCall.finish_open, FileCall.finish_open])
            (plain_open hflags path)
    | create path mode =>
        refine acts_inside h (acts_withIop h fun iop rpath hmap => ?_)
        exact acts_submit h hfollows (congrArg Prod.fst hmap) (r := .create _) rfl trivial
          (by simp) (plain_create path mode)
    | mkdir path mode =>
        refine acts_inside h (acts_withIop h fun iop rpath hmap => ?_)
        exact acts_submit h hfollows (congrArg Prod.fst hmap) (r := .mkdir _) rfl trivial
          (by simp) (plain_call _ rfl)
    | unlink path =>
        refine acts_withIop h fun iop rpath hmap => ?_
        exact acts_submit h hfollows (congrArg Prod.fst hmap) (r := .unlink _) rfl trivial
          (by simp) (plain_unlink path)
    | rmdir path =>
        refine acts_inside h (acts_withIop h fun iop rpath hmap => ?_)
        exact acts_submit h hfollows (congrArg Prod.fst hmap) (r := .rmdir _) rfl trivial
          (by simp) (plain_call _ rfl)
    | read path size offset =>
        refine acts_withIop h fun iop rpath hmap => ?_
        exact acts_submit h hfollows (congrArg Prod.fst hmap) (r := .read _ _ _) rfl trivial
          (by simp) (plain_read path size offset)
    | write path buf size offset =>
        refine acts_withIop h fun iop rpath hmap => ?_
        have hwrite : (dispatch ((((OpRequest.make .write rpath).setIoSize size).setIoOffset
            offset).setData buf size)).toRequest =
              some (.write (componentsOf rpath) (buf.take size.toNat) offset.toNat) := by
          simp [dispatch, ServerCall.toRequest, OpRequest.make, OpRequest.setIoSize,
            OpRequest.setIoOffset, OpRequest.setData, OpRequest.ioParam]
        exact acts_submit h hfollows (congrArg Prod.fst hmap) hwrite trivial (by simp)
          (plain_write path buf _ size offset _)
  exact hacts rfl

end Call

/-! ### Runs -/

/-- A step of a run of calls. -/
def Mount.next (s : String → IoProxy β) (a : Attempt) : Option (String → IoProxy β) :=
  (Mount.call s a).map Prod.fst

theorem mount_callAll {s : String → IoProxy β} {k : String → Kernel β}
    (h : ∀ iop, Refines (s iop) (k iop)) {as : List Attempt}
    (hguard : Machine.Guarded Mount.next Mount.Follows s as) :
    ∃ t, Mount.callAll s as = some (t, (PlainMount.callAll k as).2) ∧
      ∀ iop, Refines (t iop) ((PlainMount.callAll k as).1 iop) := by
  induction as generalizing s k with
  | nil => exact ⟨s, rfl, h⟩
  | cons a as ih =>
      obtain ⟨t, hcall, ht⟩ := mount_call h hguard.1
      have hnext : Mount.next s a = some t := by rw [Mount.next, hcall]; rfl
      obtain ⟨u, hall, hu⟩ := ih ht (hguard.2 t hnext)
      refine ⟨u, ?_, hu⟩
      rw [Mount.callAll, hcall, Option.bind_some, hall]
      rfl

/-- Over proxies that start without descriptors, calls on the mount return what they return on file
systems used by path, and leave the same files at every proxy. -/
theorem mount_acts_by_path {s : String → IoProxy β} (hfds : ∀ iop, (s iop).fdm.fds = ∅)
    (hhandlers : ∀ iop fd, (s iop).fdm.file_handlers fd = none) (as : List Attempt)
    (hguard : Machine.Guarded Mount.next Mount.Follows s as) :
    ∃ t, Mount.callAll s as = some (t, (PlainMount.callAll (fun iop => (s iop).k) as).2) ∧
      ∀ iop, SameFiles (t iop).k ((PlainMount.callAll (fun iop => (s iop).k) as).1 iop) := by
  have hstart : ∀ iop, Refines (s iop) (s iop).k := fun iop => by
    refine ⟨.rfl, fun p fd hp => ?_, fun fd handler hfd => ?_⟩
    · rw [hfds] at hp
      cases hp
    · rw [hhandlers] at hfd
      cases hfd
  obtain ⟨t, hall, ht⟩ := mount_callAll hstart hguard
  exact ⟨t, hall, fun iop => (ht iop).files⟩

end Gvds
