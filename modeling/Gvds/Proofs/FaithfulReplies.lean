/-
Module: Gvds.Proofs.FaithfulReplies
Layer: Proofs
Purpose: When the error code of a reply is negative iff a call of its operation has failed, and then
  minus the error number of the first such call, over all outcomes of all calls. It is so for every
  operation, but for certain failures of open, create, fallocate, mkdir, rmdir, readdir and unlink.
  The replicated queue gets the operations with no negative code.
Imports: Gvds.IoProxy.OpOutcomes
Trusted boundary: as Gvds.IoProxy.OpOutcomes
Main exports: Sound, Covered, Replicates, Faithful, Reports, faithful_iff_reports,
  missing_file_unlinked_with_eperm
-/
import Gvds.IoProxy.OpOutcomes

namespace Gvds.OpOutcomes

open DataDirectory (Path DataPath EntryName NodeType join spacePath)
open ReplicaQueue (route)

/-! ### Single calls -/

section Calls

variable {α β : Type} {os : Outcomes} {p : Process} {reply : OpReply}

theorem bind_apply (x : StateM Process α) (f : α → StateM Process β) (p : Process) :
    (x >>= f) p = f (x p).1 (x p).2 := rfl

theorem get_apply (p : Process) : (get : StateM Process Process) p = (p, p) := rfl

theorem pure_apply (a : α) (p : Process) : (pure a : StateM Process α) p = (a, p) := rfl

theorem modify_apply (f : Process → Process) (p : Process) :
    (modify f : StateM Process PUnit) p = (⟨⟩, f p) := rfl

theorem sys_ok {c : SysCall β} {b : β} (h : os β p.calls c = .ok b) :
    sys os c p = (some b, p.count) := by
  simp [sys, h]

theorem sys_error {c : SysCall β} {e : ErrorNumber} (h : os β p.calls c = .error e) :
    sys os c p = (none, p.count.fail c.own e) := by
  simp [sys, h]

/-- A call that the operation is not made of is not taken for its failure. -/
theorem sys_failed {c : SysCall β} (hown : c.own = false) : (sys os c p).2.failed = p.failed := by
  cases h : os β p.calls c with
  | ok b =>
      rw [sys_ok h]
      rfl
  | error e =>
      rw [sys_error h, hown]
      rfl

theorem sys_calls {c : SysCall β} : (sys os c p).2.calls = p.calls + 1 := by
  cases h : os β p.calls c with
  | ok b =>
      rw [sys_ok h]
      rfl
  | error e =>
      rw [sys_error h]
      rfl

/-! ### Sound results -/

/-- The error code is negative iff a call has failed, and then it is its error number. -/
def Sound (result : OpReply × Process) : Prop :=
  (result.1.err_code < 0 ↔ result.2.failed.isSome) ∧
    ∀ e, result.2.failed = some e → result.1.err_code = -(e.val : Int)

theorem sound_of_failed {result : OpReply × Process} {e : ErrorNumber}
    (h : result.2.failed = some e) : Sound result ↔ result.1.err_code = -(e.val : Int) := by
  have hpos := e.property.1
  unfold Sound
  rw [h]
  constructor
  · rintro ⟨-, hcode⟩
    exact hcode e rfl
  · intro hcode
    refine ⟨iff_of_true (by omega) rfl, fun e' he' => ?_⟩
    rw [← Option.some.inj he']
    exact hcode

theorem sound_of_none {result : OpReply × Process} (h : result.2.failed = none) :
    Sound result ↔ 0 ≤ result.1.err_code := by
  unfold Sound
  rw [h]
  constructor
  · rintro ⟨hneg, -⟩
    by_contra hlt
    exact absurd (hneg.mp (by omega)) (by decide)
  · intro hle
    refine ⟨iff_of_false (by omega) (by decide), fun e he => ?_⟩
    cases he

/-- After a failure no reply of 0 is right. -/
theorem not_sound_of_zero {result : OpReply × Process} {e : ErrorNumber}
    (h : result.2.failed = some e) (hcode : result.1.err_code = 0) : ¬ Sound result := by
  have hpos := e.property.1
  rw [sound_of_failed h, hcode]
  omega

theorem fail_failed (hnone : p.failed = none) (e : ErrorNumber) :
    (p.count.fail true e).failed = some e := by
  simp [Process.fail, Process.count, hnone]

/-- A call whose failure is reported at once. -/
theorem sound_orMinusErrno {c : SysCall β} {ok : β → OpReply} (hown : c.own = true)
    (hnone : p.failed = none) (hok : ∀ b, 0 ≤ (ok b).err_code) :
    Sound (orMinusErrno os c reply ok p) := by
  rw [orMinusErrno, bind_apply]
  cases h : os β p.calls c with
  | ok b =>
      rw [sys_ok h]
      exact (sound_of_none hnone).mpr (hok b)
  | error e =>
      rw [sys_error h, hown]
      exact (sound_of_failed (fail_failed hnone e)).mpr rfl

/-- A function that makes one call: where it fails, `ec` has the error number. -/
theorem errorCode_ok {c : SysCall Unit} {u : Unit} (h : os Unit p.calls c = .ok u) :
    errorCode os c p = (0, p.count) := by
  rw [errorCode, bind_apply, sys_ok h]
  rfl

theorem errorCode_error {c : SysCall Unit} {e : ErrorNumber} (h : os Unit p.calls c = .error e)
    (hown : c.own = true) : errorCode os c p = (e.val, p.count.fail true e) := by
  rw [errorCode, bind_apply, sys_error h, hown]
  rfl

theorem sound_errorCode {c : SysCall Unit} (hown : c.own = true) (hnone : p.failed = none) :
    Sound (withEc reply (errorCode os c) p) := by
  rw [withEc, bind_apply]
  cases h : os Unit p.calls c with
  | ok u =>
      rw [errorCode_ok h]
      exact (sound_of_none hnone).mpr (Int.le_refl 0)
  | error e =>
      rw [errorCode_error h hown]
      exact (sound_of_failed (fail_failed hnone e)).mpr rfl

/-- The same after a failure: only another one with the same number is right. -/
theorem sound_errorCode_iff {c : SysCall Unit} {e : ErrorNumber} (hown : c.own = true)
    (hfailed : p.failed = some e) :
    Sound (withEc reply (errorCode os c) p) ↔ os Unit p.calls c = .error e := by
  rw [withEc, bind_apply]
  cases h : os Unit p.calls c with
  | ok u =>
      rw [errorCode_ok h]
      exact iff_of_false (not_sound_of_zero hfailed rfl) fun heq => by cases heq
  | error e' =>
      have hkept : (p.count.fail true e').failed = some e := by
        simp [Process.fail, Process.count, hfailed]
      rw [errorCode_error h hown, pure_apply, sound_of_failed hkept, Except.error.injEq,
        Subtype.ext_iff]
      simp only
      omega

/-- `get_attr` of a path itself. -/
theorem sound_get_attr {c : SysCall Stat} {ok : Attr → OpReply} (hown : c.own = true)
    (hnone : p.failed = none) (hok : ∀ attr, 0 ≤ (ok attr).err_code) :
    Sound ((do
      match ← get_attr os c with
      | .error err => pure { reply with err_code := err }
      | .ok attr => pure (ok attr)) p) := by
  rw [bind_apply, get_attr, bind_apply]
  cases h : os Stat p.calls c with
  | ok st =>
      rw [sys_ok h]
      exact (sound_of_none hnone).mpr (hok _)
  | error e =>
      rw [sys_error h, hown]
      exact (sound_of_failed (fail_failed hnone e)).mpr rfl

/-! ### The descriptors -/

theorem checkAndExpire_failed (rounds : Nat) (p : Process) :
    (checkAndExpire os rounds p).2.failed = p.failed := by
  induction rounds generalizing p with
  | zero => rfl
  | succ rounds ih =>
      rw [checkAndExpire, bind_apply, get_apply]
      dsimp only
      cases p.fds.oldest with
      | none => rfl
      | some oldest => exact (ih _).trans (sys_failed rfl)

/-- `FdManager::open` of a cached path: only a truncation can fail. -/
theorem fdm_open_cached (os : Outcomes) (flags mode : BitVec 32) {path : Path} {fd : Nat}
    (h : p.fds.lookup path = some fd) :
    (fdm_open os path flags mode p).1 = fd ∧
      (fdm_open os path flags mode p).2.failed =
        if hasFlag flags oTrunc then (sys os (.ftruncate fd) p).2.failed else p.failed := by
  unfold fdm_open
  rw [bind_apply, get_apply]
  simp only [h]
  split
  · simp only [bind_apply, modify_apply, pure_apply, and_self]
  · simp only [bind_apply, modify_apply, pure_apply, and_self]

theorem fdm_open_error {path : Path} {flags mode : BitVec 32} {e : ErrorNumber}
    (h : p.fds.lookup path = none)
    (hopen : os Nat p.calls (.open path (flags &&& ~~~IoProxy.maskFlags) mode) = .error e) :
    fdm_open os path flags mode p = (-(e.val : Int), p.count.fail true e) := by
  unfold fdm_open
  rw [bind_apply, get_apply]
  simp only [h]
  rw [bind_apply, sys_error hopen]
  rfl

theorem fdm_open_new {path : Path} {flags mode : BitVec 32} {fd : Nat}
    (h : p.fds.lookup path = none)
    (hopen : os Nat p.calls (.open path (flags &&& ~~~IoProxy.maskFlags) mode) = .ok fd) :
    (fdm_open os path flags mode p).1 = fd ∧
      (fdm_open os path flags mode p).2.failed = p.failed := by
  unfold fdm_open
  rw [bind_apply, get_apply]
  simp only [h]
  rw [bind_apply, sys_ok hopen]
  exact ⟨rfl, checkAndExpire_failed _ _⟩

/-- A cached descriptor is closed, whatever comes of it. -/
theorem closeCached_spec (os : Outcomes) (path : Path) (p : Process) :
    (closeCached os path p).2.failed = p.failed ∧
      (closeCached os path p).2.calls = p.calls + if (p.fds.lookup path).isSome then 1 else 0 := by
  unfold closeCached
  rw [bind_apply, get_apply]
  cases h : p.fds.lookup path with
  | none => exact ⟨rfl, rfl⟩
  | some fd_old => exact ⟨sys_failed (p := { p with fds := p.fds.erase path }) rfl, sys_calls⟩

/-- The operations that go on with a descriptor, opened without a truncation. -/
theorem sound_of_open {path : Path} {flags mode : BitVec 32} {k : Int → StateM Process OpReply}
    (hnone : p.failed = none) (hflags : hasFlag flags oTrunc = false)
    (hk : ∀ fd q, 0 ≤ fd → q.failed = none → Sound (k fd q)) :
    Sound ((do
      let fd ← fdm_open os path flags mode
      if fd < 0 then pure { reply with err_code := fd } else k fd) p) := by
  rw [bind_apply]
  cases hcached : p.fds.lookup path with
  | some fd =>
      obtain ⟨hfd, hfailed⟩ := fdm_open_cached os flags mode hcached
      rw [if_neg (by simp [hflags]), hnone] at hfailed
      rw [hfd, if_neg (by omega)]
      exact hk fd _ (by omega) hfailed
  | none =>
      cases hopen : os Nat p.calls (.open path (flags &&& ~~~IoProxy.maskFlags) mode) with
      | error e =>
          have hpos := e.property.1
          rw [fdm_open_error hcached hopen, if_pos (by simp only; omega)]
          exact (sound_of_failed (fail_failed hnone e)).mpr rfl
      | ok fd =>
          obtain ⟨hfd, hfailed⟩ := fdm_open_new hcached hopen
          rw [hfd, if_neg (by omega)]
          exact hk fd _ (by omega) (hfailed.trans hnone)

/-! ### The operations with a condition -/

/-- `EPERM`, which is what -1 means. -/
def EPERM : Nat := 1

/-- An `open` that truncates a cached descriptor succeeds in it. -/
def OpenReports (os : Outcomes) (p : Process) (path : Path) (flags : BitVec 32) : Prop :=
  ∀ fd, p.fds.lookup path = some fd → hasFlag flags oTrunc →
    os Unit p.calls (.ftruncate fd) = .ok ()

theorem sound_open_iff {path : Path} {flags mode : BitVec 32} (hnone : p.failed = none) :
    Sound (withCode reply (fdm_open os path flags mode) p) ↔ OpenReports os p path flags := by
  rw [withCode, bind_apply]
  unfold OpenReports
  cases hcached : p.fds.lookup path with
  | some fd =>
      obtain ⟨hfd, hfailed⟩ := fdm_open_cached os flags mode hcached
      simp only [Option.some.injEq, forall_eq']
      by_cases htrunc : hasFlag flags oTrunc
      · rw [if_pos htrunc] at hfailed
        cases h : os Unit p.calls (.ftruncate fd) with
        | ok u =>
            rw [sys_ok h] at hfailed
            refine iff_of_true ((sound_of_none (hfailed.trans hnone)).mpr ?_) fun _ => rfl
            rw [hfd]
            exact Int.natCast_nonneg fd
        | error e =>
            rw [sys_error h] at hfailed
            refine iff_of_false ?_ fun hok => ?_
            · rw [sound_of_failed (hfailed.trans (fail_failed hnone e))]
              have hpos := e.property.1
              simp only [pure_apply, hfd]
              omega
            · cases hok htrunc
      · rw [if_neg htrunc] at hfailed
        refine iff_of_true ((sound_of_none (hfailed.trans hnone)).mpr ?_)
          fun h => absurd h htrunc
        rw [hfd]
        exact Int.natCast_nonneg fd
  | none =>
      refine iff_of_true ?_ fun fd hfd => by cases hfd
      cases hopen : os Nat p.calls (.open path (flags &&& ~~~IoProxy.maskFlags) mode) with
      | error e =>
          rw [fdm_open_error hcached hopen]
          exact (sound_of_failed (fail_failed hnone e)).mpr rfl
      | ok fd =>
          obtain ⟨hfd, hfailed⟩ := fdm_open_new hcached hopen
          refine (sound_of_none (hfailed.trans hnone)).mpr ?_
          rw [hfd]
          exact Int.natCast_nonneg fd

/-- A `create` that fails does so with `EPERM`. -/
def CreateReports (os : Outcomes) (p : Process) (path : Path) (mode : BitVec 32) : Prop :=
  ∀ e, os Nat p.calls (.open path (oCreat ||| oSync) mode) = .error e → e.val = EPERM

/-- A reply of -1 is right for `EPERM` only. -/
theorem sound_minus_one_iff {e : ErrorNumber} (h : p.failed = some e)
    (hcode : reply.err_code = -1) : Sound (reply, p) ↔ e.val = EPERM := by
  refine Iff.trans (sound_of_failed h) ?_
  change reply.err_code = -(e.val : Int) ↔ e.val = EPERM
  rw [hcode]
  unfold EPERM
  omega

theorem sound_create_iff {path : Path} {mode : BitVec 32} (hnone : p.failed = none) :
    Sound (withCode reply (fdm_create os path mode) p) ↔ CreateReports os p path mode := by
  rw [withCode, bind_apply, fdm_create, bind_apply]
  unfold CreateReports
  cases h : os Nat p.calls (.open path (oCreat ||| oSync) mode) with
  | error e =>
      rw [sys_error h]
      simp only [Except.error.injEq, forall_eq']
      exact sound_minus_one_iff (fail_failed hnone e) rfl
  | ok fd_new =>
      rw [sys_ok h]
      refine iff_of_true ?_ fun e he => by cases he
      have hclosed := (closeCached_spec os path p.count).1
      exact (sound_of_none ((sys_failed rfl).trans (hclosed.trans hnone))).mpr (Int.le_refl 0)

/-- An `unlink` that fails does so with `EPERM`. It comes after the `close` of a cached
descriptor. -/
def UnlinkReports (os : Outcomes) (p : Process) (path : Path) : Prop :=
  ∀ e, os Unit (p.calls + if (p.fds.lookup path).isSome then 1 else 0) (.unlink path) = .error e →
    e.val = EPERM

theorem sound_unlink_iff {path : Path} (hnone : p.failed = none) :
    Sound (withCode reply (fdm_remove os path) p) ↔ UnlinkReports os p path := by
  obtain ⟨hfailed, hcalls⟩ := closeCached_spec os path p
  rw [withCode, bind_apply, fdm_remove, bind_apply, bind_apply]
  unfold UnlinkReports
  rw [← hcalls]
  cases h : os Unit (closeCached os path p).2.calls (.unlink path) with
  | error e =>
      rw [sys_error h]
      simp only [Except.error.injEq, forall_eq']
      exact sound_minus_one_iff (fail_failed (hfailed.trans hnone) e) rfl
  | ok u =>
      rw [sys_ok h]
      refine iff_of_true ?_ fun e he => by cases he
      exact (sound_of_none (hfailed.trans hnone)).mpr (Int.le_refl 0)

/-- The descriptor of a `fallocate` is not 0, and its `open` fails with `EBADF` if it fails. -/
def FallocateReports (os : Outcomes) (p : Process) (path : Path) : Prop :=
  match p.fds.lookup path with
  | some fd => fd ≠ 0
  | none =>
      match os Nat p.calls
        (.open path ((oCreat ||| oRdwr) &&& ~~~IoProxy.maskFlags) 0o666#32) with
      | .ok fd => fd ≠ 0
      | .error e => e.val = EBADF

theorem sound_fallocate_iff {path : Path} {k : Int → StateM Process OpReply}
    (hnone : p.failed = none) (hk : ∀ fd q, q.failed = none → Sound (k fd q)) :
    Sound ((do
      let fd ← fdm_open os path (oCreat ||| oRdwr) 0o666#32
      if fd > 0 then k fd else pure { reply with err_code := -(EBADF : Int) }) p) ↔
      FallocateReports os p path := by
  have hcase : ∀ (fd : Nat) (q : Process), q.failed = none →
      (Sound ((if (fd : Int) > 0 then k fd
        else pure { reply with err_code := -(EBADF : Int) } : StateM Process OpReply) q) ↔
        fd ≠ 0) := by
    intro fd q hq
    by_cases hfd : fd = 0
    · rw [if_neg (by omega)]
      refine iff_of_false ?_ (not_not_intro hfd)
      rw [pure_apply, @sound_of_none (_, q) hq]
      exact (by decide : ¬ (0 : Int) ≤ -(EBADF : Int))
    · rw [if_pos (by omega)]
      exact iff_of_true (hk fd q hq) hfd
  rw [bind_apply]
  unfold FallocateReports
  cases hcached : p.fds.lookup path with
  | some fd =>
      obtain ⟨hfd, hfailed⟩ := fdm_open_cached os (oCreat ||| oRdwr) 0o666#32 hcached
      rw [if_neg (by decide), hnone] at hfailed
      rw [hfd]
      exact hcase fd _ hfailed
  | none =>
      cases hopen : os Nat p.calls
        (.open path ((oCreat ||| oRdwr) &&& ~~~IoProxy.maskFlags) 0o666#32) with
      | error e =>
          rw [fdm_open_error hcached hopen, if_neg (by simp only; omega), pure_apply,
            sound_of_failed (fail_failed hnone e)]
          simp only
          omega
      | ok fd =>
          obtain ⟨hfd, hfailed⟩ := fdm_open_new hcached hopen
          rw [hfd]
          exact hcase fd _ (hfailed.trans hnone)

/-- The path of a `mkdir` is not that of a directory already. -/
def MkdirReports (os : Outcomes) (p : Process) (path : Path) : Prop :=
  ∀ e, os Unit p.calls (.mkdir path) = .error e → e.val = EEXIST →
    os Bool (p.calls + 1) (.status path) ≠ .ok true

theorem sound_mkdir_iff {path : Path} (hnone : p.failed = none) :
    Sound (withEc reply (fs_create_directory os path) p) ↔ MkdirReports os p path := by
  rw [withEc, bind_apply, fs_create_directory, bind_apply]
  unfold MkdirReports
  cases h : os Unit p.calls (.mkdir path) with
  | ok u =>
      rw [errorCode_ok h]
      refine iff_of_true ?_ fun e he => by cases he
      exact (sound_of_none hnone).mpr (Int.le_refl 0)
  | error e =>
      rw [errorCode_error h rfl]
      simp only [Except.error.injEq, forall_eq']
      have hfirst := fail_failed hnone e
      have hpos := e.property.1
      by_cases hexist : e.val = EEXIST
      · rw [if_pos hexist, bind_apply]
        have hkept : (sys os (.status path) (p.count.fail true e)).2.failed = some e :=
          (sys_failed rfl).trans hfirst
        cases hstatus : os Bool (p.calls + 1) (.status path) with
        | error e' =>
            rw [sys_error hstatus] at hkept ⊢
            exact iff_of_true ((sound_of_failed hkept).mpr rfl) fun _ heq => by cases heq
        | ok isDirectory =>
            rw [sys_ok hstatus] at hkept ⊢
            cases isDirectory with
            | false =>
                exact iff_of_true ((sound_of_failed hkept).mpr rfl) fun _ heq => by cases heq
            | true => exact iff_of_false (not_sound_of_zero hkept rfl) fun hno => hno hexist rfl
      · rw [if_neg hexist]
        exact iff_of_true ((sound_of_failed hfirst).mpr rfl) fun heq => absurd heq hexist

/-- The path of an `rmdir` can be described. If its attributes alone cannot, `remove` fails for the
same reason. -/
def RmdirReports (os : Outcomes) (p : Process) (path : Path) : Prop :=
  ∀ e, os Unit p.calls (.lstat path) = .error e → e.val ≠ ENOENT ∧ e.val ≠ ENOTDIR ∧
    (e.val = EOVERFLOW → os Unit (p.calls + 1) (.remove path) = .error e)

theorem sound_rmdir_iff {path : Path} (hnone : p.failed = none) :
    Sound (withEc reply (fs_remove os path) p) ↔ RmdirReports os p path := by
  rw [withEc, bind_apply, fs_remove, bind_apply]
  unfold RmdirReports
  cases h : os Unit p.calls (.lstat path) with
  | ok u =>
      rw [errorCode_ok h]
      refine iff_of_true ?_ fun e he => by cases he
      exact sound_errorCode rfl hnone
  | error e =>
      rw [errorCode_error h rfl]
      simp only [Except.error.injEq, forall_eq']
      have hfirst := fail_failed hnone e
      have hpos := e.property.1
      by_cases hmissing : e.val = ENOENT ∨ e.val = ENOTDIR
      · rw [if_pos hmissing]
        refine iff_of_false (not_sound_of_zero hfirst rfl) fun hno => ?_
        rcases hmissing with heq | heq
        · exact hno.1 heq
        · exact hno.2.1 heq
      · obtain ⟨hnoent, hnotdir⟩ := not_or.mp hmissing
        rw [if_neg hmissing]
        by_cases hover : e.val = EOVERFLOW
        · rw [if_pos (.inr hover)]
          refine Iff.trans (sound_errorCode_iff rfl hfirst) ?_
          exact ⟨fun hsame => ⟨hnoent, hnotdir, fun _ => hsame⟩, fun hno => hno.2.2 hover⟩
        · rw [if_neg (by omega)]
          exact iff_of_true ((sound_of_failed hfirst).mpr rfl)
            ⟨hnoent, hnotdir, fun heq => absurd heq hover⟩

/-- The entries that cannot be described are left out, which is no failure. -/
theorem addEntry_spec (os : Outcomes) (path : Path) (filename : EntryName) (reply : OpReply)
    (p : Process) :
    (addEntry os path filename reply p).2.failed = p.failed ∧
      (addEntry os path filename reply p).1.err_code = reply.err_code := by
  rw [addEntry, bind_apply, get_attr, bind_apply]
  cases h : os Stat p.calls (.statEntry (join path filename.val)) with
  | ok st =>
      rw [sys_ok h]
      exact ⟨rfl, rfl⟩
  | error e =>
      rw [sys_error h]
      exact ⟨rfl, rfl⟩

/-- The loop over a directory takes an error for the end. By induction on the stream. -/
theorem addEntries_spec (os : Outcomes) (path : Path) (filename : EntryName) (dp : DirStream)
    (reply : OpReply) (p : Process) :
    (addEntries os path filename dp reply p).2.failed = p.failed.or dp.ending ∧
      (addEntries os path filename dp reply p).1.err_code = reply.err_code := by
  induction dp generalizing filename reply p with
  | ended err =>
      obtain ⟨hfailed, hcode⟩ := addEntry_spec os path filename reply p
      rw [addEntries, bind_apply, bind_apply]
      cases err with
      | none =>
          refine ⟨?_, hcode⟩
          rw [DirStream.ending, Option.or_none]
          exact hfailed
      | some e =>
          refine ⟨?_, hcode⟩
          rw [← hfailed]
          rfl
  | entry filename' next ih =>
      obtain ⟨hfailed, hcode⟩ := addEntry_spec os path filename reply p
      rw [addEntries, bind_apply]
      obtain ⟨hfailed', hcode'⟩ := ih filename' (addEntry os path filename reply p).1
        (addEntry os path filename reply p).2
      rw [hfailed', hcode', hfailed, hcode]
      exact ⟨rfl, rfl⟩

/-- What is in `errno` after a call. -/
def errnoAfter {β : Type} (errno : Nat) : Except ErrorNumber β → Nat
  | .ok _ => errno
  | .error e => e.val

theorem sys_errno (c : SysCall β) : (sys os c p).2.errno = errnoAfter p.errno (os β p.calls c) := by
  cases h : os β p.calls c with
  | ok b =>
      rw [sys_ok h]
      rfl
  | error e =>
      rw [sys_error h]
      rfl

/-- Where `opendir` or the first `readdir` fails, `closedir` leaves its error number in `errno`; at
the end of an empty directory there is 0; and no error ends the directory later. -/
def ReaddirReports (os : Outcomes) (p : Process) (path : Path) : Prop :=
  match os DirStream p.calls (.opendir path) with
  | .error e => errnoAfter e (os Unit (p.calls + 1) (.closedir none)) = e.val
  | .ok (.ended (some e)) =>
      errnoAfter e (os Unit (p.calls + 1) (.closedir (some (.ended (some e))))) = e.val
  | .ok (.ended none) =>
      errnoAfter p.errno (os Unit (p.calls + 1) (.closedir (some (.ended none)))) = 0
  | .ok (.entry _ next) => next.ending = none

/-- What is replied after `closedir`. -/
theorem sound_after_closedir {dp : Option DirStream} {e : ErrorNumber} (h : p.failed = some e) :
    Sound ((do
      let _ ← sys os (.closedir dp)
      let err ← minusErrno
      pure { reply with err_code := err }) p) ↔
      errnoAfter p.errno (os Unit p.calls (.closedir dp)) = e.val := by
  rw [bind_apply, bind_apply, pure_apply, sound_of_failed (e := e) ((sys_failed rfl).trans h)]
  change -((sys os (.closedir dp) p).2.errno : Int) = -(e.val : Int) ↔ _
  rw [sys_errno]
  omega

theorem sound_readdir_iff {path : Path} (hnone : p.failed = none) (hreply : reply.err_code = 0) :
    Sound (readDirectory os path reply p) ↔ ReaddirReports os p path := by
  rw [readDirectory, bind_apply]
  unfold ReaddirReports
  cases h : os DirStream p.calls (.opendir path) with
  | error e =>
      rw [sys_error h]
      exact sound_after_closedir (fail_failed hnone e)
  | ok dp =>
      rw [sys_ok h]
      simp only
      rw [bind_apply]
      cases dp with
      | ended err =>
          cases err with
          | some e =>
              have hfirst : (p.count.fail true e).failed = some e := fail_failed hnone e
              exact sound_after_closedir hfirst
          | none =>
              have hkept : (sys os (.closedir (some (.ended none))) p.count).2.failed = none :=
                (sys_failed rfl).trans hnone
              have hcode : (sys os (.closedir (some (.ended none))) p.count).2.errno =
                  errnoAfter p.count.errno (os Unit p.count.calls _) := sys_errno _
              refine (sound_of_none hkept).trans ?_
              change 0 ≤ -((sys os (.closedir (some (.ended none))) p.count).2.errno : Int) ↔
                errnoAfter p.count.errno (os Unit p.count.calls _) = 0
              rw [hcode]
              omega
      | entry filename next =>
          obtain ⟨hfailed, hcode⟩ := addEntries_spec os path filename next reply p.count
          have hclosedir : (sys os (.closedir (some (.entry filename next)))
              (addEntries os path filename next reply p.count).2).2.failed =
              (addEntries os path filename next reply p.count).2.failed := sys_failed rfl
          have hkept := hclosedir.trans hfailed
          have hsome : p.count.failed = none := hnone
          rw [hreply] at hcode
          rw [hsome, Option.none_or] at hkept
          change Sound ((addEntries os path filename next reply p.count).1, _) ↔ next.ending = none
          cases hend : next.ending with
          | none =>
              rw [hend] at hkept
              exact iff_of_true ((sound_of_none hkept).mpr hcode.ge) rfl
          | some e =>
              rw [hend] at hkept
              exact iff_of_false (not_sound_of_zero hkept hcode) fun hno => by cases hno

end Calls

/-! ### The replicated queue -/

section Requests

variable (os : Outcomes) (srv : Server)

/-- The request is one that is replicated, and the getxattr with this number finds two centers or
more. -/
def Replicates (r : OpRequest) (calls : Nat) : Prop :=
  r.filepath ≠ "" ∧
    (route r.type = .change ∧ r.extra = [] ∨ route r.type = .write ∨ route r.type = .default) ∧
    ∃ space_path cids, spacePath srv.data_path r.path = some space_path ∧
      os (List UInt8) calls (.centers space_path) = .ok cids ∧ 2 ≤ cids.length

variable {os srv}

theorem enqueue_iff {r : OpRequest} {err_code : Int} {p : Process} :
    (enqueue os srv r err_code p).2.m_new ≠ p.m_new ↔
      (∃ space_path cids, spacePath srv.data_path r.path = some space_path ∧
        os (List UInt8) p.calls (.centers space_path) = .ok cids ∧ 2 ≤ cids.length) ∧
      ¬ err_code < 0 := by
  unfold enqueue
  by_cases hneg : err_code < 0
  · rw [if_pos hneg]
    exact iff_of_false (fun hne => hne rfl) fun h => h.2 hneg
  · rw [if_neg hneg]
    cases hspace : spacePath srv.data_path r.path with
    | none =>
        refine iff_of_false (fun hne => hne rfl) ?_
        rintro ⟨⟨space_path, cids, hsome, -⟩, -⟩
        cases hsome
    | some space_path =>
        simp only [bind_apply]
        cases hcall : os (List UInt8) p.calls (.centers space_path) with
        | error e =>
            rw [sys_error hcall]
            refine iff_of_false (fun hne => hne rfl) ?_
            rintro ⟨⟨space_path', cids, hsome, hok, -⟩, -⟩
            rw [← Option.some.inj hsome, hcall] at hok
            cases hok
        | ok cids =>
            rw [sys_ok hcall]
            by_cases hshort : cids.length < 2
            · simp only [if_pos hshort]
              refine iff_of_false (fun hne => hne rfl) ?_
              rintro ⟨⟨space_path', cids', hsome, hok, htwo⟩, -⟩
              rw [← Option.some.inj hsome, hcall] at hok
              rw [← Except.ok.inj hok] at htwo
              omega
            · simp only [if_neg hshort]
              refine iff_of_true (fun heq => ?_)
                ⟨⟨space_path, cids, rfl, hcall, Nat.not_lt.mp hshort⟩, hneg⟩
              have hlen := congrArg List.length heq
              rw [modify_apply, List.length_append] at hlen
              simp [Process.count] at hlen

/-- A request is put on the queue iff it is replicated and its error code is not negative. -/
theorem handle_replica_async_iff {r : OpRequest} {err_code : Int} {p : Process} :
    (handle_replica_async os srv r err_code p).2.m_new ≠ p.m_new ↔
      Replicates os srv r p.calls ∧ ¬ err_code < 0 := by
  unfold handle_replica_async Replicates
  by_cases hpath : r.filepath = ""
  · rw [if_pos hpath]
    exact iff_of_false (fun hne => hne rfl) fun h => h.1.1 hpath
  · rw [if_neg hpath]
    cases hroute : route r.type with
    | readOnly => exact iff_of_false (fun hne => hne rfl) (by simp)
    | handled => exact iff_of_false (fun hne => hne rfl) (by simp)
    | write =>
        refine enqueue_iff.trans ?_
        simp only [ne_eq, hpath, not_false_eq_true, true_and, true_or, or_true]
        exact Iff.rfl
    | default =>
        refine enqueue_iff.trans ?_
        simp only [ne_eq, hpath, not_false_eq_true, true_and, or_true]
    | change =>
        by_cases hextra : r.extra = []
        · rw [if_neg (by simp [hextra])]
          refine enqueue_iff.trans ?_
          simp only [ne_eq, hpath, not_false_eq_true, true_and, hextra, true_or]
        · rw [if_pos (by simpa using hextra)]
          refine iff_of_false (fun hne => hne rfl) ?_
          simp [hextra]

/-! ### All operations -/

/-- The operations on files and directories. The attribute user.replicate.create makes something
else of a `setxattr`. -/
def Covered (r : OpRequest) : Prop :=
  r.type ∈ [.getattr, .rename, .utimens, .chmod, .truncate, .open, .create, .fallocate, .mkdir,
    .rmdir, .readdir, .read, .write, .unlink, .setxattr, .getxattr, .listxattr, .removexattr] ∧
    ¬ (r.type = .setxattr ∧ r.xattr_name = "user.replicate.create")

/-- The process before the first call of a request. -/
def Process.begin (p : Process) : Process := { p with calls := 0, failed := none }

variable (os srv)

/-- The reply to a request, and the process before `handle_replica_async`. -/
def performed (r : OpRequest) (p : Process) : OpReply × Process :=
  perform_op os srv r ⟨r.id, 0, .none, [], []⟩ p.begin

/-- The process after `handle_replica_async`. -/
def replicated (r : OpRequest) (p : Process) : Process :=
  (handle_replica_async os srv r (performed os srv r p).1.err_code (performed os srv r p).2).2

theorem do_op_eq (r : OpRequest) (p : Process) :
    do_op os srv r p.begin = ((performed os srv r p).1, replicated os srv r p) := rfl

/-- The error code of the reply is negative iff a call of the operation has failed, and then it is
the error number of the first such call; and a replicated request is queued iff no call has. -/
structure Faithful (r : OpRequest) (p : Process) : Prop where
  negative_iff : (performed os srv r p).1.err_code < 0 ↔ (performed os srv r p).2.failed.isSome
  errno_eq : ∀ e, (performed os srv r p).2.failed = some e →
    (performed os srv r p).1.err_code = -(e.val : Int)
  queued_iff : (replicated os srv r p).m_new ≠ (performed os srv r p).2.m_new ↔
    Replicates os srv r (performed os srv r p).2.calls ∧ (performed os srv r p).2.failed = none

/-- What the calls of the operations must not do, for the reply to be right. -/
def Reports (r : OpRequest) (p : Process) : Prop :=
  let path := srv.data_path.below r.path
  match r.type with
  | .open => OpenReports os p.begin path (r.mode ||| oRdwr)
  | .create => CreateReports os p.begin path r.mode
  | .fallocate => FallocateReports os p.begin path
  | .mkdir => MkdirReports os p.begin path
  | .rmdir => RmdirReports os p.begin path
  | .readdir => ReaddirReports os p.begin path
  | .unlink => UnlinkReports os p.begin path
  | _ => True

variable {os srv}

theorem faithful_iff_sound {r : OpRequest} {p : Process} :
    Faithful os srv r p ↔ Sound (performed os srv r p) := by
  constructor
  · intro h
    exact ⟨h.negative_iff, h.errno_eq⟩
  · intro h
    refine ⟨h.1, h.2, handle_replica_async_iff.trans ?_⟩
    rw [h.1, Option.not_isSome_iff_eq_none]

/-- The reply of each operation is sound iff its calls do as they must. -/
theorem sound_iff_reports {r : OpRequest} (hr : Covered r) (p : Process) :
    Sound (performed os srv r p) ↔ Reports os srv r p := by
  have hnone : p.begin.failed = none := rfl
  obtain ⟨⟨filepath, type, extra, param, mode, data⟩, id, size⟩ := r
  obtain ⟨hmem, hname⟩ := hr
  simp only [List.mem_cons, List.not_mem_nil, or_false] at hmem
  unfold performed
  rcases hmem with rfl | rfl | rfl | rfl | rfl | rfl | rfl | rfl | rfl | rfl | rfl | rfl | rfl |
    rfl | rfl | rfl | rfl | rfl
  -- getattr
  · exact iff_of_true (sound_get_attr rfl hnone fun _ => Int.le_refl 0) trivial
  -- rename, utimens, chmod, truncate
  · exact iff_of_true (sound_errorCode rfl hnone) trivial
  · exact iff_of_true (sound_orMinusErrno rfl hnone fun _ => Int.le_refl 0) trivial
  · exact iff_of_true (sound_errorCode rfl hnone) trivial
  · exact iff_of_true (sound_errorCode rfl hnone) trivial
  -- open, create, fallocate, mkdir, rmdir, readdir
  · exact sound_open_iff hnone
  · exact sound_create_iff hnone
  · exact sound_fallocate_iff hnone fun fd q hq =>
      sound_orMinusErrno rfl hq fun _ => Int.le_refl 0
  · exact sound_mkdir_iff hnone
  · exact sound_rmdir_iff hnone
  · exact sound_readdir_iff hnone rfl
  -- read, write
  · refine iff_of_true (sound_of_open hnone (by decide) fun fd q _ hq => ?_) trivial
    exact sound_orMinusErrno rfl ((sys_failed rfl).trans hq) fun ret => Int.natCast_nonneg ret.1
  · refine iff_of_true (sound_of_open hnone (by decide) fun fd q _ hq => ?_) trivial
    exact sound_orMinusErrno rfl ((sys_failed rfl).trans hq) fun ret => Int.natCast_nonneg ret
  -- unlink
  · exact sound_unlink_iff hnone
  -- setxattr, getxattr, listxattr, removexattr
  · refine iff_of_true ?_ trivial
    change Sound ((if _ = "user.replicate.create" then _ else _ : StateM Process OpReply) _)
    rw [if_neg fun heq => hname ⟨rfl, heq⟩]
    exact sound_orMinusErrno rfl hnone fun _ => Int.le_refl 0
  · exact iff_of_true (sound_orMinusErrno rfl hnone fun err => Int.natCast_nonneg err.1) trivial
  · exact iff_of_true (sound_orMinusErrno rfl hnone fun err => Int.natCast_nonneg err.1) trivial
  · exact iff_of_true (sound_orMinusErrno rfl hnone fun _ => Int.le_refl 0) trivial

/-- The errors of an operation are reported faithfully iff its calls do as they must. -/
theorem faithful_iff_reports (os : Outcomes) (srv : Server) (r : OpRequest) (p : Process)
    (hr : Covered r) : Faithful os srv r p ↔ Reports os srv r p :=
  faithful_iff_sound.trans (sound_iff_reports hr p)

end Requests

/-! ### A missing file -/

/-- Every call fails with `ENOENT`. -/
def nothingThere : Outcomes := fun _ _ _ => .error ⟨2, by decide⟩

/-- A server of the directory `/r`. -/
def serverOfR : Server where
  data_path := ⟨['/', 'r'], by decide, by decide⟩
  create_replicated_space := fun _ _ => pure 0

/-- A process that has opened nothing. -/
def idle : Process := ⟨0, ∅, 500, [], 0, none⟩

/-- The request for a file `f`. -/
def requestForF (type : ReplicaQueue.OpType) : OpRequest :=
  ⟨⟨"f", type, [], .notSet, 0, []⟩, 0, 0⟩

/-- `getattr` of a file that is not there. -/
theorem missing_file_examined :
    Faithful nothingThere serverOfR (requestForF .getattr) idle ↔
      Reports nothingThere serverOfR (requestForF .getattr) idle :=
  faithful_iff_reports _ _ _ _ ⟨by decide, by decide⟩

/-- `unlink` of a file that is not there: the reply says -1, which is `EPERM`. -/
theorem missing_file_unlinked_with_eperm :
    ¬ ∀ (os : Outcomes) (srv : Server) (r : OpRequest) (p : Process), Covered r →
      Faithful os srv r p := by
  intro hall
  have hfaithful := hall nothingThere serverOfR (requestForF .unlink) idle ⟨by decide, by decide⟩
  have hcode := hfaithful.errno_eq ⟨2, by decide⟩ rfl
  exact absurd hcode (by decide)

end Gvds.OpOutcomes
