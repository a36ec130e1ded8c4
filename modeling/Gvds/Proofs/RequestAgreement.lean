/-
Module: Gvds.Proofs.RequestAgreement
Layer: Proofs
Purpose: Whether the server does what a FUSE call asks for. Client and server agree on the encoding
  of every call but one: a truncation puts its length into the io_param, where the server does not
  look, so every truncation is one to nothing.
Imports: Gvds.Client.FuseCalls, Gvds.IoProxy.Dispatch
Trusted boundary: as Gvds.Common.OpProto and Gvds.Client.FuseCalls
Main exports: ClientEnv.Performs, FuseCall.Agreed, FuseCall.performs_iff
-/
import Gvds.Client.FuseCalls
import Gvds.IoProxy.Dispatch

namespace Gvds

/-- The path on the server. -/
def ClientEnv.remote (env : ClientEnv) (path : String) : String := (env.getMapping path).2

/-- The server call is the operation that the FUSE call asks for, on the remote path and with the
same arguments. The server sets the permission bits of a mode, and opens for reading and writing in
any case; an attribute of the name `user.replicate.create` asks for a replicated space at the
centers that its value lists. -/
def ClientEnv.Performs (env : ClientEnv) : FuseCall → ServerCall → Prop
  | .truncate path size, .resizeFile p len => p = env.remote path ∧ len = size
  | .rename path newpath _, .rename p q => p = env.remote path ∧ q = env.remote newpath
  | .utimens path _ mtime, .utimensat p _ t => p = env.remote path ∧ t = mtime
  | .chmod path mode, .permissions p perm => p = env.remote path ∧ perm = mode &&& permsMask
  | .open path flags, .fdmOpen p fl => p = env.remote path ∧ fl = flags ||| oRdwr
  | .create path mode, .fdmCreate p m => p = env.remote path ∧ m = mode
  | .unlink path, .fdmRemove p => p = env.remote path
  | .rmdir path, .remove p => p = env.remote path
  | .read path size offset, .pread p n off => p = env.remote path ∧ n = size ∧ off = offset
  | .write path buf size offset, .pwrite p data n off =>
      p = env.remote path ∧ data = buf.take size.toNat ∧ n = size ∧ off = offset
  | .setxattr path name value size flags, .setxattr p nm data n fl =>
      p = env.remote path ∧ nm = name ∧ name ≠ "user.replicate.create" ∧
        data = value.take size.toNat ∧ n = size ∧ fl = flags
  | .setxattr path name value size _, .createReplicatedSpace p cids =>
      p = env.remote path ∧ name = "user.replicate.create" ∧ cids = value.take size.toNat
  | .getxattr path name size, .getxattr p nm n => p = env.remote path ∧ nm = name ∧ n = size
  | .removexattr path name, .removexattr p nm => p = env.remote path ∧ nm = name
  | _, _ => False

/-- The calls on whose encoding client and server agree: all but truncations to a length. -/
def FuseCall.Agreed : FuseCall → Prop
  | .truncate _ size => size = 0#64
  | _ => True

namespace ClientEnv

/-- A request is built only where an IO proxy serves the path. -/
theorem withIop_submit {env : ClientEnv} {err : Int} {path : String} {k : String → ClientStep}
    {request : OpRequest} (h : env.withIop err path k = .submit request) :
    k (env.remote path) = .submit request := by
  unfold withIop at h
  unfold remote
  cases hmap : env.getMapping path with
  | mk iop rpath =>
      cases iop with
      | none => simp [hmap] at h
      | some uuid => simpa [hmap] using h

theorem insideSpace_submit {err : Int} {path : String} {k : ClientStep} {request : OpRequest}
    (h : insideSpace err path k = .submit request) : k = .submit request := by
  unfold insideSpace at h
  split at h
  · cases h
  · exact h

end ClientEnv

/-- The server performs the operation of a FUSE call with its arguments exactly for the calls on
whose encoding both sides agree. -/
theorem FuseCall.performs_iff {env : ClientEnv} {call : FuseCall} {request : OpRequest}
    (h : call.run env = .submit request) :
    env.Performs call (dispatch request) ↔ call.Agreed := by
  cases call with
  | truncate path size =>
      cases ClientEnv.withIop_submit h
      -- the server reads the size of the request, which was not set
      constructor
      · rintro ⟨_, hlen⟩
        exact hlen.symm
      · intro hzero
        exact ⟨rfl, hzero.symm⟩
  | rename path newpath flags =>
      have hsubmit := ClientEnv.insideSpace_submit h
      cases hsrc : env.getMapping path with
      | mk siop srpath =>
          cases hdst : env.getMapping newpath with
          | mk diop drpath =>
              cases siop with
              | none => simp [hsrc] at hsubmit
              | some suuid =>
                  cases diop with
                  | none => simp [hsrc, hdst] at hsubmit
                  | some duuid =>
                      simp only [hsrc, hdst] at hsubmit
                      split at hsubmit
                      · cases hsubmit
                      · cases hsubmit
                        refine iff_of_true ⟨?_, ?_⟩ trivial
                        · simp [ClientEnv.remote, hsrc, OpRequest.setNewpath, OpRequest.make]
                        · simp [ClientEnv.remote, hdst, OpRequest.newpath, OpRequest.setNewpath]
  | utimens path atime mtime =>
      cases ClientEnv.withIop_submit (ClientEnv.insideSpace_submit h)
      exact iff_of_true ⟨rfl, rfl⟩ trivial
  | chmod path mode =>
      cases ClientEnv.withIop_submit (ClientEnv.insideSpace_submit h)
      exact iff_of_true ⟨rfl, rfl⟩ trivial
  | «open» path flags =>
      simp only [run, ClientEnv.gvdsfsOpen] at h
      split at h
      · cases h
      · split at h
        · cases h
        · cases ClientEnv.withIop_submit h
          exact iff_of_true ⟨rfl, rfl⟩ trivial
  | create path mode =>
      cases ClientEnv.withIop_submit (ClientEnv.insideSpace_submit h)
      exact iff_of_true ⟨rfl, rfl⟩ trivial
  | unlink path =>
      cases ClientEnv.withIop_submit h
      exact iff_of_true rfl trivial
  | rmdir path =>
      cases ClientEnv.withIop_submit (ClientEnv.insideSpace_submit h)
      exact iff_of_true rfl trivial
  | read path size offset =>
      cases ClientEnv.withIop_submit h
      exact iff_of_true ⟨rfl, rfl, rfl⟩ trivial
  | write path buf size offset =>
      cases ClientEnv.withIop_submit h
      exact iff_of_true ⟨rfl, rfl, rfl, rfl⟩ trivial
  | setxattr path name value size flags =>
      have hsubmit := ClientEnv.insideSpace_submit h
      split at hsubmit
      · cases hsubmit
      · cases ClientEnv.withIop_submit hsubmit
        refine iff_of_true ?_ trivial
        by_cases hname : name = "user.replicate.create"
        · simp [ClientEnv.Performs, dispatch, OpRequest.make, OpRequest.setXattrName,
            OpRequest.setData, OpRequest.setSize, OpRequest.setMode, OpRequest.xattrName, hname]
        · simp [ClientEnv.Performs, dispatch, OpRequest.make, OpRequest.setXattrName,
            OpRequest.setData, OpRequest.setSize, OpRequest.setMode, OpRequest.xattrName, hname]
  | getxattr path name size =>
      have hsubmit := ClientEnv.withIop_submit (ClientEnv.insideSpace_submit h)
      split at hsubmit
      · cases hsubmit
      · cases hsubmit
        exact iff_of_true ⟨rfl, rfl, rfl⟩ trivial
  | removexattr path name =>
      cases ClientEnv.withIop_submit (ClientEnv.insideSpace_submit h)
      exact iff_of_true ⟨rfl, rfl⟩ trivial

/-- A write whose buffer is longer than its size. -/
theorem FuseCall.performs_write :
    ∃ request, FuseCall.run ⟨fun _ => 2, fun path => (some "iop", path)⟩
        (.write "/zone/space/file" [1, 2, 3] 2#64 5#64) = .submit request ∧
      ClientEnv.Performs ⟨fun _ => 2, fun path => (some "iop", path)⟩
        (.write "/zone/space/file" [1, 2, 3] 2#64 5#64) (dispatch request) :=
  ⟨_, rfl, (FuseCall.performs_iff rfl).mpr trivial⟩

/-- A truncation to 5 bytes makes the server resize the file to 0. -/
theorem FuseCall.truncate_not_performed :
    ∃ request, FuseCall.run ⟨fun _ => 2, fun path => (some "iop", path)⟩
        (.truncate "/zone/space/file" 5#64) = .submit request ∧
      dispatch request = .resizeFile "/zone/space/file" 0#64 ∧
      ¬ ClientEnv.Performs ⟨fun _ => 2, fun path => (some "iop", path)⟩
        (.truncate "/zone/space/file" 5#64) (dispatch request) := by
  refine ⟨_, rfl, rfl, ?_⟩
  rintro ⟨_, hlen⟩
  exact absurd hlen (by decide)

/-- Whatever its length, a truncation that reaches the server empties the file. -/
theorem FuseCall.truncate_empties {env : ClientEnv} {path : String} {size : BitVec 64}
    {request : OpRequest} (h : (FuseCall.truncate path size).run env = .submit request)
    {β : Type*} {s : IoProxy β} {ino : Nat}
    (hfile : s.k.tree.node (componentsOf (env.remote path)) = some (.file ino)) :
    ∃ r, (dispatch request).toRequest = some r ∧
      ∀ peers, ((s.doOp peers r).1.k.content ino).size = 0 := by
  cases ClientEnv.withIop_submit h
  refine ⟨_, rfl, fun peers => ?_⟩
  simp [IoProxy.doOp, IoProxy.withCall, Kernel.sysTruncate, OpRequest.make, OpRequest.setIoSize,
    hfile, Kernel.setContent, ByteFile.truncate]

end Gvds
