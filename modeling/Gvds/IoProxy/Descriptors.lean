/-
Module: Gvds.IoProxy.Descriptors
Layer: IoProxy
Purpose: FdManager (io_proxy/fd_mgr.cc) on the template LRU as it is, with every outcome of its
  system calls, and the descriptors that it has opened and not closed.
Imports: Gvds.Common.LruCache
Trusted boundary: as Gvds.Common.LruCache. The system never hands out a descriptor that is open,
  errno is positive after a failure, and close gives a descriptor back whatever it returns. What
  flags, modes, ftruncate and fsync do shows in the outcomes of the system calls only
Main exports: HvsFileHandler, FdManager, State, Call, sysOpen, sysClose, checkAndExpire, fdmOpen,
  create, remove, expire, flush, get_file_handler, step
-/
import Gvds.Common.LruCache

namespace Gvds.Descriptors

/-- `HvsFileHandler`; its bitmaps and the IDs of its centers have nothing to do with descriptors. -/
structure HvsFileHandler where
  fd : Int

/-- `FdManager`. `setMaxFdNum` keeps `max_fd_num` positive. -/
structure FdManager where
  fds : LRU String Int
  file_handlers : Int → Option HvsFileHandler
  max_fd_num : Nat
  max_fd_num_pos : 0 < max_fd_num

/-- `FdManager` with the descriptors that it has opened and not closed, whether it has closed one
that was not open, and the descriptor that its last call returned, if it succeeded. -/
structure State where
  fdm : FdManager
  opened : List Int
  closedTwice : Bool
  returned : Option Int

/-- `EACCES`. -/
def EACCES : Int := 13

/-- `setMaxFdNum`. -/
def setMaxFdNum (num : Nat) : Nat := if num > 1 then num else 1

theorem setMaxFdNum_pos (num : Nat) : 0 < setMaxFdNum num := by
  unfold setMaxFdNum
  split <;> omega

/-- A new `FdManager`, after `setMaxFdNum(num)`; its LRU has no limit of its own. -/
def start (num : Nat) : State where
  fdm :=
    { fds := .new 0
      file_handlers := fun _ => none
      max_fd_num := setMaxFdNum num
      max_fd_num_pos := setMaxFdNum_pos num }
  opened := []
  closedTwice := false
  returned := none

namespace State

/-- Replace the LRU. -/
def setFds (s : State) (fds : LRU String Int) : State := { s with fdm := { s.fdm with fds := fds } }

/-- A descriptor has been opened. -/
def sysOpen (s : State) (fd : Int) : State := { s with opened := fd :: s.opened }

/-- `::close(fd)`. -/
def sysClose (s : State) (fd : Int) : State :=
  if fd ∈ s.opened then { s with opened := s.opened.erase fd } else { s with closedTwice := true }

/-- The loop of `checkAndExpire`, for a number of rounds. -/
def expireRounds : Nat → State → State
  | 0, s => s
  | n + 1, s =>
      if s.fdm.fds.size > s.fdm.max_fd_num then
        match s.fdm.fds.expire with
        | (some fdo_exp, fds) => expireRounds n ((s.setFds fds).sysClose fdo_exp.data)
        | (none, _) => s
      else s

/-- `checkAndExpire`. Each round drops an entry, so that there are no more rounds than entries. -/
def checkAndExpire (s : State) : State := s.expireRounds s.fdm.fds.size

/-- `FdManager::open`, where `::open` returns `fd` and sets `errno` to `err`. `hit` erases the node
that `fd_it` points to; what is read from its memory after that is `stale`. -/
def fdmOpen (s : State) (path : String) (fd err stale : Int) : State × Int :=
  match s.fdm.fds.find path with
  | some fd_it =>
      let fds := (s.fdm.fds.hit path).2
      (s.setFds fds, ((fds.deref fd_it).map LRUObject.data).getD stale)
  | none =>
      if fd = -1 then (s, -err)
      else if fd ≥ 0 then
        (((s.sysOpen fd).setFds (s.fdm.fds.touch path fd)).checkAndExpire, fd)
      else (s, -EACCES)

/-- What `create`, `remove` and `expire` do to the descriptor of a path: it is closed, and returned.
It is read before `remove` erases its node. -/
def dropPath (s : State) (path : String) : State × Int :=
  match s.fdm.fds.shown path with
  | some fd_it => ((s.setFds (s.fdm.fds.remove path).2).sysClose fd_it.data, fd_it.data)
  | none => (s, -1)

/-- `FdManager::create`, where `::open` returns `fd_new`. -/
def create (s : State) (path : String) (fd_new : Int) : State × Int :=
  if fd_new ≥ 0 then ((((s.sysOpen fd_new).dropPath path).1).sysClose fd_new, 0) else (s, fd_new)

/-- `FdManager::remove`, where `::unlink` returns `fd_new`. -/
def remove (s : State) (path : String) (fd_new : Int) : State × Int :=
  ((s.dropPath path).1, fd_new)

/-- `FdManager::expire`. -/
def expire (s : State) (path : String) : State × Int := s.dropPath path

/-- `FdManager::flush`; the outcome of `fsync` does not matter. -/
def flush (s : State) (_path : String) : State × Int := (s, 0)

/-- `FdManager::get_file_handler`. -/
def get_file_handler (s : State) (path : String) (fd err stale : Int) :
    State × Option HvsFileHandler :=
  let (s, fd) := s.fdmOpen path fd err stale
  if fd < 0 then (s, none)
  else
    match s.fdm.file_handlers fd with
    | some fh => (s, some fh)
    | none =>
        let fh : HvsFileHandler := ⟨fd⟩
        ({ s with
          fdm := { s.fdm with file_handlers := Function.update s.fdm.file_handlers fd (some fh) } },
          some fh)

end State

/-- The calls, with the outcomes of their system calls. -/
inductive Call where
  | open (path : String) (fd err stale : Int)
  | create (path : String) (fd_new : Int)
  | remove (path : String) (fd_new : Int)
  | expire (path : String)
  | flush (path : String)
  | get_file_handler (path : String) (fd err stale : Int)

/-- The outcomes that the system calls can have: a descriptor is none that is open, and `errno` is
positive. -/
def Call.Possible (s : State) : Call → Prop
  | .open _ fd err _ => fd ∉ s.opened ∧ 0 < err
  | .create _ fd_new => fd_new ∉ s.opened
  | .get_file_handler _ fd err _ => fd ∉ s.opened ∧ 0 < err
  | _ => True

instance (s : State) (a : Call) : Decidable (a.Possible s) := by
  cases a <;> unfold Call.Possible <;> infer_instance

/-- After a call that returned `ret`; a descriptor is not negative. -/
def State.returning (s : State) (ret : Int) : State :=
  { s with returned := if ret ≥ 0 then some ret else none }

/-- After a call that returns no descriptor. -/
def State.settled (s : State) : State := { s with returned := none }

/-- One call. A successful `open` returns a descriptor, and so does the one in `get_file_handler`. -/
def step (s : State) (a : Call) : Option State :=
  if a.Possible s then
    match a with
    | .open path fd err stale =>
        some ((s.fdmOpen path fd err stale).1.returning (s.fdmOpen path fd err stale).2)
    | .create path fd_new => some (s.create path fd_new).1.settled
    | .remove path fd_new => some (s.remove path fd_new).1.settled
    | .expire path => some (s.expire path).1.settled
    | .flush path => some (s.flush path).1.settled
    | .get_file_handler path fd err stale =>
        some ((s.get_file_handler path fd err stale).1.returning (s.fdmOpen path fd err stale).2)
  else none

end Gvds.Descriptors
