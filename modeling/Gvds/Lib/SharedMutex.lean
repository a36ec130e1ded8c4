/-
Module: Gvds.Lib.SharedMutex
Layer: Lib
Purpose: A lock that readers share and a writer has alone, as a count and a flag; and the count and
  the flag against those who hold it.
Imports: Mathlib.Data.List.Perm.Basic
Trusted boundary: none
Main exports: SharedMutex, SharedMutex.Free, SharedMutex.HeldBy
-/
import Mathlib.Data.List.Perm.Basic

/-- A lock: how many readers have it, and whether a writer has it. -/
structure SharedMutex where
  readers : Nat
  writer : Bool
deriving DecidableEq

namespace SharedMutex

/-- A lock that nobody has. -/
def unlocked : SharedMutex := ⟨0, false⟩

/-- Nobody has the lock. -/
def Free (m : SharedMutex) : Prop := m.readers = 0 ∧ m.writer = false

/-- A reader gets the lock where no writer has it. -/
def lock_shared (m : SharedMutex) : Option SharedMutex :=
  if m.writer = false then some { m with readers := m.readers + 1 } else none

/-- A reader gives the lock back. -/
def unlock_shared (m : SharedMutex) : SharedMutex := { m with readers := m.readers - 1 }

/-- A writer gets the lock where nobody has it. -/
def lock (m : SharedMutex) : Option SharedMutex :=
  if m.readers = 0 ∧ m.writer = false then some { m with writer := true } else none

/-- A writer gives the lock back. -/
def unlock (m : SharedMutex) : SharedMutex := { m with writer := false }

@[simp] theorem readers_unlock_shared (m : SharedMutex) :
    m.unlock_shared.readers = m.readers - 1 := rfl

@[simp] theorem writer_unlock_shared (m : SharedMutex) : m.unlock_shared.writer = m.writer := rfl

@[simp] theorem readers_unlock (m : SharedMutex) : m.unlock.readers = m.readers := rfl

@[simp] theorem writer_unlock (m : SharedMutex) : m.unlock.writer = false := rfl

/-- How a holder has the lock. -/
inductive Mode where
  | none
  | shared
  | exclusive
deriving DecidableEq

/-- The lock is held as the modes of the holders say, and by `lost` readers more, who are gone. -/
structure HeldBy (m : SharedMutex) (modes : List Mode) (lost : Nat) : Prop where
  readers : m.readers = modes.count .shared + lost
  writer : modes.count .exclusive = if m.writer then 1 else 0

namespace HeldBy

variable {m m' : SharedMutex} {modes : List Mode} {lost : Nat}

theorem start : unlocked.HeldBy [] 0 := ⟨rfl, rfl⟩

/-- The order of the holders does not matter. -/
theorem perm {modes' : List Mode} (h : m.HeldBy modes lost) (hperm : modes.Perm modes') :
    m.HeldBy modes' lost :=
  ⟨hperm.count_eq _ ▸ h.readers, hperm.count_eq _ ▸ h.writer⟩

/-- Without holders the lock is free iff no reader is lost. -/
theorem free_iff (h : m.HeldBy [] lost) : m.Free ↔ lost = 0 := by
  have hreaders := h.readers
  have hwriter := h.writer
  rw [List.count_nil] at hreaders hwriter
  constructor
  · rintro ⟨hnone, -⟩
    omega
  · rintro rfl
    refine ⟨hreaders, ?_⟩
    cases hm : m.writer with
    | false => rfl
    | true =>
        rw [hm] at hwriter
        cases hwriter

/-- A lock that a reader has lost is not free. -/
theorem not_free (h : m.HeldBy modes (lost + 1)) : ¬ m.Free := by
  rintro ⟨hnone, -⟩
  have hreaders := h.readers
  omega

/-- One who does not have the lock may come and go. -/
theorem none_iff : m.HeldBy (.none :: modes) lost ↔ m.HeldBy modes lost := by
  constructor
  · rintro ⟨hreaders, hwriter⟩
    exact ⟨by simpa using hreaders, by simpa using hwriter⟩
  · rintro ⟨hreaders, hwriter⟩
    exact ⟨by simpa using hreaders, by simpa using hwriter⟩

theorem lock_shared (h : m.HeldBy modes lost) (hlock : m.lock_shared = some m') :
    m'.HeldBy (.shared :: modes) lost := by
  unfold SharedMutex.lock_shared at hlock
  split at hlock
  · cases hlock
    have hreaders := h.readers
    refine ⟨?_, ?_⟩
    · rw [List.count_cons_self]
      dsimp only
      omega
    · simpa using h.writer
  · cases hlock

theorem unlock_shared (h : m.HeldBy (.shared :: modes) lost) :
    m.unlock_shared.HeldBy modes lost := by
  obtain ⟨hreaders, hwriter⟩ := h
  rw [List.count_cons_self] at hreaders
  refine ⟨?_, ?_⟩
  · rw [readers_unlock_shared]
    omega
  · rw [writer_unlock_shared, ← hwriter]
    simp

/-- A reader goes without giving the lock back. -/
theorem lose (h : m.HeldBy (.shared :: modes) lost) : m.HeldBy modes (lost + 1) := by
  obtain ⟨hreaders, hwriter⟩ := h
  rw [List.count_cons_self] at hreaders
  refine ⟨?_, ?_⟩
  · omega
  · simpa using hwriter

theorem lock (h : m.HeldBy modes lost) (hlock : m.lock = some m') :
    m'.HeldBy (.exclusive :: modes) lost := by
  unfold SharedMutex.lock at hlock
  split at hlock
  · rename_i hfree
    cases hlock
    have hwriter := h.writer
    rw [hfree.2] at hwriter
    refine ⟨?_, ?_⟩
    · simpa using h.readers
    · simpa using hwriter
  · cases hlock

theorem unlock (h : m.HeldBy (.exclusive :: modes) lost) : m.unlock.HeldBy modes lost := by
  obtain ⟨hreaders, hwriter⟩ := h
  rw [List.count_cons_self] at hwriter
  refine ⟨?_, ?_⟩
  · simpa using hreaders
  · rw [writer_unlock, if_neg Bool.false_ne_true]
    split at hwriter
    · simpa using hwriter
    · omega

end HeldBy

end SharedMutex
