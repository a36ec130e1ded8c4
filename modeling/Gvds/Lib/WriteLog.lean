/-
Module: Gvds.Lib.WriteLog
Layer: Lib
Purpose: Logs of writes to a family of files. A log is applied from left to right; a write may be
  taken out of the middle and applied first when it agrees with every write that stood before it,
  and a write may stand for two adjacent ones.
Imports: Gvds.Lib.ByteFile, Mathlib.Logic.Function.Basic
Trusted boundary: none
Main exports: FileWrite, FileWrite.apply, WriteLog.apply, WriteLog.apply_move,
  WriteLog.lastByte, WriteLog.apply_byte_of_lastByte, WriteLog.apply_byte_eq_self_iff,
  WriteLog.write_apply_eq_self_iff
-/
import Gvds.Lib.ByteFile
import Mathlib.Logic.Function.Basic

/-- A write of `data` at `off` into the file named `file`. -/
structure FileWrite (κ : Type*) where
  file : κ
  off : Nat
  data : List UInt8

namespace FileWrite

variable {κ : Type*} [DecidableEq κ]

/-- The family of files after one write. -/
def apply (files : κ → ByteFile) (w : FileWrite κ) : κ → ByteFile :=
  Function.update files w.file ((files w.file).write w.off w.data)

/-- Two writes are compatible when they go to different files or agree where they overlap. -/
def Compatible (v w : FileWrite κ) : Prop :=
  v.file = w.file → ByteFile.Agree v.off v.data w.off w.data

/-- Compatible writes commute. -/
theorem apply_comm {files : κ → ByteFile} {v w : FileWrite κ} (h : Compatible v w) :
    apply (apply files v) w = apply (apply files w) v := by
  unfold apply
  by_cases hfile : v.file = w.file
  · rw [hfile, Function.update_self, Function.update_self, Function.update_idem,
      Function.update_idem, ByteFile.write_comm (h hfile)]
  · rw [Function.update_of_ne (Ne.symm hfile), Function.update_of_ne hfile,
      Function.update_comm hfile]

/-- A write of two strings one after another is two adjacent writes. -/
theorem apply_append (files : κ → ByteFile) (file : κ) (off : Nat) (front back : List UInt8) :
    apply files ⟨file, off, front ++ back⟩ =
      apply (apply files ⟨file, off, front⟩) ⟨file, off + front.length, back⟩ := by
  simp only [apply, Function.update_self, Function.update_idem, ByteFile.write_append]

end FileWrite

namespace WriteLog

variable {κ : Type*} [DecidableEq κ]

/-- The family of files after the writes of a log. -/
def apply (files : κ → ByteFile) (log : List (FileWrite κ)) : κ → ByteFile :=
  log.foldl FileWrite.apply files

@[simp] theorem apply_nil (files : κ → ByteFile) : apply files [] = files := rfl

@[simp] theorem apply_cons (files : κ → ByteFile) (w : FileWrite κ) (log : List (FileWrite κ)) :
    apply files (w :: log) = apply (w.apply files) log := rfl

theorem apply_append (files : κ → ByteFile) (log log' : List (FileWrite κ)) :
    apply files (log ++ log') = apply (apply files log) log' := List.foldl_append

/-- A write that is compatible with everything before it may be applied first. -/
theorem apply_move {files : κ → ByteFile} {log rest : List (FileWrite κ)} {w : FileWrite κ}
    (h : ∀ v ∈ log, v.Compatible w) :
    apply files (log ++ w :: rest) = apply (w.apply files) (log ++ rest) := by
  induction log generalizing files with
  | nil => rfl
  | cons v log ih =>
      rw [List.cons_append, apply_cons, ih fun u hu => h u (List.mem_cons_of_mem _ hu),
        FileWrite.apply_comm (h v List.mem_cons_self), List.cons_append, apply_cons]

/-- A byte that no write of the log covers is left alone. -/
theorem apply_byte_of_not_covered {files : κ → ByteFile} {log : List (FileWrite κ)} {file : κ}
    {i : Nat} (h : ∀ w ∈ log, w.file = file → ¬ ByteFile.InRange w.off w.data.length i) :
    (apply files log file).byte i = (files file).byte i := by
  induction log generalizing files with
  | nil => rfl
  | cons w log ih =>
      rw [apply_cons, ih fun v hv => h v (List.mem_cons_of_mem _ hv)]
      by_cases hfile : w.file = file
      · subst hfile
        rw [FileWrite.apply, Function.update_self,
          ByteFile.write_byte_of_not_inRange (h w List.mem_cons_self rfl)]
      · rw [FileWrite.apply, Function.update_of_ne (Ne.symm hfile)]

/-- The value that the last write covering a byte gives it, if one does. -/
def lastByte (log : List (FileWrite κ)) (file : κ) (i : Nat) : Option UInt8 :=
  (log.reverse.find? fun w => w.file = file ∧ ByteFile.InRange w.off w.data.length i).map
    fun w => w.data.getD (i - w.off) 0

/-- The last write covering a byte decides its value. -/
theorem apply_byte_of_lastByte (files : κ → ByteFile) {log : List (FileWrite κ)} {file : κ}
    {i : Nat}
    {b : UInt8} (h : lastByte log file i = some b) : (apply files log file).byte i = b := by
  induction log using List.reverseRecOn with
  | nil => simp [lastByte] at h
  | append_singleton log w ih =>
      rw [lastByte, List.reverse_concat, List.find?_cons] at h
      rw [apply_append, apply_cons, apply_nil, FileWrite.apply]
      by_cases hcovers : w.file = file ∧ ByteFile.InRange w.off w.data.length i
      · simp only [hcovers, and_self, decide_true, Option.map_some, Option.some.injEq] at h
        rw [hcovers.1, Function.update_self, ByteFile.write_byte_of_inRange hcovers.2, h]
      · simp only [hcovers, decide_false] at h
        have hbyte := ih h
        by_cases hfile : w.file = file
        · rw [hfile, Function.update_self, ByteFile.write_byte_of_not_inRange fun hin =>
            hcovers ⟨hfile, hin⟩, hbyte]
        · rw [Function.update_of_ne (Ne.symm hfile), hbyte]

/-- A byte without a last value keeps the one it has. -/
theorem apply_byte_of_lastByte_eq_none (files : κ → ByteFile) {log : List (FileWrite κ)} {file : κ}
    {i : Nat} (h : lastByte log file i = none) :
    (apply files log file).byte i = (files file).byte i := by
  apply apply_byte_of_not_covered
  intro w hw hfile hrange
  rw [lastByte, Option.map_eq_none_iff, List.find?_eq_none] at h
  exact h w (List.mem_reverse.mpr hw) (decide_eq_true ⟨hfile, hrange⟩)

/-- A byte keeps its value exactly if its last value, where it has one, is the same. -/
theorem apply_byte_eq_self_iff (files : κ → ByteFile) {log : List (FileWrite κ)} {file : κ}
    {i : Nat} : (apply files log file).byte i = (files file).byte i ↔
      ∀ b, lastByte log file i = some b → b = (files file).byte i := by
  cases hlast : lastByte log file i with
  | none => simp [apply_byte_of_lastByte_eq_none files hlast]
  | some b => simp [apply_byte_of_lastByte files hlast]

/-- A byte with a last value is covered by a write of the log. -/
theorem exists_covers_of_lastByte {log : List (FileWrite κ)} {file : κ} {i : Nat} {b : UInt8}
    (h : lastByte log file i = some b) :
    ∃ w ∈ log, w.file = file ∧ ByteFile.InRange w.off w.data.length i := by
  obtain ⟨w, hw, -⟩ := Option.map_eq_some_iff.mp h
  have hcovers := List.find?_some hw
  exact ⟨w, List.mem_reverse.mp (List.mem_of_find?_eq_some hw), of_decide_eq_true hcovers⟩

/-- A file is never shorter after a write. -/
theorem size_le_apply (files : κ → ByteFile) (log : List (FileWrite κ)) (file : κ) :
    (files file).size ≤ (apply files log file).size := by
  induction log generalizing files with
  | nil => exact Nat.le_refl _
  | cons w log ih =>
      apply Nat.le_trans ?_ (ih (w.apply files))
      by_cases hfile : w.file = file
      · subst hfile
        rw [FileWrite.apply, Function.update_self]
        by_cases hnil : w.data = []
        · rw [hnil, ByteFile.write_nil]
        · rw [ByteFile.write_size hnil]
          exact Nat.le_max_left _ _
      · rw [FileWrite.apply, Function.update_of_ne (Ne.symm hfile)]

/-- A file reaches as far as any write of the log that is not empty. -/
theorem le_size_of_mem (files : κ → ByteFile) {log : List (FileWrite κ)} {w : FileWrite κ}
    (h : w ∈ log) (hne : w.data ≠ []) :
    w.off + w.data.length ≤ (apply files log w.file).size := by
  induction log generalizing files with
  | nil => cases h
  | cons v log ih =>
      cases List.mem_cons.mp h with
      | inl heq =>
          subst heq
          apply Nat.le_trans ?_ (size_le_apply (w.apply files) log w.file)
          rw [FileWrite.apply, Function.update_self, ByteFile.write_size hne]
          exact Nat.le_max_right _ _
      | inr hmem => exact ih (v.apply files) hmem

/-- A write changes nothing behind a log, whatever the files held before, exactly if every byte of it
is the last value that the log gives there. -/
theorem write_apply_eq_self_iff {log : List (FileWrite κ)} {file : κ} {off : Nat}
    {data : List UInt8} :
    (∀ files, (apply files log file).write off data = apply files log file) ↔
      ∀ k, k < data.length → lastByte log file (off + k) = some (data.getD k 0) := by
  constructor
  · intro h k hk
    have hin : ByteFile.InRange off data.length (off + k) := ⟨by omega, by omega⟩
    -- a file that holds another byte there
    let other : ByteFile :=
      { size := off + k + 1
        byte := fun i => if i = off + k then data.getD k 0 + 1 else 0
        beyond := fun i hi => if_neg (by omega) }
    have hbyte : (apply (fun _ => other) log file).byte (off + k) = data.getD k 0 := by
      rw [← h (fun _ => other), ByteFile.write_byte_of_inRange hin, Nat.add_sub_cancel_left]
    cases hlast : lastByte log file (off + k) with
    | none =>
        rw [apply_byte_of_lastByte_eq_none _ hlast] at hbyte
        simp only [other, if_true] at hbyte
        exact absurd hbyte (by simp)
    | some b => rw [← hbyte, apply_byte_of_lastByte _ hlast]
  · intro h files
    by_cases hnil : data = []
    · rw [hnil, ByteFile.write_nil]
    · have hlen : 0 < data.length := List.length_pos_iff.mpr hnil
      refine ByteFile.ext ?_ (funext fun i => ?_)
      · obtain ⟨w, hw, rfl, hbegin, hend⟩ :=
          exists_covers_of_lastByte (h (data.length - 1) (by omega))
        have hsize := le_size_of_mem files hw (by
          intro hempty
          rw [hempty, List.length_nil] at hend
          omega)
        rw [ByteFile.write_size hnil]
        omega
      · by_cases hin : ByteFile.InRange off data.length i
        · obtain ⟨hlow, hhigh⟩ := hin
          have hlast := h (i - off) (by omega)
          rw [Nat.add_sub_cancel' hlow] at hlast
          rw [ByteFile.write_byte_of_inRange ⟨hlow, hhigh⟩, apply_byte_of_lastByte files hlast]
        · rw [ByteFile.write_byte_of_not_inRange hin]

end WriteLog
