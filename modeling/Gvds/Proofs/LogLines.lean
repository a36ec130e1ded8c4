/-
Module: Gvds.Proofs.LogLines
Layer: Proofs
Purpose: What the log keeps of what was submitted to it, over all interleavings of its threads: each
  file and standard error have the lines of the entries in the order of their submission, none of
  them twice, and what flush leaves behind is in the files.
Imports: Gvds.Common.Log, Gvds.Lib.Machine
Trusted boundary: as Gvds.Common.Log
Main exports: Entry.line_eq_text, Log.content, Kept, step_kept, Settled, step_settled,
  lines_kept_in_order, returned_flush_is_barrier
-/
import Gvds.Common.Log
import Gvds.Lib.Machine

namespace Gvds.Logging

/-! ### The line of an entry fits -/

theorem length_zeroPadded {width n : Nat} (hwidth : 0 < width) (h : n < 10 ^ width) :
    (Log.zeroPadded width n).length = width := by
  have hdigits := (DecimalText.length_digits_le_iff hwidth).mpr h
  simp [Log.zeroPadded]
  omega

theorem length_append_time (t : Calendar) : (Log.append_time t).length = 26 := by
  have hyear := length_zeroPadded (by decide) t.year_lt
  have hmonth := length_zeroPadded (by decide) t.month_lt
  have hday := length_zeroPadded (by decide) t.day_lt
  have hhour := length_zeroPadded (by decide) t.hour_lt
  have hminute := length_zeroPadded (by decide) t.minute_lt
  have hsecond := length_zeroPadded (by decide) t.second_lt
  have hmicros := length_zeroPadded (by decide) t.micros_lt
  simp only [Log.append_time, List.length_append, List.length_cons, hyear, hmonth, hday, hhour,
    hminute, hsecond, hmicros]

theorem length_hexDigits_le (n : UInt64) : (Log.hexDigits n.toNat).length ≤ 16 := by
  rw [Log.hexDigits, List.length_map, Nat.length_toDigits_le_iff (by decide) (by decide)]
  exact n.toNat_lt

/-- A sign and ten digits are enough for an `int`. -/
theorem length_signedField_le (n : Int32) : (Log.signedField n.toInt).length ≤ 11 := by
  have hlow := n.le_toInt
  have hhigh := n.toInt_lt
  have hdigits : (DecimalText.digits n.toInt.natAbs).length ≤ 10 :=
    (DecimalText.length_digits_le_iff (by decide)).mpr (by omega)
  unfold Log.signedField
  by_cases hn : n.toInt < 0
  · simp [hn]
    omega
  · simp [hn]
    omega

theorem length_header_le (e : Entry) : (Log.header e).length ≤ 30 := by
  have hhex := length_hexDigits_le e.m_thread
  have hfield := length_signedField_le e.m_prio
  simp [Log.header]
  omega

/-- Neither `snprintf` of `_flush` cuts its text, its `assert` holds, and the line has all of the
entry. -/
theorem Entry.line_eq_text (e : Entry) : e.line = some e.text := by
  have htime := length_append_time e.m_stamp
  have hheader := length_header_le e
  have hfits : (Log.append_time e.m_stamp).length < 80 + e.size ∧
      (Log.header e).length < 80 + e.size - (Log.append_time e.m_stamp).length := by
    omega
  have hall : e.snprintf (80 + e.size -
      ((Log.append_time e.m_stamp).length + (Log.header e).length) - 1) = e.m_buf := by
    apply List.take_of_length_le
    unfold Entry.size
    omega
  have hroom : (Log.append_time e.m_stamp ++ Log.header e ++ e.m_buf).length < 80 + e.size := by
    simp only [List.length_append, Entry.size]
    omega
  simp only [Entry.line, hfits, and_self, if_true, hall, hroom, Entry.text]

theorem Entry.length_text_lt (e : Entry) : e.text.length + 1 < 80 + e.size := by
  have htime := length_append_time e.m_stamp
  have hheader := length_header_le e
  simp only [Entry.text, List.length_append, Entry.size]
  omega

/-! ### The buffer and the stream -/

namespace Log

/-- What a file has, or gets from the stream and the buffer. -/
def content (s : Log) (p : Text) : Text :=
  s.disk p ++ if s.m_fstream = some p then s.pending ++ s.m_log_buf else []

/-- Nothing is on its way to a file. -/
def Clean (s : Log) : Prop := s.pending = [] ∧ s.m_log_buf = []

theorem content_of_clean {s : Log} (h : s.Clean) (p : Text) : s.content p = s.disk p := by
  simp [content, h.1, h.2]

/-- `flush` of the stream only moves bytes, and only adds to the files. -/
theorem flushStream_spec (s : Log) (p : Text) :
    (flushStream s).content p = s.content p ∧ s.disk p <+: (flushStream s).disk p := by
  unfold flushStream
  cases hopen : s.m_fstream with
  | none => simp [content, hopen]
  | some q =>
      by_cases hpq : q = p
      · subst hpq
        simp [content, hopen]
      · simp [content, hopen, hpq, Function.update_of_ne (Ne.symm hpq)]

/-- So does `_flush_logbuf`. -/
theorem flushLogbuf_spec (s : Log) (p : Text) :
    (flushLogbuf s).content p = s.content p ∧ s.disk p <+: (flushLogbuf s).disk p := by
  unfold flushLogbuf
  by_cases hbuf : s.m_log_buf = []
  · simp only [hbuf, ne_eq, not_true, if_false]
    exact flushStream_spec s p
  · simp only [ne_eq, hbuf, not_false_iff, if_true]
    obtain ⟨hcontent, hdisk⟩ := flushStream_spec { safeWrite s s.m_log_buf with m_log_buf := [] } p
    rw [hcontent]
    cases hopen : s.m_fstream with
    | none => simpa [content, safeWrite, hopen] using hdisk
    | some q =>
        refine ⟨?_, by simpa [safeWrite, hopen] using hdisk⟩
        by_cases hpq : q = p
        · simp [content, safeWrite, hopen, hpq]
        · simp [content, safeWrite, hopen, hpq]

/-- Behind `_flush_logbuf` nothing is on its way. -/
theorem flushLogbuf_clean {s : Log} (h : s.m_fstream = none → s.Clean) : (flushLogbuf s).Clean := by
  unfold flushLogbuf Clean
  by_cases hbuf : s.m_log_buf = []
  · cases hopen : s.m_fstream with
    | none => simpa [flushStream, hopen, hbuf] using (h hopen).1
    | some q => simp [flushStream, hopen, hbuf]
  · cases hopen : s.m_fstream with
    | none => exact absurd (h hopen).2 hbuf
    | some q => simp [flushStream, safeWrite, hopen, hbuf]

/-- What `_flush` leaves alone. -/
structure Frame (s t : Log) : Prop where
  m_new : t.m_new = s.m_new
  m_stop : t.m_stop = s.m_stop
  entry : t.entry = s.entry
  callers : t.callers = s.callers
  m_fstream : t.m_fstream = s.m_fstream
  log_level : t.log_level = s.log_level
  m_stderr_log : t.m_stderr_log = s.m_stderr_log
  submitted : t.submitted = s.submitted
  turned : t.turned = s.turned
  returned : t.returned = s.returned
  stoppedAt : t.stoppedAt = s.stoppedAt

theorem Frame.refl (s : Log) : Frame s s :=
  ⟨rfl, rfl, rfl, rfl, rfl, rfl, rfl, rfl, rfl, rfl, rfl⟩

theorem Frame.trans {s t u : Log} (h : Frame s t) (h' : Frame t u) : Frame s u where
  m_new := h'.m_new.trans h.m_new
  m_stop := h'.m_stop.trans h.m_stop
  entry := h'.entry.trans h.entry
  callers := h'.callers.trans h.callers
  m_fstream := h'.m_fstream.trans h.m_fstream
  log_level := h'.log_level.trans h.log_level
  m_stderr_log := h'.m_stderr_log.trans h.m_stderr_log
  submitted := h'.submitted.trans h.submitted
  turned := h'.turned.trans h.turned
  returned := h'.returned.trans h.returned
  stoppedAt := h'.stoppedAt.trans h.stoppedAt

theorem frame_safeWrite (s : Log) (what : Text) : Frame s (safeWrite s what) := by
  unfold safeWrite
  split
  · exact ⟨rfl, rfl, rfl, rfl, rfl, rfl, rfl, rfl, rfl, rfl, rfl⟩
  · exact Frame.refl s

theorem frame_flushStream (s : Log) : Frame s (flushStream s) := by
  unfold flushStream
  split
  · exact ⟨rfl, rfl, rfl, rfl, rfl, rfl, rfl, rfl, rfl, rfl, rfl⟩
  · exact Frame.refl s

theorem frame_flushLogbuf (s : Log) : Frame s (flushLogbuf s) := by
  unfold flushLogbuf
  split
  · have hwrite := frame_safeWrite s s.m_log_buf
    exact Frame.trans (t := { safeWrite s s.m_log_buf with m_log_buf := [] })
      { hwrite with } (frame_flushStream _)
  · exact frame_flushStream s

theorem flushStream_written (s : Log) :
    (flushStream s).stderr = s.stderr ∧ (flushStream s).failed = s.failed ∧
      (flushStream s).m_log_buf = s.m_log_buf := by
  unfold flushStream
  split <;> simp

theorem safeWrite_written (s : Log) (what : Text) :
    (safeWrite s what).stderr = s.stderr ∧ (safeWrite s what).failed = s.failed ∧
      (safeWrite s what).disk = s.disk := by
  unfold safeWrite
  split <;> simp

/-- `_flush_logbuf` empties the buffer and leaves standard error alone. -/
theorem flushLogbuf_written (s : Log) :
    (flushLogbuf s).stderr = s.stderr ∧ (flushLogbuf s).failed = s.failed ∧
      (flushLogbuf s).m_log_buf = [] := by
  unfold flushLogbuf
  by_cases hbuf : s.m_log_buf = []
  · simp [hbuf, flushStream_written]
  · simp [hbuf, flushStream_written, safeWrite_written]

/-! ### One round of `_flush` -/

/-- What standard error gets of an entry. -/
def errText (cfg : Setup) (e : Entry) : Text :=
  cfg.m_log_stderr_prefix ++ (cString e.text ++ [10])

theorem toStderr_spec (cfg : Setup) (s : Log) (e : Entry) (p : Text) :
    Frame s (toStderr cfg s e e.text) ∧ (toStderr cfg s e e.text).content p = s.content p ∧
      (toStderr cfg s e e.text).disk = s.disk ∧ (toStderr cfg s e e.text).pending = s.pending ∧
      (toStderr cfg s e e.text).m_log_buf = s.m_log_buf ∧
      (toStderr cfg s e e.text).failed = s.failed ∧
      (toStderr cfg s e e.text).stderr =
        s.stderr ++ if s.doStderr e then errText cfg e else [] := by
  unfold toStderr
  by_cases hdo : s.doStderr e = true
  · rw [if_pos hdo, if_pos hdo]
    exact ⟨⟨rfl, rfl, rfl, rfl, rfl, rfl, rfl, rfl, rfl, rfl, rfl⟩, rfl, rfl, rfl, rfl, rfl, rfl⟩
  · simp [hdo, Frame.refl]

/-- The line of an entry that is to be logged goes to the end of the open file. -/
theorem toFile_content {s : Log} {e : Entry} (p : Text) (hlog : s.shouldLog e = true)
    (hroom : 80 + e.size ≥ MAX_LOG_BUF → s.m_log_buf = []) :
    (toFile s e e.text).content p =
      s.content p ++ if s.m_fstream = some p then e.text ++ [10] else [] := by
  cases hopen : s.m_fstream with
  | none => simp [toFile, doFd, content, hopen]
  | some q =>
      by_cases hbig : 80 + e.size ≥ MAX_LOG_BUF
      · have hbuf := hroom hbig
        by_cases hqp : q = p
        · simp [toFile, doFd, content, safeWrite, hopen, hlog, hbig, hqp, hbuf]
        · simp [toFile, doFd, content, safeWrite, hopen, hlog, hbig, hqp]
      · by_cases hqp : q = p
        · simp [toFile, doFd, content, hopen, hlog, hbig, hqp]
        · simp [toFile, doFd, content, hopen, hlog, hbig, hqp]

theorem toFile_frame (s : Log) (e : Entry) (line : Text) :
    Frame s (toFile s e line) ∧ (toFile s e line).disk = s.disk ∧
      (toFile s e line).failed = s.failed ∧ (toFile s e line).stderr = s.stderr := by
  unfold toFile
  split
  · split
    · have hwritten := safeWrite_written s (line ++ [10])
      exact ⟨{ frame_safeWrite s (line ++ [10]) with }, hwritten.2.2, hwritten.2.1, hwritten.1⟩
    · exact ⟨{ Frame.refl s with }, rfl, rfl, rfl⟩
  · exact ⟨{ Frame.refl s with }, rfl, rfl, rfl⟩

/-- With room for the line in the buffer, it does not get full. -/
theorem length_toFile_lt (s : Log) (e : Entry)
    (hroom : 80 + e.size < MAX_LOG_BUF → s.m_log_buf.length + (80 + e.size) < MAX_LOG_BUF) :
    (toFile s e e.text).m_log_buf.length < MAX_LOG_BUF := by
  have htext := e.length_text_lt
  unfold toFile
  split
  · split
    · simp [MAX_LOG_BUF]
    · rename_i hsmall
      have hfits := hroom (by omega)
      simp
      omega
  · simp [MAX_LOG_BUF]

/-- Without a file nothing stays in the buffer. -/
theorem toFile_clean {s : Log} (e : Entry) (line : Text) (hclosed : s.m_fstream = none → s.Clean)
    (hopen : s.m_fstream = none) : (toFile s e line).Clean := by
  have hpending := (hclosed hopen).1
  simp [toFile, doFd, hopen, Clean, hpending]

theorem turnOf_entry (s : Log) (e : Entry) : (s.turnOf e).entry = e := rfl

/-- What a round of `_flush` writes, and what it leaves alone. -/
structure Turned (cfg : Setup) (s t : Log) (e : Entry) : Prop where
  frame : Frame s t
  content : ∀ p, t.content p =
    s.content p ++ if (s.turnOf e).file = some p then e.text ++ [10] else []
  stderr : t.stderr = s.stderr ++ if (s.turnOf e).stderr then errText cfg e else []
  disk : ∀ p, s.disk p <+: t.disk p
  failed : t.failed = s.failed
  buffer : t.m_log_buf.length < MAX_LOG_BUF
  closed : t.m_fstream = none → t.Clean

/-- The state in which the line of an entry is composed: the buffer was written out if the line may
not fit. -/
structure Roomy (s t : Log) (e : Entry) : Prop where
  frame : Frame s t
  content : ∀ p, t.content p = s.content p
  disk : ∀ p, s.disk p <+: t.disk p
  stderr : t.stderr = s.stderr
  failed : t.failed = s.failed
  big : 80 + e.size ≥ MAX_LOG_BUF → t.m_log_buf = []
  small : 80 + e.size < MAX_LOG_BUF → t.m_log_buf.length + (80 + e.size) < MAX_LOG_BUF
  closed : t.m_fstream = none → t.Clean

theorem roomy (s : Log) (e : Entry) (hclosed : s.m_fstream = none → s.Clean) :
    Roomy s (if s.m_log_buf.length + (80 + e.size) ≥ MAX_LOG_BUF then flushLogbuf s else s) e := by
  by_cases hfull : s.m_log_buf.length + (80 + e.size) ≥ MAX_LOG_BUF
  · rw [if_pos hfull]
    obtain ⟨hstderr, hfailed, hbuf⟩ := flushLogbuf_written s
    exact {
      frame := frame_flushLogbuf s
      content := fun p => (flushLogbuf_spec s p).1
      disk := fun p => (flushLogbuf_spec s p).2
      stderr := hstderr
      failed := hfailed
      big := fun _ => hbuf
      small := fun h => by simpa [hbuf] using h
      closed := fun _ => flushLogbuf_clean hclosed }
  · rw [if_neg hfull]
    exact {
      frame := Frame.refl s
      content := fun _ => rfl
      disk := fun _ => List.prefix_rfl
      stderr := rfl
      failed := rfl
      big := fun h => absurd (Nat.le_trans h (Nat.le_add_left _ _)) hfull
      small := fun _ => Nat.lt_of_not_le hfull
      closed := hclosed }

/-- An entry that goes nowhere. -/
theorem turned_of_unused (cfg : Setup) {s : Log} {e : Entry}
    (hclosed : s.m_fstream = none → s.Clean) (hbuffer : s.m_log_buf.length < MAX_LOG_BUF)
    (hfile : (s.turnOf e).file = none) (hstderr : (s.turnOf e).stderr = false) :
    Turned cfg s s e where
  frame := Frame.refl s
  content := fun p => by simp [hfile]
  stderr := by simp [hstderr]
  disk := fun _ => List.prefix_rfl
  failed := rfl
  buffer := hbuffer
  closed := hclosed

/-- An entry whose line is composed. -/
theorem turned_of_line (cfg : Setup) {s t : Log} {e : Entry} (hlog : s.shouldLog e = true)
    (h : Roomy s t e) : Turned cfg s (toFile (toStderr cfg t e e.text) e e.text) e := by
  have hlevel : t.shouldLog e = s.shouldLog e := by
    rw [shouldLog, shouldLog, h.frame.log_level]
  have hdo : t.doStderr e = s.doStderr e := by
    rw [doStderr, doStderr, hlevel, h.frame.m_stderr_log]
  obtain ⟨hframe, _, hdisk, hpending, hbuf, hfailed, hstderr⟩ := toStderr_spec cfg t e []
  obtain ⟨hframe', hdisk', hfailed', hstderr'⟩ :=
    toFile_frame (toStderr cfg t e e.text) e e.text
  have hlog' : (toStderr cfg t e e.text).shouldLog e = true := by
    rw [shouldLog, hframe.log_level, ← shouldLog, hlevel, hlog]
  have hclosed : (toStderr cfg t e e.text).m_fstream = none → (toStderr cfg t e e.text).Clean := by
    intro hopen
    rw [Clean, hpending, hbuf]
    exact h.closed (hframe.m_fstream ▸ hopen)
  exact {
    frame := (h.frame.trans hframe).trans hframe'
    content := by
      intro p
      have hcontent := (toStderr_spec cfg t e p).2.1
      have hbig : 80 + e.size ≥ MAX_LOG_BUF → (toStderr cfg t e e.text).m_log_buf = [] :=
        fun hbig => hbuf.trans (h.big hbig)
      rw [toFile_content p hlog' hbig, hcontent, h.content p, hframe.m_fstream, h.frame.m_fstream]
      simp [turnOf, hlog]
    stderr := by rw [hstderr', hstderr, h.stderr, hdo]; rfl
    disk := by
      intro p
      rw [hdisk', hdisk]
      exact h.disk p
    failed := (hfailed'.trans hfailed).trans h.failed
    buffer := length_toFile_lt _ e (by rw [hbuf]; exact h.small)
    closed := fun hopen => toFile_clean e e.text hclosed (hframe'.m_fstream ▸ hopen) }

theorem turn_spec (cfg : Setup) {s : Log} (e : Entry) (hclosed : s.m_fstream = none → s.Clean)
    (hbuffer : s.m_log_buf.length < MAX_LOG_BUF) : Turned cfg s (turn cfg s e) e := by
  by_cases hdo : (s.doFd e || s.doSyslog e || s.doStderr e) = true
  · have hlog : s.shouldLog e = true := by
      simp only [doFd, doSyslog, doStderr, Bool.or_eq_true, Bool.and_eq_true] at hdo
      rcases hdo with (h | h) | h
      · exact h.2
      · exact h.2
      · exact h.2
    have hroomy := roomy s e hclosed
    have hfits : ¬ (80 + e.size < MAX_LOG_BUF ∧
        (if s.m_log_buf.length + (80 + e.size) ≥ MAX_LOG_BUF then flushLogbuf s
          else s).m_log_buf.length + (80 + e.size) > MAX_LOG_BUF) := by
      rintro ⟨hsmall, hover⟩
      exact absurd (hroomy.small hsmall) (Nat.not_lt.mpr (Nat.le_of_lt hover))
    simp only [turn, hdo, if_true, e.line_eq_text, if_neg hfits]
    exact turned_of_line cfg hlog hroomy
  · have hturn : turn cfg s e = s := by simp [turn, hdo]
    rw [hturn]
    simp only [Bool.or_eq_true, not_or, Bool.not_eq_true] at hdo
    apply turned_of_unused cfg hclosed hbuffer
    · by_cases hlog : s.shouldLog e = true
      · have hopen : s.m_fstream.isSome = false := by simpa [doFd, hlog] using hdo.1.1
        simpa [turnOf, hlog] using hopen
      · simp [turnOf, hlog]
    · exact hdo.2

/-! ### What holds in every state -/

/-- The rest of the local queue of the caller in `_flush`. -/
def batch (s : Log) : List Entry :=
  match s.flusher with
  | some (.writing _ _ t) => t
  | _ => []

/-- A caller is in `_flush`. -/
def Writing (s : Log) : Prop := ∃ caller since t, s.flusher = some (.writing caller since t)

end Log

open Log

/-- The lines that a file gets of some entries. -/
def linesOf (p : Text) (turned : List Turn) : Text :=
  turned.flatMap fun t => if t.file = some p then t.entry.text ++ [10] else []

/-- The lines that standard error gets. -/
def errLines (cfg : Setup) (turned : List Turn) : Text :=
  turned.flatMap fun t => if t.stderr then errText cfg t.entry else []

/-- No entry is lost, none has two lines, and the lines stand in the order of the submissions. -/
structure Kept (cfg : Setup) (s : Log) : Prop where
  order : s.submitted = s.turned.map Turn.entry ++ (s.batch ++ s.m_new)
  files : ∀ p, s.content p = cfg.disk p ++ linesOf p s.turned
  stderr : s.stderr = errLines cfg s.turned
  room : s.m_new.length ≤ cfg.room + 1
  buffer : s.m_log_buf.length < MAX_LOG_BUF
  sound : s.failed = false
  closed : s.m_fstream = none → s.Clean
  idle : ¬ s.Writing → s.Clean

theorem kept_start (cfg : Setup) : Kept cfg (start cfg) where
  order := rfl
  files := fun p => by simp [content, start, linesOf]
  stderr := rfl
  room := Nat.zero_le _
  buffer := by simp [start, MAX_LOG_BUF]
  sound := rfl
  closed := fun _ => ⟨rfl, rfl⟩
  idle := fun _ => ⟨rfl, rfl⟩

variable {cfg : Setup} {s t : Log}

theorem Kept.push (h : Kept cfg s) (e : Entry) (hroom : ¬ s.m_new.length > cfg.room) :
    Kept cfg (push s e) := by
  have horder : (Log.push s e).submitted =
      (Log.push s e).turned.map Turn.entry ++ ((Log.push s e).batch ++ (Log.push s e).m_new) := by
    have hbatch : (Log.push s e).batch = s.batch := rfl
    rw [hbatch]
    simp [Log.push, h.order]
  have hlength : (Log.push s e).m_new.length ≤ cfg.room + 1 := by
    simp [Log.push]
    omega
  exact { h with order := horder, room := hlength }

/-- The swap of the queue under `m_flush_mutex`. -/
theorem Kept.swap (h : Kept cfg s) {caller : Caller} {since : Nat}
    (hlocked : s.flusher = some (.locked caller since)) :
    Kept cfg { s with flusher := some (.writing caller since s.m_new), m_new := [] } := by
  have hbatch : s.batch = [] := by simp [batch, hlocked]
  exact { h with
    order := by
      have horder := h.order
      rw [hbatch] at horder
      simpa [batch] using horder
    room := Nat.zero_le _
    idle := fun hnot => absurd ⟨_, _, _, rfl⟩ hnot }

/-- A round of the loop in `_flush`. -/
theorem Kept.turn (h : Kept cfg s) {caller : Caller} {since : Nat} {e : Entry} {rest : List Entry}
    (hwriting : s.flusher = some (.writing caller since (e :: rest))) :
    Kept cfg { Log.turn cfg s e with
      flusher := some (.writing caller since rest), turned := s.turned ++ [turnOf s e] } := by
  have hspec := turn_spec cfg e h.closed h.buffer
  have hbatch : s.batch = e :: rest := by simp [batch, hwriting]
  exact {
    order := by
      have horder := h.order
      rw [hbatch] at horder
      simpa [batch, hspec.frame.submitted, hspec.frame.m_new, turnOf_entry] using horder
    files := by
      intro p
      have hcontent := hspec.content p
      rw [h.files p] at hcontent
      simpa [content, linesOf, turnOf_entry] using hcontent
    stderr := by
      have hstderr := hspec.stderr
      rw [h.stderr] at hstderr
      simpa [errLines, turnOf_entry] using hstderr
    room := by simpa [hspec.frame.m_new] using h.room
    buffer := hspec.buffer
    sound := hspec.failed.trans h.sound
    closed := hspec.closed
    idle := fun hnot => absurd ⟨_, _, _, rfl⟩ hnot }

/-- The end of `flush`. -/
theorem Kept.return (h : Kept cfg s) {caller : Caller} {since : Nat} (entry : LogThread)
    (hwriting : s.flusher = some (.writing caller since [])) :
    Kept cfg { flushLogbuf s with
      flusher := none, returned := s.returned ++ [since], entry := entry } := by
  have hframe := frame_flushLogbuf s
  obtain ⟨hstderr, hfailed, hbuf⟩ := flushLogbuf_written s
  have hbatch : s.batch = [] := by simp [batch, hwriting]
  have hclean := flushLogbuf_clean h.closed
  exact {
    order := by
      have horder := h.order
      rw [hbatch] at horder
      simpa [batch, hframe.submitted, hframe.m_new, hframe.turned] using horder
    files := by
      intro p
      have hcontent := (flushLogbuf_spec s p).1
      rw [h.files p] at hcontent
      simpa [content, hframe.turned] using hcontent
    stderr := by simpa [hstderr, hframe.turned] using h.stderr
    room := by simpa [hframe.m_new] using h.room
    buffer := by simp [hbuf, MAX_LOG_BUF]
    sound := hfailed.trans h.sound
    closed := fun _ => hclean
    idle := fun _ => hclean }

/-- `close` of a stream with nothing on its way. -/
theorem Kept.close (h : Kept cfg s) (hidle : ¬ s.Writing) :
    Kept cfg (close s) ∧ (close s).Clean ∧ ∀ p, s.disk p <+: (close s).disk p := by
  have hframe := frame_flushStream s
  obtain ⟨hstderr, hfailed, hbuf⟩ := flushStream_written s
  have hclean := h.idle hidle
  have hpending : (flushStream s).pending = [] := by
    unfold flushStream
    split
    · rfl
    · exact hclean.1
  have hclean' : (Log.close s).Clean := ⟨hpending, hbuf.trans hclean.2⟩
  have hflusher : (Log.close s).flusher = s.flusher := by
    unfold Log.close flushStream
    split <;> rfl
  refine ⟨?_, hclean', fun p => (flushStream_spec s p).2⟩
  exact {
    order := by
      have hbatch : (Log.close s).batch = s.batch := by
        unfold batch
        rw [hflusher]
      rw [hbatch]
      simpa [Log.close, hframe.submitted, hframe.m_new, hframe.turned] using h.order
    files := by
      intro p
      have hcontent := (flushStream_spec s p).1
      rw [content_of_clean ⟨hpending, hbuf.trans hclean.2⟩, h.files p] at hcontent
      rw [content_of_clean hclean']
      simpa [Log.close, hframe.turned] using hcontent
    stderr := by simpa [Log.close, hstderr, hframe.turned] using h.stderr
    room := by simpa [Log.close, hframe.m_new] using h.room
    buffer := by simp [Log.close, hbuf, hclean.2, MAX_LOG_BUF]
    sound := hfailed.trans h.sound
    closed := fun _ => hclean'
    idle := fun _ => hclean' }

/-- Nothing is on its way, and another file is opened, or the mutex stays locked. -/
theorem Kept.reopened (h : Kept cfg s) (hclean : s.Clean) (hbatch : s.batch = [])
    (path : Option Text) (flusher : Option Flusher)
    (hflusher : ∀ caller since t, flusher ≠ some (.writing caller since t)) :
    Kept cfg { s with m_fstream := path, flusher := flusher } := by
  have hbatch' : Log.batch { s with m_fstream := path, flusher := flusher } = [] := by
    unfold batch
    split
    · rename_i caller since t hwriting
      exact absurd hwriting (hflusher caller since t)
    · rfl
  exact { h with
    order := by
      rw [hbatch']
      have horder := h.order
      rwa [hbatch] at horder
    files := by
      intro p
      have hfiles := h.files p
      rw [content_of_clean hclean] at hfiles
      have hcontent := content_of_clean (s := { s with m_fstream := path, flusher := flusher })
        hclean p
      exact hcontent.trans hfiles
    closed := fun _ => hclean
    idle := fun _ => hclean }

theorem not_writing_of_isSome (h : ¬ s.flusher.isSome = true) : ¬ s.Writing := by
  rintro ⟨caller, since, t, hwriting⟩
  simp [hwriting] at h

theorem batch_of_not_writing (h : ¬ s.Writing) : s.batch = [] := by
  unfold batch
  split
  · rename_i caller since t hwriting
    exact absurd ⟨caller, since, t, hwriting⟩ h
  · rfl

theorem Kept.reopen (h : Kept cfg s) (hfree : ¬ s.flusher.isSome = true) (opens : Bool) :
    Kept cfg (reopen_log_file s opens) := by
  have hidle := not_writing_of_isSome hfree
  obtain ⟨hclose, hclean, _⟩ := h.close hidle
  have hflusher : (Log.close s).flusher = none := by
    have hnone : s.flusher = none := by simpa using hfree
    unfold Log.close flushStream
    split <;> exact hnone
  have hbatch : (Log.close s).batch = [] := by simp [batch, hflusher]
  unfold reopen_log_file
  split
  · exact hclose
  · split
    · have hopened := hclose.reopened hclean hbatch (some s.m_log_file) (Log.close s).flusher
        (by simp [hflusher])
      exact hopened
    · have hgone := hclose.reopened hclean hbatch (Log.close s).m_fstream (some .gone) (by simp)
      exact hgone

/-- The holder of `m_flush_mutex` keeps all lines. -/
theorem Kept.flushStep (h : Kept cfg s) (hstep : flushStep cfg s = some t) : Kept cfg t := by
  unfold Log.flushStep at hstep
  split at hstep
  · cases hstep
  · cases hstep
  · rename_i caller since hlocked
    cases hstep
    exact h.swap hlocked
  · rename_i caller since e rest hwriting
    cases hstep
    exact h.turn hwriting
  · rename_i caller since hwriting
    cases hstep
    exact h.return _ hwriting

theorem Kept.logStep (h : Kept cfg s) (hstep : logStep s = some t) : Kept cfg t := by
  unfold Log.logStep at hstep
  split at hstep
  · split at hstep
    · cases hstep
      exact { h with }
    · split at hstep
      · cases hstep
        exact { h with }
      · cases hstep
        exact { h with }
  · cases hstep
    exact { h with }
  · cases hstep
  · cases hstep
  · cases hstep

/-- Every step of a thread keeps all lines. -/
theorem step_kept (h : Kept cfg s) {a : Act} (hstep : step cfg s a = some t) : Kept cfg t := by
  cases a with
  | submit_entry e =>
      simp only [step] at hstep
      split at hstep
      · cases hstep
        exact { h with }
      · rename_i hroom
        cases hstep
        exact h.push e hroom
  | wakeUp i =>
      simp only [step, Option.map_eq_some_iff] at hstep
      obtain ⟨e, _, rfl⟩ := hstep
      split
      · exact h
      · rename_i hroom
        have hleft : Kept cfg { s with loggers := s.loggers.eraseIdx i } := { h with }
        exact hleft.push e hroom
  | flush =>
      cases hstep
      exact { h with }
  | lock i =>
      simp only [step, Option.bind_eq_some_iff] at hstep
      obtain ⟨c, _, hlocked⟩ := hstep
      split at hlocked
      · cases hlocked
      · rename_i hfree
        have hidle := not_writing_of_isSome hfree
        cases hlocked
        have hheld := h.reopened (h.idle hidle) (batch_of_not_writing hidle) s.m_fstream
          (some (.locked c.1 c.2)) (by simp)
        exact { hheld with }
  | flushStep => exact h.flushStep hstep
  | logStep => exact h.logStep hstep
  | stop =>
      cases hstep
      exact { h with }
  | set_log_level n =>
      simp only [step] at hstep
      split at hstep
      · cases hstep
      · cases hstep
        exact { h with }
  | set_stderr_level n =>
      simp only [step] at hstep
      split at hstep
      · cases hstep
      · cases hstep
        exact { h with }
  | set_syslog_level n =>
      simp only [step] at hstep
      split at hstep
      · cases hstep
      · cases hstep
        exact { h with }
  | set_log_file fn =>
      cases hstep
      exact { h with }
  | reopen_log_file opens =>
      simp only [step] at hstep
      split at hstep
      · cases hstep
      · rename_i hfree
        cases hstep
        exact h.reopen hfree opens

/-- The threads of a node never lose a line of the log. -/
theorem lines_kept_in_order (cfg : Setup) (acts : List Act) :
    Machine.Always (step cfg) (Kept cfg) (start cfg) acts := by
  have hguard : Machine.Guarded (step cfg) (fun _ _ => True) (start cfg) acts :=
    Machine.Guarded.of_forall (p := fun _ => True) fun _ _ => trivial
  exact hguard.always (fun _ _ _ h _ hstep => step_kept h hstep) (fun _ h => h) (kept_start cfg)

/-! ### What a call of flush leaves behind -/

/-- The first `n` entries that were submitted have been looked at, and their lines are in the
files. -/
structure OnDisk (cfg : Setup) (s : Log) (n : Nat) : Prop where
  turned : n ≤ s.turned.length
  lines : ∀ p, cfg.disk p ++ linesOf p (s.turned.take n) <+: s.disk p

/-- The numbers of the calls of `flush` that the log thread has not come back from. -/
def logCalls (s : Log) : List Nat :=
  (match s.flusher with
  | some (.locked .log n) => [n]
  | some (.writing .log n _) => [n]
  | _ => []) ++ s.callers.filterMap fun c => if c.1 = .log then some c.2 else none

/-- What the calls of `flush` have to wait for, and have done. -/
structure Settled (cfg : Setup) (s : Log) : Prop where
  called : ∀ c ∈ s.callers, c.2 ≤ s.submitted.length
  locked : ∀ c n, s.flusher = some (.locked c n) → n ≤ s.submitted.length
  writing : ∀ c n t, s.flusher = some (.writing c n t) → n ≤ s.turned.length + t.length
  returned : ∀ n ∈ s.returned, OnDisk cfg s n

/-- Where the log thread is: it waits for at most one call of `flush`, and the last one came after
`stop`. -/
structure Attended (s : Log) : Prop where
  calls : (logCalls s).length = if s.entry = .flushing ∨ s.entry = .lastFlush then 1 else 0
  stopped : s.m_stop = true → s.stoppedAt ≠ none
  early : ∀ m, s.stoppedAt = some m → m ≤ s.submitted.length
  last : s.entry = .lastFlush → ∃ m, s.stoppedAt = some m ∧ ∀ n ∈ logCalls s, m ≤ n
  ended : s.entry = .ended → ∃ m, s.stoppedAt = some m ∧ ∃ n ∈ s.returned, m ≤ n

theorem linesOf_append (p : Text) (ts us : List Turn) :
    linesOf p (ts ++ us) = linesOf p ts ++ linesOf p us := by
  simp [linesOf]

/-- What is in the files stays there. -/
theorem OnDisk.grow {n : Nat} (h : OnDisk cfg s n) (hturned : s.turned <+: t.turned)
    (hdisk : ∀ p, s.disk p <+: t.disk p) : OnDisk cfg t n := by
  obtain ⟨more, hmore⟩ := hturned
  have htake : t.turned.take n = s.turned.take n := by
    rw [← hmore, List.take_append_of_le_length h.turned]
  refine ⟨?_, fun p => ?_⟩
  · rw [← hmore, List.length_append]
    exact Nat.le_trans h.turned (Nat.le_add_right _ _)
  · rw [htake]
    exact (h.lines p).trans (hdisk p)

/-- Fewer entries are in the files with more of them. -/
theorem OnDisk.mono {m n : Nat} (h : OnDisk cfg s n) (hmn : m ≤ n) : OnDisk cfg s m := by
  refine ⟨Nat.le_trans hmn h.turned, fun p => ?_⟩
  obtain ⟨more, hmore⟩ := List.take_prefix_take_left (l := s.turned) hmn
  have hlines := h.lines p
  rw [← hmore, linesOf_append, ← List.append_assoc] at hlines
  exact (List.prefix_append _ _).trans hlines

/-- Behind `_flush_logbuf` all lines of the entries looked at are in the files. -/
theorem Kept.onDisk (h : Kept cfg s) (hclean : s.Clean) : OnDisk cfg s s.turned.length := by
  refine ⟨Nat.le_refl _, fun p => ?_⟩
  rw [List.take_length, ← h.files p, content_of_clean hclean]

/-- A step that is about neither `flush` nor the files. -/
theorem Settled.of_same (h : Settled cfg s) (hcallers : t.callers = s.callers)
    (hflusher : t.flusher = s.flusher) (hturned : t.turned = s.turned)
    (hreturned : t.returned = s.returned) (hdisk : t.disk = s.disk)
    (hsubmitted : s.submitted.length ≤ t.submitted.length) : Settled cfg t where
  called := by
    rw [hcallers]
    exact fun c hc => Nat.le_trans (h.called c hc) hsubmitted
  locked := by
    rw [hflusher]
    exact fun c n hlocked => Nat.le_trans (h.locked c n hlocked) hsubmitted
  writing := by
    rw [hflusher, hturned]
    exact h.writing
  returned := by
    rw [hreturned]
    intro n hn
    have hprefix : s.turned <+: t.turned := by rw [hturned]
    exact (h.returned n hn).grow hprefix fun p => by rw [hdisk]

theorem Settled.callFlush (h : Settled cfg s) (caller : Caller) :
    Settled cfg (callFlush s caller) where
  called := by
    intro c hc
    rcases List.mem_append.mp hc with hold | hnew
    · exact h.called c hold
    · cases List.mem_singleton.mp hnew
      exact Nat.le_refl _
  locked := h.locked
  writing := h.writing
  returned := fun n hn => (h.returned n hn).grow List.prefix_rfl fun _ => List.prefix_rfl

theorem Settled.lock (h : Settled cfg s) {i : Nat} {c : Caller × Nat} (hc : s.callers[i]? = some c) :
    Settled cfg { s with flusher := some (.locked c.1 c.2), callers := s.callers.eraseIdx i } where
  called := fun d hd => h.called d (List.mem_of_mem_eraseIdx hd)
  locked := by
    intro caller n hlocked
    cases hlocked
    exact h.called c (List.mem_of_getElem? hc)
  writing := by simp
  returned := fun n hn => (h.returned n hn).grow List.prefix_rfl fun _ => List.prefix_rfl

/-- A caller that takes the whole queue takes all that was submitted before its call. -/
theorem Settled.swap (h : Settled cfg s) (hk : Kept cfg s) {caller : Caller} {since : Nat}
    (hlocked : s.flusher = some (.locked caller since)) :
    Settled cfg { s with flusher := some (.writing caller since s.m_new), m_new := [] } where
  called := h.called
  locked := by simp
  writing := by
    intro c n rest hwriting
    cases hwriting
    have hsince := h.locked caller since hlocked
    have hbatch : s.batch = [] := by simp [batch, hlocked]
    rw [hk.order, hbatch] at hsince
    simpa using hsince
  returned := fun n hn => (h.returned n hn).grow List.prefix_rfl fun _ => List.prefix_rfl

theorem Settled.turn (h : Settled cfg s) (hk : Kept cfg s) {caller : Caller} {since : Nat}
    {e : Entry} {rest : List Entry}
    (hwriting : s.flusher = some (.writing caller since (e :: rest))) :
    Settled cfg { Log.turn cfg s e with
      flusher := some (.writing caller since rest), turned := s.turned ++ [turnOf s e] } := by
  have hspec := turn_spec cfg e hk.closed hk.buffer
  exact {
    called := by
      intro c hc
      change c ∈ (Log.turn cfg s e).callers at hc
      rw [hspec.frame.callers] at hc
      exact (h.called c hc).trans_eq (by rw [hspec.frame.submitted])
    locked := by simp
    writing := by
      intro c n t hnow
      cases hnow
      have hsince := h.writing _ _ _ hwriting
      simp at hsince ⊢
      omega
    returned := by
      intro n hn
      change n ∈ (Log.turn cfg s e).returned at hn
      rw [hspec.frame.returned] at hn
      exact (h.returned n hn).grow (List.prefix_append _ _) hspec.disk }

/-- When `flush` returns, the lines of all entries submitted before the call are in the files. -/
theorem Settled.return (h : Settled cfg s) (hk : Kept cfg s) {caller : Caller} {since : Nat}
    (entry : LogThread) (hwriting : s.flusher = some (.writing caller since [])) :
    Settled cfg { flushLogbuf s with
      flusher := none, returned := s.returned ++ [since], entry := entry } := by
  have hframe := frame_flushLogbuf s
  have hclean := flushLogbuf_clean hk.closed
  have hsince := h.writing _ _ _ hwriting
  have hall := (hk.return entry hwriting).onDisk hclean
  exact {
    called := by
      intro c hc
      change c ∈ (flushLogbuf s).callers at hc
      rw [hframe.callers] at hc
      exact (h.called c hc).trans_eq (by rw [hframe.submitted])
    locked := by simp
    writing := by simp
    returned := by
      intro n hn
      rcases List.mem_append.mp hn with hold | hnew
      · have hprefix : s.turned <+: (flushLogbuf s).turned := by rw [hframe.turned]
        exact (h.returned n hold).grow hprefix fun p => (flushLogbuf_spec s p).2
      · cases List.mem_singleton.mp hnew
        apply hall.mono
        simpa [hframe.turned] using hsince }

theorem Settled.reopen (h : Settled cfg s) (hk : Kept cfg s) (hfree : ¬ s.flusher.isSome = true)
    (opens : Bool) : Settled cfg (reopen_log_file s opens) := by
  have hframe := frame_flushStream s
  obtain ⟨_, _, hdisk⟩ := hk.close (not_writing_of_isSome hfree)
  have hnone : s.flusher = none := by simpa using hfree
  have hflusher : (Log.close s).flusher = none := by
    unfold Log.close flushStream
    split <;> exact hnone
  have hclose : Settled cfg (Log.close s) := {
    called := by
      intro c hc
      change c ∈ (flushStream s).callers at hc
      rw [hframe.callers] at hc
      exact (h.called c hc).trans_eq (by simp [Log.close, hframe.submitted])
    locked := by simp [hflusher]
    writing := by simp [hflusher]
    returned := by
      intro n hn
      change n ∈ (flushStream s).returned at hn
      rw [hframe.returned] at hn
      have hprefix : s.turned <+: (Log.close s).turned := by simp [Log.close, hframe.turned]
      exact (h.returned n hn).grow hprefix hdisk }
  unfold reopen_log_file
  split
  · exact hclose
  · split
    · exact hclose.of_same rfl rfl rfl rfl rfl (Nat.le_refl _)
    · exact {
        called := hclose.called
        locked := by simp
        writing := by simp
        returned := fun n hn => (hclose.returned n hn).grow List.prefix_rfl fun _ => List.prefix_rfl }

/-! ### The log thread -/

theorem attended_start (cfg : Setup) : Attended (start cfg) where
  calls := rfl
  stopped := by simp [start]
  early := by simp [start]
  last := by simp [start]
  ended := by simp [start]

/-- A step that the log thread does not see. -/
theorem Attended.of_same (h : Attended s) (hentry : t.entry = s.entry)
    (hcalls : (logCalls t).Perm (logCalls s)) (hstop : t.m_stop = s.m_stop)
    (hstopped : t.stoppedAt = s.stoppedAt) (hreturned : s.returned <+: t.returned)
    (hsubmitted : s.submitted.length ≤ t.submitted.length) : Attended t where
  calls := by
    rw [hcalls.length_eq, hentry]
    exact h.calls
  stopped := by
    rw [hstop, hstopped]
    exact h.stopped
  early := by
    rw [hstopped]
    exact fun m hm => Nat.le_trans (h.early m hm) hsubmitted
  last := by
    rw [hentry, hstopped]
    intro hlast
    obtain ⟨m, hm, hall⟩ := h.last hlast
    exact ⟨m, hm, fun n hn => hall n (hcalls.mem_iff.mp hn)⟩
  ended := by
    rw [hentry, hstopped]
    intro hended
    obtain ⟨m, hm, n, hn, hmn⟩ := h.ended hended
    exact ⟨m, hm, n, hreturned.subset hn, hmn⟩

/-- While the log thread waits for no call there is none. -/
theorem Attended.no_calls (h : Attended s) (hentry : ¬ (s.entry = .flushing ∨ s.entry = .lastFlush)) :
    logCalls s = [] := by
  have hcalls := h.calls
  rw [if_neg hentry] at hcalls
  exact List.length_eq_zero_iff.mp hcalls

theorem logCalls_callFlush (s : Log) (caller : Caller) :
    logCalls (callFlush s caller) =
      logCalls s ++ if caller = .log then [s.submitted.length] else [] := by
  cases caller <;> simp [logCalls, callFlush]

/-- The call that gets the mutex is still there. -/
theorem logCalls_lock {i : Nat} {c : Caller × Nat} (hc : s.callers[i]? = some c)
    (hfree : ¬ s.flusher.isSome = true) :
    (logCalls { s with flusher := some (.locked c.1 c.2), callers := s.callers.eraseIdx i }).Perm
      (logCalls s) := by
  have hnone : s.flusher = none := by simpa using hfree
  obtain ⟨hi, rfl⟩ := List.getElem?_eq_some_iff.mp hc
  have hperm := (List.getElem_cons_eraseIdx_perm hi).filterMap
    fun c => if c.1 = .log then some c.2 else none
  cases hcaller : s.callers[i].1 with
  | log => simpa [logCalls, hnone, hcaller] using hperm
  | thread => simpa [logCalls, hnone, hcaller] using hperm

/-- The log thread calls `flush`. -/
theorem Attended.call (h : Attended s) (hentry : s.entry = .loop) (next : LogThread)
    (hnext : next = .flushing ∨ next = .lastFlush ∧ s.m_stop = true) :
    Attended { callFlush s .log with entry := next } := by
  have hnone := h.no_calls (by simp [hentry])
  have hcalls : logCalls { callFlush s .log with entry := next } = [s.submitted.length] := by
    have hadd := logCalls_callFlush s .log
    rw [hnone] at hadd
    exact hadd
  exact {
    calls := by
      rw [hcalls]
      rcases hnext with rfl | ⟨rfl, _⟩ <;> rfl
    stopped := h.stopped
    early := h.early
    last := by
      rintro rfl
      rcases hnext with hbad | ⟨_, hstop⟩
      · cases hbad
      · obtain ⟨m, hm⟩ := Option.ne_none_iff_exists'.mp (h.stopped hstop)
        refine ⟨m, hm, fun n hn => ?_⟩
        rw [hcalls] at hn
        cases List.mem_singleton.mp hn
        exact h.early m hm
    ended := by
      rintro rfl
      rcases hnext with hbad | ⟨hbad, _⟩ <;> cases hbad }

/-- `flush` returns. -/
theorem Attended.return (h : Attended s) {caller : Caller} {since : Nat}
    (hwriting : s.flusher = some (.writing caller since [])) :
    Attended { flushLogbuf s with
      flusher := none
      returned := s.returned ++ [since]
      entry := if caller = .log then afterFlush s.entry else s.entry } := by
  have hframe := frame_flushLogbuf s
  cases caller with
  | thread =>
      exact Attended.of_same (t := { flushLogbuf s with
          flusher := none, returned := s.returned ++ [since], entry := s.entry }) h rfl
        (by simp [logCalls, hwriting, hframe.callers]) hframe.m_stop hframe.stoppedAt
        (List.prefix_append _ _) (Nat.le_of_eq (congrArg List.length hframe.submitted.symm))
  | log =>
      have hcalls := h.calls
      have hin : since ∈ logCalls s := by simp [logCalls, hwriting]
      have hentry : s.entry = .flushing ∨ s.entry = .lastFlush := by
        by_contra hnot
        rw [h.no_calls hnot] at hin
        cases hin
      have hrest : s.callers.filterMap (fun c => if c.1 = .log then some c.2 else none) = [] := by
        rw [if_pos hentry] at hcalls
        simpa [logCalls, hwriting] using hcalls
      exact {
        calls := by
          rcases hentry with hflushing | hlast
          · simpa [logCalls, hframe.callers, afterFlush, hflushing] using hrest
          · simpa [logCalls, hframe.callers, afterFlush, hlast] using hrest
        stopped := by simpa [hframe.m_stop, hframe.stoppedAt] using h.stopped
        early := by simpa [hframe.stoppedAt, hframe.submitted] using h.early
        last := by rcases hentry with hflushing | hlast <;> simp [afterFlush, *]
        ended := by
          rcases hentry with hflushing | hlast
          · simp [afterFlush, hflushing]
          · intro _
            obtain ⟨m, hm, hall⟩ := h.last hlast
            exact ⟨m, hframe.stoppedAt.trans hm, since, by simp, hall since hin⟩ }

theorem Attended.turn (h : Attended s) {caller : Caller} {since : Nat} {e : Entry}
    {rest : List Entry} (hwriting : s.flusher = some (.writing caller since (e :: rest)))
    (hframe : Frame s (Log.turn cfg s e)) :
    Attended { Log.turn cfg s e with
      flusher := some (.writing caller since rest), turned := s.turned ++ [turnOf s e] } := by
  have hcalls : (logCalls { Log.turn cfg s e with
      flusher := some (.writing caller since rest),
      turned := s.turned ++ [turnOf s e] }).Perm (logCalls s) := by
    cases caller <;> simp [logCalls, hwriting, hframe.callers]
  have hreturned : s.returned <+: (Log.turn cfg s e).returned := by rw [hframe.returned]
  exact h.of_same hframe.entry hcalls hframe.m_stop hframe.stoppedAt hreturned
    (Nat.le_of_eq (congrArg List.length hframe.submitted.symm))

theorem Attended.flushStep (h : Attended s) (hk : Kept cfg s) (hstep : flushStep cfg s = some t) :
    Attended t := by
  unfold Log.flushStep at hstep
  split at hstep
  · cases hstep
  · cases hstep
  · rename_i caller since hlocked
    cases hstep
    refine h.of_same rfl ?_ rfl rfl List.prefix_rfl (Nat.le_refl _)
    cases caller <;> simp [logCalls, hlocked]
  · rename_i caller since e rest hwriting
    cases hstep
    exact h.turn hwriting (turn_spec cfg e hk.closed hk.buffer).frame
  · rename_i caller since hwriting
    cases hstep
    exact h.return hwriting

theorem Attended.logStep (h : Attended s) (hstep : logStep s = some t) : Attended t := by
  unfold Log.logStep at hstep
  split at hstep
  · rename_i hloop
    split at hstep
    · rename_i hstop
      cases hstep
      exact h.call hloop .lastFlush (.inr ⟨rfl, hstop⟩)
    · split at hstep
      · cases hstep
        exact h.call hloop .flushing (.inl rfl)
      · cases hstep
        have hnone := h.no_calls (by simp [hloop])
        exact {
          calls := by
            have hcalls : logCalls { s with entry := .waiting } = [] := hnone
            simp [hcalls]
          stopped := h.stopped
          early := h.early
          last := by simp
          ended := by simp }
  · rename_i hwaiting
    cases hstep
    have hnone := h.no_calls (by simp [hwaiting])
    exact {
      calls := by
        have hcalls : logCalls { s with entry := .loop } = [] := hnone
        simp [hcalls]
      stopped := h.stopped
      early := h.early
      last := by simp
      ended := by simp }
  · cases hstep
  · cases hstep
  · cases hstep

theorem Attended.stop (h : Attended s) :
    Attended { s with
      m_stop := true, stoppedAt := some (s.stoppedAt.getD s.submitted.length) } := by
  cases hat : s.stoppedAt with
  | some m =>
      have hearly := h.early m hat
      have hlast := h.last
      have hended := h.ended
      rw [hat] at hlast hended
      exact ⟨h.calls, by simp, by simpa using hearly, hlast, hended⟩
  | none =>
      have hlast : s.entry ≠ .lastFlush := by
        intro hlast
        obtain ⟨m, hm, _⟩ := h.last hlast
        simp [hat] at hm
      have hended : s.entry ≠ .ended := by
        intro hended
        obtain ⟨m, hm, _⟩ := h.ended hended
        simp [hat] at hm
      exact ⟨h.calls, by simp, by simp, fun hl => absurd hl hlast, fun he => absurd he hended⟩

theorem Attended.reopen (h : Attended s) (hfree : ¬ s.flusher.isSome = true) (opens : Bool) :
    Attended (reopen_log_file s opens) := by
  have hframe := frame_flushStream s
  have hnone : s.flusher = none := by simpa using hfree
  have hflusher : (flushStream s).flusher = none := by
    unfold flushStream
    split <;> exact hnone
  have hreturned : s.returned <+: (flushStream s).returned := by rw [hframe.returned]
  have hsubmitted := Nat.le_of_eq (congrArg List.length hframe.submitted.symm)
  unfold reopen_log_file Log.close
  split
  · exact h.of_same hframe.entry (by simp [logCalls, hflusher, hnone, hframe.callers])
      hframe.m_stop hframe.stoppedAt hreturned hsubmitted
  · split
    · exact h.of_same hframe.entry (by simp [logCalls, hflusher, hnone, hframe.callers])
        hframe.m_stop hframe.stoppedAt hreturned hsubmitted
    · exact h.of_same hframe.entry (by simp [logCalls, hnone, hframe.callers])
        hframe.m_stop hframe.stoppedAt hreturned hsubmitted

/-- What the threads keep between them. -/
structure Orderly (cfg : Setup) (s : Log) : Prop where
  kept : Kept cfg s
  settled : Settled cfg s
  attended : Attended s

theorem Settled.flushStep (h : Settled cfg s) (hk : Kept cfg s)
    (hstep : flushStep cfg s = some t) : Settled cfg t := by
  unfold Log.flushStep at hstep
  split at hstep
  · cases hstep
  · cases hstep
  · rename_i caller since hlocked
    cases hstep
    exact h.swap hk hlocked
  · rename_i caller since e rest hwriting
    cases hstep
    exact h.turn hk hwriting
  · rename_i caller since hwriting
    cases hstep
    exact h.return hk _ hwriting

theorem Settled.logStep (h : Settled cfg s) (hstep : logStep s = some t) : Settled cfg t := by
  unfold Log.logStep at hstep
  split at hstep
  · split at hstep
    · cases hstep
      exact (h.callFlush .log).of_same rfl rfl rfl rfl rfl (Nat.le_refl _)
    · split at hstep
      · cases hstep
        exact (h.callFlush .log).of_same rfl rfl rfl rfl rfl (Nat.le_refl _)
      · cases hstep
        exact h.of_same rfl rfl rfl rfl rfl (Nat.le_refl _)
  · cases hstep
    exact h.of_same rfl rfl rfl rfl rfl (Nat.le_refl _)
  · cases hstep
  · cases hstep
  · cases hstep

theorem Orderly.push {e : Entry} (h : Orderly cfg s) (hk : Kept cfg (push s e)) : Orderly cfg (push s e) := by
  have hmore : s.submitted.length ≤ (Log.push s e).submitted.length := by simp [Log.push]
  exact ⟨hk, h.settled.of_same rfl rfl rfl rfl rfl hmore,
    h.attended.of_same rfl (List.Perm.refl _) rfl rfl List.prefix_rfl hmore⟩

/-- A step that is about neither the entries, nor `flush`, nor the files. -/
theorem Orderly.of_same (h : Orderly cfg s) (hk : Kept cfg t) (hcallers : t.callers = s.callers)
    (hflusher : t.flusher = s.flusher) (hturned : t.turned = s.turned)
    (hreturned : t.returned = s.returned) (hdisk : t.disk = s.disk)
    (hsubmitted : t.submitted = s.submitted) (hentry : t.entry = s.entry)
    (hstop : t.m_stop = s.m_stop) (hstopped : t.stoppedAt = s.stoppedAt) : Orderly cfg t := by
  have hlength := Nat.le_of_eq (congrArg List.length hsubmitted.symm)
  refine ⟨hk, h.settled.of_same hcallers hflusher hturned hreturned hdisk hlength, ?_⟩
  apply h.attended.of_same hentry _ hstop hstopped (by rw [hreturned]) hlength
  simp [logCalls, hflusher, hcallers]

/-- Every step of a thread keeps the order. -/
theorem step_orderly (h : Orderly cfg s) {a : Act} (hstep : step cfg s a = some t) :
    Orderly cfg t := by
  have hkept := step_kept h.kept hstep
  cases a with
  | submit_entry e =>
      simp only [step] at hstep
      split at hstep
      · cases hstep
        exact h.of_same hkept rfl rfl rfl rfl rfl rfl rfl rfl rfl
      · cases hstep
        exact h.push hkept
  | wakeUp i =>
      simp only [step, Option.map_eq_some_iff] at hstep
      obtain ⟨e, _, rfl⟩ := hstep
      split at hkept
      · rename_i hfull
        rw [if_pos hfull]
        exact h
      · rename_i hroom
        rw [if_neg hroom]
        have hleft : Kept cfg { s with loggers := s.loggers.eraseIdx i } := { h.kept with }
        exact Orderly.push (h.of_same hleft rfl rfl rfl rfl rfl rfl rfl rfl rfl) hkept
  | flush =>
      cases hstep
      have hcalls : (logCalls (callFlush s .thread)).Perm (logCalls s) := by
        simp [logCalls_callFlush]
      exact ⟨hkept, h.settled.callFlush .thread,
        h.attended.of_same rfl hcalls rfl rfl List.prefix_rfl (Nat.le_refl _)⟩
  | lock i =>
      simp only [step, Option.bind_eq_some_iff] at hstep
      obtain ⟨c, hc, hlocked⟩ := hstep
      split at hlocked
      · cases hlocked
      · rename_i hfree
        cases hlocked
        exact ⟨hkept, h.settled.lock hc, h.attended.of_same rfl (logCalls_lock hc hfree) rfl rfl
          List.prefix_rfl (Nat.le_refl _)⟩
  | flushStep =>
      exact ⟨hkept, h.settled.flushStep h.kept hstep, h.attended.flushStep h.kept hstep⟩
  | logStep => exact ⟨hkept, h.settled.logStep hstep, h.attended.logStep hstep⟩
  | stop =>
      cases hstep
      exact ⟨hkept, h.settled.of_same rfl rfl rfl rfl rfl (Nat.le_refl _), h.attended.stop⟩
  | set_log_level n =>
      simp only [step] at hstep
      split at hstep
      · cases hstep
      · cases hstep
        exact h.of_same hkept rfl rfl rfl rfl rfl rfl rfl rfl rfl
  | set_stderr_level n =>
      simp only [step] at hstep
      split at hstep
      · cases hstep
      · cases hstep
        exact h.of_same hkept rfl rfl rfl rfl rfl rfl rfl rfl rfl
  | set_syslog_level n =>
      simp only [step] at hstep
      split at hstep
      · cases hstep
      · cases hstep
        exact h.of_same hkept rfl rfl rfl rfl rfl rfl rfl rfl rfl
  | set_log_file fn =>
      cases hstep
      exact h.of_same hkept rfl rfl rfl rfl rfl rfl rfl rfl rfl
  | reopen_log_file opens =>
      simp only [step] at hstep
      split at hstep
      · cases hstep
      · rename_i hfree
        cases hstep
        exact ⟨hkept, h.settled.reopen h.kept hfree opens, h.attended.reopen hfree opens⟩

theorem orderly_start (cfg : Setup) : Orderly cfg (start cfg) where
  kept := kept_start cfg
  settled := ⟨by simp [start], by simp [start], by simp [start], by simp [start]⟩
  attended := attended_start cfg

/-- What every `flush` that has returned found submitted is in the files; so is, once the log thread
is gone, all that was submitted before `stop`. -/
def Flushed (cfg : Setup) (s : Log) : Prop :=
  (∀ n ∈ s.returned, OnDisk cfg s n) ∧
    (s.entry = .ended → ∃ n, s.stoppedAt = some n ∧ OnDisk cfg s n)

theorem Orderly.flushed (h : Orderly cfg s) : Flushed cfg s := by
  refine ⟨h.settled.returned, fun hended => ?_⟩
  obtain ⟨m, hm, n, hn, hmn⟩ := h.attended.ended hended
  exact ⟨m, hm, (h.settled.returned n hn).mono hmn⟩

/-- A call of `flush` is a barrier, and `stop` loses nothing. -/
theorem returned_flush_is_barrier (cfg : Setup) (acts : List Act) :
    Machine.Always (step cfg) (Flushed cfg) (start cfg) acts := by
  have hguard : Machine.Guarded (step cfg) (fun _ _ => True) (start cfg) acts :=
    Machine.Guarded.of_forall (p := fun _ => True) fun _ _ => trivial
  exact hguard.always (fun _ _ _ h _ hstep => step_orderly h hstep) (fun _ h => h.flushed)
    (orderly_start cfg)

end Gvds.Logging
