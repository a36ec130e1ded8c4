/-
Module: Gvds.Common.Log
Layer: Common
Purpose: The log of a node (log/Log.cc, log/Entry.h): threads that submit entries, the log thread
  with its loop in entry, any number of callers of flush, and the calls that change the levels or
  open another file, as one step function. The steps of a thread that holds m_flush_mutex
  interleave with those of the others.
Imports: Gvds.Lib.DecimalText, Mathlib.Logic.Function.Basic
Trusted boundary: a write to an open stream succeeds, and std::ofstream::flush and close bring it
  to the file. localtime_r of a time of the system clock gives a year of four digits. A thread in
  pthread_cond_wait may wake up at any time
Main exports: Calendar, Entry, Entry.line, Entry.text, Log, Log.start, Log.turn, Log.flushStep,
  Log.Act, Log.step
-/
import Gvds.Lib.DecimalText
import Mathlib.Logic.Function.Basic

namespace Gvds.Logging

abbrev Text := List UInt8

/-! ### Entries and their lines -/

/-- What `localtime_r` makes of a time, with its microseconds. -/
structure Calendar where
  year : Nat
  month : Nat
  day : Nat
  hour : Nat
  minute : Nat
  second : Nat
  micros : Nat
  year_lt : year < 10 ^ 4
  month_lt : month < 10 ^ 2
  day_lt : day < 10 ^ 2
  hour_lt : hour < 10 ^ 2
  minute_lt : minute < 10 ^ 2
  second_lt : second < 10 ^ 2
  micros_lt : micros < 10 ^ 6
deriving DecidableEq

/-- An `Entry` that was finished. -/
structure Entry where
  m_stamp : Calendar
  m_thread : UInt64
  m_prio : Int32
  m_buf : Text
deriving DecidableEq

namespace Entry

def size (e : Entry) : Nat := e.m_buf.length

/-- `Entry::snprintf`: what it copies. -/
def snprintf (e : Entry) (max_n : Nat) : Text := e.m_buf.take max_n

end Entry

namespace Log

/-- `MAX_LOG_BUF`. -/
def MAX_LOG_BUF : Nat := 65536

/-- The digits of `n` with zeros in front up to `width`: what `%0<width>d` prints. -/
def zeroPadded (width n : Nat) : Text :=
  List.replicate (width - (DecimalText.digits n).length) 48 ++ DecimalText.digits n

/-- What `%lx` prints. -/
def hexDigits (n : Nat) : Text := (Nat.toDigits 16 n).map fun c => UInt8.ofNat c.toNat

/-- What `%2d` prints. -/
def signedField (n : Int) : Text :=
  let text := if n < 0 then 45 :: DecimalText.digits n.natAbs else DecimalText.digits n.natAbs
  List.replicate (2 - text.length) 32 ++ text

/-- `Log::append_time`: the text of `%04d-%02d-%02d %02d:%02d:%02d.%06ld`. -/
def append_time (t : Calendar) : Text :=
  zeroPadded 4 t.year ++ 45 :: (zeroPadded 2 t.month ++ 45 :: (zeroPadded 2 t.day ++
    32 :: (zeroPadded 2 t.hour ++ 58 :: (zeroPadded 2 t.minute ++ 58 :: (zeroPadded 2 t.second ++
      46 :: zeroPadded 6 t.micros)))))

/-- The text of ` %lx %2d `. -/
def header (e : Entry) : Text :=
  32 :: (hexDigits e.m_thread.toNat ++ 32 :: (signedField e.m_prio.toInt ++ [32]))

end Log

/-- The line that `Log::_flush` composes of an entry in a buffer of `80 + e->size()` bytes; none if
one of the two `snprintf` is cut or the `assert` behind them fails. -/
def Entry.line (e : Entry) : Option Text :=
  let line_size := 80 + e.size
  let stamp := Log.append_time e.m_stamp
  let header := Log.header e
  if stamp.length < line_size ∧ header.length < line_size - stamp.length then
    let used := stamp.length + header.length
    let line := stamp ++ header ++ e.snprintf (line_size - used - 1)
    if line.length < line_size then some line else none
  else none

/-- All of an entry in one line. -/
def Entry.text (e : Entry) : Text := Log.append_time e.m_stamp ++ Log.header e ++ e.m_buf

/-! ### The log and its threads -/

/-- A caller of `flush`. -/
inductive Caller where
  | log
  | thread
deriving DecidableEq

/-- The holder of `m_flush_mutex`: a caller of `flush` before the swap of the queue; one in `_flush`
with the rest of its local queue; a caller of `reopen_log_file` that returned early. The numbers
are those of the entries submitted before the call. -/
inductive Flusher where
  | locked (caller : Caller) (since : Nat)
  | writing (caller : Caller) (since : Nat) (t : List Entry)
  | gone

/-- Where the log thread is in `entry`: at the head of its loop; waiting on `m_cond_flusher`; in the
`flush` of the loop; in the one behind it; gone. -/
inductive LogThread where
  | loop
  | waiting
  | flushing
  | lastFlush
  | ended
deriving DecidableEq

/-- What became of an entry in `_flush`: the file and whether standard error got its line. -/
structure Turn where
  entry : Entry
  file : Option Text
  stderr : Bool
deriving DecidableEq

/-- `Log`. `loggers` are the entries of threads that wait for room; `callers` the calls of `flush`
that wait for `m_flush_mutex`. `m_fstream` is the path of the open file, and `pending` what was
written to it since its last `flush`; `m_log_buf` has the first `m_log_buf_pos` bytes of the
buffer. `failed` is set by an `assert` and by a write behind the buffer. Not in the source are
`submitted`, every entry pushed so far; `turned`, what became of those taken from a local queue;
`returned`, the numbers of the calls of `flush` that have returned; `stoppedAt`, how many entries
were pushed before the first `stop`. -/
structure Log where
  m_new : List Entry
  loggers : List Entry
  m_stop : Bool
  entry : LogThread
  callers : List (Caller × Nat)
  flusher : Option Flusher
  m_log_file : Text
  m_fstream : Option Text
  pending : Text
  m_log_buf : Text
  log_level : Int32
  m_stderr_log : Int32
  m_syslog_log : Int32
  disk : Text → Text
  stderr : Text
  failed : Bool
  submitted : List Entry
  turned : List Turn
  returned : List Nat
  stoppedAt : Option Nat

namespace Log

/-- What a log begins with: `m_max_new`, which the constructor leaves as it is, the prefix of the
lines on standard error, and the files there are. -/
structure Setup where
  m_max_new : Int32
  m_log_stderr_prefix : Text
  disk : Text → Text

/-- `m_max_new` as it is compared with the size of the queue. -/
def Setup.room (cfg : Setup) : Nat := (cfg.m_max_new.toInt % 2 ^ 64).toNat

/-- The constructor, and `start`. -/
def start (cfg : Setup) : Log where
  m_new := []
  loggers := []
  m_stop := false
  entry := .loop
  callers := []
  flusher := none
  m_log_file := []
  m_fstream := none
  pending := []
  m_log_buf := []
  log_level := 10
  m_stderr_log := -1
  m_syslog_log := -2
  disk := cfg.disk
  stderr := []
  failed := false
  submitted := []
  turned := []
  returned := []
  stoppedAt := none

/-- `submit_entry` behind its wait. -/
def push (s : Log) (e : Entry) : Log :=
  { s with m_new := s.m_new ++ [e], submitted := s.submitted ++ [e] }

/-- A thread calls `flush`. -/
def callFlush (s : Log) (caller : Caller) : Log :=
  { s with callers := s.callers ++ [(caller, s.submitted.length)] }

/-- `_log_safe_write`. -/
def safeWrite (s : Log) (what : Text) : Log :=
  if s.m_fstream.isSome then { s with pending := s.pending ++ what } else s

/-- `std::ofstream::flush`. -/
def flushStream (s : Log) : Log :=
  match s.m_fstream with
  | some p => { s with disk := Function.update s.disk p (s.disk p ++ s.pending), pending := [] }
  | none => s

/-- `_flush_logbuf`. -/
def flushLogbuf (s : Log) : Log :=
  flushStream (if s.m_log_buf ≠ [] then { safeWrite s s.m_log_buf with m_log_buf := [] } else s)

/-- What `std::cerr` makes of a line with a NUL behind it. -/
def cString (line : Text) : Text := line.takeWhile (· != 0)

/-- `should_log` of an entry. -/
def shouldLog (s : Log) (e : Entry) : Bool := s.log_level ≥ e.m_prio

/-- `do_fd`. -/
def doFd (s : Log) (e : Entry) : Bool := s.m_fstream.isSome && s.shouldLog e

/-- `do_stderr`. -/
def doStderr (s : Log) (e : Entry) : Bool := s.m_stderr_log ≥ e.m_prio && s.shouldLog e

/-- `do_syslog`. -/
def doSyslog (s : Log) (e : Entry) : Bool := s.m_syslog_log ≥ e.m_prio && s.shouldLog e

/-- The line goes to the buffer, or to the stream if it needs a buffer of its own. Without a file
the buffer is emptied. -/
def toFile (s : Log) (e : Entry) (line : Text) : Log :=
  if s.doFd e then
    if 80 + e.size ≥ MAX_LOG_BUF then { safeWrite s (line ++ [10]) with m_log_buf := [] }
    else { s with m_log_buf := s.m_log_buf ++ (line ++ [10]) }
  else { s with m_log_buf := [] }

/-- The line goes to standard error. -/
def toStderr (cfg : Setup) (s : Log) (e : Entry) (line : Text) : Log :=
  if s.doStderr e then
    { s with stderr := s.stderr ++ (cfg.m_log_stderr_prefix ++ (cString line ++ [10])) }
  else s

/-- One round of the loop in `_flush`. -/
def turn (cfg : Setup) (s : Log) (e : Entry) : Log :=
  if s.doFd e || s.doSyslog e || s.doStderr e then
    let line_size := 80 + e.size
    let s := if s.m_log_buf.length + line_size ≥ MAX_LOG_BUF then flushLogbuf s else s
    match e.line with
    | some line =>
        if line_size < MAX_LOG_BUF ∧ s.m_log_buf.length + line_size > MAX_LOG_BUF then
          { s with failed := true }
        else toFile (toStderr cfg s e line) e line
    | none => { s with failed := true }
  else s

/-- What became of an entry. -/
def turnOf (s : Log) (e : Entry) : Turn where
  entry := e
  file := if s.shouldLog e then s.m_fstream else none
  stderr := s.doStderr e

/-- A call of `flush` has returned to the log thread. -/
def afterFlush : LogThread → LogThread
  | .lastFlush => .ended
  | _ => .loop

/-- One step of the holder of `m_flush_mutex`. -/
def flushStep (cfg : Setup) (s : Log) : Option Log :=
  match s.flusher with
  | none => none
  | some .gone => none
  | some (.locked caller since) =>
      some { s with flusher := some (.writing caller since s.m_new), m_new := [] }
  | some (.writing caller since (e :: t)) =>
      some { turn cfg s e with
        flusher := some (.writing caller since t)
        turned := s.turned ++ [turnOf s e] }
  | some (.writing caller since []) =>
      some { flushLogbuf s with
        flusher := none
        returned := s.returned ++ [since]
        entry := if caller = .log then afterFlush s.entry else s.entry }

/-- One step of the log thread outside `flush`. -/
def logStep (s : Log) : Option Log :=
  match s.entry with
  | .loop =>
      if s.m_stop then some { callFlush s .log with entry := .lastFlush }
      else if s.m_new ≠ [] then some { callFlush s .log with entry := .flushing }
      else some { s with entry := .waiting }
  | .waiting => some { s with entry := .loop }
  | .flushing => none
  | .lastFlush => none
  | .ended => none

/-- `std::ofstream::close`. -/
def close (s : Log) : Log := { flushStream s with m_fstream := none }

/-- `reopen_log_file`. If the file cannot be opened it returns without unlocking the mutex. -/
def reopen_log_file (s : Log) (opens : Bool) : Log :=
  if s.m_log_file = [] then close s
  else if opens then { close s with m_fstream := some s.m_log_file }
  else { close s with flusher := some .gone }

/-- What can happen next: a thread submits an entry; the `i`-th waiting one wakes up; a thread calls
`flush`; the `i`-th waiting call gets `m_flush_mutex`; its holder goes on; the log thread goes on; a
thread calls `stop` or one of the functions that change the levels and the file. -/
inductive Act where
  | submit_entry (e : Entry)
  | wakeUp (i : Nat)
  | flush
  | lock (i : Nat)
  | flushStep
  | logStep
  | stop
  | set_log_level (n : Int32)
  | set_stderr_level (n : Int32)
  | set_syslog_level (n : Int32)
  | set_log_file (fn : Text)
  | reopen_log_file (opens : Bool)

/-- One step of the node's threads. -/
def step (cfg : Setup) (s : Log) : Act → Option Log
  | .submit_entry e =>
      if s.m_new.length > cfg.room then some { s with loggers := s.loggers ++ [e] }
      else some (push s e)
  | .wakeUp i =>
      s.loggers[i]?.map fun e =>
        if s.m_new.length > cfg.room then s
        else push { s with loggers := s.loggers.eraseIdx i } e
  | .flush => some (callFlush s .thread)
  | .lock i =>
      s.callers[i]?.bind fun c =>
        if s.flusher.isSome then none
        else some { s with
          flusher := some (.locked c.1 c.2)
          callers := s.callers.eraseIdx i }
  | .flushStep => flushStep cfg s
  | .logStep => logStep s
  | .stop =>
      some { s with m_stop := true, stoppedAt := some (s.stoppedAt.getD s.submitted.length) }
  | .set_log_level n => if s.flusher.isSome then none else some { s with log_level := n }
  | .set_stderr_level n => if s.flusher.isSome then none else some { s with m_stderr_log := n }
  | .set_syslog_level n => if s.flusher.isSome then none else some { s with m_syslog_log := n }
  | .set_log_file fn => some { s with m_log_file := fn }
  | .reopen_log_file opens =>
      if s.flusher.isSome then none else some (reopen_log_file s opens)

end Log

end Gvds.Logging
