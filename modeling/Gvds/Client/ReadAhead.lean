/-
Module: Gvds.Client.ReadAhead
Layer: Client
Purpose: The read-ahead of the client (client/readahead.h, client/readahead.cc) with gvdsfs_read and
  the synchronous branch of gvdsfs_write, run by any number of FUSE threads next to the completion
  callbacks of the prefetches. Every section under a lock, the wait, the copy and the marking of a
  callback are steps of their own. Buffer bytes carry the time at which the IO proxy read them.
Imports: Gvds.Lib.StampedMemory, Gvds.Client.Queue, Mathlib.Logic.Function.Basic,
  Mathlib.Data.Fin.Basic
Trusted boundary: a call of fetch_sector_remote, which callbacks make without the lock, and the
  choice that leads to it are one step; the RPC layer answers every read and write; a prefetch whose
  RPC fails ends the process (a null reply is dereferenced); unlocking a mutex twice does nothing;
  sector numbers fit `int` and epochs fit 64 bits
Main exports: BufArea, setTask, Act, step
-/
import Gvds.Lib.StampedMemory
import Gvds.Client.Queue
import Mathlib.Logic.Function.Basic
import Mathlib.Data.Fin.Basic

namespace Gvds.ReadAhead

open WriteBehind (FileName WriteCall)

/-- The bytes of a sector, `1 << 18`. -/
@[irreducible] def sectorSize : Nat := 2 ^ 18

/-- `client.seq_threshold`, `client.onlink` and `client.readahead`, which is not zero; more sectors
than `realloc` can be asked for in 32 bits do not fit. -/
structure ReadAheadConfig where
  hit_threshold : Nat
  max_onlink : Nat
  readahead : Nat
  readahead_pos : 0 < readahead
  readahead_lt : readahead < 2 ^ 14

/-- The smallest read-ahead: one sector, asked for on the second read. -/
def ReadAheadConfig.smallest : ReadAheadConfig where
  hit_threshold := 1
  max_onlink := 1
  readahead := 1
  readahead_pos := Nat.one_pos
  readahead_lt := Nat.one_lt_two_pow (Nat.succ_ne_zero 13)

/-- There are two buffers. -/
instance twoBuffers : NeZero 2 := ⟨Nat.succ_ne_zero 1⟩

/-- `ClientReadAhead::Status`. -/
inductive Status where
  | MAY_SEQ_READ
  | UNLIKE_SEQ_READ
  | ON_LINK
  | IN_BUFFER
  | NOT_FOUND
deriving DecidableEq

/-- `ClientReadAhead::BufArea` without the tables of waiting readers. `ft_res_tab` names the
prefetch whose future it holds. `task` is not in the source: it counts how often the buffer was
cleared or given a task. -/
structure BufArea where
  sec_bg : Nat
  sec_bufferd : Nat → Option Nat
  max_sec : Nat
  buf : StampedMemory
  epoch : Nat
  ft_res_tab : Nat → Option Nat
  file : FileName
  onlink : Nat
  cur_sec_nr : Nat
  cursor : Nat
  task : Nat

namespace BufArea

/-- The default constructor. -/
def init : BufArea where
  sec_bg := 0
  sec_bufferd := fun _ => none
  max_sec := 0
  buf := fun _ => ⟨0, none⟩
  epoch := 0
  ft_res_tab := fun _ => none
  file := (0, "")
  onlink := 0
  cur_sec_nr := 0
  cursor := 0
  task := 0

/-- `BufArea::lookup`. Only the path is compared. -/
def lookup (b : BufArea) (filename : String) (sec_nr : Nat) : Status :=
  if filename ≠ b.file.2 then .NOT_FOUND
  else if sec_nr < b.sec_bg ∨ b.sec_bg + b.max_sec ≤ sec_nr then .NOT_FOUND
  else if (b.sec_bufferd sec_nr).isSome then .IN_BUFFER
  else .ON_LINK

/-- `BufArea::sector_addr`, as the distance from `buf` in 64 bits. -/
@[irreducible] def sectorAddr (b : BufArea) (sec_nr : Nat) : Nat :=
  (sec_nr + 2 ^ 64 - b.sec_bg) % 2 ^ 64 * sectorSize % 2 ^ 64

/-- The copy of a reply to the place of its sector. -/
def receive (b : BufArea) (sec_nr : Nat) (bytes : List UInt8) (time : Nat) : BufArea :=
  { b with buf := b.buf.store (b.sectorAddr sec_nr) bytes (some time) }

/-- The body of the loop in `clear_buf`. -/
def clear (b : BufArea) (to_epoch : Nat) : BufArea :=
  { b with
    epoch := to_epoch
    file := (0, "")
    ft_res_tab := fun _ => none
    sec_bufferd := fun _ => none
    cur_sec_nr := 0
    onlink := 0
    sec_bg := 0
    max_sec := 0
    cursor := 0
    task := b.task + 1 }

/-- The end of `set_task` up to the call of `fetch_sector_remote`. `realloc` keeps the old bytes. -/
def retask (b : BufArea) (file : FileName) (sec_bg sec_max epoch : Nat) : BufArea :=
  { b with
    ft_res_tab := fun _ => none
    epoch := epoch
    sec_bufferd := fun _ => none
    sec_bg := sec_bg
    max_sec := sec_max
    cur_sec_nr := sec_bg
    onlink := 0
    file := file
    cursor := sec_bg
    task := b.task + 1 }

end BufArea

/-- The answer to a prefetch that succeeded, with the time of the read at the IO proxy. -/
structure Reply where
  bytes : List UInt8
  time : Nat
deriving DecidableEq

/-- How far the completion callback of a prefetch is: not run; it holds the future of prefetch `k`
and has released the lock; it has copied a reply of `len` bytes; it has marked the sector; finished.
The `task` is the buffer's at the time of the epoch check. -/
inductive Stage where
  | sent
  | taken (k task : Nat)
  | copied (len task : Nat)
  | marked (len : Nat)
  | done
deriving DecidableEq

/-- A request that `fetch_sector_remote` has submitted, with what its callback captures. The reply
is `some none` if the IO proxy answers with an error. -/
structure Prefetch where
  buf_idx : Fin 2
  sec_nr : Nat
  file : FileName
  cur_epoch : Nat
  reply : Option (Option Reply)
  stage : Stage
deriving DecidableEq

/-- The arguments of `gvdsfs_read`, resolved by `get_mapping`. -/
structure ReadCall where
  iop : Nat
  rpath : String
  size : Nat
  offset : Nat
  range_lt : offset + size < 2 ^ 63

/-- The file that a read is about. -/
def ReadCall.file (c : ReadCall) : FileName := (c.iop, c.rpath)

/-- The file that a write is about. -/
def writeFile (c : WriteCall) : FileName := (c.iop, c.rpath)

/-- Where a thread is in `gvdsfs_read`: at the head of the loop, in `fetch_cache` at buffer `i`, in
`wait_sector` for a sector of buffer `i`, before `set_task`, before the plain read, or returned. -/
inductive ReadPc where
  | loop
  | fetch (i : Fin 2)
  | waiting (i : Fin 2)
  | task
  | plain
  | done (ret : Nat)
deriving DecidableEq

/-- A call of `gvdsfs_read` with its locals. `since` is not in the source: it is the time of the
last write to the file that had returned when the call began. -/
structure Reader where
  call : ReadCall
  cur_off : Nat
  size_left : Nat
  read_size : Nat
  read_size_total : Nat
  buf : StampedMemory
  pc : ReadPc
  since : Nat

/-- Where a thread is in `gvdsfs_write`: `clear_buf` has not come to the second buffer yet; the
request is on its way; the IO proxy has executed it at `time`; returned. -/
inductive WriteStage where
  | clearing (to_epoch : Nat)
  | sent
  | executed (time : Nat)
  | returned
deriving DecidableEq

/-- A call of `gvdsfs_write`. -/
structure Writer where
  call : WriteCall
  stage : WriteStage

/-- The read-ahead, the prefetches submitted so far, the calls of the FUSE threads, and the files of
the IO proxies. `clock` counts the writes that were executed; `written` and `returned` say for each
file when the last write on it was executed, and the last one that has returned. -/
structure State where
  last_req_filename : String
  last_req_sec : Nat
  last_req_hit_ct : Nat
  bufs : Fin 2 → BufArea
  prefetches : Nat → Option Prefetch
  issued : Nat
  readers : Nat → Option Reader
  writers : Nat → Option Writer
  files : FileName → ByteFile
  clock : Nat
  written : FileName → Nat
  returned : FileName → Nat

/-- The client before its first call. -/
def start (files : FileName → ByteFile) : State where
  last_req_filename := ""
  last_req_sec := 0
  last_req_hit_ct := 0
  bufs := fun _ => .init
  prefetches := fun _ => none
  issued := 0
  readers := fun _ => none
  writers := fun _ => none
  files := files
  clock := 0
  written := fun _ => 0
  returned := fun _ => 0

namespace State

/-- Replace a buffer. -/
def setBuf (s : State) (i : Fin 2) (b : BufArea) : State :=
  { s with bufs := Function.update s.bufs i b }

/-- Replace what is known of a prefetch. -/
def setPrefetch (s : State) (k : Nat) (pf : Prefetch) : State :=
  { s with prefetches := Function.update s.prefetches k (some pf) }

/-- Replace a read call. -/
def setReader (s : State) (r : Nat) (rd : Reader) : State :=
  { s with readers := Function.update s.readers r (some rd) }

/-- Replace a write call. -/
def setWriter (s : State) (w : Nat) (wr : Writer) : State :=
  { s with writers := Function.update s.writers w (some wr) }

/-- The body of the loop in `fetch_sector_remote`. -/
def submit (s : State) (i : Fin 2) (file : FileName) : State :=
  let b := s.bufs i
  let pf : Prefetch := ⟨i, b.cur_sec_nr, file, b.epoch, none, .sent⟩
  { (s.setPrefetch s.issued pf).setBuf i { b with
      onlink := b.onlink + 1
      cur_sec_nr := b.cur_sec_nr + 1
      ft_res_tab := Function.update b.ft_res_tab b.cur_sec_nr (some s.issued) } with
    issued := s.issued + 1 }

end State

/-- The condition of the loop in `fetch_sector_remote`. -/
def Fetches (cfg : ReadAheadConfig) (b : BufArea) : Prop :=
  b.onlink < cfg.max_onlink ∧ b.cur_sec_nr < b.sec_bg + b.max_sec

instance (cfg : ReadAheadConfig) (b : BufArea) : Decidable (Fetches cfg b) :=
  inferInstanceAs (Decidable (_ ∧ _))

/-- The loop in `fetch_sector_remote`, at most `n` times. -/
def fetchLoop (cfg : ReadAheadConfig) (i : Fin 2) (file : FileName) : Nat → State → State
  | 0, s => s
  | n + 1, s => if Fetches cfg (s.bufs i) then fetchLoop cfg i file n (s.submit i file) else s

/-- `fetch_sector_remote`. Each round goes one sector further in the task. -/
def fetchSectorRemote (cfg : ReadAheadConfig) (s : State) (i : Fin 2) : State :=
  let b := s.bufs i
  fetchLoop cfg i b.file (b.sec_bg + b.max_sec - b.cur_sec_nr) s

/-- `set_task`; the epoch `-1` is `none`. -/
def setTask (cfg : ReadAheadConfig) (s : State) (file : FileName) (i : Fin 2)
    (sec_bg sec_max : Nat) (epoch : Option Nat) : State × Bool :=
  let b := s.bufs i
  let epoch := epoch.getD (b.epoch + 1)
  if epoch < b.epoch then (s, false)
  else if file.2 = b.file.2 ∧ sec_bg < b.sec_bg + b.max_sec ∧ b.sec_bg ≤ sec_bg then (s, false)
  else if file.2 = b.file.2 ∧ b.cursor + 1 < b.sec_bg + b.max_sec then
    (if b.epoch < epoch then s.setBuf i { b with cursor := b.cursor + 1 } else s, false)
  else (fetchSectorRemote cfg (s.setBuf i (b.retask file sec_bg sec_max epoch)) i, true)

/-- The end of the callback: trigger the next fetch, in this buffer or in the other one. -/
def nextFetch (cfg : ReadAheadConfig) (s : State) (pf : Prefetch) (len : Nat) : State :=
  let b := s.bufs pf.buf_idx
  let other := pf.buf_idx + 1
  if 0 < len ∧ b.onlink < cfg.max_onlink then
    if b.sec_bg + b.max_sec ≤ b.cur_sec_nr then
      if (s.bufs other).epoch ≤ pf.cur_epoch then
        (setTask cfg s pf.file other b.cur_sec_nr b.max_sec (some pf.cur_epoch)).1
      else fetchSectorRemote cfg s other
    else fetchSectorRemote cfg s pf.buf_idx
  else s

namespace Reader

/-- The part of the request that lies in the current sector. -/
def curSecLeft (rd : Reader) : Nat :=
  min rd.size_left ((rd.cur_off / sectorSize + 1) * sectorSize - rd.cur_off)

/-- The loop condition, and the return behind the loop. -/
def again (rd : Reader) : Reader :=
  { rd with pc := if rd.size_left = 0 then .done rd.read_size_total else .loop }

/-- What `gvdsfs_read` does with the answer of `status`. -/
def afterStatus (rd : Reader) : Status → Reader
  | .IN_BUFFER =>
      { rd with
        cur_off := rd.cur_off + rd.curSecLeft
        size_left := rd.size_left - rd.curSecLeft
        read_size_total := rd.read_size_total + rd.read_size }.again
  | .MAY_SEQ_READ => { rd with pc := .task }
  | _ => { rd with pc := .plain }

end Reader

/-- The copy of a buffered sector to the start of the caller's buffer. The difference that bounds it
is taken in 64 bits. -/
def Reader.copyFrom (rd : Reader) (b : BufArea) : Reader :=
  let sector_bg := rd.cur_off / sectorSize
  let inoff := rd.cur_off % sectorSize
  let len := (b.sec_bufferd sector_bg).getD 0
  let read_size := min rd.curSecLeft ((len + 2 ^ 64 - inoff) % 2 ^ 64)
  { rd with
    read_size := read_size
    buf := rd.buf.copy 0 b.buf (b.sectorAddr sector_bg + inoff) read_size }

/-- The outcome of `fetch_cache` where `lookup` finds the sector in buffer `i`. -/
def hit (s : State) (r : Nat) (rd : Reader) (i : Fin 2) : State :=
  let b := s.bufs i
  let sector_bg := rd.cur_off / sectorSize
  let orig := b.sectorAddr sector_bg + rd.cur_off % sectorSize
  if b.sectorAddr (b.sec_bg + b.max_sec) < orig + rd.curSecLeft then
    s.setReader r (rd.afterStatus .NOT_FOUND)
  else
    (s.setBuf i { b with cursor := max sector_bg b.cursor }).setReader r
      ((rd.copyFrom b).afterStatus .IN_BUFFER)

/-- `status` up to the call of `fetch_cache`. -/
def status (cfg : ReadAheadConfig) (s : State) (r : Nat) (rd : Reader) : State :=
  let sector_bg := rd.cur_off / sectorSize
  if rd.call.rpath = (s.bufs 0).file.2 then s.setReader r { rd with pc := .fetch 0 }
  else if s.last_req_filename ≠ rd.call.rpath then
    { s with last_req_filename := rd.call.rpath, last_req_hit_ct := 1 }.setReader r
      (rd.afterStatus .UNLIKE_SEQ_READ)
  else if sector_bg < s.last_req_sec then
    { s with last_req_sec := sector_bg }.setReader r (rd.afterStatus .UNLIKE_SEQ_READ)
  else if s.last_req_hit_ct < cfg.hit_threshold then
    { s with last_req_hit_ct := s.last_req_hit_ct + 1 }.setReader r
      (rd.afterStatus .UNLIKE_SEQ_READ)
  else s.setReader r (rd.afterStatus .MAY_SEQ_READ)

/-- One turn of the loop in `fetch_cache`. Behind the second turn the function ends without a return
statement; `ub` is the status its caller then sees. -/
def fetchCache (s : State) (r : Nat) (rd : Reader) (i : Fin 2) (ub : Status) : State :=
  match (s.bufs i).lookup rd.call.rpath (rd.cur_off / sectorSize) with
  | .NOT_FOUND =>
      if i = 0 then s.setReader r { rd with pc := .fetch 1 }
      else s.setReader r (rd.afterStatus ub)
  | .IN_BUFFER => hit s r rd i
  | _ => s.setReader r { rd with pc := .waiting i }

/-- What can happen next. An IO proxy serves prefetch `k`, or fails to; its callback goes one step
further; thread `r` begins a read or goes one step further in it, `ready` being the outcome of
`wait_sector`; thread `w` begins a write, goes further in it, or has it executed. -/
inductive Act where
  | serve (k : Nat) (ok : Bool)
  | check (k : Nat)
  | copy (k : Nat)
  | mark (k : Nat)
  | next (k : Nat)
  | startRead (r : Nat) (c : ReadCall)
  | status (r : Nat)
  | fetch (r : Nat) (ub : Status)
  | woken (r : Nat) (ready : Bool)
  | setTask (r : Nat)
  | plainRead (r : Nat)
  | startWrite (w : Nat) (c : WriteCall)
  | clearSecond (w : Nat)
  | execWrite (w : Nat) (ok : Bool)
  | returnWrite (w : Nat)

/-- The IO proxy executes the read of a prefetch. -/
def serve (s : State) (k : Nat) (pf : Prefetch) (ok : Bool) : Option State :=
  if pf.reply = none then
    let bytes := (s.files pf.file).read (pf.sec_nr * sectorSize) sectorSize
    some (s.setPrefetch k { pf with reply := some (if ok then some ⟨bytes, s.clock⟩ else none) })
  else none

/-- The callback up to the release of the lock: check the epoch and move the future out. -/
def check (s : State) (k : Nat) (pf : Prefetch) : Option State :=
  let b := s.bufs pf.buf_idx
  if pf.stage ≠ .sent ∨ pf.reply = none then none
  else if b.epoch ≠ pf.cur_epoch then some (s.setPrefetch k { pf with stage := .done })
  else
    let onlink := (b.onlink + 2 ^ 64 - 1) % 2 ^ 64
    match b.ft_res_tab pf.sec_nr with
    | none =>
        some ((s.setBuf pf.buf_idx { b with onlink := onlink }).setPrefetch k
          { pf with stage := .done })
    | some k' =>
        let ft_res_tab := Function.update b.ft_res_tab pf.sec_nr none
        some ((s.setBuf pf.buf_idx { b with onlink := onlink, ft_res_tab := ft_res_tab }).setPrefetch
          k { pf with stage := .taken k' b.task })

/-- The callback waits for the future it holds and copies the reply, without the lock. -/
def copy (s : State) (k : Nat) (pf : Prefetch) : Option State :=
  match pf.stage with
  | .taken k' task =>
      match (s.prefetches k').bind Prefetch.reply with
      | some (some rep) =>
          let b := s.bufs pf.buf_idx
          some ((s.setBuf pf.buf_idx (b.receive pf.sec_nr rep.bytes rep.time)).setPrefetch k
            { pf with stage := .copied rep.bytes.length task })
      | _ => some (s.setPrefetch k { pf with stage := .done })
  | _ => none

/-- The callback marks its sector as buffered, under the lock but without another look at the
epoch. -/
def mark (s : State) (k : Nat) (pf : Prefetch) : Option State :=
  match pf.stage with
  | .copied len _ =>
      let b := s.bufs pf.buf_idx
      let sec_bufferd := Function.update b.sec_bufferd pf.sec_nr (some len)
      some ((s.setBuf pf.buf_idx { b with sec_bufferd := sec_bufferd }).setPrefetch k
        { pf with stage := .marked len })
  | _ => none

/-- The rest of the callback. -/
def next (cfg : ReadAheadConfig) (s : State) (k : Nat) (pf : Prefetch) : Option State :=
  match pf.stage with
  | .marked len => some (nextFetch cfg (s.setPrefetch k { pf with stage := .done }) pf len)
  | _ => none

/-- The start of `gvdsfs_read`. The caller's buffer holds nothing from the read-ahead. -/
def startRead (s : State) (r : Nat) (c : ReadCall) : Option State :=
  match s.readers r with
  | some _ => none
  | none =>
      let rd : Reader :=
        ⟨c, c.offset, c.size, 0, 0, fun _ => ⟨0, none⟩, .loop, s.returned c.file⟩
      some (s.setReader r rd.again)

/-- What a thread in `gvdsfs_read` does after `wait_sector`. -/
def woken (s : State) (r : Nat) (rd : Reader) (i : Fin 2) (ready : Bool) : State :=
  if ready ∧ (s.bufs i).lookup rd.call.rpath (rd.cur_off / sectorSize) = .IN_BUFFER then hit s r rd i
  else s.setReader r (rd.afterStatus .NOT_FOUND)

/-- What `gvdsfs_read` does where it may be sequential: set a task at the start of the request. -/
def readTask (cfg : ReadAheadConfig) (s : State) (r : Nat) (rd : Reader) : State :=
  let set := setTask cfg s rd.call.file 0 (rd.call.offset / sectorSize) cfg.readahead none
  set.1.setReader r { rd with pc := if set.2 then .loop else .plain }

/-- What the plain read RPC gives: the IO proxy's read of the whole request. -/
def plainBytes (files : FileName → ByteFile) (c : ReadCall) : List UInt8 :=
  (files c.file).read c.offset c.size

/-- The plain read at the end of `gvdsfs_read`. -/
def plainRead (s : State) (r : Nat) (rd : Reader) : State :=
  let bytes := plainBytes s.files rd.call
  s.setReader r { rd with buf := rd.buf.store 0 bytes none, pc := .done bytes.length }

/-- One step of a thread in `gvdsfs_read`. -/
def readStep (cfg : ReadAheadConfig) (s : State) (r : Nat) (rd : Reader) (a : Act) : Option State :=
  match a, rd.pc with
  | .status _, .loop => some (status cfg s r rd)
  | .fetch _ ub, .fetch i => some (fetchCache s r rd i ub)
  | .woken _ ready, .waiting i => some (woken s r rd i ready)
  | .setTask _, .task => some (readTask cfg s r rd)
  | .plainRead _, .plain => some (plainRead s r rd)
  | _, _ => none

/-- The start of `gvdsfs_write`: `clear_buf` for the first buffer. It returns at once unless that
one is on the path. Its post-increment gives the buffers the epoch they have. -/
def startWrite (s : State) (w : Nat) (c : WriteCall) : Option State :=
  match s.writers w with
  | some _ => none
  | none =>
      let b := s.bufs 0
      if c.rpath ≠ b.file.2 then some (s.setWriter w ⟨c, .sent⟩)
      else some ((s.setBuf 0 (b.clear b.epoch)).setWriter w ⟨c, .clearing b.epoch⟩)

/-- One further step of a write call. A write that fails at the IO proxy leaves the file alone. -/
def writeStep (s : State) (w : Nat) (wr : Writer) (a : Act) : Option State :=
  match a, wr.stage with
  | .clearSecond _, .clearing to_epoch =>
      some ((s.setBuf 1 ((s.bufs 1).clear to_epoch)).setWriter w { wr with stage := .sent })
  | .execWrite _ ok, .sent =>
      let f := writeFile wr.call
      let file := if ok then (s.files f).write wr.call.offset wr.call.buf else s.files f
      some ({ s with
        files := Function.update s.files f file
        clock := s.clock + 1
        written := Function.update s.written f (s.clock + 1) }.setWriter w
          { wr with stage := .executed (s.clock + 1) })
  | .returnWrite _, .executed time =>
      let f := writeFile wr.call
      some ({ s with returned := Function.update s.returned f (max (s.returned f) time) }.setWriter w
        { wr with stage := .returned })
  | _, _ => none

/-- One step of the client and the IO proxies. -/
def step (cfg : ReadAheadConfig) (s : State) (a : Act) : Option State :=
  match a with
  | .serve k ok => (s.prefetches k).bind fun pf => serve s k pf ok
  | .check k => (s.prefetches k).bind (check s k)
  | .copy k => (s.prefetches k).bind (copy s k)
  | .mark k => (s.prefetches k).bind (mark s k)
  | .next k => (s.prefetches k).bind (next cfg s k)
  | .startRead r c => startRead s r c
  | .status r | .fetch r _ | .woken r _ | .setTask r | .plainRead r =>
      (s.readers r).bind fun rd => readStep cfg s r rd a
  | .startWrite w c => startWrite s w c
  | .clearSecond w | .execWrite w _ | .returnWrite w =>
      (s.writers w).bind fun wr => writeStep s w wr a

end Gvds.ReadAhead
