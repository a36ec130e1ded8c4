/-
Module: Gvds.Client.UdtCalls
Layer: Client
Purpose: Calls over UDT, there and back: the threads of the clients that call write, wait_op,
  registe_handler and auto_handle of a ClientSession (msg/client_session.cc), the thread of the
  session that reads the replies, and on the other side the callbacks of the operations, which hand
  the packed replies to the writers of the ServerSessions (msg/server_session.cc).
Imports: Gvds.Client.ClientSession, Gvds.IoProxy.UdtTransport, Mathlib.Tactic.SplitIfs
Trusted boundary: as Gvds.IoProxy.UdtTransport. Promises and shared futures are those of the C++
  library; wait_for answers ready if the promise has its value. What a callback leaves unset in the
  reply that it packs may be anything
Main exports: Caller, Caller.take, CallerAct, Caller.step, Caller.Stepped, Reply.fill, Calls,
  CallEvent, Calls.step
-/
import Gvds.Client.ClientSession
import Gvds.IoProxy.UdtTransport
import Mathlib.Tactic.SplitIfs

namespace Gvds.Udt

open ClientSession (Stage Effect int ECONNRESET)

/-- Where the thread of a session is: before a `recv`; in the loop over the messages; gone. -/
inductive Reader where
  | reading
  | handling
  | ended
deriving DecidableEq

/-- How far the call of `wait_op` has come that belongs to a call of `write`: it is not made; it
waits for the promise of a call; it has returned. -/
inductive Wait where
  | no
  | on (k : Nat)
  | returned (res : Option RpcBuffer)

/-- `ClientSession` with the calls made on it. `id` is what `write` returns for a call, `request` the
buffer that it packs; `values` are the promises. Not in the source are `received`, the bytes that
`recv` has copied, and `taken`, the replies that were looked up, each with what became of it. -/
structure Caller where
  session : ClientSession.ClientSession
  stage : Nat → Stage
  id : Nat → Int
  request : Nat → RpcBuffer
  values : Nat → Option RpcBuffer
  waits : Nat → Wait
  m_stop : Bool
  closed : Bool
  reader : Reader
  held : Bytes
  capacity : Nat
  fault : Option Fault
  received : Bytes
  taken : List (RpcBuffer × Effect)

namespace Caller

/-- `max_read_bytes` of `ClientSession::do_read`, which the constructor asks for as well. -/
def max_read_bytes : Nat := 102400

/-- `ClientSession::start`. -/
def start (blank : RpcBuffer) : Caller where
  session := ⟨0, fun _ => none, fun _ => none, fun _ => false, fun _ => none⟩
  stage := fun _ => .start
  id := fun _ => 0
  request := fun _ => blank
  values := fun _ => none
  waits := fun _ => .no
  m_stop := false
  closed := false
  reader := .reading
  held := []
  capacity := max_read_bytes
  fault := none
  received := []
  taken := []

/-- The call gets a number, and its buffer the ID. -/
def number (c : Caller) (k : Nat) (buf : RpcBuffer) : Caller :=
  { c with
    session := { c.session with seq_n := c.session.seq_n + 1 }
    stage := Function.update c.stage k .numbered
    id := Function.update c.id k (int c.session.seq_n)
    request := Function.update c.request k { buf with id := UInt64.ofNat c.session.seq_n } }

/-- A reply is looked up in `ready_promises`. -/
def take (c : Caller) (buf : RpcBuffer) : Caller :=
  let (session, effect) := ClientSession.do_read c.session (int buf.id.toNat)
  let c := { c with session := session, taken := c.taken ++ [(buf, effect)] }
  match effect with
  | .duplicated => c
  | .handled _ => c
  | .value k => { c with values := Function.update c.values k (some buf) }

/-- The head of the loop in `do_read`, behind the loop over the messages. -/
def again (c : Caller) : Caller :=
  { c with
    capacity := if c.capacity < max_read_bytes then max_read_bytes else c.capacity
    reader := if c.m_stop then .ended else .reading }

/-- The next round of the loop over the messages. The unpacker is asked before `m_stop` is looked
at, so that the message of the last round is lost. -/
def next (m : Msgpack) (c : Caller) : Caller :=
  match m.unpacker.next c.held with
  | .more => c.again
  | .broken => { c with fault := some .thrown }
  | .message o rest =>
      let c := { c with held := rest }
      if c.m_stop then c.again
      else
        match m.as o with
        | none => c
        | some buf => c.take buf

/-- The bytes of a `recv` are copied. -/
def recv (c : Caller) (bytes : Bytes) : Caller :=
  if bytes.length ≤ c.capacity then
    { c with
      held := c.held ++ bytes
      capacity := c.capacity - bytes.length
      received := c.received ++ bytes
      reader := .handling }
  else { c with fault := some .overrun }

/-- The critical section of `wait_op`. -/
def wait_op (c : Caller) (k : Nat) : Caller :=
  match c.session.futures (c.id k) with
  | none => { c with waits := Function.update c.waits k (.returned none) }
  | some j =>
      { c with
        session := { c.session with futures := Function.update c.session.futures (c.id k) none }
        waits := Function.update c.waits k (.on j) }

end Caller

/-- What may happen at a session: a call of `write` looks at `error_stat` and takes a number, or is
refused; it enters its promise; its caller registers a handler, has the reply handled, or waits for
it until it is there or ten seconds are over; and the thread of the session makes a step. -/
inductive CallerAct where
  | number (k : Nat) (buf : RpcBuffer) (error_stat : Bool)
  | enter (k : Nat)
  | registe_handler (k : Nat)
  | auto_handle (k : Nat)
  | wait_op (k : Nat)
  | ready (k : Nat)
  | timeOut (k : Nat)
  | recv (bytes : Bytes)
  | recvError
  | next

/-- A call of `write` has come back with the request handed over. -/
def Caller.back (c : Caller) (w : UdtWriter.State) (k : Nat) : Bool :=
  decide (c.stage k = .written ∧ k ∉ UdtWriter.blocked w)

/-- One step at a session; `w` is its writer, and `wire` what the server has sent. A writer that has
failed may still be seen as it was before. Without its writer a session does not go on. -/
def Caller.step (m : Msgpack) (w : UdtWriter.State) (wire : Bytes) (c : Caller) :
    CallerAct → Option Caller
  | .number k buf error_stat =>
      if c.stage k = .start then
        if c.closed then some { c with fault := some .dangling }
        else if error_stat then
          if w.should_close then
            some { c with
              stage := Function.update c.stage k .refused
              id := Function.update c.id k (-ECONNRESET) }
          else none
        else some (c.number k buf)
      else none
  | .enter k =>
      if c.stage k = .numbered then
        some { c with
          session := ClientSession.enter c.session (c.id k) k
          stage := Function.update c.stage k .entered }
      else none
  | .registe_handler k =>
      if c.back w k ∨ c.stage k = .refused then
        some { c with
          session := ClientSession.registe_handler c.session (c.id k) k
          stage := Function.update c.stage k
            (if c.stage k = .refused then .refused else .registered) }
      else none
  | .auto_handle k =>
      if c.back w k then
        some { c with
          session := { c.session with
            auto_handler := Function.update c.session.auto_handler (c.id k) true }
          stage := Function.update c.stage k .registered }
      else none
  | .wait_op k =>
      match c.waits k with
      | .no => if c.back w k then some (c.wait_op k) else none
      | .on _ => none
      | .returned _ => none
  | .ready k =>
      match c.waits k with
      | .on j =>
          (c.values j).map fun buf =>
            { c with waits := Function.update c.waits k (.returned (some buf)) }
      | .no => none
      | .returned _ => none
  | .timeOut k =>
      match c.waits k with
      | .on j =>
          if c.values j = none then
            some { c with waits := Function.update c.waits k (.returned none) }
          else none
      | .no => none
      | .returned _ => none
  | .recv bytes =>
      if c.reader = .reading ∧ bytes.length ≤ Caller.max_read_bytes ∧
          c.received ++ bytes <+: wire then
        some (c.recv bytes)
      else none
  | .recvError =>
      if c.reader = .reading then some { c with m_stop := true, reader := .ended } else none
  | .next => if c.reader = .handling then some (c.next m) else none

/-- The steps at a session by what they find and what they leave. -/
inductive Caller.Stepped (m : Msgpack) (w : UdtWriter.State) (wire : Bytes) (c : Caller) :
    CallerAct → Caller → Prop where
  | dangling (k : Nat) (buf : RpcBuffer) (error_stat : Bool) (hbefore : c.stage k = .start) :
      Stepped m w wire c (.number k buf error_stat) { c with fault := some .dangling }
  | refused (k : Nat) (buf : RpcBuffer) (hbefore : c.stage k = .start) :
      Stepped m w wire c (.number k buf true)
        { c with
          stage := Function.update c.stage k .refused
          id := Function.update c.id k (-ECONNRESET) }
  | numbered (k : Nat) (buf : RpcBuffer) (hbefore : c.stage k = .start) :
      Stepped m w wire c (.number k buf false) (c.number k buf)
  | entered (k : Nat) (hbefore : c.stage k = .numbered) :
      Stepped m w wire c (.enter k)
        { c with
          session := ClientSession.enter c.session (c.id k) k
          stage := Function.update c.stage k .entered }
  | registered (k : Nat) (hbefore : c.stage k = .written ∨ c.stage k = .refused) :
      Stepped m w wire c (.registe_handler k)
        { c with
          session := ClientSession.registe_handler c.session (c.id k) k
          stage := Function.update c.stage k
            (if c.stage k = .refused then .refused else .registered) }
  | autoHandled (k : Nat) (hbefore : c.stage k = .written) :
      Stepped m w wire c (.auto_handle k)
        { c with
          session := { c.session with
            auto_handler := Function.update c.session.auto_handler (c.id k) true }
          stage := Function.update c.stage k .registered }
  | waited (k : Nat) (hbefore : c.stage k = .written) :
      Stepped m w wire c (.wait_op k) (c.wait_op k)
  | ready (k j : Nat) (buf : RpcBuffer) (hwaits : c.waits k = .on j)
      (hvalue : c.values j = some buf) :
      Stepped m w wire c (.ready k)
        { c with waits := Function.update c.waits k (.returned (some buf)) }
  | timedOut (k j : Nat) (hwaits : c.waits k = .on j) :
      Stepped m w wire c (.timeOut k)
        { c with waits := Function.update c.waits k (.returned none) }
  | recv (bytes : Bytes) (hreader : c.reader = .reading)
      (hbytes : bytes.length ≤ Caller.max_read_bytes) (hwire : c.received ++ bytes <+: wire) :
      Stepped m w wire c (.recv bytes) (c.recv bytes)
  | recvError (hreader : c.reader = .reading) :
      Stepped m w wire c .recvError { c with m_stop := true, reader := .ended }
  | next (hreader : c.reader = .handling) : Stepped m w wire c .next (c.next m)

theorem Caller.stepped_of_step {m : Msgpack} {w : UdtWriter.State} {wire : Bytes} {c c' : Caller}
    {a : CallerAct} (hstep : Caller.step m w wire c a = some c') :
    Caller.Stepped m w wire c a c' := by
  cases a with
  | number k buf error_stat =>
      simp only [Caller.step] at hstep
      split_ifs at hstep with hstart _ hstat
      · cases hstep
        exact .dangling k buf error_stat hstart
      · cases hstep
        subst hstat
        exact .refused k buf hstart
      · cases hstep
        obtain rfl : error_stat = false := by simpa using hstat
        exact .numbered k buf hstart
  | enter k =>
      obtain ⟨hbefore, heq⟩ := Option.ite_none_right_eq_some.mp hstep
      cases heq
      exact .entered k hbefore
  | registe_handler k =>
      obtain ⟨hbefore, heq⟩ := Option.ite_none_right_eq_some.mp hstep
      cases heq
      exact .registered k (hbefore.imp_left fun hback => (of_decide_eq_true hback).1)
  | auto_handle k =>
      obtain ⟨hbefore, heq⟩ := Option.ite_none_right_eq_some.mp hstep
      cases heq
      exact .autoHandled k (of_decide_eq_true hbefore).1
  | wait_op k =>
      cases hwaits : c.waits k with
      | no =>
          simp only [Caller.step, hwaits, Option.ite_none_right_eq_some, Option.some.injEq] at hstep
          obtain ⟨hbefore, rfl⟩ := hstep
          exact .waited k (of_decide_eq_true hbefore).1
      | on j => simp [Caller.step, hwaits] at hstep
      | returned res => simp [Caller.step, hwaits] at hstep
  | ready k =>
      cases hwaits : c.waits k with
      | no => simp [Caller.step, hwaits] at hstep
      | on j =>
          simp only [Caller.step, hwaits, Option.map_eq_some_iff] at hstep
          obtain ⟨buf, hvalue, rfl⟩ := hstep
          exact .ready k j buf hwaits hvalue
      | returned res => simp [Caller.step, hwaits] at hstep
  | timeOut k =>
      cases hwaits : c.waits k with
      | no => simp [Caller.step, hwaits] at hstep
      | on j =>
          simp only [Caller.step, hwaits, Option.ite_none_right_eq_some, Option.some.injEq] at hstep
          obtain ⟨_, rfl⟩ := hstep
          exact .timedOut k j hwaits
      | returned res => simp [Caller.step, hwaits] at hstep
  | recv bytes =>
      obtain ⟨⟨hreader, hbytes, hwire⟩, heq⟩ := Option.ite_none_right_eq_some.mp hstep
      cases heq
      exact .recv bytes hreader hbytes hwire
  | recvError =>
      obtain ⟨hreader, heq⟩ := Option.ite_none_right_eq_some.mp hstep
      cases heq
      exact .recvError hreader
  | next =>
      obtain ⟨hreader, heq⟩ := Option.ite_none_right_eq_some.mp hstep
      cases heq
      exact .next hreader

/-! ### All parties -/

/-- The buffer that the callback packs for a reply; `rest` is what nobody has set. -/
def Reply.fill (r : Reply) (rest : RpcBuffer) : RpcBuffer :=
  { rest with
    id := r.id
    error_code := r.error_code
    buf := r.buf
    offset := r.offset.getD rest.offset }

/-- The clients at the other ends of the connections, by the socket that the server has for each;
the server; and the writers of its sessions. Not in the source is `packed`: the buffers that the
callbacks have packed, by the operation. -/
structure Calls where
  transport : Transport
  callers : Int32 → Caller
  replies : Int32 → UdtWriter.State
  packed : Nat → RpcBuffer

def Calls.start (blank : RpcBuffer) : Calls :=
  ⟨Transport.start, fun _ => .start blank, fun _ => UdtWriter.start, fun _ => blank⟩

/-- What may happen: a step at the session of a client; its call of `UDTWriter::write`, and a look
of the thread that waits there; its writer's steps; the session is closed, and when its writer has
ended loses it; the server makes a step, or a worker has done an operation and the callback runs;
the callback waits for room and looks again; the writer of a session of the server makes a step, or
is closed with its session. -/
inductive CallEvent where
  | caller (sock : Int32) (a : CallerAct)
  | send (sock : Int32) (k : Nat)
  | wake (sock : Int32) (k : Nat)
  | writer (sock : Int32) (ss : Option Nat)
  | close (sock : Int32)
  | reset (sock : Int32)
  | server (a : Act)
  | complete (n : Nat) (outcome : Outcome) (rest : RpcBuffer)
  | wakeReply (sock : Int32) (n : Nat)
  | replyWriter (sock : Int32) (ss : Option Nat)
  | closeReplies (sock : Int32)

section
variable (m : Msgpack) (data_path : Bytes) (serv_fd : Int32)

/-- A step of the requests' way. -/
def Calls.carry (s : Calls) (e : Event) : Option Calls :=
  (s.transport.step m data_path serv_fd e).map fun t => { s with transport := t }

/-- A session has another state. -/
def Calls.setCaller (s : Calls) (sock : Int32) (c : Caller) : Calls :=
  { s with callers := Function.update s.callers sock c }

/-- A step of the writer of a session of the server. -/
def Calls.reply (s : Calls) (sock : Int32) (a : UdtWriter.Act) : Option Calls :=
  (UdtWriter.step (s.replies sock) a).map fun w =>
    { s with replies := Function.update s.replies sock w }

/-- `UDTWriter::write` in `ClientSession::write`. -/
def Calls.send (s : Calls) (sock : Int32) (k : Nat) : Option Calls :=
  let c := s.callers sock
  if c.stage k = .entered then
    if c.closed then some (s.setCaller sock { c with fault := some .dangling })
    else
      (s.carry m data_path serv_fd (.write sock k (c.request k))).map fun s =>
        s.setCaller sock { c with stage := Function.update c.stage k .written }
  else none

/-- A callback packs its reply and calls `UDTWriter::write`. -/
def Calls.complete (s : Calls) (n : Nat) (outcome : Outcome) (rest : RpcBuffer) : Option Calls :=
  match s.carry m data_path serv_fd (.server (.complete n outcome)) with
  | none => none
  | some t =>
      match s.transport.server.queued[n]? with
      | none => none
      | some (sock, op) =>
          if t.transport.server.fault.isSome then some t
          else
            let buf := (Udt.reply op outcome).fill rest
            { t with packed := Function.update t.packed n buf }.reply sock (.write n (m.pack buf))

/-- One step of all. -/
def Calls.step (s : Calls) : CallEvent → Option Calls
  | .caller sock a =>
      if (s.callers sock).fault.isSome then none
      else
        (Caller.step m (s.transport.clients sock) (s.replies sock).wire (s.callers sock) a).map
          (s.setCaller sock)
  | .send sock k =>
      if (s.callers sock).fault.isSome then none else s.send m data_path serv_fd sock k
  | .wake sock k =>
      let c := s.callers sock
      if c.fault.isSome then none
      else if c.closed then
        if k ∈ UdtWriter.blocked (s.transport.clients sock) then
          some (s.setCaller sock { c with fault := some .dangling })
        else none
      else s.carry m data_path serv_fd (.wake sock k)
  | .writer sock ss => s.carry m data_path serv_fd (.send sock ss)
  | .close sock =>
      (s.carry m data_path serv_fd (.close sock)).map fun t =>
        t.setCaller sock { s.callers sock with m_stop := true }
  | .reset sock =>
      if (s.transport.clients sock).writer = .ended then
        some (s.setCaller sock { s.callers sock with closed := true })
      else none
  | .server a =>
      match a with
      | .complete _ _ => none
      | .epoll_wait readfds => s.carry m data_path serv_fd (.server (.epoll_wait readfds))
      | .epollError => s.carry m data_path serv_fd (.server .epollError)
      | .handle answer => s.carry m data_path serv_fd (.server (.handle answer))
  | .complete n outcome rest => s.complete m data_path serv_fd n outcome rest
  | .wakeReply sock n => s.reply sock (.wake n)
  | .replyWriter sock ss => s.reply sock (.writer ss)
  | .closeReplies sock =>
      if sock ∈ s.transport.server.opened ∧ (s.transport.server.sessions sock).isNone then
        s.reply sock .close
      else none

end

end Gvds.Udt
