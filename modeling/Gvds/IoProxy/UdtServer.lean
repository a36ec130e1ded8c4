/-
Module: Gvds.IoProxy.UdtServer
Layer: IoProxy
Purpose: The UDT side of an IO proxy (msg/udt_server.cc, msg/server_session.cc): the thread that
  waits for events and takes them one socket after the other, accepts connections, reads from them
  and queues the operations that it finds, and the callbacks that write the replies when the
  operations are done.
Imports: Gvds.Lib.StreamParser, Mathlib.Data.UInt, Mathlib.Logic.Function.Basic
Trusted boundary: UDT: accept answers with a socket that it never handed out before, epoll_wait
  names sockets that are watched, recv delivers the bytes of a connection in order. msgpack is a
  parameter: an unpacker that takes whole objects off the front of what it holds and throws at bytes
  that no object begins with; reserve_buffer makes at least the room it is asked for, and next takes
  none of it. Of a reply the fields that nobody has set are left out
Main exports: RpcBuffer, Msgpack, DataOp, toOp, Outcome, Reply, ServerSession, do_read, Server,
  Answer, Act, step
-/
import Gvds.Lib.StreamParser
import Mathlib.Data.UInt
import Mathlib.Logic.Function.Basic

namespace Gvds.Udt

abbrev Bytes := List UInt8

/-- `ioproxy_rpc_buffer`, as a message. -/
structure RpcBuffer where
  error_code : Int32
  path : Bytes
  buf : Bytes
  offset : UInt64
  is_read : Bool
  id : UInt64
  read_size : UInt64
  fid : Int32
  flags : Int32
deriving DecidableEq

/-- What is used of msgpack: the unpacker, `as<ioproxy_rpc_buffer>`, which throws where it has no
value, and `pack`. -/
structure Msgpack where
  Object : Type
  unpacker : StreamParser UInt8 Object
  as : Object → Option RpcBuffer
  pack : RpcBuffer → Bytes
  packs : unpacker.Packs as pack

/-! ### Operations -/

inductive Operation where
  | read
  | write
deriving DecidableEq

/-- `IOProxyDataOP`, as far as it is set here. -/
structure DataOp where
  path : Bytes
  offset : Int64
  id : UInt64
  fid : Int32
  open_flags : Int32
  operation : Operation
  size : UInt64
  should_prepare : Bool
  ibuf : Bytes
deriving DecidableEq

/-- The operation that `do_read` makes of a message; `data_path` is that of the proxy. -/
def toOp (data_path : Bytes) (buf : RpcBuffer) : DataOp where
  path := data_path ++ buf.path
  offset := buf.offset.toInt64
  id := buf.id
  fid := buf.fid
  open_flags := buf.flags
  operation := if buf.is_read then .read else .write
  size := if buf.is_read then buf.read_size else UInt64.ofNat (buf.buf.length % 2 ^ 32)
  should_prepare := buf.is_read
  ibuf := if buf.is_read then [] else buf.buf

/-- What an operation leaves in its `IOProxyDataOP` when it is done. -/
structure Outcome where
  error_code : Int32
  size : UInt64
  obuf : Bytes

/-- What the callback packs. -/
structure Reply where
  id : UInt64
  error_code : Int32
  buf : Bytes
  offset : Option UInt64
deriving DecidableEq

/-- The reply of the completion callback. The size becomes an `int` and then 32 bits. -/
def reply (op : DataOp) (outcome : Outcome) : Reply :=
  match op.operation with
  | .read =>
      { id := op.id
        error_code := outcome.error_code
        buf := outcome.obuf.take (outcome.size.toNat % 2 ^ 32)
        offset := some op.offset.toUInt64 }
  | .write => { id := op.id, error_code := outcome.error_code, buf := [], offset := none }

/-! ### Sessions -/

/-- How the server goes wrong: it dereferences the end of `sessions`; `recv` writes beyond the
buffer; an exception leaves the thread; a callback uses a session that is gone. -/
inductive Fault where
  | noSession
  | overrun
  | thrown
  | dangling
deriving DecidableEq

/-- `ServerSession`: the bytes that the unpacker holds, and the room behind them. -/
structure ServerSession where
  held : Bytes
  capacity : Nat
  m_stop : Bool

/-- `max_read_bytes`. -/
def max_read_bytes : Nat := 1024000

/-- A new session; `reserved` is the room that `reserve_buffer` makes. -/
def ServerSession.start (reserved : Nat) : ServerSession := ⟨[], reserved, false⟩

/-- What its constructor asks for. -/
def initial_buffer : Nat := 2048000

section
variable (m : Msgpack) (data_path : Bytes)

/-- The operations of some objects: what is no `ioproxy_rpc_buffer` is passed over. -/
def opsOf (objects : List m.Object) : List DataOp :=
  (objects.filterMap m.as).map (toOp data_path)

/-- `ServerSession::do_read`: the session, the operations it queues, and how it goes wrong, if it
does. `rs` is what `recv` answers, with `none` for an error. -/
def do_read (s : ServerSession) (rs : Option Bytes) (reserved : Nat) :
    ServerSession × List DataOp × Option Fault :=
  match rs with
  | none =>
      -- The condition of the loop asks the unpacker before it looks at m_stop.
      match m.unpacker.next s.held with
      | .more => ({ s with m_stop := true }, [], none)
      | .message _ rest => ({ s with held := rest, m_stop := true }, [], none)
      | .broken => ({ s with m_stop := true }, [], some .thrown)
  | some bytes =>
      if bytes.length ≤ s.capacity then
        let d := m.unpacker.drain (s.held ++ bytes)
        let room := s.capacity - bytes.length
        if d.stuck then
          ({ s with held := d.rest, capacity := room }, opsOf m data_path d.messages, some .thrown)
        else
          ({ s with
              held := d.rest
              capacity := if room < max_read_bytes then reserved else room },
            opsOf m data_path d.messages, none)
      else (s, [], some .overrun)

end

/-! ### The server -/

/-- `UDTServer`. `epoll` are the sessions' sockets that `epoll_fd` watches, beside `serv_fd`; `todo`
is what is left of `readfds` in `handleReadFds`. Not in the source are `opened`, all sockets that
`accept` has handed out; `received`, the bytes that `recv` has copied; `queued`, the calls of
`queue_op`, with their sockets; and `written`, the replies, each with the number of the call of
`queue_op` that it belongs to. -/
structure Server where
  epoll : List Int32
  sessions : Int32 → Option ServerSession
  todo : List Int32
  m_stop : Bool
  opened : List Int32
  received : Int32 → Bytes
  queued : List (Int32 × DataOp)
  written : List (Nat × Int32 × Reply)
  fault : Option Fault

/-- `UDTServer::start`. -/
def Server.start : Server where
  epoll := []
  sessions := fun _ => none
  todo := []
  m_stop := false
  opened := []
  received := fun _ => []
  queued := []
  written := []
  fault := none

/-- What UDT answers when a socket is handled: to `accept`, with the outcome of `epoll_add_usock`
and the room in the new session; or to `recv`, with the room that a `reserve_buffer` makes. -/
inductive Answer where
  | acceptFailed
  | accepted (new_sock : Int32) (added : Bool) (reserved : Nat)
  | recvError
  | recv (bytes : Bytes) (reserved : Nat)

/-- What may happen: `epoll_wait` returns with sockets or fails; the server handles the next socket;
the operation of a call of `queue_op` is done and its callback runs. -/
inductive Act where
  | epoll_wait (readfds : List Int32)
  | epollError
  | handle (answer : Answer)
  | complete (n : Nat) (outcome : Outcome)

section
variable (m : Msgpack) (data_path : Bytes) (serv_fd : Int32)

/-- A new connection. -/
def Server.accept (s : Server) (new_sock : Int32) (added : Bool) (reserved : Nat) : Server :=
  if added then
    { s with
      epoll := s.epoll ++ [new_sock]
      sessions := Function.update s.sessions new_sock (some (.start reserved))
      opened := s.opened ++ [new_sock] }
  else { s with opened := s.opened ++ [new_sock] }

/-- A request to read from a connection. -/
def Server.read (s : Server) (cur_sock : Int32) (rs : Option Bytes) (reserved : Nat) : Server :=
  match s.sessions cur_sock with
  | none => { s with fault := some .noSession }
  | some session =>
      let (session', ops, fault) := do_read m data_path session rs reserved
      let s := { s with
        received := Function.update s.received cur_sock (s.received cur_sock ++ rs.getD [])
        queued := s.queued ++ ops.map fun op => (cur_sock, op)
        fault := fault }
      if session'.m_stop = true ∧ fault = none then
        { s with
          epoll := s.epoll.filter (· ≠ cur_sock)
          sessions := Function.update s.sessions cur_sock none }
      else { s with sessions := Function.update s.sessions cur_sock (some session') }

/-- One round of the loop of `handleReadFds`. -/
def Server.handle (s : Server) (answer : Answer) : Option Server :=
  match s.todo with
  | [] => none
  | cur_sock :: todo =>
      let s := { s with todo := todo }
      if cur_sock = serv_fd then
        match answer with
        | .acceptFailed => some s
        | .accepted new_sock added reserved =>
            if new_sock ∉ serv_fd :: s.opened ∧ initial_buffer ≤ reserved then
              some (s.accept new_sock added reserved)
            else none
        | .recvError => none
        | .recv _ _ => none
      else
        match answer with
        | .acceptFailed => none
        | .accepted _ _ _ => none
        | .recvError => some (s.read m data_path cur_sock none 0)
        | .recv bytes reserved =>
            if bytes.length ≤ max_read_bytes ∧ max_read_bytes ≤ reserved then
              some (s.read m data_path cur_sock (some bytes) reserved)
            else none

/-- The completion callback of the `n`th operation. -/
def Server.complete (s : Server) (n : Nat) (outcome : Outcome) : Option Server :=
  if n ∈ s.written.map Prod.fst then none
  else
    match s.queued[n]? with
    | none => none
    | some (sock, op) =>
        if (s.sessions sock).isSome then
          some { s with written := s.written ++ [(n, sock, reply op outcome)] }
        else some { s with fault := some .dangling }

/-- One step of the server and the workers. What has gone wrong does not go on. -/
def step (s : Server) (a : Act) : Option Server :=
  if s.fault.isSome then none
  else
    match a with
    | .epoll_wait readfds =>
        if s.todo = [] ∧ s.m_stop = false ∧ readfds.Pairwise (· < ·) ∧
            readfds.all (· ∈ serv_fd :: s.epoll) then
          some { s with todo := readfds }
        else none
    | .epollError => if s.todo = [] then some { s with m_stop := true } else none
    | .handle answer => s.handle m data_path serv_fd answer
    | .complete n outcome => s.complete n outcome

end

end Gvds.Udt
