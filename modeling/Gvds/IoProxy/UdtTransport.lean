/-
Module: Gvds.IoProxy.UdtTransport
Layer: IoProxy
Purpose: The requests on their way from the clients to the IO proxy: ClientSession::write
  (msg/client_session.cc) packs a buffer and hands it to the writer of its session, whose thread
  sends it, and the UDT server reads what has arrived on the connection.
Imports: Gvds.Common.UdtWriter, Gvds.IoProxy.UdtServer
Trusted boundary: as Gvds.Common.UdtWriter and Gvds.IoProxy.UdtServer. UDT delivers the bytes of a
  connection as they were sent, in pieces of any lengths. The clients of a proxy are those of this
  repository
Main exports: Transport, Transport.start, Event, Transport.step
-/
import Gvds.Common.UdtWriter
import Gvds.IoProxy.UdtServer

namespace Gvds.Udt

/-- The writers at the other ends of the connections, by the socket that the server has for each,
and the server. -/
structure Transport where
  clients : Int32 → UdtWriter.State
  server : Server

def Transport.start : Transport := ⟨fun _ => UdtWriter.start, Server.start⟩

/-- What may happen: a thread of a client writes a buffer, or waits for room and looks again; a
session is closed; the writer thread of a session makes a step; the server or a worker makes one. -/
inductive Event where
  | write (sock : Int32) (producer : Nat) (buf : RpcBuffer)
  | wake (sock : Int32) (producer : Nat)
  | close (sock : Int32)
  | send (sock : Int32) (ss : Option Nat)
  | server (a : Act)

section
variable (m : Msgpack) (data_path : Bytes) (serv_fd : Int32)

/-- A step of the writer of one connection. -/
def Transport.client (s : Transport) (sock : Int32) (a : UdtWriter.Act) : Option Transport :=
  (UdtWriter.step (s.clients sock) a).map fun w =>
    { s with clients := Function.update s.clients sock w }

/-- What `recv` delivers has been sent. -/
def Transport.delivers (s : Transport) : Act → Bool
  | .handle (.recv bytes _) =>
      match s.server.todo with
      | sock :: _ => decide (s.server.received sock ++ bytes <+: (s.clients sock).wire)
      | [] => true
  | _ => true

/-- One step. -/
def Transport.step (s : Transport) : Event → Option Transport
  | .write sock producer buf => s.client sock (.write producer (m.pack buf))
  | .wake sock producer => s.client sock (.wake producer)
  | .close sock => s.client sock .close
  | .send sock ss => s.client sock (.writer ss)
  | .server a =>
      if s.delivers a then
        (Udt.step m data_path serv_fd s.server a).map fun server => { s with server := server }
      else none

end

end Gvds.Udt
