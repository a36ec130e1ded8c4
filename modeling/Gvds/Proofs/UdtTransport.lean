/-
Module: Gvds.Proofs.UdtTransport
Layer: Proofs
Purpose: The way of the requests from all clients to the operations of the IO proxy, over whole runs
  of all threads: the operations queued for a connection are its requests in the order in which they
  were written, each once, as far as their bytes have arrived.
Imports: Gvds.IoProxy.UdtTransport, Gvds.Proofs.BackPressure, Gvds.Proofs.UdtSessions
Trusted boundary: as Gvds.IoProxy.UdtTransport
Main exports: UdtWriter.Streamed, UdtWriter.streamed_step, received_of_step, QueuedInOrder,
  requests_queued_in_order
-/
import Gvds.IoProxy.UdtTransport
import Gvds.Proofs.BackPressure
import Gvds.Proofs.UdtSessions

namespace Gvds.UdtWriter

/-- The wire has nothing but what was accepted, in order. As long as no send has failed, the writer
has discarded nothing. -/
structure Streamed (s : State) : Prop where
  sound : Sound s
  all : s.should_close = false → ∀ h ∈ s.handled, h.2 = .sent
  wire : s.wire <+: s.accepted.flatten

theorem streamed_start : Streamed start :=
  ⟨sound_start, by simp [start], List.prefix_rfl⟩

/-- Before a send has failed, the wire is what was handled and the bytes of the message under way. -/
theorem Sound.wire_prefix {s : State} (h : Sound s) (hopen : s.should_close = false)
    (hall : ∀ e ∈ s.handled, e.2 = .sent) : s.wire <+: s.accepted.flatten := by
  obtain ⟨rest, hwire, hrest⟩ := h.wired
  have hsent : sent s = s.handled.map Prod.fst := by
    rw [sent, List.filter_eq_self.mpr]
    intro e he
    simpa using hall e he
  have hprogress : s.writer.progress <+: s.writer.underWay.flatten := by
    cases s.writer with
    | sending last q data sent =>
        simp only [Writer.progress, Writer.underWay, List.flatten_cons, List.flatten_nil,
          List.append_nil]
        exact List.take_prefix _ _
    | loop => exact List.prefix_rfl
    | waiting => exact List.prefix_rfl
    | swapping last => exact List.prefix_rfl
    | entering last q => exact List.prefix_rfl
    | writing last q => exact List.prefix_rfl
    | ended => exact List.prefix_rfl
  rw [hwire, hrest hopen, hsent, h.placed, List.flatten_append, List.flatten_append]
  exact (List.prefix_append_right_inj _).mpr (hprogress.trans (List.prefix_append _ _))

/-- What a step does to the wire and to the messages that were handled: after a failed send nothing
goes out any more, and before it nothing is discarded. -/
theorem Sound.stream_step {s t : State} {a : Act} (h : Sound s)
    (hstep : UdtWriter.step s a = some t) :
    s.accepted <+: t.accepted ∧ s.wire <+: t.wire ∧
      (t.should_close = true → t.wire = s.wire) ∧
      (t.should_close = false → s.should_close = false ∧
        ((∀ e ∈ s.handled, e.2 = .sent) → ∀ e ∈ t.handled, e.2 = .sent)) := by
  cases a with
  | write producer data =>
      simp only [UdtWriter.step, write] at hstep
      split_ifs at hstep <;> cases hstep <;> simp [UdtWriter.push]
  | wake producer =>
      simp only [UdtWriter.step, wake, Option.map_eq_some_iff] at hstep
      obtain ⟨data, -, rfl⟩ := hstep
      split_ifs <;> simp [UdtWriter.push]
  | close =>
      cases hstep
      simp
  | writer ss =>
      simp only [UdtWriter.step, UdtWriter.writerStep] at hstep
      cases hwriter : s.writer with
      | loop =>
          simp only [hwriter] at hstep
          split_ifs at hstep <;> cases hstep <;> simp
      | waiting =>
          simp only [hwriter] at hstep
          cases hstep
          simp
      | swapping last =>
          simp only [hwriter] at hstep
          cases hstep
          simp
      | entering last q =>
          simp only [hwriter] at hstep
          split_ifs at hstep with hclose
          · cases hstep
            simp [discard, hclose]
          · cases hstep
            simp
      | writing last q =>
          cases q <;> simp only [hwriter] at hstep <;> cases hstep <;> simp
      | sending last q data n =>
          have hopen : s.should_close = false := h.opened (by rw [hwriter]; rfl)
          simp only [hwriter] at hstep
          split_ifs at hstep with hmore
          · cases ss with
            | none =>
                cases hstep
                simp [discard]
            | some k =>
                simp only at hstep
                split_ifs at hstep
                cases hstep
                simp [hopen]
          · cases hstep
            simp [hopen, or_imp, forall_and]
      | ended => simp [hwriter] at hstep

theorem streamed_step {s t : State} {a : Act} (h : Streamed s) (hstep : step s a = some t) :
    Streamed t := by
  obtain ⟨haccepted, _, hclosed, hopened⟩ := h.sound.stream_step hstep
  have hsound := h.sound.step hstep
  have hall : t.should_close = false → ∀ e ∈ t.handled, e.2 = .sent := by
    intro hopen
    obtain ⟨hbefore, hkeep⟩ := hopened hopen
    exact hkeep (h.all hbefore)
  refine ⟨hsound, hall, ?_⟩
  cases hclose : t.should_close with
  | true =>
      rw [hclosed hclose]
      obtain ⟨more, hmore⟩ := haccepted
      rw [← hmore, List.flatten_append]
      exact h.wire.trans (List.prefix_append _ _)
  | false => exact hsound.wire_prefix hclose (hall hclose)

/-- The writer thread takes messages from nobody. -/
theorem kept_of_writerStep {s t : State} {ss : Option Nat} (hstep : writerStep s ss = some t) :
    t.accepted = s.accepted ∧ t.producers = s.producers := by
  unfold writerStep at hstep
  cases hwriter : s.writer with
  | loop =>
      simp only [hwriter] at hstep
      split_ifs at hstep <;> cases hstep <;> exact ⟨rfl, rfl⟩
  | waiting =>
      simp only [hwriter] at hstep
      cases hstep
      exact ⟨rfl, rfl⟩
  | swapping last =>
      simp only [hwriter] at hstep
      cases hstep
      exact ⟨rfl, rfl⟩
  | entering last q =>
      simp only [hwriter] at hstep
      split_ifs at hstep <;> cases hstep <;> exact ⟨rfl, rfl⟩
  | writing last q =>
      cases q <;> simp only [hwriter] at hstep <;> cases hstep <;> exact ⟨rfl, rfl⟩
  | sending last q data n =>
      simp only [hwriter] at hstep
      split_ifs at hstep
      · cases ss with
        | none =>
            cases hstep
            exact ⟨rfl, rfl⟩
        | some k =>
            simp only at hstep
            split_ifs at hstep
            cases hstep
            exact ⟨rfl, rfl⟩
      · cases hstep
        exact ⟨rfl, rfl⟩
  | ended => simp [hwriter] at hstep

/-- Messages with some property are all that a writer accepts, if they are all that it is given. -/
theorem accepted_step {p : Message → Prop} {s t : State} {a : Act}
    (h : (∀ data ∈ s.accepted, p data) ∧ ∀ w ∈ s.producers, p w.2)
    (hgiven : ∀ producer data, a = .write producer data → p data) (hstep : step s a = some t) :
    (∀ data ∈ t.accepted, p data) ∧ ∀ w ∈ t.producers, p w.2 := by
  obtain ⟨haccepted, hproducers⟩ := h
  cases a with
  | write producer data =>
      have hdata := hgiven producer data rfl
      simp only [step, write] at hstep
      split_ifs at hstep
      · cases hstep
        refine ⟨haccepted, fun w hw => ?_⟩
        rcases List.mem_append.mp hw with hold | hnew
        · exact hproducers w hold
        · rw [List.mem_singleton.mp hnew]
          exact hdata
      · cases hstep
        refine ⟨fun other hother => ?_, hproducers⟩
        rcases List.mem_append.mp hother with hold | hnew
        · exact haccepted other hold
        · rw [List.mem_singleton.mp hnew]
          exact hdata
  | wake producer =>
      simp only [step, wake, Option.map_eq_some_iff] at hstep
      obtain ⟨data, hdata, rfl⟩ := hstep
      split_ifs
      · exact ⟨haccepted, hproducers⟩
      · refine ⟨fun other hother => ?_, fun w hw => hproducers w (List.mem_of_mem_filter hw)⟩
        rcases List.mem_append.mp hother with hold | hnew
        · exact haccepted other hold
        · rw [List.mem_singleton.mp hnew]
          obtain ⟨before, behind, hsplit, _⟩ := List.lookup_eq_some_iff.mp hdata
          exact hproducers (producer, data) (by simp [hsplit])
  | close =>
      cases hstep
      exact ⟨haccepted, hproducers⟩
  | writer ss =>
      obtain ⟨hsame, hwaiting⟩ := kept_of_writerStep hstep
      rw [hsame, hwaiting]
      exact ⟨haccepted, hproducers⟩

end Gvds.UdtWriter

namespace Gvds.Udt

variable {m : Msgpack} {data_path : Bytes} {serv_fd : Int32}

/-! ### What the server receives -/

theorem received_of_read (m : Msgpack) (data_path : Bytes) (s : Server) (cur_sock : Int32)
    (rs : Option Bytes) (reserved : Nat) (sock : Int32) :
    (s.read m data_path cur_sock rs reserved).received sock = s.received sock ∨
      sock = cur_sock ∧ ∃ bytes, rs = some bytes ∧
        (s.read m data_path cur_sock rs reserved).received sock = s.received sock ++ bytes := by
  cases hsession : s.sessions cur_sock with
  | none =>
      left
      simp [Server.read, hsession]
  | some session =>
      have hread : (s.read m data_path cur_sock rs reserved).received =
          Function.update s.received cur_sock (s.received cur_sock ++ rs.getD []) := by
        simp only [Server.read, hsession]
        split <;> rfl
      rw [hread]
      by_cases hsock : sock = cur_sock
      · subst hsock
        cases rs with
        | none => simp
        | some bytes => simp
      · left
        rw [Function.update_of_ne hsock]

/-- Only `recv` on the socket itself adds to what was received from it. -/
theorem received_of_step {s t : Server} {a : Act} (hstep : step m data_path serv_fd s a = some t)
    (sock : Int32) :
    t.received sock = s.received sock ∨
      ∃ todo bytes reserved, s.todo = sock :: todo ∧ a = .handle (.recv bytes reserved) ∧
        t.received sock = s.received sock ++ bytes := by
  unfold step at hstep
  split at hstep
  · cases hstep
  · cases a with
    | epoll_wait readfds =>
        simp only [Option.ite_none_right_eq_some, Option.some.injEq] at hstep
        obtain ⟨_, rfl⟩ := hstep
        exact Or.inl rfl
    | epollError =>
        simp only [Option.ite_none_right_eq_some, Option.some.injEq] at hstep
        obtain ⟨_, rfl⟩ := hstep
        exact Or.inl rfl
    | complete n outcome =>
        simp only [Server.complete] at hstep
        split at hstep
        · cases hstep
        · split at hstep
          · cases hstep
          · split at hstep <;> cases hstep <;> exact Or.inl rfl
    | handle answer =>
        cases htodo : s.todo with
        | nil => simp [Server.handle, htodo] at hstep
        | cons cur_sock todo =>
            simp only [Server.handle, htodo] at hstep
            split at hstep
            · cases answer with
              | acceptFailed =>
                  cases hstep
                  exact Or.inl rfl
              | accepted new_sock added reserved =>
                  simp only [Option.ite_none_right_eq_some, Option.some.injEq] at hstep
                  obtain ⟨_, rfl⟩ := hstep
                  left
                  unfold Server.accept
                  split <;> rfl
              | recvError => cases hstep
              | recv bytes reserved => cases hstep
            · cases answer with
              | acceptFailed => cases hstep
              | accepted new_sock added reserved => cases hstep
              | recvError =>
                  cases hstep
                  rcases received_of_read m data_path { s with todo := todo } cur_sock none 0
                      sock with hsame | ⟨_, _, hnone, _⟩
                  · exact Or.inl hsame
                  · cases hnone
              | recv bytes reserved =>
                  simp only [Option.ite_none_right_eq_some, Option.some.injEq] at hstep
                  obtain ⟨_, rfl⟩ := hstep
                  rcases received_of_read m data_path { s with todo := todo } cur_sock
                      (some bytes) reserved sock with hsame | ⟨rfl, _, hsome, hmore⟩
                  · exact Or.inl hsame
                  · cases hsome
                    exact Or.inr ⟨todo, bytes, reserved, rfl, rfl, hmore⟩

/-! ### The whole way -/

/-- What holds on one connection: its writer sends packed buffers only, and the server has received
a part of them. -/
structure Carried (m : Msgpack) (w : UdtWriter.State) (received : Bytes) : Prop where
  streamed : UdtWriter.Streamed w
  packed : (∀ data ∈ w.accepted, ∃ buf, data = m.pack buf) ∧
    ∀ p ∈ w.producers, ∃ buf, p.2 = m.pack buf
  received : received <+: w.wire

/-- The invariant of the transport. -/
structure Coherent (m : Msgpack) (data_path : Bytes) (serv_fd : Int32) (s : Transport) :
    Prop where
  sound : Sound m data_path serv_fd s.server
  carried : ∀ sock, Carried m (s.clients sock) (s.server.received sock)

theorem coherent_start : Coherent m data_path serv_fd Transport.start where
  sound := sound_start
  carried := fun _ => ⟨UdtWriter.streamed_start, by simp [Transport.start, UdtWriter.start],
    List.prefix_rfl⟩

theorem Coherent.client {s t : Transport} {sock : Int32} {a : UdtWriter.Act}
    (h : Coherent m data_path serv_fd s)
    (hgiven : ∀ producer data, a = .write producer data → ∃ buf, data = m.pack buf)
    (hstep : s.client sock a = some t) : Coherent m data_path serv_fd t := by
  obtain ⟨w, hw, rfl⟩ := Option.map_eq_some_iff.mp hstep
  refine ⟨h.sound, fun other => ?_⟩
  by_cases hother : other = sock
  · subst hother
    obtain ⟨hstreamed, hpacked, hreceived⟩ := h.carried other
    simp only [Function.update_self]
    exact ⟨UdtWriter.streamed_step hstreamed hw, UdtWriter.accepted_step hpacked hgiven hw,
      hreceived.trans (hstreamed.sound.stream_step hw).2.1⟩
  · simp only [Function.update_of_ne hother]
    exact h.carried other

theorem coherent_step {s t : Transport} {e : Event} (h : Coherent m data_path serv_fd s)
    (hstep : s.step m data_path serv_fd e = some t) : Coherent m data_path serv_fd t := by
  cases e with
  | write sock producer buf =>
      refine h.client (fun _ data hdata => ⟨buf, ?_⟩) hstep
      cases hdata
      rfl
  | wake sock producer => exact h.client (by simp) hstep
  | close sock => exact h.client (by simp) hstep
  | send sock ss => exact h.client (by simp) hstep
  | server a =>
      simp only [Transport.step, Option.ite_none_right_eq_some] at hstep
      obtain ⟨hdelivers, hmap⟩ := hstep
      obtain ⟨server, hserver, rfl⟩ := Option.map_eq_some_iff.mp hmap
      refine ⟨sound_step h.sound hserver, fun sock => ?_⟩
      obtain ⟨hstreamed, hpacked, hreceived⟩ := h.carried sock
      refine ⟨hstreamed, hpacked, ?_⟩
      rcases received_of_step hserver sock with hsame | ⟨todo, bytes, reserved, htodo, rfl, hmore⟩
      · rw [hsame]
        exact hreceived
      · rw [hmore]
        simpa [Transport.delivers, htodo] using hdelivers

/-- The requests of every connection have become operations in the order in which they were written,
each once, and these are the ones whose bytes have arrived. No client ends the server. -/
structure QueuedInOrder (m : Msgpack) (data_path : Bytes) (s : Transport) : Prop where
  queued : ∀ sock, ∃ (bufs : List RpcBuffer) (k : Nat),
    (s.clients sock).accepted = bufs.map m.pack ∧
    opsFrom s.server sock = (bufs.take k).map (toOp data_path) ∧
    (bufs.take k).flatMap m.pack <+: s.server.received sock ∧
    (k < bufs.length →
      (s.server.received sock).length < ((bufs.take (k + 1)).flatMap m.pack).length)
  running : s.server.fault ≠ some .thrown

/-- Packed messages are the packing of some buffers. -/
theorem exists_map_pack {l : List Bytes} (h : ∀ data ∈ l, ∃ buf, data = m.pack buf) :
    ∃ bufs : List RpcBuffer, l = bufs.map m.pack := by
  induction l with
  | nil => exact ⟨[], rfl⟩
  | cons data l ih =>
      obtain ⟨buf, rfl⟩ := h data List.mem_cons_self
      obtain ⟨bufs, rfl⟩ := ih fun other hother => h other (List.mem_cons_of_mem _ hother)
      exact ⟨buf :: bufs, rfl⟩

theorem Coherent.queuedInOrder {s : Transport} (h : Coherent m data_path serv_fd s) :
    QueuedInOrder m data_path s := by
  have hdrain : ∀ sock, ∃ bufs : List RpcBuffer, (s.clients sock).accepted = bufs.map m.pack ∧
      s.server.received sock <+: bufs.flatMap m.pack := by
    intro sock
    obtain ⟨hstreamed, hpacked, hreceived⟩ := h.carried sock
    obtain ⟨bufs, hbufs⟩ := exists_map_pack hpacked.1
    refine ⟨bufs, hbufs, ?_⟩
    rw [List.flatMap_def, ← hbufs]
    exact hreceived.trans hstreamed.wire
  constructor
  · intro sock
    obtain ⟨bufs, hbufs, hprefix⟩ := hdrain sock
    obtain ⟨k, hread, _, hsplit, hrest⟩ := m.packs.drain_of_prefix hprefix
    refine ⟨bufs, k, hbufs, ?_, ?_, ?_⟩
    · rw [h.sound.own sock, opsOf, hread]
    · rw [hsplit]
      exact List.prefix_append _ _
    · intro hk
      rw [hsplit, List.take_add_one, List.flatMap_append, List.length_append, List.length_append]
      rcases hrest with hnil | ⟨buf, hbuf, hpart, hne⟩
      · rw [hnil, List.getElem?_eq_getElem hk]
        obtain ⟨o, hnext, _⟩ := m.packs.reads bufs[k]
        have hlt := m.unpacker.length_lt hnext
        simpa using hlt
      · rw [hbuf]
        have hlt : (m.unpacker.drain (s.server.received sock)).rest.length < (m.pack buf).length := by
          apply Nat.lt_of_le_of_ne hpart.length_le
          exact fun heq => hne (hpart.eq_of_length heq)
        simpa using hlt
  · intro hthrown
    obtain ⟨sock, hstuck⟩ := h.sound.thrown.mp hthrown
    obtain ⟨bufs, _, hprefix⟩ := hdrain sock
    obtain ⟨_, _, hfree, _⟩ := m.packs.drain_of_prefix hprefix
    rw [hfree] at hstuck
    cases hstuck

theorem requests_queued_in_order (m : Msgpack) (data_path : Bytes) (serv_fd : Int32)
    (events : List Event) :
    Machine.Always (Transport.step m data_path serv_fd) (QueuedInOrder m data_path)
      Transport.start events :=
  Machine.always_of_preserves (fun _ _ _ h hstep => coherent_step h hstep)
    (fun _ h => h.queuedInOrder) coherent_start

end Gvds.Udt
