/-
Module: Gvds.Proofs.UdtSessions
Layer: Proofs
Purpose: The UDT server over whole runs: however the bytes of the connections come in and in whatever
  order the sockets are handled, the operations queued for a connection are those of its own bytes,
  and no reply goes to another connection. What can go wrong, and what cannot.
Imports: Gvds.IoProxy.UdtServer, Gvds.Lib.Machine
Trusted boundary: as Gvds.IoProxy.UdtServer
Main exports: opsFrom, Sound, sound_handle, connections_kept_apart
-/
import Gvds.IoProxy.UdtServer
import Gvds.Lib.Machine

namespace Gvds.Udt

variable {m : Msgpack} {data_path : Bytes} {serv_fd : Int32}

/-- The operations that were queued for a connection. -/
def opsFrom (s : Server) (sock : Int32) : List DataOp :=
  (s.queued.filter fun e => e.1 = sock).map Prod.snd

/-- A session between two reads, with the bytes that its connection has delivered. -/
structure Between (m : Msgpack) (session : ServerSession) (got : Bytes) : Prop where
  held : session.held = (m.unpacker.drain got).rest
  room : max_read_bytes ≤ session.capacity
  open_ : session.m_stop = false

/-- What the UDT server keeps up. -/
structure Sound (m : Msgpack) (data_path : Bytes) (serv_fd : Int32) (s : Server) : Prop where
  watched : ∀ sock, sock ∈ s.epoll ↔ (s.sessions sock).isSome
  nodup : s.todo.Nodup
  waiting : ∀ sock ∈ s.todo, sock ∈ serv_fd :: s.epoll
  listening : serv_fd ∉ s.opened
  accepted : ∀ sock ∈ s.epoll, sock ∈ s.opened
  silent : ∀ sock, sock ∉ s.opened → s.received sock = []
  between : s.fault = none → ∀ sock session, s.sessions sock = some session →
    Between m session (s.received sock)
  own : ∀ sock, opsFrom s sock = opsOf m data_path (m.unpacker.drain (s.received sock)).messages
  thrown : s.fault = some .thrown ↔ ∃ sock, (m.unpacker.drain (s.received sock)).stuck = true
  found : s.fault ≠ some .noSession
  inside : s.fault ≠ some .overrun
  dangling : s.fault = some .dangling → ∃ e ∈ s.queued, s.sessions e.1 = none
  answered : (s.written.map Prod.fst).Nodup
  replies : ∀ e ∈ s.written, ∃ op outcome, s.queued[e.1]? = some (e.2.1, op) ∧
    e.2.2 = reply op outcome

theorem drain_nil : m.unpacker.drain [] = ⟨[], [], false⟩ :=
  StreamParser.drain_of_more m.unpacker.next_nil

theorem sound_start : Sound m data_path serv_fd Server.start where
  watched := by simp [Server.start]
  nodup := List.nodup_nil
  waiting := by simp [Server.start]
  listening := by simp [Server.start]
  accepted := by simp [Server.start]
  silent := fun _ _ => rfl
  between := by simp [Server.start]
  own := by simp [Server.start, opsFrom, opsOf, drain_nil]
  thrown := by simp [Server.start, drain_nil]
  found := by simp [Server.start]
  inside := by simp [Server.start]
  dangling := by simp [Server.start]
  answered := List.nodup_nil
  replies := by simp [Server.start]

/-! ### Reading from a connection -/

/-- A read that fails stops the session, and nothing else: no object is left to be lost. -/
theorem do_read_error (data_path : Bytes) {session : ServerSession} {got : Bytes}
    (h : Between m session got) (hstuck : (m.unpacker.drain got).stuck = false) :
    do_read m data_path session none 0 = ({ session with m_stop := true }, [], none) := by
  have hmore := StreamParser.next_rest (P := m.unpacker) got
  rw [hstuck, if_neg Bool.false_ne_true] at hmore
  rw [do_read, h.held, hmore]

/-- A read queues what the bytes complete, and leaves the session ready for the next one. -/
theorem do_read_recv (data_path : Bytes) {session : ServerSession} {got bytes : Bytes}
    {reserved : Nat} (h : Between m session got) (hstuck : (m.unpacker.drain got).stuck = false)
    (hbytes : bytes.length ≤ max_read_bytes) (hreserved : max_read_bytes ≤ reserved) :
    ∃ session' ops fault, do_read m data_path session (some bytes) reserved =
        (session', ops, fault) ∧
      opsOf m data_path (m.unpacker.drain (got ++ bytes)).messages =
        opsOf m data_path (m.unpacker.drain got).messages ++ ops ∧
      session'.m_stop = false ∧
      fault = (if (m.unpacker.drain (got ++ bytes)).stuck = true then some .thrown else none) ∧
      (fault = none → Between m session' (got ++ bytes)) := by
  have hroom := Nat.le_trans hbytes h.room
  have hdrain := StreamParser.drain_append hstuck bytes
  rw [← h.held] at hdrain
  have hops : opsOf m data_path (m.unpacker.drain (got ++ bytes)).messages =
      opsOf m data_path (m.unpacker.drain got).messages ++
        opsOf m data_path (m.unpacker.drain (session.held ++ bytes)).messages := by
    simp [hdrain, opsOf, List.filterMap_append]
  have hrest := congrArg StreamParser.Drained.rest hdrain
  have hsame := congrArg StreamParser.Drained.stuck hdrain
  simp only at hrest hsame
  simp only [do_read, if_pos hroom, hsame]
  by_cases hnow : (m.unpacker.drain (session.held ++ bytes)).stuck = true
  · rw [if_pos hnow, if_pos hnow]
    exact ⟨_, _, _, rfl, hops, h.open_, rfl, fun hnone => by cases hnone⟩
  · rw [if_neg hnow, if_neg hnow]
    refine ⟨_, _, _, rfl, hops, h.open_, rfl, fun _ => ⟨hrest.symm, ?_, h.open_⟩⟩
    simp only
    split
    · exact hreserved
    · omega

/-- Nothing is stuck while nothing has gone wrong. -/
theorem Sound.not_stuck {s : Server} (h : Sound m data_path serv_fd s) (hfault : s.fault = none)
    (sock : Int32) : (m.unpacker.drain (s.received sock)).stuck = false := by
  by_contra hstuck
  have hthrown := h.thrown.mpr ⟨sock, by simpa using hstuck⟩
  rw [hfault] at hthrown
  cases hthrown

/-- The operations that one connection has queued are added to its own. -/
theorem opsFrom_append (s : Server) (sock other : Int32) (ops : List DataOp) :
    ((s.queued ++ ops.map fun op => (sock, op)).filter fun e => e.1 = other).map Prod.snd =
      opsFrom s other ++ if sock = other then ops else [] := by
  rw [List.filter_append, List.map_append, opsFrom]
  by_cases hsame : sock = other
  · simp [hsame, List.filter_map, Function.comp_def]
  · simp [hsame, List.filter_map, Function.comp_def]

/-! ### The steps of the server -/

/-- The next socket is taken off the set. -/
theorem Sound.taken {s : Server} {cur_sock : Int32} {todo : List Int32}
    (h : Sound m data_path serv_fd s) (htodo : s.todo = cur_sock :: todo) :
    Sound m data_path serv_fd { s with todo := todo } := by
  have hnodup := h.nodup
  have hwaiting := h.waiting
  rw [htodo] at hnodup hwaiting
  exact { h with
    nodup := (List.nodup_cons.mp hnodup).2
    waiting := fun sock hsock => hwaiting sock (List.mem_cons_of_mem _ hsock) }

theorem Sound.accept {s : Server} {new_sock : Int32} {added : Bool} {reserved : Nat}
    (h : Sound m data_path serv_fd s) (hnew : new_sock ∉ serv_fd :: s.opened)
    (hreserved : initial_buffer ≤ reserved) :
    Sound m data_path serv_fd (s.accept new_sock added reserved) := by
  rw [List.mem_cons, not_or] at hnew
  obtain ⟨hserv, hopened⟩ := hnew
  have hlistening : serv_fd ∉ s.opened ++ [new_sock] := by
    simp only [List.mem_append, List.mem_singleton, not_or]
    exact ⟨h.listening, Ne.symm hserv⟩
  have hsilent : ∀ sock, sock ∉ s.opened ++ [new_sock] → s.received sock = [] :=
    fun sock hsock => h.silent sock fun hin => hsock (List.mem_append_left _ hin)
  unfold Server.accept
  split
  · exact { h with
      watched := by
        intro sock
        by_cases hsock : sock = new_sock
        · simp [hsock]
        · simp [hsock, h.watched sock]
      waiting := fun sock hsock => by
        have hin := h.waiting sock hsock
        simp only [List.mem_cons, List.mem_append] at hin ⊢
        exact hin.imp_right Or.inl
      listening := hlistening
      accepted := by
        intro sock hsock
        rcases List.mem_append.mp hsock with hin | hin
        · exact List.mem_append_left _ (h.accepted sock hin)
        · exact List.mem_append_right _ hin
      silent := hsilent
      between := by
        intro hfault sock session hsession
        by_cases hsock : sock = new_sock
        · subst hsock
          simp only [Function.update_self, Option.some.injEq] at hsession
          subst hsession
          have hnone := h.silent sock hopened
          simp only [hnone]
          exact ⟨by rw [drain_nil]; rfl, Nat.le_trans (by decide) hreserved, rfl⟩
        · simp only [Function.update_of_ne hsock] at hsession
          exact h.between hfault sock session hsession
      dangling := by
        intro hfault
        obtain ⟨e, he, hnone⟩ := h.dangling hfault
        by_cases hsock : e.1 = new_sock
        · have hops := h.own e.1
          rw [h.silent e.1 (hsock ▸ hopened), drain_nil] at hops
          have hmem : e.2 ∈ opsFrom s e.1 :=
            List.mem_map.mpr ⟨e, List.mem_filter.mpr ⟨he, by simp⟩, rfl⟩
          rw [hops] at hmem
          simp [opsOf] at hmem
        · exact ⟨e, he, by simp [Function.update_of_ne hsock, hnone]⟩ }
  · exact { h with
      listening := hlistening
      accepted := fun sock hsock => List.mem_append_left _ (h.accepted sock hsock)
      silent := hsilent }

/-- A connection whose read fails is given up. -/
theorem Sound.readError {s : Server} {cur_sock : Int32} (h : Sound m data_path serv_fd s)
    (hfault : s.fault = none) (hwatched : cur_sock ∈ s.epoll) (hout : cur_sock ∉ s.todo) :
    Sound m data_path serv_fd (s.read m data_path cur_sock none 0) := by
  obtain ⟨session, hsession⟩ := Option.isSome_iff_exists.mp ((h.watched cur_sock).mp hwatched)
  have hread := do_read_error data_path (h.between hfault cur_sock session hsession)
    (h.not_stuck hfault cur_sock)
  simp only [Server.read, hsession, hread, Option.getD_none, List.map_nil, List.append_nil,
    Function.update_eq_self, and_self, if_true]
  exact { h with
    watched := by
      intro sock
      by_cases hsock : sock = cur_sock
      · simp [hsock]
      · simp [hsock, h.watched sock]
    waiting := by
      intro sock hsock
      have hne : sock ≠ cur_sock := fun heq => hout (heq ▸ hsock)
      have hin := h.waiting sock hsock
      simp only [List.mem_cons, List.mem_filter, decide_eq_true_eq] at hin ⊢
      exact hin.imp_right fun hin => ⟨hin, hne⟩
    accepted := fun sock hsock => h.accepted sock (List.mem_of_mem_filter hsock)
    between := by
      intro _ sock session' hsession'
      by_cases hsock : sock = cur_sock
      · simp [hsock] at hsession'
      · simp only [Function.update_of_ne hsock] at hsession'
        exact h.between hfault sock session' hsession'
    thrown := by
      rw [← hfault]
      exact h.thrown
    found := by simp
    inside := by simp
    dangling := by simp }

/-- Bytes that come in are added to what their connection has delivered. -/
theorem Sound.readBytes {s : Server} {cur_sock : Int32} {bytes : Bytes} {reserved : Nat}
    (h : Sound m data_path serv_fd s) (hfault : s.fault = none) (hwatched : cur_sock ∈ s.epoll)
    (hbytes : bytes.length ≤ max_read_bytes) (hreserved : max_read_bytes ≤ reserved) :
    Sound m data_path serv_fd (s.read m data_path cur_sock (some bytes) reserved) := by
  obtain ⟨session, hsession⟩ := Option.isSome_iff_exists.mp ((h.watched cur_sock).mp hwatched)
  obtain ⟨session', ops, fault, hread, hops, hopen, hthrown, hbetween⟩ :=
    do_read_recv data_path (h.between hfault cur_sock session hsession)
      (h.not_stuck hfault cur_sock) hbytes hreserved
  have hnot : ¬ (session'.m_stop = true ∧ fault = none) := by simp [hopen]
  simp only [Server.read, hsession, hread, Option.getD_some, if_neg hnot]
  have hothers : ∀ sock, sock ≠ cur_sock →
      (m.unpacker.drain (s.received sock)).stuck = false := fun sock _ => h.not_stuck hfault sock
  exact { h with
    watched := by
      intro sock
      by_cases hsock : sock = cur_sock
      · simp [hsock, hwatched]
      · simp [hsock, h.watched sock]
    silent := by
      intro sock hsock
      have hne : sock ≠ cur_sock := fun heq => hsock (heq ▸ h.accepted cur_sock hwatched)
      simp only [Function.update_of_ne hne]
      exact h.silent sock hsock
    between := by
      intro hnone sock other hother
      by_cases hsock : sock = cur_sock
      · subst hsock
        simp only [Function.update_self, Option.some.injEq] at hother ⊢
        subst hother
        exact hbetween hnone
      · simp only [Function.update_of_ne hsock] at hother ⊢
        exact h.between hfault sock other hother
    own := by
      intro sock
      change ((s.queued ++ ops.map fun op => (cur_sock, op)).filter fun e => e.1 = sock).map
        Prod.snd = _
      rw [opsFrom_append, h.own sock]
      by_cases hsock : sock = cur_sock
      · subst hsock
        simp [hops]
      · simp [Function.update_of_ne hsock, Ne.symm hsock]
    thrown := by
      simp only [hthrown]
      constructor
      · intro hnow
        refine ⟨cur_sock, ?_⟩
        rw [Function.update_self]
        by_contra hstuck
        rw [if_neg hstuck] at hnow
        cases hnow
      · rintro ⟨sock, hstuck⟩
        by_cases hsock : sock = cur_sock
        · subst hsock
          rw [Function.update_self] at hstuck
          rw [if_pos hstuck]
        · rw [Function.update_of_ne hsock, hothers sock hsock] at hstuck
          cases hstuck
    found := by
      simp only [hthrown]
      split <;> simp
    inside := by
      simp only [hthrown]
      split <;> simp
    dangling := by
      simp only [hthrown]
      split <;> simp
    replies := by
      intro e he
      obtain ⟨op, outcome, hop, hreply⟩ := h.replies e he
      refine ⟨op, outcome, ?_, hreply⟩
      rw [List.getElem?_append_left (List.getElem?_eq_some_iff.mp hop).1]
      exact hop }

theorem sound_handle {s t : Server} {answer : Answer} (h : Sound m data_path serv_fd s)
    (hfault : s.fault = none) (hstep : s.handle m data_path serv_fd answer = some t) :
    Sound m data_path serv_fd t := by
  unfold Server.handle at hstep
  cases htodo : s.todo with
  | nil => simp [htodo] at hstep
  | cons cur_sock todo =>
      have htaken := h.taken htodo
      simp only [htodo] at hstep
      split at hstep
      · cases answer with
        | acceptFailed =>
            cases hstep
            exact htaken
        | accepted new_sock added reserved =>
            simp only [Option.ite_none_right_eq_some, Option.some.injEq] at hstep
            obtain ⟨⟨hnew, hreserved⟩, rfl⟩ := hstep
            exact htaken.accept hnew hreserved
        | recvError => cases hstep
        | recv bytes reserved => cases hstep
      · rename_i hsock
        have hin := h.waiting cur_sock (by simp [htodo])
        have hwatched : cur_sock ∈ s.epoll := (List.mem_cons.mp hin).resolve_left hsock
        cases answer with
        | acceptFailed => cases hstep
        | accepted new_sock added reserved => cases hstep
        | recvError =>
            cases hstep
            have hnodup := h.nodup
            rw [htodo] at hnodup
            exact htaken.readError hfault hwatched (List.nodup_cons.mp hnodup).1
        | recv bytes reserved =>
            simp only [Option.ite_none_right_eq_some, Option.some.injEq] at hstep
            obtain ⟨⟨hbytes, hreserved⟩, rfl⟩ := hstep
            exact htaken.readBytes hfault hwatched hbytes hreserved

/-- A callback writes to the connection that its operation came from, once. -/
theorem sound_complete {s t : Server} {n : Nat} {outcome : Outcome}
    (h : Sound m data_path serv_fd s) (hfault : s.fault = none)
    (hstep : s.complete n outcome = some t) : Sound m data_path serv_fd t := by
  unfold Server.complete at hstep
  split at hstep
  · cases hstep
  · rename_i hnew
    split at hstep
    · cases hstep
    · rename_i sock op hop
      split at hstep
      · cases hstep
        exact { h with
          answered := by
            simp only [List.map_append, List.map_cons, List.map_nil]
            exact List.nodup_append.mpr ⟨h.answered, List.nodup_singleton _, by
              rintro a ha b hb rfl
              exact hnew (List.mem_singleton.mp hb ▸ ha)⟩
          replies := by
            intro e he
            rcases List.mem_append.mp he with hold | hlast
            · exact h.replies e hold
            · obtain rfl := List.mem_singleton.mp hlast
              exact ⟨op, outcome, hop, rfl⟩ }
      · rename_i hgone
        cases hstep
        exact { h with
          between := by simp
          thrown := by
            constructor
            · intro hnow
              cases hnow
            · rintro ⟨other, hstuck⟩
              rw [h.not_stuck hfault other] at hstuck
              cases hstuck
          found := by simp
          inside := by simp
          dangling := fun _ =>
            ⟨(sock, op), List.mem_of_getElem? hop, Option.not_isSome_iff_eq_none.mp hgone⟩ }

theorem sound_step {s t : Server} {a : Act} (h : Sound m data_path serv_fd s)
    (hstep : step m data_path serv_fd s a = some t) : Sound m data_path serv_fd t := by
  unfold step at hstep
  split at hstep
  · cases hstep
  · rename_i hfault
    have hfault := Option.not_isSome_iff_eq_none.mp hfault
    cases a with
    | epoll_wait readfds =>
        simp only [Option.ite_none_right_eq_some, Option.some.injEq] at hstep
        obtain ⟨⟨_, _, hsorted, hwaiting⟩, rfl⟩ := hstep
        exact { h with
          nodup := hsorted.imp fun hlt heq => by simp [heq] at hlt
          waiting := by simpa using hwaiting }
    | epollError =>
        simp only [Option.ite_none_right_eq_some, Option.some.injEq] at hstep
        obtain ⟨_, rfl⟩ := hstep
        exact { h with }
    | handle answer => exact sound_handle h hfault hstep
    | complete n outcome => exact sound_complete h hfault hstep

/-- The connections of the UDT server do not get in each other's way. -/
theorem connections_kept_apart (m : Msgpack) (data_path : Bytes) (serv_fd : Int32)
    (acts : List Act) :
    Machine.Always (step m data_path serv_fd) (Sound m data_path serv_fd) Server.start acts :=
  Machine.always_of_preserves (fun _ _ _ h hstep => sound_step h hstep) (fun _ h => h) sound_start

end Gvds.Udt
