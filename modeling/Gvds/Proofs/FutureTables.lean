/-
Module: Gvds.Proofs.FutureTables
Layer: Proofs
Purpose: What ft_res_tab holds while requests are submitted, answered and taken over. No two requests
  have the same sector number of a task; as long as futures are stored, taken and copied on the task
  of their number, the table of a buffer has the future of every request of its task that no thread
  has yet to store, and a reply that was copied stays in its sector.
Imports: Gvds.Lib.IndexedList, Gvds.Proofs.PrefetchEpochs, Gvds.Proofs.ReadAheadBuffers
Trusted boundary: as Gvds.Client.ReadAheadThreads
Main exports: Ticket, tickets, Intact, CallOrdered, CallbackOrdered, Intact.callStep,
  Intact.callbackStep
-/
import Gvds.Lib.IndexedList
import Gvds.Proofs.PrefetchEpochs
import Gvds.Proofs.ReadAheadBuffers

namespace Gvds.ReadAheadThreads

open WriteBehind (FileName)
open ReadAhead (BufArea sectorSize)
open IndexedList

/-! ### Sector numbers -/

/-- A sector number that was taken from a buffer, with the task that the buffer had then. -/
structure Ticket where
  buf_idx : Fin 2
  task : Nat
  sec_nr : Nat
deriving DecidableEq

/-- The number that a request asks for. -/
def Request.ticket (r : Request) : Ticket := ⟨r.buf_idx, r.task, r.sec_nr⟩

/-- The number that a call has taken and not submitted yet. -/
def Call.ticket? (call : Call) : Option Ticket :=
  match call.pc with
  | .stamp _ sec_nr task => some ⟨call.buf_idx, task, sec_nr⟩
  | .submit _ sec_nr task _ => some ⟨call.buf_idx, task, sec_nr⟩
  | _ => none

/-- All numbers that were taken. -/
def tickets (s : State) : List Ticket :=
  s.requests.map Request.ticket ++ s.calls.filterMap Call.ticket?

/-- The call has submitted the request and has yet to store its future. -/
def Call.stores (k : Nat) (call : Call) : Bool :=
  match call.pc with
  | .store _ _ k' => k' = k
  | _ => false

/-- The call has no number and no future in its hands. -/
def Pc.idle : Pc → Bool
  | .stamp _ _ _ => false
  | .submit _ _ _ _ => false
  | .store _ _ _ => false
  | _ => true

/-- The future of the request is not stored yet. -/
def State.storing (s : State) (k : Nat) : Bool := s.calls.any (Call.stores k)

/-! ### The order of the steps -/

/-- The request is of the epoch of its buffer. -/
def Request.Current (s : State) (r : Request) : Prop := r.cur_epoch = (s.bufs r.buf_idx).epoch

/-- What a step of `fetch_sector_remote` needs: there is a sector left when it takes a number, and
the buffer has not been given another task since when it stores the future. -/
def CallOrdered (s : State) (call : Call) : Pc → Prop
  | .number _ =>
      let b := s.bufs call.buf_idx
      b.cur_sec_nr < b.sec_bg + b.max_sec
  | .store _ _ k => ∀ r, s.requests[k]? = some r → r.task = (s.bufs call.buf_idx).task
  | _ => True

/-- What a step of a callback needs. At its look at the epoch its buffer has the task that its
sector number was taken in, and the future of a good reply has been stored; it copies a reply, and
marks the sector of one of the current epoch, on the same task. -/
def CallbackOrdered (s : State) (k : Nat) (r : Request) : Stage → Prop
  | .sent => r.Current s →
      r.task = (s.bufs r.buf_idx).task ∧ (r.reply.join ≠ none → s.storing k = false)
  | .taken _ task => r.reply.join ≠ none → task = (s.bufs r.buf_idx).task
  | .copied _ task => r.Current s → task = (s.bufs r.buf_idx).task
  | _ => True

/-- What a step needs. -/
def Ordered (s : State) : Act → Prop
  | .call c => ∀ call, s.calls[c]? = some call → CallOrdered s call call.pc
  | .callback k => ∀ r, s.requests[k]? = some r → CallbackOrdered s k r r.stage
  | _ => True

/-! ### The tables and the sectors -/

/-- The sector of the request holds the bytes of the reply. -/
def Copied (s : State) (r : Request) (rep : ReadAhead.Reply) : Prop :=
  let b := s.bufs r.buf_idx
  b.InTask r.sec_nr ∧ b.buf.Holds (b.sectorAddr r.sec_nr) rep.bytes rep.time

/-- Numbers, futures and copied replies are in order. -/
structure Intact (s : State) : Prop where
  sound : ∀ i, (s.bufs i).Sound
  small : ∀ call ∈ s.calls, ∀ file sec_bg sec_max epoch,
    call.pc = .task file sec_bg sec_max epoch → sec_max < 2 ^ 14
  distinct : (tickets s).Nodup
  task_le : ∀ x ∈ tickets s, x.task ≤ (s.bufs x.buf_idx).task
  taken_lt : ∀ x ∈ tickets s, x.task = (s.bufs x.buf_idx).task →
    (s.bufs x.buf_idx).InTask x.sec_nr ∧ x.sec_nr < (s.bufs x.buf_idx).cur_sec_nr
  submitted : ∀ call ∈ s.calls, ∀ file sec_nr k, call.pc = .store file sec_nr k →
    ∃ r, s.requests[k]? = some r ∧ r.buf_idx = call.buf_idx ∧ r.sec_nr = sec_nr
  table : ∀ i sec_nr k, (s.bufs i).ft_res_tab sec_nr = some k →
    ∃ r, s.requests[k]? = some r ∧ r.ticket = ⟨i, (s.bufs i).task, sec_nr⟩
  stored : ∀ (k : Nat) (r : Request), s.requests[k]? = some r → r.stage = .sent →
    r.task = (s.bufs r.buf_idx).task → s.storing k = false →
      (s.bufs r.buf_idx).ft_res_tab r.sec_nr = some k
  taken : ∀ (k : Nat) (r : Request) k' task, s.requests[k]? = some r → r.stage = .taken k' task →
    k' = k ∧ task = r.task
  copied : ∀ (k : Nat) (r : Request) len task, s.requests[k]? = some r → r.stage = .copied len task →
    task = r.task ∧ ∃ rep, r.reply = some (some rep) ∧ len = rep.bytes.length ∧
      (task = (s.bufs r.buf_idx).task → Copied s r rep)
  replies : ∀ (k : Nat) (r : Request) (rep : ReadAhead.Reply), s.requests[k]? = some r →
    r.reply = some (some rep) → rep.bytes.length ≤ sectorSize

theorem intact_start : Intact start where
  sound := fun _ => ⟨Nat.two_pow_pos 14, Nat.le_refl 0⟩
  small := fun _ hcall => by cases hcall
  distinct := List.nodup_nil
  task_le := fun _ hx => by cases hx
  taken_lt := fun _ hx => by cases hx
  submitted := fun _ hcall => by cases hcall
  table := fun _ _ _ htab => by cases htab
  stored := fun _ _ hr => by cases hr
  taken := fun _ _ _ _ hr => by cases hr
  copied := fun _ _ _ _ hr => by cases hr
  replies := fun _ _ _ hr => by cases hr

/-! ### Requests and their numbers -/

@[simp] theorem setBuf_bufs_self (s : State) (i : Fin 2) (b : Buffer) :
    (s.setBuf i b).bufs i = b :=
  Function.update_self _ _ _

theorem setBuf_bufs_of_ne {i j : Fin 2} (hj : j ≠ i) (s : State) (b : Buffer) :
    (s.setBuf i b).bufs j = s.bufs j :=
  Function.update_of_ne hj _ _

theorem ticket_mem {s : State} {k : Nat} {r : Request} (h : s.requests[k]? = some r) :
    r.ticket ∈ tickets s :=
  List.mem_append_left _ (List.mem_map_of_mem (List.mem_of_getElem? h))

namespace Intact

/-- No two requests have the same number. -/
theorem eq_of_ticket {s : State} (h : Intact s) {k k' : Nat} {r r' : Request}
    (hr : s.requests[k]? = some r) (hr' : s.requests[k']? = some r') (hx : r'.ticket = r.ticket) :
    k' = k := by
  have hdistinct := (List.nodup_append.mp h.distinct).1
  have hlt : k' < (s.requests.map Request.ticket).length := by
    simpa using (List.getElem?_eq_some_iff.mp hr').1
  refine (List.getElem?_inj hlt hdistinct).mp ?_
  rw [List.getElem?_map, List.getElem?_map, hr, hr', Option.map_some, Option.map_some, hx]

theorem request_task_le {s : State} (h : Intact s) {k : Nat} {r : Request}
    (hr : s.requests[k]? = some r) : r.task ≤ (s.bufs r.buf_idx).task :=
  h.task_le _ (ticket_mem hr)

/-- The future that a callback finds on the task of its number is its own. -/
theorem own_future {s : State} (h : Intact s) {k k' : Nat} {r : Request}
    (hr : s.requests[k]? = some r) (htask : r.task = (s.bufs r.buf_idx).task)
    (htab : (s.bufs r.buf_idx).ft_res_tab r.sec_nr = some k') : k' = k := by
  obtain ⟨r', hr', hx⟩ := h.table _ _ _ htab
  refine h.eq_of_ticket hr hr' (hx.trans ?_)
  rw [Request.ticket, htask]

end Intact

/-! ### What one part of a step does -/

/-- The task of the buffer goes on: sector numbers may have been taken. -/
structure SameTask (b b' : BufArea) : Prop where
  sec_bg : b'.sec_bg = b.sec_bg
  max_sec : b'.max_sec = b.max_sec
  task : b'.task = b.task
  cur_sec_nr : b.cur_sec_nr ≤ b'.cur_sec_nr

theorem SameTask.refl (b : BufArea) : SameTask b b := ⟨rfl, rfl, rfl, Nat.le_refl _⟩

theorem SameTask.sound {b b' : BufArea} (h : SameTask b b') (hsound : b.Sound) : b'.Sound where
  max_sec_lt := h.max_sec ▸ hsound.max_sec_lt
  cur_sec_ge := h.sec_bg ▸ hsound.cur_sec_ge.trans h.cur_sec_nr

theorem SameTask.inTask {b b' : BufArea} (h : SameTask b b') {sec_nr : Nat}
    (hin : b.InTask sec_nr) : b'.InTask sec_nr := by
  rw [BufArea.InTask, h.sec_bg, h.max_sec]
  exact hin

/-- A sector of a task that goes on in the same memory. -/
theorem Copied.of_sameTask {s t : State} {r : Request} {rep : ReadAhead.Reply} (h : Copied s r rep)
    (htask : SameTask (s.bufs r.buf_idx).toBufArea (t.bufs r.buf_idx).toBufArea)
    (hbuf : (t.bufs r.buf_idx).buf = (s.bufs r.buf_idx).buf) : Copied t r rep := by
  refine ⟨htask.inTask h.1, ?_⟩
  rw [BufArea.sectorAddr_congr htask.sec_bg, hbuf]
  exact h.2

namespace Intact

/-- Calls go on, and may take numbers. -/
theorem of_calls {s t : State} (h : Intact s) (hrequests : t.requests = s.requests)
    (htask : ∀ i, SameTask (s.bufs i).toBufArea (t.bufs i).toBufArea)
    (hbuf : ∀ i, (t.bufs i).buf = (s.bufs i).buf)
    (htab : ∀ i, (t.bufs i).ft_res_tab = (s.bufs i).ft_res_tab)
    (hsmall : ∀ call ∈ t.calls, ∀ file sec_bg sec_max epoch,
      call.pc = .task file sec_bg sec_max epoch → sec_max < 2 ^ 14)
    (hsubmitted : ∀ call ∈ t.calls, ∀ file sec_nr k, call.pc = .store file sec_nr k →
      call ∈ s.calls)
    (hstored : ∀ k, t.storing k = false → s.storing k = true → ∀ r, s.requests[k]? = some r →
      (s.bufs r.buf_idx).ft_res_tab r.sec_nr = some k)
    (hdistinct : (tickets t).Nodup)
    (htickets : ∀ x ∈ tickets t, x ∈ tickets s ∨ x.task = (t.bufs x.buf_idx).task ∧
      (t.bufs x.buf_idx).InTask x.sec_nr ∧ x.sec_nr < (t.bufs x.buf_idx).cur_sec_nr) :
    Intact t where
  sound := fun i => (htask i).sound (h.sound i)
  small := hsmall
  distinct := hdistinct
  task_le := by
    intro x hx
    rcases htickets x hx with hold | hnew
    · exact (h.task_le x hold).trans (htask x.buf_idx).task.ge
    · exact hnew.1.le
  taken_lt := by
    intro x hx heq
    rcases htickets x hx with hold | hnew
    · obtain ⟨hin, hlt⟩ := h.taken_lt x hold (heq.trans (htask x.buf_idx).task)
      exact ⟨(htask x.buf_idx).inTask hin, hlt.trans_le (htask x.buf_idx).cur_sec_nr⟩
    · exact hnew.2
  submitted := by
    intro call hcall file sec_nr k hpc
    rw [hrequests]
    exact h.submitted call (hsubmitted call hcall file sec_nr k hpc) file sec_nr k hpc
  table := by
    intro i sec_nr k hentry
    rw [htab] at hentry
    rw [hrequests, (htask i).task]
    exact h.table i sec_nr k hentry
  stored := by
    intro k r hr hsent heq hnot
    rw [hrequests] at hr
    rw [(htask _).task] at heq
    rw [htab]
    cases hstoring : s.storing k with
    | false => exact h.stored k r hr hsent heq hstoring
    | true => exact hstored k hnot hstoring r hr
  taken := by
    intro k r k' task hr hstage
    rw [hrequests] at hr
    exact h.taken k r k' task hr hstage
  copied := by
    intro k r len task hr hstage
    rw [hrequests] at hr
    obtain ⟨htask_eq, rep, hrep, hlen, hholds⟩ := h.copied k r len task hr hstage
    refine ⟨htask_eq, rep, hrep, hlen, fun heq => ?_⟩
    exact (hholds (heq.trans (htask _).task)).of_sameTask (htask _) (hbuf _)
  replies := by
    intro k r rep hr hrep
    rw [hrequests] at hr
    exact h.replies k r rep hr hrep

/-- Nothing changes but what no number, future or sector depends on. -/
theorem of_same {s t : State} (h : Intact s) (hrequests : t.requests = s.requests)
    (hcalls : t.calls = s.calls)
    (htask : ∀ i, SameTask (s.bufs i).toBufArea (t.bufs i).toBufArea)
    (hbuf : ∀ i, (t.bufs i).buf = (s.bufs i).buf)
    (htab : ∀ i, (t.bufs i).ft_res_tab = (s.bufs i).ft_res_tab) : Intact t := by
  have hsame : tickets t = tickets s := by
    rw [tickets, tickets, hrequests, hcalls]
  refine h.of_calls hrequests htask hbuf htab ?_ ?_ ?_ ?_ ?_
  · rw [hcalls]
    exact h.small
  · rw [hcalls]
    exact fun call hcall _ _ _ _ => hcall
  · intro k hnot hstoring
    rw [State.storing, hcalls] at hnot
    rw [State.storing, hnot] at hstoring
    cases hstoring
  · rw [hsame]
    exact h.distinct
  · rw [hsame]
    exact fun x hx => .inl hx

end Intact

theorem ticket?_of_idle {call : Call} (h : call.pc.idle = true) : call.ticket? = none := by
  unfold Call.ticket?
  cases hpc : call.pc with
  | stamp file sec_nr task => simp [hpc, Pc.idle] at h
  | submit file sec_nr task epoch => simp [hpc, Pc.idle] at h
  | _ => rfl

theorem stores_of_idle {call : Call} (h : call.pc.idle = true) (k : Nat) :
    call.stores k = false := by
  unfold Call.stores
  cases hpc : call.pc with
  | store file sec_nr k' => simp [hpc, Pc.idle] at h
  | _ => rfl

open List in
/-- The numbers change with a call in the one that this call has taken. -/
theorem tickets_setPc {s : State} {c : Nat} {call : Call} (hcall : s.calls[c]? = some call)
    (pc : Pc) : (call.ticket?.toList ++ tickets (s.setPc c call pc)).Perm
      (({ call with pc := pc } : Call).ticket?.toList ++ tickets s) := by
  have hperm := filterMap_set_perm Call.ticket? hcall { call with pc := pc }
  calc call.ticket?.toList ++ tickets (s.setPc c call pc)
    _ ~ s.requests.map Request.ticket ++ (call.ticket?.toList ++
          (s.calls.set c { call with pc := pc }).filterMap Call.ticket?) :=
        List.perm_append_comm_assoc _ _ _
    _ ~ s.requests.map Request.ticket ++ (({ call with pc := pc } : Call).ticket?.toList ++
          s.calls.filterMap Call.ticket?) := hperm.append_left _
    _ ~ ({ call with pc := pc } : Call).ticket?.toList ++ tickets s :=
        List.perm_append_comm_assoc _ _ _

theorem mem_calls_setPc {s : State} {c : Nat} {call call' : Call} {pc : Pc}
    (h : call' ∈ (s.setPc c call pc).calls) : call' ∈ s.calls ∨ call' = { call with pc := pc } :=
  List.mem_or_eq_of_mem_set h

/-- A call that goes on comes to no assignment of a future. -/
theorem mem_calls_of_store {s : State} {c : Nat} {call : Call} {pc : Pc}
    (hstore : ∀ file sec_nr k, pc ≠ .store file sec_nr k) :
    ∀ call' ∈ (s.setPc c call pc).calls, ∀ file sec_nr k, call'.pc = .store file sec_nr k →
      call' ∈ s.calls := by
  intro call' hmem file sec_nr k hpc
  rcases mem_calls_setPc hmem with hold | rfl
  · exact hold
  · exact absurd hpc (hstore file sec_nr k)

/-- A future that is not stored yet, and not by the call that goes on, is not stored then. -/
theorem storing_setPc {s : State} {c : Nat} {call : Call} (hcall : s.calls[c]? = some call)
    {k : Nat} (hnot : call.stores k = false) (pc : Pc) (h : s.storing k = true) :
    (s.setPc c call pc).storing k = true := by
  obtain ⟨call', hmem, hstores⟩ := List.any_eq_true.mp h
  have hne : call' ≠ call := by
    rintro rfl
    rw [hnot] at hstores
    cases hstores
  exact List.any_eq_true.mpr ⟨call', mem_set_of_ne hcall hmem hne _, hstores⟩

namespace Intact

/-- A call that goes on sets no task. -/
theorem small_setPc {s : State} (h : Intact s) {c : Nat} {call : Call} {pc : Pc}
    (htask : ∀ file sec_bg sec_max epoch, pc ≠ .task file sec_bg sec_max epoch) :
    ∀ call' ∈ (s.setPc c call pc).calls, ∀ file sec_bg sec_max epoch,
      call'.pc = .task file sec_bg sec_max epoch → sec_max < 2 ^ 14 := by
  intro call' hmem file sec_bg sec_max epoch hpc
  rcases mem_calls_setPc hmem with hold | rfl
  · exact h.small call' hold file sec_bg sec_max epoch hpc
  · exact absurd hpc (htask file sec_bg sec_max epoch)

/-- A call goes on without taking a number, storing a future or coming to that. -/
theorem setPc {s : State} (h : Intact s) {c : Nat} {call : Call} (hcall : s.calls[c]? = some call)
    {pc : Pc} (hticket : ({ call with pc := pc } : Call).ticket? = call.ticket?)
    (htask : ∀ file sec_bg sec_max epoch, pc ≠ .task file sec_bg sec_max epoch)
    (hstore : ∀ file sec_nr k, pc ≠ .store file sec_nr k)
    (hstored : ∀ k, call.stores k = true → ∀ r, s.requests[k]? = some r →
      (s.bufs r.buf_idx).ft_res_tab r.sec_nr = some k) : Intact (s.setPc c call pc) := by
  have hperm : (tickets (s.setPc c call pc)).Perm (tickets s) := by
    have hall := tickets_setPc hcall pc
    rw [hticket] at hall
    exact (List.perm_append_left_iff _).mp hall
  refine h.of_calls rfl (fun i => .refl _) (fun _ => rfl) (fun _ => rfl) ?_ ?_ ?_ ?_ ?_
  · exact h.small_setPc htask
  · exact mem_calls_of_store hstore
  · intro k hnot hstoring
    cases hstores : call.stores k with
    | true => exact hstored k hstores
    | false =>
        rw [storing_setPc hcall hstores pc hstoring] at hnot
        cases hnot
  · exact hperm.nodup_iff.mpr h.distinct
  · exact fun x hx => .inl (hperm.mem_iff.mp hx)

/-- A call begins. -/
theorem call {s : State} (h : Intact s) {call : Call} (hticket : call.ticket? = none)
    (htask : ∀ file sec_bg sec_max epoch, call.pc = .task file sec_bg sec_max epoch →
      sec_max < 2 ^ 14)
    (hstore : ∀ file sec_nr k, call.pc ≠ .store file sec_nr k) : Intact (s.call call) := by
  have hsame : tickets (s.call call) = tickets s := by
    simp [tickets, State.call, List.filterMap_append, hticket]
  refine h.of_calls rfl (fun i => .refl _) (fun _ => rfl) (fun _ => rfl) ?_ ?_ ?_ ?_ ?_
  · intro call' hmem file sec_bg sec_max epoch hpc
    rcases List.mem_append.mp hmem with hold | hnew
    · exact h.small call' hold file sec_bg sec_max epoch hpc
    · rw [List.mem_singleton] at hnew
      subst hnew
      exact htask file sec_bg sec_max epoch hpc
  · intro call' hmem file sec_nr k hpc
    rcases List.mem_append.mp hmem with hold | hnew
    · exact hold
    · rw [List.mem_singleton] at hnew
      subst hnew
      exact absurd hpc (hstore file sec_nr k)
  · intro k hnot hstoring
    rw [State.storing, State.call, List.any_append, Bool.or_eq_false_iff] at hnot
    rw [State.storing, hnot.1] at hstoring
    cases hstoring
  · rw [hsame]
    exact h.distinct
  · rw [hsame]
    exact fun x hx => .inl hx

/-- A call takes a number. -/
theorem number {s : State} (h : Intact s) {c : Nat} {call : Call} {file : FileName}
    (hcall : s.calls[c]? = some call) (hpc : call.pc = .number file) {b : Buffer}
    (hb : b = s.bufs call.buf_idx) (hmore : b.cur_sec_nr < b.sec_bg + b.max_sec) :
    Intact ((s.setBuf call.buf_idx { b with cur_sec_nr := b.cur_sec_nr + 1 }).setPc c call
      (.stamp file b.cur_sec_nr b.task)) := by
  subst hb
  have hsound := h.sound call.buf_idx
  have hnone : call.ticket? = none := by simp [Call.ticket?, hpc]
  have hperm := tickets_setPc hcall
    (.stamp file (s.bufs call.buf_idx).cur_sec_nr (s.bufs call.buf_idx).task)
  rw [hnone] at hperm
  -- the number is larger than all that were taken in the task
  have hnew : (⟨call.buf_idx, (s.bufs call.buf_idx).task, (s.bufs call.buf_idx).cur_sec_nr⟩ :
      Ticket) ∉ tickets s := fun hmem =>
    Nat.lt_irrefl _ (h.taken_lt _ hmem rfl).2
  refine h.of_calls rfl ?_ ?_ ?_ ?_ ?_ ?_ ?_ ?_
  · refine (Function.forall_update_iff s.bufs fun i b' =>
      SameTask (s.bufs i).toBufArea b'.toBufArea).mpr ⟨?_, fun i _ => .refl _⟩
    exact ⟨rfl, rfl, rfl, Nat.le_succ _⟩
  · exact (Function.forall_update_iff s.bufs fun i b' => b'.buf = (s.bufs i).buf).mpr
      ⟨rfl, fun _ _ => rfl⟩
  · exact (Function.forall_update_iff s.bufs fun i b' =>
      b'.ft_res_tab = (s.bufs i).ft_res_tab).mpr ⟨rfl, fun _ _ => rfl⟩
  · exact h.small_setPc (by simp)
  · exact mem_calls_of_store (by simp)
  · intro k hnot hstoring
    have hstores : call.stores k = false := by simp [Call.stores, hpc]
    have hstill := storing_setPc hcall hstores
      (.stamp file (s.bufs call.buf_idx).cur_sec_nr (s.bufs call.buf_idx).task) hstoring
    exact absurd hstill (Bool.eq_false_iff.mp hnot)
  · exact hperm.nodup_iff.mpr (List.nodup_cons.mpr ⟨hnew, h.distinct⟩)
  · intro x hx
    rcases List.mem_cons.mp (hperm.mem_iff.mp hx) with rfl | hold
    · have hself := setBuf_bufs_self s call.buf_idx { s.bufs call.buf_idx with
        cur_sec_nr := (s.bufs call.buf_idx).cur_sec_nr + 1 }
      right
      dsimp only [State.setPc]
      rw [hself]
      exact ⟨rfl, ⟨hsound.cur_sec_ge, hmore⟩, Nat.lt_succ_self _⟩
    · exact .inl hold

/-- The buffer gets another task. -/
theorem newTask {s : State} (h : Intact s) {i : Fin 2} {b : Buffer}
    (htask : b.task = (s.bufs i).task + 1) (htab : ∀ n, b.ft_res_tab n = none)
    (hsound : b.Sound) : Intact (s.setBuf i b) := by
  have hle : ∀ j, (s.bufs j).task ≤ ((s.setBuf i b).bufs j).task :=
    (Function.forall_update_iff s.bufs fun j b' => (s.bufs j).task ≤ b'.task).mpr
      ⟨htask ▸ Nat.le_succ _, fun _ _ => Nat.le_refl _⟩
  -- what is of a task of its buffer is of the other one
  have hother : ∀ j task, task ≤ (s.bufs j).task → task = ((s.setBuf i b).bufs j).task →
      (s.setBuf i b).bufs j = s.bufs j := by
    intro j task hlast heq
    by_cases hj : j = i
    · subst hj
      rw [setBuf_bufs_self, htask] at heq
      omega
    · exact setBuf_bufs_of_ne hj s b
  exact {
    sound := (Function.forall_update_iff s.bufs fun _ b' => b'.Sound).mpr
      ⟨hsound, fun j _ => h.sound j⟩
    small := h.small
    distinct := h.distinct
    task_le := fun x hx => (h.task_le x hx).trans (hle _)
    taken_lt := by
      intro x hx heq
      have hsame := hother _ _ (h.task_le x hx) heq
      rw [hsame] at heq ⊢
      exact h.taken_lt x hx heq
    submitted := h.submitted
    table := by
      intro j sec_nr k hentry
      by_cases hj : j = i
      · subst hj
        rw [setBuf_bufs_self, htab] at hentry
        cases hentry
      · rw [setBuf_bufs_of_ne hj] at hentry ⊢
        exact h.table j sec_nr k hentry
    stored := by
      intro k r hr hsent heq hnot
      have hsame := hother _ _ (h.request_task_le hr) heq
      rw [hsame] at heq ⊢
      exact h.stored k r hr hsent heq hnot
    taken := h.taken
    copied := by
      intro k r len task hr hstage
      obtain ⟨htask_eq, rep, hrep, hlen, hholds⟩ := h.copied k r len task hr hstage
      refine ⟨htask_eq, rep, hrep, hlen, fun heq => ?_⟩
      have hsame := hother _ _ (htask_eq ▸ h.request_task_le hr) heq
      rw [hsame] at heq
      rw [Copied, hsame]
      exact hholds heq
    replies := h.replies }

/-- A buffer changes on its task, and what callbacks have copied stays. -/
theorem setBuf {s : State} (h : Intact s) {i : Fin 2} {b : Buffer}
    (hsame : SameTask (s.bufs i).toBufArea b.toBufArea)
    (hkept : ∀ (k : Nat) (r : Request) len task rep, s.requests[k]? = some r → r.buf_idx = i →
      r.stage = .copied len task → r.reply = some (some rep) → Copied s r rep →
        r.task = (s.bufs i).task → Copied (s.setBuf i b) r rep)
    (htable : ∀ sec_nr k, b.ft_res_tab sec_nr = some k → ∃ r, s.requests[k]? = some r ∧
      r.ticket = ⟨i, b.task, sec_nr⟩)
    (hstored : ∀ (k : Nat) (r : Request), s.requests[k]? = some r → r.buf_idx = i →
      r.stage = .sent → r.task = b.task → s.storing k = false →
        b.ft_res_tab r.sec_nr = some k) : Intact (s.setBuf i b) := by
  have hall : ∀ j, SameTask (s.bufs j).toBufArea ((s.setBuf i b).bufs j).toBufArea :=
    (Function.forall_update_iff s.bufs fun j b' =>
      SameTask (s.bufs j).toBufArea b'.toBufArea).mpr ⟨hsame, fun _ _ => .refl _⟩
  exact {
    sound := fun j => (hall j).sound (h.sound j)
    small := h.small
    distinct := h.distinct
    task_le := fun x hx => (h.task_le x hx).trans (hall _).task.ge
    taken_lt := by
      intro x hx heq
      obtain ⟨hin, hlt⟩ := h.taken_lt x hx (heq.trans (hall _).task)
      exact ⟨(hall _).inTask hin, hlt.trans_le (hall _).cur_sec_nr⟩
    submitted := h.submitted
    table := by
      intro j sec_nr k hentry
      by_cases hj : j = i
      · subst hj
        rw [setBuf_bufs_self] at hentry ⊢
        exact htable sec_nr k hentry
      · rw [setBuf_bufs_of_ne hj] at hentry ⊢
        exact h.table j sec_nr k hentry
    stored := by
      intro k r hr hsent heq hnot
      by_cases hj : r.buf_idx = i
      · rw [hj, setBuf_bufs_self] at heq ⊢
        exact hstored k r hr hj hsent heq hnot
      · rw [setBuf_bufs_of_ne hj] at heq ⊢
        exact h.stored k r hr hsent heq hnot
    taken := h.taken
    copied := by
      intro k r len task hr hstage
      obtain ⟨htask, rep, hrep, hlen, hholds⟩ := h.copied k r len task hr hstage
      refine ⟨htask, rep, hrep, hlen, fun heq => ?_⟩
      have hheld := hholds (heq.trans (hall _).task)
      by_cases hj : r.buf_idx = i
      · refine hkept k r len task rep hr hj hstage hrep hheld ?_
        rw [← htask, heq, (hall _).task, hj]
      · rw [Copied, setBuf_bufs_of_ne hj]
        exact hheld
    replies := h.replies }

/-- The table of a buffer changes. -/
theorem setTable {s : State} (h : Intact s) {i : Fin 2} {b : Buffer}
    (hsame : SameTask (s.bufs i).toBufArea b.toBufArea) (hbuf : b.buf = (s.bufs i).buf)
    (htable : ∀ sec_nr k, b.ft_res_tab sec_nr = some k → ∃ r, s.requests[k]? = some r ∧
      r.ticket = ⟨i, b.task, sec_nr⟩)
    (hstored : ∀ (k : Nat) (r : Request), s.requests[k]? = some r → r.buf_idx = i →
      r.stage = .sent → r.task = b.task → s.storing k = false →
        b.ft_res_tab r.sec_nr = some k) : Intact (s.setBuf i b) := by
  refine h.setBuf hsame ?_ htable hstored
  rintro k r len task rep - rfl - - hheld -
  refine hheld.of_sameTask ?_ ?_
  · rw [setBuf_bufs_self]
    exact hsame
  · rw [setBuf_bufs_self]
    exact hbuf

/-- A buffer changes in what no number, future or sector depends on. -/
theorem setOther {s : State} (h : Intact s) {i : Fin 2} {b : Buffer}
    (hsame : SameTask (s.bufs i).toBufArea b.toBufArea) (hbuf : b.buf = (s.bufs i).buf)
    (htab : b.ft_res_tab = (s.bufs i).ft_res_tab) : Intact (s.setBuf i b) := by
  refine h.setTable hsame hbuf ?_ ?_
  · intro sec_nr k hentry
    rw [htab] at hentry
    rw [hsame.task]
    exact h.table i sec_nr k hentry
  · rintro k r hr rfl hsent heq hnot
    rw [htab]
    exact h.stored k r hr hsent (heq.trans hsame.task) hnot

/-- The future of a request of the task is stored. -/
theorem store {s : State} (h : Intact s) {i : Fin 2} {sec_nr k : Nat} {r : Request}
    (hr : s.requests[k]? = some r) (hticket : r.ticket = ⟨i, (s.bufs i).task, sec_nr⟩) {b : Buffer}
    (hb : b = s.bufs i) :
    Intact (s.setBuf i { b with
      ft_res_tab := Function.update b.ft_res_tab sec_nr (some k) }) := by
  subst hb
  refine h.setTable ⟨rfl, rfl, rfl, Nat.le_refl _⟩ rfl ?_ ?_
  · intro n k' hentry
    rcases ReadAhead.update_eq_some hentry with ⟨rfl, rfl⟩ | ⟨-, hold⟩
    · exact ⟨r, hr, hticket⟩
    · exact h.table i n k' hold
  · intro k' r' hr' hidx hsent heq hnot
    by_cases hsec : r'.sec_nr = sec_nr
    · have hsame : r'.ticket = r.ticket := by
        rw [hticket, Request.ticket, hidx, heq, hsec]
      rw [h.eq_of_ticket hr hr' hsame, hsec]
      exact Function.update_self _ _ _
    · subst hidx
      exact (Function.update_of_ne hsec _ _).trans (h.stored k' r' hr' hsent heq hnot)

/-- The callback of a request of the task has taken its future out. -/
theorem takeOut {s : State} (h : Intact s) {k : Nat} {r : Request} (hr : s.requests[k]? = some r)
    (hstage : r.stage ≠ .sent) (htask : r.task = (s.bufs r.buf_idx).task) {b : Buffer}
    (hsame : SameTask (s.bufs r.buf_idx).toBufArea b.toBufArea)
    (hbuf : b.buf = (s.bufs r.buf_idx).buf)
    (htab : b.ft_res_tab = Function.update (s.bufs r.buf_idx).ft_res_tab r.sec_nr none) :
    Intact (s.setBuf r.buf_idx b) := by
  refine h.setTable hsame hbuf ?_ ?_
  · intro n k' hentry
    rw [htab] at hentry
    rw [hsame.task]
    by_cases hn : n = r.sec_nr
    · rw [hn, Function.update_self] at hentry
      cases hentry
    · rw [Function.update_of_ne hn] at hentry
      exact h.table r.buf_idx n k' hentry
  · intro k' r' hr' hidx hsent heq hnot
    rw [htab]
    by_cases hsec : r'.sec_nr = r.sec_nr
    · have hticket : r'.ticket = r.ticket := by
        rw [Request.ticket, Request.ticket, hidx, heq, hsame.task, htask, hsec]
      have hk := h.eq_of_ticket hr hr' hticket
      subst hk
      rw [hr, Option.some.injEq] at hr'
      subst hr'
      exact absurd hsent hstage
    · rw [Function.update_of_ne hsec]
      rw [hsame.task, ← hidx] at heq
      rw [← hidx]
      exact h.stored k' r' hr' hsent heq hnot

/-- A request goes on, or is answered. -/
theorem setRequest {s : State} (h : Intact s) {k : Nat} {r : Request}
    (hr : s.requests[k]? = some r) (r' : Request) (hticket : r'.ticket = r.ticket)
    (hsent : r'.stage = .sent → r.stage = .sent)
    (htaken : ∀ k' task, r'.stage = .taken k' task → k' = k ∧ task = r.task)
    (hcopied : ∀ len task, r'.stage = .copied len task → task = r.task ∧
      ∃ rep, r'.reply = some (some rep) ∧ len = rep.bytes.length ∧
        (task = (s.bufs r.buf_idx).task → Copied s r rep))
    (hreplies : ∀ rep, r'.reply = some (some rep) → rep.bytes.length ≤ sectorSize) :
    Intact { s with requests := s.requests.set k r' } := by
  have hidx : r'.buf_idx = r.buf_idx := congrArg Ticket.buf_idx hticket
  have htask : r'.task = r.task := congrArg Ticket.task hticket
  have hsec : r'.sec_nr = r.sec_nr := congrArg Ticket.sec_nr hticket
  have hlt : k < s.requests.length := (List.getElem?_eq_some_iff.mp hr).1
  have hsame : tickets { s with requests := s.requests.set k r' } = tickets s := by
    simp only [tickets, map_set_of_eq Request.ticket hr hticket]
  -- every request is still there with its number
  have hkept : ∀ (j : Nat) (r₀ : Request), s.requests[j]? = some r₀ →
      ∃ r₁ : Request, (s.requests.set k r')[j]? = some r₁ ∧ r₁.ticket = r₀.ticket := by
    intro j r₀ hr₀
    by_cases hj : j = k
    · subst hj
      rw [hr, Option.some.injEq] at hr₀
      subst hr₀
      exact ⟨r', List.getElem?_set_self hlt, hticket⟩
    · exact ⟨r₀, (List.getElem?_set_ne (Ne.symm hj)).trans hr₀, rfl⟩
  exact {
    sound := h.sound
    small := h.small
    distinct := hsame ▸ h.distinct
    task_le := hsame ▸ h.task_le
    taken_lt := hsame ▸ h.taken_lt
    submitted := by
      intro call hcall file sec_nr k' hpc
      obtain ⟨r₀, hr₀, hidx₀, hsec₀⟩ := h.submitted call hcall file sec_nr k' hpc
      obtain ⟨r₁, hr₁, hticket₁⟩ := hkept k' r₀ hr₀
      exact ⟨r₁, hr₁, (congrArg Ticket.buf_idx hticket₁).trans hidx₀,
        (congrArg Ticket.sec_nr hticket₁).trans hsec₀⟩
    table := by
      intro i sec_nr k' hentry
      obtain ⟨r₀, hr₀, hticket₀⟩ := h.table i sec_nr k' hentry
      obtain ⟨r₁, hr₁, hticket₁⟩ := hkept k' r₀ hr₀
      exact ⟨r₁, hr₁, hticket₁.trans hticket₀⟩
    stored := by
      intro j r₁ hr₁ hsent₁ heq hnot
      rcases getElem?_set_cases hr₁ with ⟨rfl, rfl⟩ | ⟨-, hold⟩
      · rw [hidx, htask] at heq
        rw [hidx, hsec]
        exact h.stored j r hr (hsent hsent₁) heq hnot
      · exact h.stored j r₁ hold hsent₁ heq hnot
    taken := by
      intro j r₁ k' task hr₁ hstage
      rcases getElem?_set_cases hr₁ with ⟨rfl, rfl⟩ | ⟨-, hold⟩
      · rw [htask]
        exact htaken k' task hstage
      · exact h.taken j r₁ k' task hold hstage
    copied := by
      intro j r₁ len task hr₁ hstage
      rcases getElem?_set_cases hr₁ with ⟨rfl, rfl⟩ | ⟨-, hold⟩
      · obtain ⟨htask₁, rep, hrep, hlen, hholds⟩ := hcopied len task hstage
        refine ⟨htask₁.trans htask.symm, rep, hrep, hlen, fun heq => ?_⟩
        rw [hidx] at heq
        rw [Copied, hidx, hsec]
        exact hholds heq
      · exact h.copied j r₁ len task hold hstage
    replies := by
      intro j r₁ rep hr₁ hrep
      rcases getElem?_set_cases hr₁ with ⟨rfl, rfl⟩ | ⟨-, hold⟩
      · exact hreplies rep hrep
      · exact h.replies j r₁ rep hold hrep }

/-- A reply is copied on the task of its number, and other copied replies stay. -/
theorem receive {s : State} (h : Intact s) {k : Nat} {r : Request} (hr : s.requests[k]? = some r)
    (hstage : ∀ len task, r.stage ≠ .copied len task)
    (htask : r.task = (s.bufs r.buf_idx).task) {rep : ReadAhead.Reply}
    (hrep : r.reply = some (some rep)) {b : Buffer} (hb : b = s.bufs r.buf_idx) :
    Intact (s.setBuf r.buf_idx { b with
      toBufArea := b.toBufArea.receive r.sec_nr rep.bytes rep.time }) := by
  subst hb
  have hsound := h.sound r.buf_idx
  have hlen := h.replies k r rep hr hrep
  have hin : (s.bufs r.buf_idx).InTask r.sec_nr := (h.taken_lt _ (ticket_mem hr) htask).1
  refine h.setBuf ?_ ?_ ?_ ?_
  · exact ⟨ReadAhead.receive_sec_bg _ _ _ _, ReadAhead.receive_max_sec _ _ _ _,
      ReadAhead.receive_task _ _ _ _, (ReadAhead.receive_cur_sec_nr _ _ _ _).ge⟩
  · intro k' r' len task rep' hr' hidx hcopied hrep' hheld htask'
    have hlen' := h.replies k' r' rep' hr' hrep'
    -- no other request of the task has the sector
    have hne : r'.sec_nr ≠ r.sec_nr := by
      intro hsec
      have hticket : r'.ticket = r.ticket := by
        rw [Request.ticket, Request.ticket, hidx, htask', htask, hsec]
      have hk := h.eq_of_ticket hr hr' hticket
      subst hk
      rw [hr, Option.some.injEq] at hr'
      subst hr'
      exact hstage len task hcopied
    rw [Copied, hidx] at hheld
    obtain ⟨hin', hholds⟩ := hheld
    rw [Copied, hidx, setBuf_bufs_self]
    dsimp only at hholds ⊢
    refine ⟨?_, ?_⟩
    · simpa only [BufArea.InTask, ReadAhead.receive_sec_bg, ReadAhead.receive_max_sec] using hin'
    · rw [BufArea.sectorAddr_congr (ReadAhead.receive_sec_bg _ _ _ _), ReadAhead.receive_buf]
      refine hholds.store ?_
      rcases Nat.lt_or_gt_of_ne hne with hlt | hgt
      · have hapart := hin'.apart hin hsound hlt
        omega
      · have hapart := hin.apart hin' hsound hgt
        omega
  · intro n k' hentry
    rw [ReadAhead.receive_ft_res_tab] at hentry
    rw [ReadAhead.receive_task]
    exact h.table r.buf_idx n k' hentry
  · intro k' r' hr' hidx hsent heq hnot
    rw [ReadAhead.receive_task, ← hidx] at heq
    rw [ReadAhead.receive_ft_res_tab, ← hidx]
    exact h.stored k' r' hr' hsent heq hnot

/-- A request is submitted. -/
theorem submit {s : State} (h : Intact s) {c : Nat} {call : Call} {file : FileName}
    {sec_nr task epoch : Nat} (hcall : s.calls[c]? = some call)
    (hpc : call.pc = .submit file sec_nr task epoch) {r : Request}
    (hr : r = ⟨call.buf_idx, file, sec_nr, epoch, task, none, .sent⟩) :
    Intact { s.setPc c call (.store file sec_nr s.requests.length) with
      requests := s.requests ++ [r] } := by
  have hticket : call.ticket? = some r.ticket := by
    rw [Call.ticket?, hpc, hr, Request.ticket]
  have hsame : (tickets { s.setPc c call (.store file sec_nr s.requests.length) with
      requests := s.requests ++ [r] }).Perm (tickets s) := by
    have hall := tickets_setPc hcall (.store file sec_nr s.requests.length)
    rw [hticket] at hall
    refine List.Perm.trans ?_ hall
    rw [tickets, List.map_append, List.append_assoc]
    exact List.perm_append_comm_assoc _ _ _
  have hlt : c < s.calls.length := (List.getElem?_eq_some_iff.mp hcall).1
  have hold : ∀ (k : Nat) (r₀ : Request), s.requests[k]? = some r₀ →
      (s.requests ++ [r])[k]? = some r₀ := fun k r₀ hr₀ => by
    rw [List.getElem?_append_left (List.getElem?_eq_some_iff.mp hr₀).1, hr₀]
  exact {
    sound := h.sound
    small := h.small_setPc (by simp)
    distinct := hsame.nodup_iff.mpr h.distinct
    task_le := fun x hx => h.task_le x (hsame.mem_iff.mp hx)
    taken_lt := fun x hx => h.taken_lt x (hsame.mem_iff.mp hx)
    submitted := by
      intro call' hmem file' sec_nr' k hpc'
      rcases mem_calls_setPc hmem with hbefore | rfl
      · obtain ⟨r₀, hr₀, hcall₀⟩ := h.submitted call' hbefore file' sec_nr' k hpc'
        exact ⟨r₀, hold k r₀ hr₀, hcall₀⟩
      · cases hpc'
        refine ⟨r, List.getElem?_concat_length, ?_, ?_⟩
        · rw [hr]
        · rw [hr]
    table := by
      intro i n k hentry
      obtain ⟨r₀, hr₀, hticket₀⟩ := h.table i n k hentry
      exact ⟨r₀, hold k r₀ hr₀, hticket₀⟩
    stored := by
      intro k r₀ hr₀ hsent heq hnot
      rcases getElem?_concat_cases hr₀ with hbefore | ⟨rfl, -⟩
      · refine h.stored k r₀ hbefore hsent heq ?_
        by_contra hstoring
        rw [Bool.not_eq_false] at hstoring
        have hstores : call.stores k = false := by simp [Call.stores, hpc]
        have hstill := storing_setPc hcall hstores (.store file sec_nr s.requests.length) hstoring
        exact absurd hstill (Bool.eq_false_iff.mp hnot)
      · have hstoring : ({ s.setPc c call (.store file sec_nr s.requests.length) with
            requests := s.requests ++ [r] } : State).storing s.requests.length = true := by
          refine List.any_eq_true.mpr ⟨_, List.mem_set hlt _, ?_⟩
          exact decide_eq_true rfl
        rw [hstoring] at hnot
        cases hnot
    taken := by
      intro k r₀ k' task' hr₀ hstage
      rcases getElem?_concat_cases hr₀ with hbefore | ⟨rfl, rfl⟩
      · exact h.taken k r₀ k' task' hbefore hstage
      · rw [hr] at hstage
        cases hstage
    copied := by
      intro k r₀ len task' hr₀ hstage
      rcases getElem?_concat_cases hr₀ with hbefore | ⟨rfl, rfl⟩
      · exact h.copied k r₀ len task' hbefore hstage
      · rw [hr] at hstage
        cases hstage
    replies := by
      intro k r₀ rep hr₀ hrep
      rcases getElem?_concat_cases hr₀ with hbefore | ⟨rfl, rfl⟩
      · exact h.replies k r₀ rep hbefore hrep
      · rw [hr] at hrep
        cases hrep }

end Intact

/-- What was just copied is in its sector. -/
theorem copied_receive {s : State} {r : Request} {rep : ReadAhead.Reply}
    (hin : (s.bufs r.buf_idx).InTask r.sec_nr) :
    Copied (s.setBuf r.buf_idx { s.bufs r.buf_idx with
      toBufArea := (s.bufs r.buf_idx).toBufArea.receive r.sec_nr rep.bytes rep.time }) r rep := by
  rw [Copied, setBuf_bufs_self]
  refine ⟨?_, ?_⟩
  · simpa only [BufArea.InTask, ReadAhead.receive_sec_bg, ReadAhead.receive_max_sec] using hin
  · dsimp only
    rw [BufArea.sectorAddr_congr (ReadAhead.receive_sec_bg _ _ _ _), ReadAhead.receive_buf]
    exact StampedMemory.holds_store (Nat.le_refl _)

/-! ### One step -/

namespace Intact

/-- A call with neither a number nor a future in its hands goes on. -/
theorem setPc_idle {s : State} (h : Intact s) {c : Nat} {call : Call}
    (hcall : s.calls[c]? = some call) {pc : Pc} (hbefore : call.pc.idle = true)
    (hafter : pc.idle = true)
    (htask : ∀ file sec_bg sec_max epoch, pc ≠ .task file sec_bg sec_max epoch) :
    Intact (s.setPc c call pc) := by
  have hticket : ({ call with pc := pc } : Call).ticket? = none := ticket?_of_idle hafter
  refine h.setPc hcall (hticket.trans (ticket?_of_idle hbefore).symm) htask ?_ ?_
  · rintro file sec_nr k rfl
    cases hafter
  · intro k hk
    rw [stores_of_idle hbefore] at hk
    cases hk

theorem leave {s : State} (h : Intact s) {c : Nat} {call : Call} (hcall : s.calls[c]? = some call)
    (hbefore : call.pc.idle = true) : Intact (leave s c call) := by
  have hended : Intact (s.setPc c call .ended) := h.setPc_idle hcall hbefore rfl (by simp)
  exact hended.of_same rfl rfl (fun _ => .refl _) (fun _ => rfl) (fun _ => rfl)

theorem lockTask {s : State} (h : Intact s) {c : Nat} {call : Call}
    (hcall : s.calls[c]? = some call) {file : FileName} {sec_bg sec_max epoch : Nat}
    (hpc : call.pc = .task file sec_bg sec_max epoch) :
    Intact (lockTask s c call file sec_bg sec_max epoch) := by
  have hbefore : call.pc.idle = true := by simp [hpc, Pc.idle]
  have hmax := h.small call (List.mem_of_getElem? hcall) file sec_bg sec_max epoch hpc
  unfold ReadAheadThreads.lockTask
  dsimp only
  split_ifs with htask huse hlt
  · exact h.setPc_idle hcall hbefore rfl (by simp)
  · have hcursor : Intact (s.setBuf call.buf_idx { s.bufs call.buf_idx with
        cursor := (s.bufs call.buf_idx).cursor + 1 }) :=
      h.setOther ⟨rfl, rfl, rfl, Nat.le_refl _⟩ rfl rfl
    exact hcursor.setPc_idle hcall hbefore rfl (by simp)
  · exact h.setPc_idle hcall hbefore rfl (by simp)
  · have hnew : Intact (s.setBuf call.buf_idx (.reset
        ((s.bufs call.buf_idx).toBufArea.retask file sec_bg sec_max epoch))) :=
      h.newTask rfl (fun _ => rfl) ⟨hmax, Nat.le_refl _⟩
    have hentered : Intact (State.setPc _ c call .enter) :=
      hnew.setPc_idle hcall hbefore rfl (by simp)
    exact hentered.of_same rfl rfl (fun _ => .refl _) (fun _ => rfl) (fun _ => rfl)

theorem callStep {cfg : Config} {s t : State} (h : Intact s) {c : Nat} {call : Call}
    (hcall : s.calls[c]? = some call) (hordered : CallOrdered s call call.pc)
    (hstep : callStep cfg s c call = some t) : Intact t := by
  unfold ReadAheadThreads.callStep at hstep
  cases hpc : call.pc with
  | task file sec_bg sec_max epoch =>
      simp only [hpc] at hstep
      split_ifs at hstep
      cases hstep
      exact h.lockTask hcall hpc
  | enter =>
      simp only [hpc] at hstep
      cases hstep
      exact h.setPc_idle hcall (by simp [hpc, Pc.idle]) rfl (by simp)
  | check file =>
      simp only [hpc] at hstep
      cases hstep
      have hbefore : call.pc.idle = true := by simp [hpc, Pc.idle]
      split_ifs
      · exact h.setPc_idle hcall hbefore rfl (by simp)
      · exact h.leave hcall hbefore
  | bound file =>
      simp only [hpc] at hstep
      cases hstep
      have hbefore : call.pc.idle = true := by simp [hpc, Pc.idle]
      split_ifs
      · exact h.setPc_idle hcall hbefore rfl (by simp)
      · exact h.leave hcall hbefore
  | reserve file =>
      simp only [hpc] at hstep
      cases hstep
      have hcounted : Intact (s.setBuf call.buf_idx { s.bufs call.buf_idx with
          onlink := incr (s.bufs call.buf_idx).onlink }) :=
        h.setOther ⟨rfl, rfl, rfl, Nat.le_refl _⟩ rfl rfl
      exact hcounted.setPc_idle hcall (by simp [hpc, Pc.idle]) rfl (by simp)
  | number file =>
      simp only [CallOrdered, hpc] at hstep hordered
      cases hstep
      exact h.number hcall hpc rfl hordered
  | stamp file sec_nr task =>
      simp only [hpc] at hstep
      cases hstep
      refine h.setPc hcall ?_ (by simp) (by simp) (by simp [Call.stores, hpc])
      simp only [Call.ticket?, hpc]
  | submit file sec_nr task epoch =>
      simp only [hpc] at hstep
      cases hstep
      exact h.submit hcall hpc rfl
  | store file sec_nr k =>
      simp only [CallOrdered, hpc] at hstep hordered
      cases hstep
      obtain ⟨r, hr, hidx, hsec⟩ :=
        h.submitted call (List.mem_of_getElem? hcall) file sec_nr k hpc
      have hticket : r.ticket = ⟨call.buf_idx, (s.bufs call.buf_idx).task, sec_nr⟩ := by
        rw [Request.ticket, hidx, hsec, hordered r hr]
      refine (h.store hr hticket rfl).setPc hcall ?_ (by simp) (by simp) ?_
      · simp only [Call.ticket?, hpc]
      · intro k' hk' r' hr'
        have hk : k' = k := by
          simpa [Call.stores, hpc, eq_comm] using hk'
        subst hk
        have heq : r' = r := Option.some.inj (hr'.symm.trans hr)
        rw [heq, hidx, hsec, setBuf_bufs_self]
        exact Function.update_self _ _ _
  | ended => simp [hpc] at hstep

/-- A callback goes on and holds neither a future nor a reply any more. -/
theorem setStage_idle {s : State} (h : Intact s) {k : Nat} {r : Request}
    (hr : s.requests[k]? = some r) {stage : Stage} (hsent : stage ≠ .sent)
    (htaken : ∀ k' task, stage ≠ .taken k' task) (hcopied : ∀ len task, stage ≠ .copied len task) :
    Intact (s.setStage k r stage) :=
  h.setRequest hr { r with stage := stage } rfl (fun heq => absurd heq hsent)
    (fun k' task heq => absurd heq (htaken k' task))
    (fun len task heq => absurd heq (hcopied len task)) (h.replies k r · hr)

theorem check {s : State} (h : Intact s) {k : Nat} {r : Request} (hr : s.requests[k]? = some r)
    (hordered : CallbackOrdered s k r .sent) : Intact (check s k r) := by
  unfold ReadAheadThreads.check
  dsimp only
  split_ifs with hcurrent
  · exact h.setStage_idle hr (by simp) (by simp) (by simp)
  · rw [not_not] at hcurrent
    obtain ⟨htask, -⟩ := hordered hcurrent.symm
    cases htab : (s.bufs r.buf_idx).ft_res_tab r.sec_nr with
    | none =>
        dsimp only
        have hcounted : Intact (s.setBuf r.buf_idx { s.bufs r.buf_idx with
            onlink := decr (s.bufs r.buf_idx).onlink }) :=
          h.setOther ⟨rfl, rfl, rfl, Nat.le_refl _⟩ rfl rfl
        exact hcounted.setStage_idle hr (by simp) (by simp) (by simp)
    | some k' =>
        dsimp only
        have hk := h.own_future hr htask htab
        have htaken : Intact (s.setStage k r (.taken k' (s.bufs r.buf_idx).task)) := by
          refine h.setRequest hr { r with stage := .taken k' (s.bufs r.buf_idx).task } rfl
            (fun heq => by cases heq) ?_ (fun _ _ heq => by cases heq) (h.replies k r · hr)
          intro k'' task heq
          cases heq
          exact ⟨hk, htask.symm⟩
        -- the future is out of the table when the callback holds it
        have hlt : k < s.requests.length := (List.getElem?_eq_some_iff.mp hr).1
        exact htaken.takeOut (r := { r with stage := .taken k' (s.bufs r.buf_idx).task })
          (List.getElem?_set_self hlt) (by simp) htask ⟨rfl, rfl, rfl, Nat.le_refl _⟩ rfl rfl

theorem copy {s : State} (h : Intact s) {k k' task : Nat} {r : Request}
    (hr : s.requests[k]? = some r) (hstage : r.stage = .taken k' task)
    (hordered : CallbackOrdered s k r (.taken k' task)) : Intact (copy s k r k' task) := by
  obtain ⟨rfl, htask⟩ := h.taken k r k' task hr hstage
  rw [ReadAheadThreads.copy, hr, Option.bind_some]
  cases hrep : r.reply with
  | none => exact h.setStage_idle hr (by simp) (by simp) (by simp)
  | some answer =>
      cases answer with
      | none => exact h.setStage_idle hr (by simp) (by simp) (by simp)
      | some rep =>
          dsimp only
          have hsame : r.task = (s.bufs r.buf_idx).task := by
            rw [← htask]
            exact hordered (by simp [hrep])
          have hin : (s.bufs r.buf_idx).InTask r.sec_nr := (h.taken_lt _ (ticket_mem hr) hsame).1
          have hreceived := h.receive hr (by simp [hstage]) hsame hrep rfl
          refine hreceived.setRequest hr { r with stage := .copied rep.bytes.length task } rfl
            (fun heq => by cases heq) (fun _ _ heq => by cases heq) ?_ (h.replies k' r · hr)
          intro len task' heq
          cases heq
          exact ⟨htask, rep, hrep, rfl, fun _ => copied_receive hin⟩

theorem mark {s : State} (h : Intact s) {k : Nat} {r : Request} (hr : s.requests[k]? = some r)
    (len : Nat) : Intact (mark s k r len) := by
  have hbuf := h.setOther (i := r.buf_idx) (b := { s.bufs r.buf_idx with
    sec_bufferd := Function.update (s.bufs r.buf_idx).sec_bufferd r.sec_nr (some len)
    prom_waiting_tab := Function.update (s.bufs r.buf_idx).prom_waiting_tab r.sec_nr none })
    ⟨rfl, rfl, rfl, Nat.le_refl _⟩ rfl rfl
  have hmarked : Intact (State.setStage _ k r (.marked len)) :=
    hbuf.setStage_idle hr (by simp) (by simp) (by simp)
  unfold ReadAheadThreads.mark
  dsimp only
  cases (s.bufs r.buf_idx).prom_waiting_tab r.sec_nr with
  | none => exact hmarked
  | some p => exact hmarked.of_same rfl rfl (fun _ => .refl _) (fun _ => rfl) (fun _ => rfl)

theorem setTask {s : State} (h : Intact s) (owner : Option Nat) (file : FileName) (i : Fin 2)
    (sec_bg : Nat) {sec_max : Nat} (hmax : sec_max < 2 ^ 14) (epoch : Option Nat) :
    Intact (setTask s owner file i sec_bg sec_max epoch) := by
  cases epoch with
  | none =>
      refine h.call rfl ?_ (by simp)
      intro file' sec_bg' sec_max' epoch' hpc
      cases hpc
      exact hmax
  | some epoch =>
      simp only [ReadAheadThreads.setTask]
      split_ifs
      · exact h
      · refine h.call rfl ?_ (by simp)
        intro file' sec_bg' sec_max' epoch' hpc
        cases hpc
        exact hmax

theorem next {s : State} (h : Intact s) {k : Nat} {r : Request} (hr : s.requests[k]? = some r) :
    Intact (next s k r) := by
  have hdone : Intact (s.setStage k r .done) :=
    h.setStage_idle hr (by simp) (by simp) (by simp)
  unfold ReadAheadThreads.next
  dsimp only
  split_ifs
  · exact hdone.setTask _ _ _ _ (h.sound r.buf_idx).max_sec_lt _
  · exact hdone.call rfl (by simp) (by simp)
  · exact hdone.call rfl (by simp) (by simp)

theorem callbackStep {cfg : Config} {s t : State} (h : Intact s) {k : Nat} {r : Request}
    (hr : s.requests[k]? = some r) (hordered : CallbackOrdered s k r r.stage)
    (hstep : callbackStep cfg s k r = some t) : Intact t := by
  unfold ReadAheadThreads.callbackStep at hstep
  cases hstage : r.stage with
  | sent =>
      simp only [hstage] at hstep hordered
      split_ifs at hstep
      cases hstep
      exact h.check hr hordered
  | taken k' task =>
      simp only [hstage] at hstep hordered
      cases hstep
      exact h.copy hr hstage hordered
  | copied len task =>
      simp only [hstage] at hstep
      split_ifs at hstep
      cases hstep
      exact h.mark hr len
  | marked len =>
      simp only [hstage] at hstep
      cases hstep
      split_ifs
      · exact h.setStage_idle hr (by simp) (by simp) (by simp)
      · exact h.setStage_idle hr (by simp) (by simp) (by simp)
  | room =>
      simp only [hstage] at hstep
      cases hstep
      exact h.next hr
  | done => simp [hstage] at hstep

theorem clear {s : State} (h : Intact s) (i : Fin 2) (to_epoch : Nat) :
    Intact (clear s i to_epoch) := by
  have hwoken : Intact (s.wakeAll i) :=
    h.of_same rfl rfl (fun _ => .refl _) (fun _ => rfl) (fun _ => rfl)
  exact hwoken.newTask rfl (fun _ => rfl) ⟨Nat.two_pow_pos 14, Nat.le_refl 0⟩

theorem clearStep {s t : State} (h : Intact s) {n : Nat} {stage : ClearStage}
    (hstep : ClearStepped s n stage t) : Intact t := by
  cases hstep with
  | named =>
      have hcounted : Intact (s.setBuf 0 { s.bufs 0 with epoch := (s.bufs 0).epoch + 1 }) :=
        h.setOther ⟨rfl, rfl, rfl, Nat.le_refl _⟩ rfl rfl
      exact hcounted.of_same rfl rfl (fun _ => .refl _) (fun _ => rfl) (fun _ => rfl)
  | first to_epoch epochs _ =>
      exact (h.clear 0 to_epoch).of_same rfl rfl (fun _ => .refl _) (fun _ => rfl) (fun _ => rfl)
  | second to_epoch epochs _ =>
      exact (h.clear 1 to_epoch).of_same rfl rfl (fun _ => .refl _) (fun _ => rfl) (fun _ => rfl)

theorem serve {s : State} (h : Intact s) {k : Nat} {r : Request} (hr : s.requests[k]? = some r)
    {reply : Option ReadAhead.Reply} (hnone : r.reply = none)
    (hlen : ∀ rep ∈ reply, rep.bytes.length ≤ sectorSize) :
    Intact { s with requests := s.requests.set k { r with reply := some reply } } := by
  refine h.setRequest hr { r with reply := some reply } rfl id (h.taken k r · · hr) ?_ ?_
  · intro len task hstage
    obtain ⟨-, rep, hrep, -⟩ := h.copied k r len task hr hstage
    rw [hnone] at hrep
    cases hrep
  · intro rep hrep
    cases hrep
    exact hlen rep rfl

theorem wait {s : State} (h : Intact s) (i : Fin 2) (sec_nr : Nat) : Intact (wait s i sec_nr) := by
  unfold ReadAheadThreads.wait
  dsimp only
  split
  · have hbuf := h.setOther (i := i) (b := { s.bufs i with
      ft_waiting_tab := Function.update (s.bufs i).ft_waiting_tab sec_nr (some s.waiters.length)
      prom_waiting_tab :=
        Function.update (s.bufs i).prom_waiting_tab sec_nr (some s.waiters.length) })
      ⟨rfl, rfl, rfl, Nat.le_refl _⟩ rfl rfl
    exact hbuf.of_same rfl rfl (fun _ => .refl _) (fun _ => rfl) (fun _ => rfl)
  · exact h.of_same rfl rfl (fun _ => .refl _) (fun _ => rfl) (fun _ => rfl)

theorem wakeUp {s : State} (h : Intact s) (p : Nat) (w : Waiter) : Intact (wakeUp s p w) := by
  unfold ReadAheadThreads.wakeUp
  dsimp only
  split
  · exact h.of_same rfl rfl (fun _ => .refl _) (fun _ => rfl) (fun _ => rfl)
  · have hbuf := h.setOther (i := w.buf_idx) (b := { s.bufs w.buf_idx with
      ft_waiting_tab := Function.update (s.bufs w.buf_idx).ft_waiting_tab w.sec_nr none
      prom_waiting_tab := Function.update (s.bufs w.buf_idx).prom_waiting_tab w.sec_nr none })
      ⟨rfl, rfl, rfl, Nat.le_refl _⟩ rfl rfl
    exact hbuf.of_same rfl rfl (fun _ => .refl _) (fun _ => rfl) (fun _ => rfl)

/-- One step keeps numbers, futures and copied replies in order. -/
theorem step {cfg : Config} {s t : State} {a : Act} (h : Intact s) (hordered : Ordered s a)
    (hstep : step cfg s a = some t) : Intact t := by
  cases stepped_of_step hstep with
  | setTask file i sec_bg epoch => exact h.setTask none file i sec_bg cfg.readahead_lt epoch
  | call c call _ hcall hcallStep => exact h.callStep hcall (hordered call hcall) hcallStep
  | serve k reply r hr hnone hlen => exact h.serve hr hnone hlen
  | callback k r _ hr hcallback => exact h.callbackStep hr (hordered r hr) hcallback
  | clear filepath => exact h.of_same rfl rfl (fun _ => .refl _) (fun _ => rfl) (fun _ => rfl)
  | clearStep n stage _ _ hclear => exact h.clearStep hclear
  | wait i sec_nr _ => exact h.wait i sec_nr
  | wakeUp p w _ _ _ => exact h.wakeUp p w

end Intact

end Gvds.ReadAheadThreads
