/-
Module: Gvds.Proofs.ReplicaDelivery
Layer: Proofs
Purpose: What becomes of the requests that submit_replicated_request accepts. The queue, its swaps
  and the final flush lose nothing and keep the order; each center that a request names gets one
  Submit RPC for it. So every accepted request is held or applied exactly once unless an RPC is
  lost, for which there is no second attempt.
Imports: Gvds.Lib.Machine, Gvds.IoProxy.ReplicaQueue
Trusted boundary: as Gvds.IoProxy.ReplicaQueue
Main exports: Delivered, Addressed, Accounted, accounted_step,
  requests_delivered_iff, lost_request
-/
import Gvds.Lib.Machine
import Gvds.IoProxy.ReplicaQueue

namespace Gvds.ReplicaQueue

/-! ### Where the requests are -/

/-- The rest of the flusher's local queue. -/
def Flusher.batch : Flusher → List Item
  | .sending t _ => t
  | .submitting _ _ t _ => t
  | .loop => []
  | .waiting => []
  | .swapping _ => []
  | .ended => []
  | .crashed => []

/-- The request that the flusher is sending, with the rest of its centers. -/
def Flusher.current : Flusher → Option (Item × List UInt8)
  | .submitting r cids _ _ => some (r, cids)
  | .sending _ _ => none
  | .loop => none
  | .waiting => none
  | .swapping _ => none
  | .ended => none
  | .crashed => none

/-- The requests that are queued, in the local queue or the shared one. -/
def queued (s : State) : List Item := s.flusher.batch ++ s.m_new

/-- How often a request that is being sent is still to be sent to center `c`. -/
def turns (current : Option (Item × List UInt8)) (k : Nat) (c : UInt8) : Nat :=
  current.elim 0 fun p => if p.1.index = k then p.2.count c else 0

/-- How often request `k` is still to be sent to center `c`. -/
def due (s : State) (k : Nat) (c : UInt8) : Nat :=
  ((queued s).map Item.index).count k + turns s.flusher.current k c

/-- Request `k` is held for center `c`: it is queued, or being sent and the center's turn is to
come. -/
def Held (s : State) (k : Nat) (c : UInt8) : Prop :=
  k ∈ (queued s).map Item.index ∨
    ∃ r cids, s.flusher.current = some (r, cids) ∧ r.index = k ∧ c ∈ cids

/-- Every accepted request but the manager's own attributes is, for each center in its list but the
local one, held and not yet applied, or applied once and no longer held; and each center has
received the requests in the order in which they were queued. -/
def Delivered (cfg : Config) (s : State) : Prop :=
  (∀ k r, s.accepted[k]? = some r → ownAttribute r = false → ∀ c ∈ r.extra, c ≠ cfg.mcid →
    (Held s k c ∧ (s.received c.toUInt32).count k = 0) ∨
      (¬ Held s k c ∧ (s.received c.toUInt32).count k = 1)) ∧
  ∀ id, (s.received id).Pairwise (· ≤ ·)

/-- The id of a center is its number, and its IO proxy is known unless it is the local one. -/
def Known (cfg : Config) (c : UInt8) : Prop :=
  toId c = c.toUInt32 ∧ (c = cfg.mcid ∨ cfg.ioproxys c.toUInt32 = true)

/-- A request names no other center twice, and only centers that are known. -/
def WellAddressed (cfg : Config) (r : OpRequest) : Prop :=
  (r.extra.filter fun c => c ≠ cfg.mcid).Nodup ∧ ∀ c ∈ r.extra, Known cfg c

/-- The requests that are submitted are well addressed. -/
def Addressed (cfg : Config) (_ : State) : Act → Prop
  | .submit r => WellAddressed cfg r
  | .wakeUp _ => True
  | .stop => True
  | .flush _ => True

/-! ### The invariant -/

/-- How often request `k` was or will be sent to center `c`. -/
def account (s : State) (k : Nat) (c : UInt8) : Nat :=
  (s.received c.toUInt32).count k + s.lost.count (k, c.toUInt32) + due s k c

/-- The requests are well addressed; queued ones are accepted ones in their order, behind the one
that is being sent; the centers have received what comes before these, in order; a lost RPC is one
for an accepted request and a center it names; and every accepted request has one RPC for each
center. -/
structure Accounted (cfg : Config) (s : State) : Prop where
  waiting : ∀ r ∈ s.waiters, WellAddressed cfg r
  addressed : ∀ r ∈ s.accepted, WellAddressed cfg r
  items : ∀ it ∈ queued s, s.accepted[it.index]? = some it.request
  current : ∀ r cids, s.flusher.current = some (r, cids) →
    s.accepted[r.index]? = some r.request ∧ ownAttribute r.request = false ∧ cids <:+ r.request.extra ∧
      ∀ it ∈ queued s, r.index < it.index
  order : ((queued s).map Item.index).Pairwise (· < ·)
  received_lt : ∀ id, ∀ j ∈ s.received id, j < s.accepted.length ∧ (∀ it ∈ queued s, j < it.index) ∧
    ∀ r cids, s.flusher.current = some (r, cids) → j ≤ r.index
  sorted : ∀ id, (s.received id).Pairwise (· ≤ ·)
  lost_named : ∀ p ∈ s.lost, ∃ r, s.accepted[p.1]? = some r ∧ ownAttribute r = false ∧
    ∃ c ∈ r.extra, c ≠ cfg.mcid ∧ p.2 = c.toUInt32
  balanced : ∀ k r, s.accepted[k]? = some r → ownAttribute r = false → ∀ c ∈ r.extra, c ≠ cfg.mcid →
    account s k c = 1

theorem accounted_start (cfg : Config) : Accounted cfg start := by
  constructor <;> simp [start, queued, Flusher.batch, Flusher.current]

/-- The steps that leave the requests where they are. -/
theorem Accounted.of_same {cfg : Config} {s t : State} (h : Accounted cfg s)
    (hwaiters : ∀ r ∈ t.waiters, WellAddressed cfg r) (hqueued : queued t = queued s)
    (hcurrent : t.flusher.current = s.flusher.current) (haccepted : t.accepted = s.accepted)
    (hreceived : t.received = s.received) (hlost : t.lost = s.lost) : Accounted cfg t where
  waiting := hwaiters
  addressed := by
    rw [haccepted]
    exact h.addressed
  items := by
    rw [haccepted, hqueued]
    exact h.items
  current := by
    rw [haccepted, hqueued, hcurrent]
    exact h.current
  order := by
    rw [hqueued]
    exact h.order
  received_lt := by
    rw [haccepted, hqueued, hcurrent, hreceived]
    exact h.received_lt
  sorted := by
    rw [hreceived]
    exact h.sorted
  lost_named := by
    rw [haccepted, hlost]
    exact h.lost_named
  balanced := by
    unfold account due
    rw [haccepted, hqueued, hcurrent, hreceived, hlost]
    exact h.balanced

theorem queued_push (s : State) (r : OpRequest) :
    queued (push s r) = queued s ++ [⟨s.accepted.length, r⟩] := by
  simp only [queued, push, List.append_assoc]

/-- A new request is due once for its own number. -/
theorem account_push (s : State) (r : OpRequest) (k : Nat) (c : UInt8) :
    account (push s r) k c = account s k c + [s.accepted.length].count k := by
  have hcount : ((queued (push s r)).map Item.index).count k =
      ((queued s).map Item.index).count k + [s.accepted.length].count k := by
    rw [queued_push, List.map_append, List.count_append]
    rfl
  unfold account due
  rw [hcount]
  simp only [push]
  omega

/-- Nothing is on account for the number that the next request gets. -/
theorem Accounted.account_next {cfg : Config} {s : State} (h : Accounted cfg s) (c : UInt8) :
    account s s.accepted.length c = 0 := by
  have hlt : ∀ {k : Nat} {q : OpRequest}, s.accepted[k]? = some q → k < s.accepted.length :=
    fun hk => (List.getElem?_eq_some_iff.mp hk).1
  have hreceived : (s.received c.toUInt32).count s.accepted.length = 0 :=
    List.count_eq_zero.mpr fun hmem => Nat.lt_irrefl _ (h.received_lt _ _ hmem).1
  have hlost : s.lost.count (s.accepted.length, c.toUInt32) = 0 :=
    List.count_eq_zero.mpr fun hmem => by
      obtain ⟨q', hq', -⟩ := h.lost_named _ hmem
      exact Nat.lt_irrefl _ (hlt hq')
  have hinqueue : ((queued s).map Item.index).count s.accepted.length = 0 :=
    List.count_eq_zero.mpr fun hmem => by
      obtain ⟨it, hit, heq⟩ := List.mem_map.mp hmem
      exact Nat.lt_irrefl _ (heq ▸ hlt (h.items it hit))
  have hturns : turns s.flusher.current s.accepted.length c = 0 := by
    cases hcurrent : s.flusher.current with
    | none => rfl
    | some p =>
        have hp := hlt (h.current p.1 p.2 hcurrent).1
        exact if_neg (Nat.ne_of_lt hp)
  rw [account, due, hreceived, hlost, hinqueue, hturns]

/-- A new request is accepted behind all others. -/
theorem Accounted.push {cfg : Config} {s : State} (h : Accounted cfg s) {r : OpRequest}
    (hr : WellAddressed cfg r) : Accounted cfg (push s r) := by
  have hqueued := queued_push s r
  have hlt : ∀ {k : Nat} {q : OpRequest}, s.accepted[k]? = some q → k < s.accepted.length :=
    fun hk => (List.getElem?_eq_some_iff.mp hk).1
  have hkept : ∀ {k : Nat} {q : OpRequest}, s.accepted[k]? = some q →
      (s.accepted ++ [r])[k]? = some q := fun hk => by
    rw [List.getElem?_append_left (hlt hk), hk]
  have hitems : ∀ it ∈ queued s, it.index < s.accepted.length := fun it hit => hlt (h.items it hit)
  refine ⟨h.waiting, ?_, ?_, ?_, ?_, ?_, h.sorted, ?_, ?_⟩
  · intro q hq
    rcases List.mem_append.mp hq with hold | hnew
    · exact h.addressed q hold
    · rw [List.mem_singleton.mp hnew]
      exact hr
  · rw [hqueued]
    intro it hit
    rcases List.mem_append.mp hit with hold | hnew
    · exact hkept (h.items it hold)
    · rw [List.mem_singleton.mp hnew]
      exact List.getElem?_concat_length
  · intro q cids hcurrent
    obtain ⟨hq, hown, hsuffix, hbefore⟩ := h.current q cids hcurrent
    refine ⟨hkept hq, hown, hsuffix, ?_⟩
    rw [hqueued]
    intro it hit
    rcases List.mem_append.mp hit with hold | hnew
    · exact hbefore it hold
    · rw [List.mem_singleton.mp hnew]
      exact hlt hq
  · rw [hqueued, List.map_append, List.pairwise_append]
    refine ⟨h.order, List.pairwise_singleton _ _, fun i hi j hj => ?_⟩
    obtain ⟨it, hit, rfl⟩ := List.mem_map.mp hi
    rw [List.map_singleton, List.mem_singleton] at hj
    rw [hj]
    exact hitems it hit
  · intro id j hj
    obtain ⟨hlen, hbefore, hcurrent⟩ := h.received_lt id j hj
    refine ⟨?_, ?_, hcurrent⟩
    · simp only [ReplicaQueue.push, List.length_append, List.length_singleton]
      omega
    · rw [hqueued]
      intro it hit
      rcases List.mem_append.mp hit with hold | hnew
      · exact hbefore it hold
      · rw [List.mem_singleton.mp hnew]
        exact hlen
  · intro p hp
    obtain ⟨q, hq, hnamed⟩ := h.lost_named p hp
    exact ⟨q, hkept hq, hnamed⟩
  · intro k q hq hown c hc hother
    rw [account_push]
    by_cases hk : k < s.accepted.length
    · have hold : s.accepted[k]? = some q := by
        rw [← hq]
        exact (List.getElem?_append_left hk).symm
      rw [h.balanced k q hold hown c hc hother, List.count_singleton, if_neg]
      simpa using (Nat.ne_of_lt hk).symm
    · -- the new request: nothing was sent for its number
      have hkeq : k = s.accepted.length := by
        have hlen := (List.getElem?_eq_some_iff.mp hq).1
        simp only [ReplicaQueue.push, List.length_append, List.length_singleton] at hlen
        omega
      subst hkeq
      rw [h.account_next, List.count_singleton, if_pos (by simp)]

/-- A well-addressed request names each of its other centers once. -/
theorem count_extra {cfg : Config} {r : OpRequest} (h : WellAddressed cfg r) {c : UInt8}
    (hc : c ∈ r.extra) (hother : c ≠ cfg.mcid) : r.extra.count c = 1 := by
  have hkeep : decide (c ≠ cfg.mcid) = true := decide_eq_true hother
  rw [← List.count_filter (p := fun c => decide (c ≠ cfg.mcid)) hkeep]
  exact List.count_eq_one_of_mem h.1 (List.mem_filter.mpr ⟨hc, hkeep⟩)

/-! ### The flusher thread -/

/-- `_flush` skips exactly the manager's own attributes. -/
theorem rewrite_isNone (mcid : UInt8) (r : OpRequest) :
    (rewrite mcid r).isNone = ownAttribute r := by
  unfold rewrite
  split
  next hwrite => simp [ownAttribute, hwrite]
  next => split <;> simp_all

/-- A request of the manager's own attributes is dropped from the local queue. -/
theorem Accounted.skip {cfg : Config} {s : State} (h : Accounted cfg s) {it : Item} {t : List Item}
    {final : Bool} (hflusher : s.flusher = .sending (it :: t) final)
    (hown : ownAttribute it.request = true) :
    Accounted cfg { s with flusher := .sending t final } := by
  have hqueued : queued s = it :: (t ++ s.m_new) := by
    rw [queued, hflusher]
    rfl
  have hsub : ∀ x ∈ t ++ s.m_new, x ∈ queued s := fun x hx => by
    rw [hqueued]
    exact List.mem_cons_of_mem it hx
  have hnone : s.flusher.current = none := by
    rw [hflusher]
    rfl
  have horder := h.order
  rw [hqueued, List.map_cons, List.pairwise_cons] at horder
  refine { h with
    items := fun x hx => h.items x (hsub x hx)
    current := fun r cids hcurrent => by cases hcurrent
    order := horder.2
    received_lt := fun id j hj => ?_
    balanced := fun k r hr hk c hc hother => ?_ }
  · obtain ⟨hlen, hbefore, -⟩ := h.received_lt id j hj
    exact ⟨hlen, fun x hx => hbefore x (hsub x hx), fun r cids hcurrent => by cases hcurrent⟩
  · have hbalanced := h.balanced k r hr hk c hc hother
    have hne : it.index ≠ k := by
      rintro rfl
      have hitem := h.items it (by rw [hqueued]; exact List.mem_cons_self)
      rw [hr] at hitem
      cases hitem
      rw [hown] at hk
      cases hk
    rw [account, due, hqueued, hnone, List.map_cons, List.count_cons_of_ne hne] at hbalanced
    exact hbalanced

/-- A request moves from the head of the local queue to the RPCs. -/
theorem Accounted.take {cfg : Config} {s : State} (h : Accounted cfg s) {it : Item} {t : List Item}
    {final : Bool} (hflusher : s.flusher = .sending (it :: t) final)
    (hown : ownAttribute it.request = false) :
    Accounted cfg { s with flusher := .submitting it it.request.extra t final } := by
  have hqueued : queued s = it :: (t ++ s.m_new) := by
    rw [queued, hflusher]
    rfl
  have hmem : it ∈ queued s := by
    rw [hqueued]
    exact List.mem_cons_self
  have hsub : ∀ x ∈ t ++ s.m_new, x ∈ queued s := fun x hx => by
    rw [hqueued]
    exact List.mem_cons_of_mem it hx
  have hnone : s.flusher.current = none := by
    rw [hflusher]
    rfl
  have horder := h.order
  rw [hqueued, List.map_cons, List.pairwise_cons] at horder
  have hbehind : ∀ x ∈ t ++ s.m_new, it.index < x.index :=
    fun x hx => horder.1 _ (List.mem_map_of_mem hx)
  refine { h with
    items := fun x hx => h.items x (hsub x hx)
    current := fun r cids hcurrent => ?_
    order := horder.2
    received_lt := fun id j hj => ?_
    balanced := fun k r hr hk c hc hother => ?_ }
  · cases hcurrent
    exact ⟨h.items it hmem, hown, List.suffix_rfl, hbehind⟩
  · obtain ⟨hlen, hbefore, -⟩ := h.received_lt id j hj
    refine ⟨hlen, fun x hx => hbefore x (hsub x hx), fun r cids hcurrent => ?_⟩
    cases hcurrent
    exact (hbefore it hmem).le
  · have hbalanced := h.balanced k r hr hk c hc hother
    rw [account, due, hqueued, hnone, List.map_cons, List.count_cons] at hbalanced
    have hturns : turns (some (it, it.request.extra)) k c = if it.index == k then 1 else 0 := by
      by_cases heq : it.index = k
      · subst heq
        have hitem := h.items it hmem
        rw [hr] at hitem
        cases hitem
        simp [turns, count_extra (h.addressed _ (List.mem_of_getElem? hr)) hc hother]
      · simp [turns, heq]
    have hzero : turns none k c = 0 := rfl
    rw [hzero] at hbalanced
    change _ + _ + (((t ++ s.m_new).map Item.index).count k +
      turns (some (it, it.request.extra)) k c) = 1
    rw [hturns]
    omega

/-- The RPCs of a request are done. -/
theorem Accounted.done {cfg : Config} {s : State} (h : Accounted cfg s) {it : Item} {t : List Item}
    {final : Bool} (hflusher : s.flusher = .submitting it [] t final) :
    Accounted cfg { s with flusher := .sending t final } := by
  have hqueued : queued s = t ++ s.m_new := by
    rw [queued, hflusher]
    rfl
  have hitems := h.items
  have horder := h.order
  have hreceived := h.received_lt
  rw [hqueued] at hitems horder hreceived
  refine { h with
    items := hitems
    current := fun r cids hcurrent => by cases hcurrent
    order := horder
    received_lt := fun id j hj => ?_
    balanced := fun k r hr hk c hc hother => ?_ }
  · obtain ⟨hlen, hbefore, -⟩ := hreceived id j hj
    exact ⟨hlen, hbefore, fun r cids hcurrent => by cases hcurrent⟩
  · have hbalanced := h.balanced k r hr hk c hc hother
    have hturns : turns (some (it, [])) k c = 0 := by simp [turns]
    rw [account, due, hqueued, hflusher] at hbalanced
    simp only [Flusher.current, hturns] at hbalanced
    exact hbalanced

/-- What a state with one center less to go, and one RPC more or not, has to keep. -/
theorem Accounted.next {cfg : Config} {s t : State} (h : Accounted cfg s) {it : Item} {c₀ : UInt8}
    {cids : List UInt8} {batch : List Item} {final : Bool}
    (hflusher : s.flusher = .submitting it (c₀ :: cids) batch final)
    (hnext : t.flusher = .submitting it cids batch final) (hwaiters : t.waiters = s.waiters)
    (hm_new : t.m_new = s.m_new) (haccepted : t.accepted = s.accepted)
    (hreceived : ∀ id, t.received id = s.received id ∨ t.received id = s.received id ++ [it.index])
    (hlost : t.lost = s.lost ∨ (c₀ ≠ cfg.mcid ∧ t.lost = s.lost ++ [(it.index, c₀.toUInt32)]))
    (hbalanced : ∀ k c, c ≠ cfg.mcid → account t k c = account s k c) : Accounted cfg t := by
  have hcurrent : s.flusher.current = some (it, c₀ :: cids) := by
    rw [hflusher]
    rfl
  have hcurrent' : t.flusher.current = some (it, cids) := by
    rw [hnext]
    rfl
  have hqueued : queued t = queued s := by
    rw [queued, queued, hnext, hflusher, hm_new]
    rfl
  obtain ⟨hitem, hown, hsuffix, hbehind⟩ := h.current it (c₀ :: cids) hcurrent
  have hsuffix' : cids <:+ it.request.extra := (List.suffix_cons c₀ cids).trans hsuffix
  have hc₀ : c₀ ∈ it.request.extra := hsuffix.subset List.mem_cons_self
  have hlt : it.index < s.accepted.length := (List.getElem?_eq_some_iff.mp hitem).1
  refine ⟨by rw [hwaiters]; exact h.waiting, by rw [haccepted]; exact h.addressed, ?_, ?_, ?_, ?_, ?_,
    ?_, ?_⟩
  · rw [hqueued, haccepted]
    exact h.items
  · intro r cids' hr
    rw [hcurrent'] at hr
    cases hr
    rw [hqueued, haccepted]
    exact ⟨hitem, hown, hsuffix', hbehind⟩
  · rw [hqueued]
    exact h.order
  · intro id j hj
    rw [haccepted, hqueued, hcurrent']
    have hold : j ∈ s.received id ∨ j = it.index := by
      rcases hreceived id with hsame | hmore
      · rw [hsame] at hj
        exact .inl hj
      · rw [hmore] at hj
        exact (List.mem_append.mp hj).imp_right List.mem_singleton.mp
    rcases hold with hold | rfl
    · obtain ⟨hlen, hbefore, hle⟩ := h.received_lt id j hold
      refine ⟨hlen, hbefore, fun r cids' hr => ?_⟩
      cases hr
      exact hle it (c₀ :: cids) hcurrent
    · refine ⟨hlt, hbehind, fun r cids' hr => ?_⟩
      cases hr
      exact le_rfl
  · intro id
    rcases hreceived id with hsame | hmore
    · rw [hsame]
      exact h.sorted id
    · rw [hmore, List.pairwise_append]
      refine ⟨h.sorted id, List.pairwise_singleton _ _, fun i hi j hj => ?_⟩
      rw [List.mem_singleton.mp hj]
      exact (h.received_lt id i hi).2.2 it (c₀ :: cids) hcurrent
  · intro p hp
    rw [haccepted]
    rcases hlost with hsame | ⟨hother, hmore⟩
    · rw [hsame] at hp
      exact h.lost_named p hp
    · rw [hmore] at hp
      rcases List.mem_append.mp hp with hold | hnew
      · exact h.lost_named p hold
      · rw [List.mem_singleton.mp hnew]
        exact ⟨it.request, hitem, hown, c₀, hc₀, hother, rfl⟩
  · intro k r hr hk c hc hother
    rw [hbalanced k c hother]
    rw [haccepted] at hr
    exact h.balanced k r hr hk c hc hother

/-- What is due after one center is done with. -/
theorem due_next {s : State} {it : Item} {c₀ : UInt8} {cids : List UInt8} {batch : List Item}
    {final : Bool} (hflusher : s.flusher = .submitting it (c₀ :: cids) batch final) (k : Nat)
    (c : UInt8) :
    due s k c = due { s with flusher := .submitting it cids batch final } k c +
      if it.index = k ∧ c₀ = c then 1 else 0 := by
  have hqueued : queued s = queued { s with flusher := .submitting it cids batch final } := by
    rw [queued, queued, hflusher]
    rfl
  have hcurrent : s.flusher.current = some (it, c₀ :: cids) := by
    rw [hflusher]
    rfl
  have hturns : turns (some (it, c₀ :: cids)) k c =
      turns (some (it, cids)) k c + if it.index = k ∧ c₀ = c then 1 else 0 := by
    by_cases hk : it.index = k
    · simp [turns, hk, List.count_cons]
    · simp [turns, hk]
  rw [due, due, hqueued, hcurrent, hturns, Nat.add_assoc]
  rfl

/-- The local center gets no RPC. -/
theorem Accounted.skipOwn {cfg : Config} {s : State} (h : Accounted cfg s) {it : Item} {c₀ : UInt8}
    {cids : List UInt8} {batch : List Item} {final : Bool}
    (hflusher : s.flusher = .submitting it (c₀ :: cids) batch final) (hown : c₀ = cfg.mcid) :
    Accounted cfg { s with flusher := .submitting it cids batch final } := by
  refine h.next hflusher rfl rfl rfl rfl (fun _ => .inl rfl) (.inl rfl) fun k c hother => ?_
  rw [account, account, due_next hflusher, if_neg, Nat.add_zero]
  rintro ⟨-, rfl⟩
  exact hother hown

/-- Another center gets its RPC, which is applied or lost. -/
theorem Accounted.rpc {cfg : Config} {s : State} (h : Accounted cfg s) {it : Item} {c₀ : UInt8}
    {cids : List UInt8} {batch : List Item} {final : Bool} (o : Outcome)
    (hflusher : s.flusher = .submitting it (c₀ :: cids) batch final) (hother : c₀ ≠ cfg.mcid) :
    Accounted cfg (submitRpc { s with flusher := .submitting it cids batch final } it.index
      c₀.toUInt32 o) := by
  have hpair : ∀ (k : Nat) (c : UInt8),
      ((it.index, c₀.toUInt32) = (k, c.toUInt32)) ↔ it.index = k ∧ c₀ = c := fun k c => by
    rw [Prod.mk.injEq, UInt8.toUInt32_inj]
  unfold submitRpc
  split
  · refine h.next hflusher rfl rfl rfl rfl (fun _ => .inl rfl) (.inr ⟨hother, rfl⟩) fun k c _ => ?_
    have hlost : (s.lost ++ [(it.index, c₀.toUInt32)]).count (k, c.toUInt32) =
        s.lost.count (k, c.toUInt32) + if it.index = k ∧ c₀ = c then 1 else 0 := by
      rw [List.count_append, List.count_singleton]
      simp only [beq_iff_eq, hpair]
    unfold account
    rw [due_next hflusher]
    dsimp only
    rw [hlost]
    change _ + _ + due { s with flusher := .submitting it cids batch final } k c = _
    omega
  · refine h.next hflusher rfl rfl rfl rfl (fun id => ?_) (.inl rfl) fun k c _ => ?_
    · by_cases hid : id = c₀.toUInt32
      · subst hid
        exact .inr (Function.update_self _ _ _)
      · exact .inl (Function.update_of_ne hid _ _)
    · have hreceived : (Function.update s.received c₀.toUInt32
          (s.received c₀.toUInt32 ++ [it.index]) c.toUInt32).count k =
          (s.received c.toUInt32).count k + if it.index = k ∧ c₀ = c then 1 else 0 := by
        by_cases hc : c₀ = c
        · subst hc
          rw [Function.update_self, List.count_append, List.count_singleton]
          simp
        · have hid : c.toUInt32 ≠ c₀.toUInt32 := fun heq => hc (UInt8.toUInt32_inj.mp heq.symm)
          rw [Function.update_of_ne hid]
          simp [hc]
      unfold account
      rw [due_next hflusher]
      dsimp only
      rw [hreceived]
      change _ + _ + due { s with flusher := .submitting it cids batch final } k c = _
      omega

/-- A well-addressed center has its number as its id. -/
theorem toId_eq_mcid_iff {cfg : Config} {c : UInt8} (h : Known cfg c) :
    toId c = cfg.mcid.toUInt32 ↔ c = cfg.mcid := by
  rw [h.1, UInt8.toUInt32_inj]

/-- The flusher thread keeps the accounts. -/
theorem Accounted.flush {cfg : Config} {s t : State} (h : Accounted cfg s) {o : Outcome}
    (hstep : flush cfg s o = some t) : Accounted cfg t := by
  have hsame : ∀ f : Flusher, f.batch = s.flusher.batch → f.current = s.flusher.current →
      Accounted cfg { s with flusher := f } := fun f hbatch hcurrent =>
    h.of_same h.waiting (by rw [queued, queued, hbatch]) hcurrent rfl rfl rfl
  unfold ReplicaQueue.flush at hstep
  split at hstep
  next hflusher =>
    split at hstep
    · cases hstep
      exact hsame _ (by rw [hflusher]; rfl) (by rw [hflusher]; rfl)
    · split at hstep
      · cases hstep
        exact hsame _ (by rw [hflusher]; rfl) (by rw [hflusher]; rfl)
      · cases hstep
        exact hsame _ (by rw [hflusher]; rfl) (by rw [hflusher]; rfl)
  next hflusher =>
    cases hstep
    exact hsame _ (by rw [hflusher]; rfl) (by rw [hflusher]; rfl)
  next final hflusher =>
    cases hstep
    refine h.of_same h.waiting ?_ (by rw [hflusher]; rfl) rfl rfl rfl
    simp only [queued, hflusher, Flusher.batch, List.append_nil, List.nil_append]
  next final hflusher =>
    cases hstep
    refine hsame _ ?_ ?_ <;> rw [hflusher] <;> cases final <;> rfl
  next it batch final hflusher =>
    split at hstep
    next hown =>
      cases hstep
      rw [rewrite_isNone] at hown
      exact h.skip hflusher hown
    next hown =>
      cases hstep
      rw [rewrite_isNone, Bool.not_eq_true] at hown
      exact h.take hflusher hown
  next it batch final hflusher =>
    cases hstep
    exact h.done hflusher
  next it c cids batch final hflusher =>
    obtain ⟨hitem, -, hsuffix, -⟩ := h.current it (c :: cids) (by rw [hflusher]; rfl)
    have hknown : Known cfg c :=
      (h.addressed _ (List.mem_of_getElem? hitem)).2 c (hsuffix.subset List.mem_cons_self)
    dsimp only at hstep
    split at hstep
    next hid =>
      cases hstep
      exact h.skipOwn hflusher ((toId_eq_mcid_iff hknown).mp hid)
    next hid =>
      have hother : c ≠ cfg.mcid := fun heq => hid ((toId_eq_mcid_iff hknown).mpr heq)
      split at hstep
      next =>
        cases hstep
        rw [hknown.1]
        exact h.rpc o hflusher hother
      next hmissing =>
        rw [hknown.1] at hmissing
        exact absurd (hknown.2.resolve_left hother) hmissing
  next => cases hstep
  next => cases hstep

/-- Every step keeps the accounts. -/
theorem accounted_step {cfg : Config} {s t : State} {a : Act} (h : Accounted cfg s)
    (hok : Addressed cfg s a) (hstep : step cfg s a = some t) : Accounted cfg t := by
  cases a with
  | submit r =>
      simp only [step] at hstep
      split at hstep
      · cases hstep
        refine h.of_same (fun q hq => ?_) rfl rfl rfl rfl rfl
        rcases List.mem_append.mp hq with hold | hnew
        · exact h.waiting q hold
        · rw [List.mem_singleton.mp hnew]
          exact hok
      · cases hstep
        exact h.push hok
  | wakeUp i =>
      obtain ⟨r, hr, hwake⟩ := Option.bind_eq_some_iff.mp hstep
      split at hwake
      · cases hwake
      · cases hwake
        have hrest : Accounted cfg { s with waiters := s.waiters.eraseIdx i } :=
          h.of_same (fun q hq => h.waiting q (List.mem_of_mem_eraseIdx hq)) rfl rfl rfl rfl rfl
        exact hrest.push (h.waiting r (List.mem_of_getElem? hr))
  | stop =>
      cases hstep
      exact h.of_same h.waiting rfl rfl rfl rfl rfl
  | flush o => exact h.flush hstep

/-! ### What was delivered -/

/-- A request is held for a center as long as something is due. -/
theorem held_iff_due {s : State} {k : Nat} {c : UInt8} : Held s k c ↔ 0 < due s k c := by
  have hturns : 0 < turns s.flusher.current k c ↔
      ∃ r cids, s.flusher.current = some (r, cids) ∧ r.index = k ∧ c ∈ cids := by
    cases hcurrent : s.flusher.current with
    | none => simp [turns]
    | some p =>
        obtain ⟨r, cids⟩ := p
        by_cases hk : r.index = k
        · simp [turns, hk, List.count_pos_iff]
        · simp [turns, hk]
  rw [Held, ← List.count_pos_iff, ← hturns, due]
  omega

/-- A held request has not been applied, one that is not held was applied once, unless its RPC was
lost. -/
theorem Accounted.delivered_iff {cfg : Config} {s : State} (h : Accounted cfg s) :
    Delivered cfg s ↔ s.lost = [] := by
  constructor
  · intro hdelivered
    by_contra hne
    obtain ⟨p, hp⟩ := List.exists_mem_of_ne_nil _ hne
    obtain ⟨r, hr, hown, c, hc, hother, hid⟩ := h.lost_named p hp
    have hbalanced := h.balanced p.1 r hr hown c hc hother
    have hlost : 0 < s.lost.count (p.1, c.toUInt32) := by
      rw [List.count_pos_iff, ← hid]
      exact hp
    rw [account] at hbalanced
    rcases hdelivered.1 p.1 r hr hown c hc hother with ⟨hheld, -⟩ | ⟨-, hreceived⟩
    · rw [held_iff_due] at hheld
      omega
    · omega
  · intro hnone
    refine ⟨fun k r hr hown c hc hother => ?_, h.sorted⟩
    have hbalanced := h.balanced k r hr hown c hc hother
    rw [account, hnone, List.count_nil] at hbalanced
    rw [held_iff_due]
    omega

/-- In every run with well-addressed requests, what was accepted is held or has been applied exactly
once, in order, if and only if no Submit RPC was lost. -/
theorem requests_delivered_iff {cfg : Config} {acts : List Act} {t : State}
    (hguard : Machine.Guarded (step cfg) (Addressed cfg) start acts)
    (hrun : Machine.run (step cfg) start acts = some t) : Delivered cfg t ↔ t.lost = [] :=
  (Machine.run_invariant (fun _ _ _ h hok hstep => accounted_step h hok hstep)
    (accounted_start cfg) hguard hrun).delivered_iff

/-- Center 1, which knows every IO proxy. -/
def centerOne : Config where
  mcid := 1
  ioproxys := fun _ => true
  m_max_new := 1024 * 1024

/-- A file was created in a space of centers 1 and 2. -/
def createdFile : OpRequest := ⟨"s/f", .create, [1, 2], "", []⟩

/-- The request is accepted, and the flusher thread sends it to center 2. -/
def flushedOnce (o : Outcome) : List Act :=
  [.submit createdFile, .flush .answered, .flush .answered, .flush .answered, .flush .answered,
    .flush o, .flush .answered, .flush .answered]

theorem createdFile_wellAddressed : WellAddressed centerOne createdFile := by
  refine ⟨by decide, fun c hc => ?_⟩
  have hcenters : c = 1 ∨ c = 2 := by simpa [createdFile] using hc
  rcases hcenters with rfl | rfl
  · exact ⟨by decide, .inl rfl⟩
  · exact ⟨by decide, .inr rfl⟩

/-- Center 2 has applied the request once. -/
theorem delivered_once :
    ∃ t, Machine.run (step centerOne) start (flushedOnce .answered) = some t ∧
      t.received 2 = [0] ∧ Delivered centerOne t := by
  have hguard : Machine.Guarded (step centerOne) (Addressed centerOne) start
      (flushedOnce .answered) := by
    refine ⟨createdFile_wellAddressed, fun _ _ => ⟨trivial, fun _ _ => ⟨trivial, fun _ _ =>
      ⟨trivial, fun _ _ => ⟨trivial, fun _ _ => ⟨trivial, fun _ _ => ⟨trivial, fun _ _ =>
        ⟨trivial, fun _ _ => trivial⟩⟩⟩⟩⟩⟩⟩⟩
  exact ⟨_, rfl, rfl, (requests_delivered_iff hguard rfl).mpr rfl⟩

/-- The RPC to center 2 is lost: the request is neither held nor applied. -/
theorem lost_request :
    ∃ t, Machine.run (step centerOne) start (flushedOnce .lost) = some t ∧
      ¬ Delivered centerOne t := by
  refine ⟨_, rfl, fun hdelivered => ?_⟩
  rcases hdelivered.1 0 createdFile rfl rfl 2 (by decide) (by decide) with ⟨hheld, -⟩ | ⟨-, hcount⟩
  · rw [held_iff_due] at hheld
    exact absurd hheld (by decide)
  · exact absurd hcount (by decide)

end Gvds.ReplicaQueue
