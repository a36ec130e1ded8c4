/-
Module: Gvds.Proofs.ReplicationStorm
Layer: Proofs
Purpose: When a replicated request is not replicated again. A center knows a peer's request by its
  type and a nonempty `extra`, or by the type that the sender gives it, except in the default case
  of the switch: there every center queues the request anew. So the network is calm exactly if
  clients send no request of these types.
Imports: Gvds.Lib.Machine, Gvds.IoProxy.CenterNet
Trusted boundary: as Gvds.IoProxy.CenterNet
Main exports: Calm, Settled, settled_step, calm_iff, statfs_requeued
-/
import Gvds.Lib.Machine
import Gvds.IoProxy.CenterNet

namespace Gvds.CenterNet

open ReplicaQueue (Route route enqueue handle_replica_async rewrite toId)

/-- No received message was queued again, and no client request has caused two messages to one
center. -/
def Calm (s : State) : Prop := s.requeued = [] ∧ s.sent.Nodup

/-- The clients' requests have types that satisfy `T`. -/
def Act.Within (T : ReplicaQueue.OpType → Prop) : Act → Prop
  | .client _ r _ _ => T r.type
  | .flush _ => True
  | .deliver _ _ _ => True

/-- The types of the default case. -/
def Unrecognised (τ : ReplicaQueue.OpType) : Prop :=
  τ = .statfs ∨ τ = .rep_remove_space ∨ ∃ n, τ = .unknown n

/-! ### The switch -/

theorem route_eq_default {τ : ReplicaQueue.OpType} : route τ = .default ↔ Unrecognised τ := by
  unfold Unrecognised
  cases τ <;> simp [route]

theorem route_eq_write {τ : ReplicaQueue.OpType} (h : route τ = .write) : τ = .write := by
  cases τ <;> first | rfl | cases h

/-- A queued request has the centers of its space, and its type is a change, a write or a
default. -/
theorem handle_eq_some {r q : ReplicaQueue.OpRequest} {err : Int} {cids : Option (List UInt8)}
    (h : handle_replica_async r err cids = some q) :
    cids = some q.extra ∧ q.type = r.type ∧
      (route r.type = .change ∨ r.type = .write ∨ Unrecognised r.type) := by
  have henqueue : ∀ r' : ReplicaQueue.OpRequest, r'.type = r.type → enqueue r' err cids = some q →
      cids = some q.extra ∧ q.type = r.type := by
    intro r' htype hq
    unfold enqueue at hq
    split at hq
    · cases hq
    · obtain ⟨ids, rfl, hids⟩ := Option.bind_eq_some_iff.mp hq
      split at hids
      · cases hids
      · cases hids
        exact ⟨rfl, htype⟩
  unfold handle_replica_async at h
  split at h
  · cases h
  · split at h
    next => cases h
    next hroute =>
      split at h
      · cases h
      · obtain ⟨hcids, htype⟩ := henqueue r rfl h
        exact ⟨hcids, htype, .inl hroute⟩
    next hroute =>
      obtain ⟨hcids, htype⟩ := henqueue { r with data := [] } rfl h
      exact ⟨hcids, htype, .inr (.inl (route_eq_write hroute))⟩
    next => cases h
    next hroute =>
      obtain ⟨hcids, htype⟩ := henqueue r rfl h
      exact ⟨hcids, htype, .inr (.inr (route_eq_default.mp hroute))⟩

/-- A center does not queue what the sender's rewriting made of a change or a write. -/
theorem handle_rewrite {mcid : UInt8} {r r' : ReplicaQueue.OpRequest}
    (htype : route r.type = .change ∨ r.type = .write) (h : rewrite mcid r = some r') (err : Int)
    (cids : Option (List UInt8)) : handle_replica_async r' err cids = none := by
  unfold rewrite at h
  split at h
  next =>
    cases h
    simp [handle_replica_async, route]
  next hwrite =>
    have hchange : route r.type = .change := htype.resolve_right hwrite
    split at h
    next => cases h
    next =>
      cases h
      simp [handle_replica_async, hchange]

/-- A center sends to centers that the space names. -/
theorem destinations_sublist (ioproxys : UInt32 → Bool) (mcid : UInt8) (cids : List UInt8) :
    (destinations ioproxys mcid cids).Sublist cids := by
  induction cids with
  | nil => exact .slnil
  | cons c cids ih =>
      unfold destinations
      split
      · exact ih.cons c
      · split
        · exact ih.cons_cons c
        · exact List.nil_sublist _

/-! ### The invariant -/

/-- Messages are known to their receivers; a queued request is a change or a write with distinct
centers, it is queued once, and nothing was sent for it yet. -/
structure Settled (s : State) : Prop where
  known : ∀ m ∈ s.net, ∀ err cids, handle_replica_async m.request err cids = none
  queued : ∀ c, ∀ e ∈ s.queue c,
    (route e.2.type = .change ∨ e.2.type = .write) ∧ e.2.extra.Nodup ∧ e.1 < s.requests
  once : ∀ c, ((s.queue c).map Prod.fst).Nodup
  apart : ∀ c c' e e', e ∈ s.queue c → e' ∈ s.queue c' → e.1 = e'.1 → c = c'
  unsent : ∀ c, ∀ e ∈ s.queue c, ∀ d, (e.1, d) ∉ s.sent
  sent_lt : ∀ p ∈ s.sent, p.1 < s.requests
  calm : Calm s

theorem settled_start : Settled start := by
  constructor <;> simp [start, Calm]

/-- A client's request that is not queued changes nothing but the number of requests. -/
theorem Settled.count {s : State} (h : Settled s) :
    Settled { s with requests := s.requests + 1 } :=
  { h with
    queued := fun c e he => by
      obtain ⟨htype, hextra, hlt⟩ := h.queued c e he
      exact ⟨htype, hextra, Nat.lt_succ_of_lt hlt⟩
    sent_lt := fun p hp => Nat.lt_succ_of_lt (h.sent_lt p hp) }

/-- What is on a queue after a push. -/
theorem mem_push {s : State} {center c : UInt8} {root : Nat} {r : ReplicaQueue.OpRequest}
    {e : Nat × ReplicaQueue.OpRequest}
    (he : e ∈ (push s center root r).queue c) : e ∈ s.queue c ∨ (c = center ∧ e = (root, r)) := by
  unfold push at he
  dsimp only at he
  by_cases hc : c = center
  · subst hc
    rw [Function.update_self] at he
    rcases List.mem_append.mp he with hold | hnew
    · exact .inl hold
    · exact .inr ⟨rfl, List.mem_singleton.mp hnew⟩
  · rw [Function.update_of_ne hc] at he
    exact .inl he

/-- A client's request is queued under a new number. -/
theorem Settled.push {s : State} (h : Settled s) (center : UInt8) {r : ReplicaQueue.OpRequest}
    (htype : route r.type = .change ∨ r.type = .write) (hextra : r.extra.Nodup) :
    Settled (push { s with requests := s.requests + 1 } center s.requests r) := by
  have hcount := h.count
  have hlt : ∀ c, ∀ e ∈ s.queue c, e.1 < s.requests := fun c e he => (h.queued c e he).2.2
  refine { hcount with queued := ?_, once := ?_, apart := ?_, unsent := ?_ }
  · intro c e he
    rcases mem_push he with hold | ⟨-, rfl⟩
    · exact hcount.queued c e hold
    · exact ⟨htype, hextra, Nat.lt_succ_self _⟩
  · intro c
    by_cases hc : c = center
    · subst hc
      simp only [CenterNet.push, Function.update_self, List.map_append, List.map_singleton]
      rw [← List.concat_eq_append, List.nodup_concat]
      refine ⟨fun hmem => ?_, h.once c⟩
      obtain ⟨e, he, heq⟩ := List.mem_map.mp hmem
      exact absurd (hlt c e he) (by rw [heq]; exact Nat.lt_irrefl _)
    · simp only [CenterNet.push, Function.update_of_ne hc]
      exact h.once c
  · intro c c' e e' he he' heq
    rcases mem_push he with hold | ⟨rfl, rfl⟩
    · rcases mem_push he' with hold' | ⟨rfl, rfl⟩
      · exact h.apart c c' e e' hold hold' heq
      · exact absurd (hlt c e hold) (by rw [heq]; exact Nat.lt_irrefl _)
    · rcases mem_push he' with hold' | ⟨rfl, rfl⟩
      · exact absurd (hlt c' e' hold') (by rw [← heq]; exact Nat.lt_irrefl _)
      · rfl
  · intro c e he d hsent
    rcases mem_push he with hold | ⟨-, rfl⟩
    · exact h.unsent c e hold d hsent
    · exact absurd (h.sent_lt _ hsent) (Nat.lt_irrefl _)

/-- Clients' requests of known types keep the network settled. -/
theorem Settled.client {s : State} (h : Settled s) (center : UInt8) {r : ReplicaQueue.OpRequest}
    (err : Int) (cids : Option CenterIds) (hknown : ¬ Unrecognised r.type) :
    Settled (client s center r err cids) := by
  unfold CenterNet.client
  dsimp only
  split
  next => exact h.count
  next q hq =>
    obtain ⟨hcids, htype, hroute⟩ := handle_eq_some hq
    obtain ⟨ids, -, hids⟩ := Option.map_eq_some_iff.mp hcids
    rw [← htype] at hroute hknown
    refine h.push center ?_ (hids ▸ ids.nodup)
    rcases hroute with hchange | hwrite | hdefault
    · exact .inl hchange
    · exact .inr hwrite
    · exact absurd hdefault hknown

/-- The head of a queue is taken off. -/
theorem Settled.pop {s : State} (h : Settled s) {center : UInt8} {e : Nat × ReplicaQueue.OpRequest}
    {rest : List (Nat × ReplicaQueue.OpRequest)} (hqueue : s.queue center = e :: rest) :
    Settled { s with queue := Function.update s.queue center rest } ∧
      ∀ c, ∀ e' ∈ Function.update s.queue center rest c, e'.1 ≠ e.1 := by
  have hsub : ∀ c, (Function.update s.queue center rest c).Sublist (s.queue c) := by
    intro c
    by_cases hc : c = center
    · subst hc
      rw [Function.update_self, hqueue]
      exact List.sublist_cons_self e rest
    · rw [Function.update_of_ne hc]
  have hmem : e ∈ s.queue center := by
    rw [hqueue]
    exact List.mem_cons_self
  refine ⟨{ h with
    queued := fun c e' he' => h.queued c e' ((hsub c).subset he')
    once := fun c => (h.once c).sublist ((hsub c).map Prod.fst)
    apart := fun c c' e₁ e₂ he₁ he₂ =>
      h.apart c c' e₁ e₂ ((hsub c).subset he₁) ((hsub c').subset he₂)
    unsent := fun c e' he' => h.unsent c e' ((hsub c).subset he') }, fun c e' he' heq => ?_⟩
  have hc : c = center := h.apart c center e' e ((hsub c).subset he') hmem heq
  subst hc
  rw [Function.update_self] at he'
  have honce := h.once c
  rw [hqueue, List.map_cons, List.nodup_cons] at honce
  exact honce.1 (List.mem_map.mpr ⟨e', he', heq⟩)

/-- A flush keeps the network settled. -/
theorem Settled.flush {ioproxys : UInt32 → Bool} {s t : State} (h : Settled s) {center : UInt8}
    (hstep : flush ioproxys s center = some t) : Settled t := by
  unfold CenterNet.flush at hstep
  split at hstep
  next => cases hstep
  next root r rest hqueue =>
    obtain ⟨hpop, hgone⟩ := h.pop hqueue
    have hmem : (root, r) ∈ s.queue center := by
      rw [hqueue]
      exact List.mem_cons_self
    obtain ⟨htype, hextra, hlt⟩ := h.queued center (root, r) hmem
    dsimp only at hstep
    split at hstep
    next =>
      cases hstep
      exact hpop
    next request hrewrite =>
      cases hstep
      have hdests : (destinations ioproxys center r.extra).Nodup :=
        hextra.sublist (destinations_sublist ioproxys center r.extra)
      refine { hpop with known := ?_, unsent := ?_, sent_lt := ?_, calm := ⟨hpop.calm.1, ?_⟩ }
      · intro m hm err cids
        rcases List.mem_append.mp hm with hold | hnew
        · exact h.known m hold err cids
        · obtain ⟨dest, -, rfl⟩ := List.mem_map.mp hnew
          exact handle_rewrite htype hrewrite err cids
      · intro c e he d hsent
        rcases List.mem_append.mp hsent with hold | hnew
        · exact hpop.unsent c e he d hold
        · obtain ⟨dest, -, heq⟩ := List.mem_map.mp hnew
          exact hgone c e he (congrArg Prod.fst heq).symm
      · intro p hp
        rcases List.mem_append.mp hp with hold | hnew
        · exact h.sent_lt p hold
        · obtain ⟨dest, -, rfl⟩ := List.mem_map.mp hnew
          exact hlt
      · refine hpop.calm.2.append (hdests.map fun a b heq => (Prod.mk.inj heq).2) ?_
        intro p hold hnew
        obtain ⟨dest, -, rfl⟩ := List.mem_map.mp hnew
        exact h.unsent center (root, r) hmem dest hold

/-- A received message is known, so its receiver queues nothing. -/
theorem Settled.deliver {s t : State} (h : Settled s) {i : Nat} {err : Int}
    {cids : Option CenterIds} (hstep : deliver s i err cids = some t) : Settled t := by
  unfold CenterNet.deliver at hstep
  split at hstep
  next => cases hstep
  next m hm =>
    have hnone := h.known m (List.mem_of_getElem? hm) err (cids.map CenterIds.ids)
    simp only [hnone] at hstep
    cases hstep
    exact { h with known := fun m' hm' => h.known m' (List.mem_of_mem_eraseIdx hm') }

/-- Every step with requests of known types keeps the network settled. -/
theorem settled_step {ioproxys : UInt32 → Bool} {T : ReplicaQueue.OpType → Prop}
    (hT : ∀ τ, T τ → ¬ Unrecognised τ) {s t : State} {a : Act} (h : Settled s)
    (hwithin : a.Within T) (hstep : step ioproxys s a = some t) : Settled t := by
  cases a with
  | client center r err cids =>
      cases hstep
      exact h.client center err cids (hT _ hwithin)
  | flush center => exact h.flush hstep
  | deliver i err cids => exact h.deliver hstep

/-! ### Requests that nobody recognises -/

/-- The space is replicated on centers 1 and 2. -/
def twoCenters : CenterIds := ⟨[1, 2], by decide⟩

/-- A client's request at center 1 is sent to center 2. -/
def clientToPeer (τ : ReplicaQueue.OpType) : List Act :=
  [.client 1 ⟨"s/f", τ, [], "", []⟩ 0 (some twoCenters), .flush 1, .deliver 0 0 (some twoCenters)]

/-- Center 2 queues a request of the default case again. -/
theorem requeued_of_unrecognised {τ : ReplicaQueue.OpType} (h : Unrecognised τ) :
    ∃ t, Machine.run (step fun _ => true) start (clientToPeer τ) = some t ∧
      t.requeued.length = 1 := by
  rcases h with rfl | rfl | ⟨n, rfl⟩ <;> exact ⟨_, rfl, rfl⟩

/-- The network is calm in all runs whose clients send requests of some types exactly if none of
them falls into the default case. -/
theorem calm_iff (T : ReplicaQueue.OpType → Prop) :
    (∀ (ioproxys : UInt32 → Bool) (acts : List Act) (t : State), (∀ a ∈ acts, a.Within T) →
      Machine.run (step ioproxys) start acts = some t → Calm t) ↔
      ∀ τ, T τ → ¬ Unrecognised τ := by
  constructor
  · intro hcalm τ hτ hunrecognised
    obtain ⟨t, hrun, hrequeued⟩ := requeued_of_unrecognised hunrecognised
    have hwithin : ∀ a ∈ clientToPeer τ, a.Within T := by
      simp [clientToPeer, Act.Within, hτ]
    rw [(hcalm _ _ t hwithin hrun).1] at hrequeued
    cases hrequeued
  · intro hT ioproxys acts t hwithin hrun
    have hguard : Machine.Guarded (step ioproxys) (fun _ a => a.Within T) start acts :=
      Machine.Guarded.of_forall hwithin
    exact (Machine.run_invariant (fun _ _ _ h ha hstep => settled_step hT h ha hstep)
      settled_start hguard hrun).calm

/-- A statfs request at center 1 is queued again at center 2. -/
theorem statfs_requeued :
    ∃ t, Machine.run (step fun _ => true) start (clientToPeer .statfs) = some t ∧ ¬ Calm t :=
  ⟨_, rfl, fun h => absurd (congrArg List.length h.1) (by decide)⟩

end Gvds.CenterNet
