/-
Module: Gvds.Proofs.GraphLock
Layer: Proofs
Purpose: The lock of the graph over all interleavings of get_mapping, set_force_mapping and
  fresh_ioproxy. It is held by the calls in progress, and once more for every get_mapping that found
  no list for its center; so when no call is in progress it is free exactly if there was none.
Imports: Gvds.Client.GraphMod, Gvds.Lib.Machine
Trusted boundary: as Gvds.Client.GraphMod
Main exports: Call.mode, Finds, step_heldBy, run_heldBy, lock_is_free_when_idle_iff,
  unknown_center_keeps_lock, lost_lock_is_never_free
-/
import Gvds.Client.GraphMod
import Gvds.Lib.Machine

namespace Gvds.GraphMod

open IOProxyMgr (IOProxyNode Running)
open Manager (Bytes Space)
open ZoneMod (ClientZone locatePosition)

/-- How a call has the lock. -/
def Call.mode : Call → SharedMutex.Mode
  | .mapping _ _ => .none
  | .looking _ _ => .shared
  | .leaving _ _ => .shared
  | .forcing _ _ => .none
  | .forced _ _ => .exclusive
  | .refreshing _ => .none
  | .storing _ _ => .none
  | .filling _ _ => .exclusive

/-- The lock is held by the calls in progress, and `lost` times more. -/
def HeldBy (s : Graph) (lost : Nat) : Prop :=
  s.graph_mutex.HeldBy (s.calls.map Call.mode) lost

/-- Where a call finds no list for the center of its space. -/
def Call.Misses (g : ClientGraph) : Call → Prop
  | .looking space _ => g.ioproxy_list (g.centerID space) = none
  | _ => False

/-- A `get_mapping` that looks for its center finds a list. -/
def Finds (s : Graph) : Action → Prop
  | .advance i _ => ∀ c, s.calls[i]? = some c → ¬ c.Misses s.graph
  | _ => True

/-! ### One step -/

/-- Put in for a call what is left of it, or take it out: the others stay. -/
theorem replace_perm {calls : List Call} {i : Nat} {c : Call} (hi : calls[i]? = some c)
    (next : Option Call) : ∃ rest, calls.Perm (c :: rest) ∧
      (replace calls i next).Perm (next.toList ++ rest) := by
  obtain ⟨hlt, rfl⟩ := List.getElem?_eq_some_iff.mp hi
  refine ⟨calls.eraseIdx i, (List.getElem_cons_eraseIdx_perm hlt).symm, ?_⟩
  cases next with
  | none => exact List.Perm.refl _
  | some c' => exact List.set_perm_cons_eraseIdx hlt c'

/-- A call that goes on takes the lock and gives it back as its mode says. Only a `get_mapping` that
finds no list goes with it. -/
theorem resume_heldBy {g g' : ClientGraph} {m m' : SharedMutex} {c : Call} {next : Option Call}
    {response : Option (List IOProxyNode)} {modes : List SharedMutex.Mode} {lost : Nat}
    (h : m.HeldBy (c.mode :: modes) lost) (hresume : c.resume g m response = some (g', m', next)) :
    (¬ c.Misses g → m'.HeldBy (next.toList.map Call.mode ++ modes) lost) ∧
      (c.Misses g → m'.HeldBy (next.toList.map Call.mode ++ modes) (lost + 1)) := by
  cases c with
  | mapping space rpath =>
      obtain ⟨m₁, hlock, heq⟩ := Option.map_eq_some_iff.mp hresume
      cases heq
      exact ⟨fun _ => (SharedMutex.HeldBy.none_iff.mp h).lock_shared hlock, fun hmiss => hmiss.elim⟩
  | looking space rpath =>
      simp only [Call.resume] at hresume
      split at hresume
      · rename_i hnone
        cases hresume
        exact ⟨fun hmiss => absurd hnone hmiss, fun _ => h.lose⟩
      · rename_i iops hsome
        cases hresume
        refine ⟨fun _ => h, fun hmiss => ?_⟩
        rw [Call.Misses, hsome] at hmiss
        cases hmiss
  | leaving iop lpath =>
      cases hresume
      exact ⟨fun _ => h.unlock_shared, fun hmiss => hmiss.elim⟩
  | forcing spaceID cid =>
      obtain ⟨m₁, hlock, heq⟩ := Option.map_eq_some_iff.mp hresume
      cases heq
      exact ⟨fun _ => (SharedMutex.HeldBy.none_iff.mp h).lock hlock, fun hmiss => hmiss.elim⟩
  | forced spaceID cid =>
      cases hresume
      exact ⟨fun _ => h.unlock, fun hmiss => hmiss.elim⟩
  | refreshing endpoints =>
      refine ⟨fun _ => ?_, fun hmiss => hmiss.elim⟩
      cases endpoints with
      | zero =>
          cases hresume
          exact SharedMutex.HeldBy.none_iff.mp h
      | succ endpoints =>
          cases response with
          | none =>
              cases hresume
              exact h
          | some ioproxy_list_tmp =>
              cases hresume
              exact h
  | storing ioproxy_list_tmp endpoints =>
      obtain ⟨m₁, hlock, heq⟩ := Option.map_eq_some_iff.mp hresume
      cases heq
      exact ⟨fun _ => (SharedMutex.HeldBy.none_iff.mp h).lock hlock, fun hmiss => hmiss.elim⟩
  | filling ioproxy_list_tmp endpoints =>
      cases hresume
      exact ⟨fun _ => SharedMutex.HeldBy.none_iff.mpr h.unlock, fun hmiss => hmiss.elim⟩

/-- A call that begins does not have the lock. -/
theorem HeldBy.begin {s : Graph} {lost : Nat} {c : Call} (h : HeldBy s lost) (hmode : c.mode = .none) :
    HeldBy { s with calls := s.calls ++ [c] } lost := by
  have hnone : s.graph_mutex.HeldBy (c.mode :: s.calls.map Call.mode) lost := by
    rw [hmode]
    exact SharedMutex.HeldBy.none_iff.mpr h
  refine hnone.perm ?_
  rw [List.map_append]
  exact (List.perm_append_singleton _ _).symm

/-- A step loses the lock once if a `get_mapping` finds no list in it, and else never. -/
theorem step_heldBy {s t : Graph} {a : Action} {lost : Nat} (h : HeldBy s lost)
    (hstep : step s a = some t) :
    (Finds s a → HeldBy t lost) ∧ (¬ Finds s a → HeldBy t (lost + 1)) := by
  cases a with
  | get_mapping zones path =>
      refine ⟨fun _ => ?_, fun hnot => absurd trivial hnot⟩
      simp only [step] at hstep
      split at hstep
      · cases hstep
        exact h.begin rfl
      · cases hstep
        exact h
      · cases hstep
  | set_force_mapping zones path cid =>
      refine ⟨fun _ => ?_, fun hnot => absurd trivial hnot⟩
      simp only [step] at hstep
      split at hstep
      · cases hstep
        exact h.begin rfl
      · cases hstep
        exact h
      · cases hstep
  | fresh_ioproxy endpoints =>
      refine ⟨fun _ => ?_, fun hnot => absurd trivial hnot⟩
      cases hstep
      exact h.begin rfl
  | advance i response =>
      simp only [step] at hstep
      split at hstep
      · cases hstep
      · rename_i c hi
        obtain ⟨⟨g', m', next⟩, hresume, rfl⟩ := Option.map_eq_some_iff.mp hstep
        obtain ⟨rest, hcalls, hreplaced⟩ := replace_perm hi next
        have hbefore : s.graph_mutex.HeldBy (c.mode :: rest.map Call.mode) lost :=
          h.perm (hcalls.map Call.mode)
        have hmodes := (hreplaced.map Call.mode).symm
        rw [List.map_append] at hmodes
        obtain ⟨hkeeps, hloses⟩ := resume_heldBy hbefore hresume
        refine ⟨fun hfinds => (hkeeps (hfinds c hi)).perm hmodes, fun hnot => ?_⟩
        refine (hloses ?_).perm hmodes
        by_contra hmiss
        refine hnot fun c' hi' => ?_
        cases hi.symm.trans hi'
        exact hmiss

/-! ### Runs -/

/-- A run loses the lock unless every `get_mapping` finds a list. -/
theorem run_heldBy {s t : Graph} {as : List Action} {lost : Nat} (h : HeldBy s lost)
    (hrun : Machine.run step s as = some t) :
    ∃ more, HeldBy t (lost + more) ∧ (more = 0 ↔ Machine.Guarded step Finds s as) := by
  induction as generalizing s lost with
  | nil =>
      cases hrun
      exact ⟨0, h, iff_of_true rfl trivial⟩
  | cons a as ih =>
      obtain ⟨u, hu, hrest⟩ := Machine.run_cons_eq_some.mp hrun
      obtain ⟨hkeeps, hloses⟩ := step_heldBy h hu
      have hguarded : Machine.Guarded step Finds s (a :: as) ↔
          Finds s a ∧ Machine.Guarded step Finds u as := by
        constructor
        · rintro ⟨hfinds, hnext⟩
          exact ⟨hfinds, hnext u hu⟩
        · rintro ⟨hfinds, hnext⟩
          refine ⟨hfinds, fun v hv => ?_⟩
          cases hu.symm.trans hv
          exact hnext
      by_cases hfinds : Finds s a
      · obtain ⟨more, hheld, hmore⟩ := ih (hkeeps hfinds) hrest
        refine ⟨more, hheld, ?_⟩
        rw [hguarded, hmore]
        exact ⟨fun hnext => ⟨hfinds, hnext⟩, And.right⟩
      · obtain ⟨more, hheld, -⟩ := ih (hloses hfinds) hrest
        refine ⟨1 + more, by rwa [← Nat.add_assoc], ?_⟩
        rw [hguarded]
        refine iff_of_false (by omega) fun hboth => hfinds hboth.1

/-- **The graph lock is always released**: when no call is in progress the lock is free, iff no
`get_mapping` so far found its center without a list. -/
theorem lock_is_free_when_idle_iff (g : ClientGraph) (as : List Action) (s : Graph)
    (hrun : Machine.run step (.start g) as = some s) (hidle : s.calls = []) :
    s.graph_mutex.Free ↔ Machine.Guarded step Finds (.start g) as := by
  obtain ⟨lost, hheld, hlost⟩ := run_heldBy (s := .start g) SharedMutex.HeldBy.start hrun
  unfold HeldBy at hheld
  rw [hidle, List.map_nil] at hheld
  rw [hheld.free_iff, ← hlost, Nat.zero_add]

/-- A zone with a space whose center is `Jinan`. -/
def jinanZones : ClientZone where
  zonemap := fun _ => some
    { zoneID := "z1", zoneName := [122], ownerID := "u1", memberID := [], spaceID := ["s1"]
      spaceBicInfo := [{ spaceID := "s1", spaceName := [115], spaceSize := 1, hostCenterID := "Jinan"
                         storageSrcID := "d1", spacePath := "s1", hostCenterName := "Jinan"
                         storageSrcName := "d1", status := true, replica_spaces := [] }] }
  spaceuuid_to_metadatamap := fun _ => none

/-- The path `/z/s`. -/
def jinanPath : Bytes := [47, 122, 47, 115]

/-- A graph without lists. -/
def noLists : ClientGraph := ⟨fun _ => none, fun _ => none⟩

/-- A mapping for the center, behind a refresh that has found an empty list for it. -/
theorem lock_is_free_when_idle_known : ∃ s,
    Machine.run step (.start { noLists with ioproxy_list := fun _ => some [] })
      [.get_mapping jinanZones jinanPath, .advance 0 none, .advance 0 none, .advance 0 none] =
      some s ∧ s.calls = [] ∧
    (s.graph_mutex.Free ↔
      Machine.Guarded step Finds (.start { noLists with ioproxy_list := fun _ => some [] })
        [.get_mapping jinanZones jinanPath, .advance 0 none, .advance 0 none, .advance 0 none]) :=
  ⟨_, rfl, rfl, lock_is_free_when_idle_iff _ _ _ rfl rfl⟩

/-- A mapping for a center without a list returns with the lock. -/
theorem unknown_center_keeps_lock : ¬ ∀ (g : ClientGraph) (as : List Action) (s : Graph),
    Machine.run step (.start g) as = some s → s.calls = [] → s.graph_mutex.Free := by
  intro hall
  have hfree := hall noLists
    [.get_mapping jinanZones jinanPath, .advance 0 none, .advance 0 none] _ rfl rfl
  exact absurd hfree.1 (Nat.succ_ne_zero 0)

/-- The lock is never free again, so that no refresh and no `set_force_mapping` goes on. -/
theorem lost_lock_is_never_free {s t : Graph} {as : List Action} {lost : Nat}
    (h : HeldBy s (lost + 1)) (hrun : Machine.run step s as = some t) : ¬ t.graph_mutex.Free := by
  obtain ⟨more, hheld, -⟩ := run_heldBy h hrun
  rw [Nat.add_right_comm] at hheld
  exact SharedMutex.HeldBy.not_free hheld

end Gvds.GraphMod
