/-
Module: Gvds.Proofs.KnownProxies
Layer: Proofs
Purpose: The lists of IO proxies after a refresh that all managers have answered. Every report of a
  proxy empties the list of its center first, so that the last one stays alone; and the list of a
  center of which no proxy is reported stays as it was.
Imports: Gvds.Client.GraphMod, Gvds.Lib.Machine
Trusted boundary: as Gvds.Client.GraphMod
Main exports: put_apply, fresh_ioproxy_apply, Knows, Lone, all_proxies_known_iff,
  get_mapping_of_knows, second_proxy_replaces_first, run_fresh_ioproxy
-/
import Gvds.Client.GraphMod
import Gvds.Lib.Machine

namespace Gvds.GraphMod

open IOProxyMgr (IOProxyNode Running)
open Manager (Bytes Space)
open ZoneMod (ClientZone locatePosition ZoneInfo)

/-- The proxies of a center that the managers report, in the order of their answers. -/
def reported (responses : List (List IOProxyNode)) (cid : String) : List IOProxyNode :=
  responses.flatten.filter fun iop => iop.cid = cid

/-- The list of a center has every proxy that is reported of it once, and nothing else; and if one
is reported that is running, the loop of `get_mapping` finds one. -/
structure Knows (responses : List (List IOProxyNode))
    (ioproxy_list : String → Option (List IOProxyNode)) (cid : String) : Prop where
  complete : ∀ iop ∈ reported responses cid,
    (((ioproxy_list cid).getD []).map IOProxyNode.uuid).count iop.uuid = 1
  sound : ∀ iop ∈ (ioproxy_list cid).getD [], iop ∈ reported responses cid
  found : (∃ iop ∈ reported responses cid, iop.status = Running) →
    ∃ iops iop, ioproxy_list cid = some iops ∧ runningProxy iops = some iop

/-- A center of which no proxy is reported has no proxy before; all reports of a center are about
one proxy, and the last one says that it is running if any does. -/
structure Lone (responses : List (List IOProxyNode))
    (ioproxy_list : String → Option (List IOProxyNode)) (cid : String) : Prop where
  none : reported responses cid = [] → (ioproxy_list cid).getD [] = []
  same : ∀ iop ∈ reported responses cid, ∀ iop' ∈ reported responses cid, iop.uuid = iop'.uuid
  last : ∀ iop, (reported responses cid).getLast? = some iop →
    (∃ iop' ∈ reported responses cid, iop'.status = Running) → iop.status = Running

section Refresh

variable {ioproxy_list : String → Option (List IOProxyNode)} {responses : List (List IOProxyNode)}
  {cid : String}

/-! ### The refresh -/

/-- Whether the list of the center is made or cleared, the proxy is alone in it. -/
theorem put_apply (ioproxy_list : String → Option (List IOProxyNode)) (iop : IOProxyNode)
    (cid : String) :
    put ioproxy_list iop cid = if cid = iop.cid then some [iop] else ioproxy_list cid := by
  unfold put
  by_cases hcid : cid = iop.cid
  · subst hcid
    rw [if_pos rfl]
    cases ioproxy_list iop.cid with
    | none => simp
    | some iops => simp
  · rw [if_neg hcid, Function.update_of_ne hcid]
    cases ioproxy_list iop.cid with
    | none => exact Function.update_of_ne hcid _ _
    | some iops => exact Function.update_of_ne hcid _ _

/-- A refresh with all answers puts all proxies, one after the other. -/
theorem fresh_ioproxy_map_some (ioproxy_list : String → Option (List IOProxyNode))
    (responses : List (List IOProxyNode)) :
    fresh_ioproxy ioproxy_list (responses.map some) = responses.flatten.foldl put ioproxy_list := by
  induction responses generalizing ioproxy_list with
  | nil => rfl
  | cons iops responses ih =>
      rw [List.flatten_cons, List.foldl_append, ← ih]
      rfl

/-- What is left in the list of a center: the last proxy that is put there. -/
theorem foldl_put_apply (ioproxy_list : String → Option (List IOProxyNode))
    (iops : List IOProxyNode) (cid : String) :
    iops.foldl put ioproxy_list cid =
      match (iops.filter fun iop => iop.cid = cid).getLast? with
      | none => ioproxy_list cid
      | some iop => some [iop] := by
  induction iops using List.reverseRecOn with
  | nil => rfl
  | append_singleton iops iop ih =>
      rw [List.foldl_append, List.foldl_cons, List.foldl_nil, put_apply, List.filter_append]
      by_cases hcid : iop.cid = cid
      · simp [hcid]
      · rw [if_neg (Ne.symm hcid), ih]
        simp [hcid]

theorem fresh_ioproxy_apply (ioproxy_list : String → Option (List IOProxyNode))
    (responses : List (List IOProxyNode)) (cid : String) :
    fresh_ioproxy ioproxy_list (responses.map some) cid =
      match (reported responses cid).getLast? with
      | none => ioproxy_list cid
      | some iop => some [iop] := by
  rw [fresh_ioproxy_map_some, foldl_put_apply]
  rfl

/-! ### The lists -/

/-- A center of which no proxy is reported is known iff it had none. -/
theorem knows_iff_of_none (hnone : reported responses cid = []) :
    Knows responses (fresh_ioproxy ioproxy_list (responses.map some)) cid ↔
      (ioproxy_list cid).getD [] = [] := by
  have hlist : fresh_ioproxy ioproxy_list (responses.map some) cid = ioproxy_list cid := by
    rw [fresh_ioproxy_apply, hnone]
    rfl
  constructor
  · intro h
    refine List.eq_nil_iff_forall_not_mem.mpr fun iop hiop => ?_
    have hmem := h.sound iop (by rwa [hlist])
    rw [hnone] at hmem
    cases hmem
  · intro hnil
    refine ⟨?_, ?_, ?_⟩
    · intro iop hiop
      rw [hnone] at hiop
      cases hiop
    · intro iop hiop
      rw [hlist, hnil] at hiop
      cases hiop
    · rintro ⟨iop, hiop, -⟩
      rw [hnone] at hiop
      cases hiop

/-- A center with a last report is known iff all reports are about its proxy, and it says that this
is running if one does. -/
theorem knows_iff_of_last {last : IOProxyNode}
    (hlast : (reported responses cid).getLast? = some last) :
    Knows responses (fresh_ioproxy ioproxy_list (responses.map some)) cid ↔
      (∀ iop ∈ reported responses cid, iop.uuid = last.uuid) ∧
        ((∃ iop ∈ reported responses cid, iop.status = Running) → last.status = Running) := by
  have hlist : fresh_ioproxy ioproxy_list (responses.map some) cid = some [last] := by
    rw [fresh_ioproxy_apply, hlast]
  have hcount : ∀ iop : IOProxyNode, ([last].map IOProxyNode.uuid).count iop.uuid = 1 ↔
      iop.uuid = last.uuid := by
    intro iop
    rw [List.map_singleton, List.count_singleton]
    by_cases hsame : iop.uuid = last.uuid
    · simp [hsame]
    · simp [hsame, Ne.symm hsame]
  have hrunning : (∃ iop, runningProxy [last] = some iop) ↔ last.status = Running := by
    unfold runningProxy
    by_cases hstatus : last.status = Running
    · simp [hstatus]
    · simp [hstatus]
  constructor
  · rintro ⟨hcomplete, -, hfound⟩
    rw [hlist] at hcomplete hfound
    refine ⟨fun iop hiop => (hcount iop).mp (hcomplete iop hiop), fun hsome => ?_⟩
    obtain ⟨iops, iop, heq, hiop⟩ := hfound hsome
    cases heq
    exact hrunning.mp ⟨iop, hiop⟩
  · rintro ⟨hsame, hstatus⟩
    refine ⟨?_, ?_, ?_⟩
    · rw [hlist]
      exact fun iop hiop => (hcount iop).mpr (hsame iop hiop)
    · rw [hlist]
      intro iop hiop
      rw [List.mem_singleton.mp hiop]
      exact List.mem_of_getLast? hlast
    · intro hsome
      obtain ⟨iop, hiop⟩ := hrunning.mpr (hstatus hsome)
      exact ⟨[last], iop, hlist, hiop⟩

/-- **All IO proxies of a center are known** after a refresh that all managers have answered, for
every center, iff every center has at most one, and none that is gone. -/
theorem all_proxies_known_iff (ioproxy_list : String → Option (List IOProxyNode))
    (responses : List (List IOProxyNode)) :
    (∀ cid, Knows responses (fresh_ioproxy ioproxy_list (responses.map some)) cid) ↔
      ∀ cid, Lone responses ioproxy_list cid := by
  refine forall_congr' fun cid => ?_
  cases hlast : (reported responses cid).getLast? with
  | none =>
      have hnone := List.getLast?_eq_none_iff.mp hlast
      rw [knows_iff_of_none hnone]
      constructor
      · intro hnil
        refine ⟨fun _ => hnil, ?_, ?_⟩
        · intro iop hiop
          rw [hnone] at hiop
          cases hiop
        · intro iop hiop
          rw [hlast] at hiop
          cases hiop
      · intro h
        exact h.none hnone
  | some last =>
      have hmem := List.mem_of_getLast? hlast
      rw [knows_iff_of_last hlast]
      constructor
      · rintro ⟨hsame, hstatus⟩
        refine ⟨?_, ?_, ?_⟩
        · intro hnone
          rw [hnone] at hmem
          cases hmem
        · intro iop hiop iop' hiop'
          rw [hsame iop hiop, hsame iop' hiop']
        · intro iop hiop
          cases hlast.symm.trans hiop
          exact hstatus
      · intro h
        exact ⟨fun iop hiop => h.same iop hiop last hmem, h.last last hlast⟩

/-- Where the proxies of a center are known and one is reported that is running, `get_mapping` finds
one that is running, for every space of the center. -/
theorem get_mapping_of_knows {g : ClientGraph} {zones : ClientZone} {path rpath : Bytes}
    {zone : ZoneInfo} {space : Space} (h : Knows responses g.ioproxy_list (g.centerID space))
    (hpath : locatePosition zones path = some (some zone, some space, rpath))
    (hrunning : ∃ iop ∈ reported responses (g.centerID space), iop.status = Running) :
    ∃ iop ∈ reported responses (g.centerID space), iop.status = Running ∧
      get_mapping g zones path = some (some iop, lpath space rpath) := by
  obtain ⟨iops, iop, hlist, hiop⟩ := h.found hrunning
  refine ⟨iop, h.sound iop ?_, ?_, ?_⟩
  · rw [hlist]
    exact List.mem_of_find?_eq_some hiop
  · simpa using List.find?_some hiop
  · unfold get_mapping
    rw [hpath]
    dsimp only
    rw [hlist]
    dsimp only
    rw [hiop]

end Refresh

/-- A manager reports two proxies of a center: the list has the second one only. -/
theorem second_proxy_replaces_first :
    ¬ ∀ (ioproxy_list : String → Option (List IOProxyNode)) (responses : List (List IOProxyNode))
      (cid : String), Knows responses (fresh_ioproxy ioproxy_list (responses.map some)) cid := by
  intro hall
  let first : IOProxyNode := ⟨9092, 9095, "10.0.0.1", "jinan-1", Running, "p1", "Jinan"⟩
  let second : IOProxyNode := ⟨9092, 9095, "10.0.0.2", "jinan-2", Running, "p2", "Jinan"⟩
  have hcount := (hall (fun _ => none) [[first, second]] "Jinan").complete first (by decide)
  revert hcount
  decide

/-! ### The refresh among the calls -/

/-- The steps of `fresh_ioproxy` for the answer of a manager, if no other call is in progress. -/
def advances : Option (List IOProxyNode) → List Action
  | none => [.advance 0 none]
  | some ioproxy_list_tmp => [.advance 0 (some ioproxy_list_tmp), .advance 0 none, .advance 0 none]

/-- A refresh that runs alone does what `fresh_ioproxy` says, and gives the lock back. -/
theorem run_fresh_ioproxy (g : ClientGraph) (responses : List (Option (List IOProxyNode))) :
    Machine.run step (.start g)
      (.fresh_ioproxy responses.length :: (responses.flatMap advances ++ [.advance 0 none])) =
      some (.start { g with ioproxy_list := fresh_ioproxy g.ioproxy_list responses }) := by
  change Machine.run step ⟨g, .unlocked, [.refreshing responses.length]⟩ _ = _
  induction responses generalizing g with
  | nil => rfl
  | cons response responses ih =>
      cases response with
      | none => exact ih g
      | some ioproxy_list_tmp =>
          exact ih { g with ioproxy_list := ioproxy_list_tmp.foldl put g.ioproxy_list }

end Gvds.GraphMod
