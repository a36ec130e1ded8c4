/-
Module: Gvds.Proofs.ProxyList
Layer: Proofs
Purpose: The list of IO proxies over a restart of the manager. It comes back as it was iff for every
  proxy the last request and the last one that reached the datastore ask for the same, and the
  status, which the query leaves out, happens to be read as it was.
Imports: Gvds.Manager.IoProxyMgr
Trusted boundary: as Gvds.Manager.IoProxyMgr
Main exports: Request, serve, entryAfter, serve_live_ioproxy, serve_doc, init_live_ioproxy,
  proxy_list_survives_iff
-/
import Gvds.Manager.IoProxyMgr

namespace Gvds.IOProxyMgr

/-! ### Requests -/

/-- A request to add or delete a proxy, with whether its call to the datastore succeeds. -/
inductive Request where
  | add (iop : IOProxyNode) (stored : Bool)
  | del (uuid : String) (removed : Bool)

/-- The proxy that a request is about. -/
def Request.uuid : Request → String
  | .add iop _ => iop.uuid
  | .del uuid _ => uuid

/-- Whether its call to the datastore succeeds. -/
def Request.done : Request → Bool
  | .add _ stored => stored
  | .del _ removed => removed

/-- What a request asks for. -/
def Request.asked : Request → Option IOProxyNode
  | .add iop _ => some { iop with status := Running }
  | .del _ _ => none

/-- One request at the manager. -/
def serve (s : IOProxyMgr) : Request → IOProxyMgr
  | .add iop stored => add s iop stored
  | .del uuid removed => del s uuid removed

/-- The entry of a proxy after requests that all are carried out: what the last one about it asks
for. -/
def entryAfter (uuid : String) (entry : Option IOProxyNode) (requests : List Request) :
    Option IOProxyNode :=
  requests.foldl (fun entry r => if r.uuid = uuid then r.asked else entry) entry

/-- A request changes the table for its proxy only. -/
theorem live_ioproxy_serve (s : IOProxyMgr) (r : Request) (uuid : String) :
    (serve s r).live_ioproxy uuid = if r.uuid = uuid then r.asked else s.live_ioproxy uuid := by
  cases r with
  | add iop stored =>
      simp [serve, add, Request.uuid, Request.asked, Function.update_apply, eq_comm]
  | del uuid' removed =>
      simp [serve, del, Request.uuid, Request.asked, Function.update_apply, eq_comm]

/-- A request changes the document of its proxy only, and only if its call succeeds. -/
theorem doc_serve (s : IOProxyMgr) (r : Request) (uuid : String) :
    (serve s r).db.doc uuid =
      if r.done = true ∧ r.uuid = uuid then r.asked else s.db.doc uuid := by
  cases r with
  | add iop stored =>
      cases stored with
      | false => simp [serve, add, Request.done]
      | true => simp [serve, add, upsert_doc, Request.done, Request.uuid, Request.asked, eq_comm]
  | del uuid' removed =>
      cases removed with
      | false => simp [serve, del, Request.done]
      | true => simp [serve, del, remove_doc, Request.done, Request.uuid, Request.asked, eq_comm]

/-- The table follows all requests. -/
theorem serve_live_ioproxy (s : IOProxyMgr) (requests : List Request) (uuid : String) :
    (requests.foldl serve s).live_ioproxy uuid =
      entryAfter uuid (s.live_ioproxy uuid) requests := by
  induction requests generalizing s with
  | nil => rfl
  | cons r requests ih =>
      rw [List.foldl_cons, ih, live_ioproxy_serve]
      rfl

/-- The documents follow the requests whose calls succeed. -/
theorem serve_doc (s : IOProxyMgr) (requests : List Request) (uuid : String) :
    (requests.foldl serve s).db.doc uuid =
      entryAfter uuid (s.db.doc uuid) (requests.filter Request.done) := by
  induction requests generalizing s with
  | nil => rfl
  | cons r requests ih =>
      rw [List.foldl_cons, ih, doc_serve]
      by_cases hdone : r.done = true
      · rw [List.filter_cons_of_pos hdone]
        simp [entryAfter, hdone]
      · rw [List.filter_cons_of_neg hdone]
        simp [hdone]

/-! ### The restart -/

/-- A proxy with the status that a restart gives it. -/
def loaded (s : Row → Int) (iop : IOProxyNode) : IOProxyNode := { iop with status := s iop.row }

/-- A manager that starts lists the proxies that have a document. -/
theorem init_live_ioproxy {db : Store} {rows : List Row} (hrows : Selects db rows) (s : Row → Int)
    (uuid : String) :
    (init_ioproxy_list db rows s).live_ioproxy uuid = (db.doc uuid).map (loaded s) := by
  have hmem : ∀ iop, iop ∈ rows.map (Row.deserialize s) →
      ∃ iop', db.doc iop.uuid = some iop' ∧ iop = loaded s iop' := by
    intro iop hiop
    obtain ⟨row, hrow, rfl⟩ := List.mem_map.mp hiop
    obtain ⟨uuid, iop', hdoc, rfl⟩ := (hrows row).mp hrow
    have huuid := db.keyed uuid iop' hdoc
    subst huuid
    exact ⟨iop', hdoc, rfl⟩
  unfold init_ioproxy_list
  cases hdoc : db.doc uuid with
  | none =>
      cases hfill : Table.fill (fun iop => iop.uuid) (rows.map (Row.deserialize s)) uuid with
      | none => exact hfill
      | some iop =>
          obtain ⟨hiop, huuid⟩ := Table.fill_eq_some hfill
          obtain ⟨iop', hdoc', -⟩ := hmem iop hiop
          rw [huuid, hdoc] at hdoc'
          cases hdoc'
  | some iop =>
      have hlisted : loaded s iop ∈ rows.map (Row.deserialize s) :=
        List.mem_map.mpr ⟨iop.row, (hrows _).mpr ⟨uuid, iop, hdoc, rfl⟩, rfl⟩
      have hfill : Table.fill (fun iop => iop.uuid) (rows.map (Row.deserialize s))
          (loaded s iop).uuid = some (loaded s iop) := by
        refine Table.fill_of_mem hlisted fun b hb hkey => ?_
        obtain ⟨iop', hdoc', rfl⟩ := hmem b hb
        have huuid : (loaded s iop').uuid = uuid := by
          rw [hkey]
          exact db.keyed uuid iop hdoc
        rw [huuid, hdoc] at hdoc'
        cases hdoc'
        rfl
      have huuid : (loaded s iop).uuid = uuid := db.keyed uuid iop hdoc
      rw [huuid] at hfill
      exact hfill

/-- A proxy comes back as it was iff the fields that are selected and the status do. -/
theorem loaded_eq_iff {s : Row → Int} {iop iop' : IOProxyNode} :
    loaded s iop = iop' ↔ iop.row = iop'.row ∧ s iop'.row = iop'.status := by
  constructor
  · rintro rfl
    exact ⟨rfl, rfl⟩
  · rintro ⟨hrow, hs⟩
    rw [← hrow] at hs
    cases iop
    cases iop'
    simp_all [loaded, IOProxyNode.row]

/-- **The list of proxies survives a restart** iff for every proxy the last request and the last one
that reached the datastore ask for the same, and its status is read as it was. -/
theorem proxy_list_survives_iff (db : Store) (rows rows' : List Row) (s s' : Row → Int)
    (requests : List Request) (hrows : Selects db rows)
    (hrows' : Selects (requests.foldl serve (init_ioproxy_list db rows s)).db rows') :
    (init_ioproxy_list (requests.foldl serve (init_ioproxy_list db rows s)).db rows' s').live_ioproxy
        = (requests.foldl serve (init_ioproxy_list db rows s)).live_ioproxy ↔
      ∀ uuid,
        (entryAfter uuid (db.doc uuid) (requests.filter Request.done)).map IOProxyNode.row =
            (entryAfter uuid ((db.doc uuid).map (loaded s)) requests).map IOProxyNode.row ∧
          ∀ iop, entryAfter uuid ((db.doc uuid).map (loaded s)) requests = some iop →
            s' iop.row = iop.status := by
  rw [funext_iff]
  refine forall_congr' fun uuid => ?_
  rw [init_live_ioproxy hrows', serve_live_ioproxy, serve_doc, init_live_ioproxy hrows]
  change (entryAfter uuid (db.doc uuid) _).map (loaded s') = _ ↔ _
  cases entryAfter uuid (db.doc uuid) (requests.filter Request.done) with
  | none =>
      cases entryAfter uuid ((db.doc uuid).map (loaded s)) requests with
      | none => simp
      | some iop => simp
  | some iop =>
      cases entryAfter uuid ((db.doc uuid).map (loaded s)) requests with
      | none => simp
      | some iop' => simp [loaded_eq_iff]

/-- A bucket without proxies. -/
def emptyStore : Store where
  doc := fun _ => none
  keyed := fun _ _ h => nomatch h

/-- An empty bucket gives no rows. -/
theorem selects_emptyStore : Selects emptyStore [] := by
  intro row
  constructor
  · intro h
    cases h
  · rintro ⟨uuid, iop, h, -⟩
    cases h

/-- A proxy. -/
def oneProxy : IOProxyNode := ⟨9095, 9096, "10.0.0.1", "iop", Running, "a", "1"⟩

/-- The bucket with a document for this proxy gives one row. -/
theorem selects_oneProxy (db : Store) (hdb : ∀ uuid, db.doc uuid = none) :
    Selects (db.upsert oneProxy) [oneProxy.row] := by
  intro row
  constructor
  · intro h
    rw [List.mem_singleton] at h
    refine ⟨oneProxy.uuid, oneProxy, ?_, h.symm⟩
    rw [upsert_doc, if_pos rfl]
  · rintro ⟨uuid, iop, h, rfl⟩
    rw [upsert_doc] at h
    split at h
    · cases h
      exact List.mem_singleton_self _
    · rw [hdb] at h
      cases h

/-- A proxy is added and its document stored; the status is read as it was. -/
theorem proxy_list_survives_oneProxy :
    (init_ioproxy_list (add (init_ioproxy_list emptyStore [] fun _ => 1) oneProxy true).db
        [oneProxy.row] fun _ => 0).live_ioproxy =
      (add (init_ioproxy_list emptyStore [] fun _ => 1) oneProxy true).live_ioproxy := by
  refine (proxy_list_survives_iff emptyStore [] [oneProxy.row] (fun _ => 1) (fun _ => 0)
    [.add oneProxy true] selects_emptyStore (selects_oneProxy _ fun _ => rfl)).mpr fun uuid => ?_
  by_cases huuid : "a" = uuid
  · subst huuid
    refine ⟨rfl, fun iop hiop => ?_⟩
    cases hiop
    rfl
  · have hnone : entryAfter uuid ((emptyStore.doc uuid).map (loaded fun _ => 1))
        [.add oneProxy true] = none := if_neg huuid
    rw [hnone]
    refine ⟨congrArg _ (if_neg huuid), fun iop hiop => ?_⟩
    cases hiop

/-- A proxy is added and its document stored; the status is read as stopped. -/
theorem running_proxy_loses_status :
    ¬ ∀ (db : Store) (rows rows' : List Row) (s s' : Row → Int) (requests : List Request),
      Selects db rows → Selects (requests.foldl serve (init_ioproxy_list db rows s)).db rows' →
      (init_ioproxy_list (requests.foldl serve (init_ioproxy_list db rows s)).db rows'
          s').live_ioproxy =
        (requests.foldl serve (init_ioproxy_list db rows s)).live_ioproxy := by
  intro hall
  have hsame := congrFun (hall emptyStore [] [oneProxy.row] (fun _ => 1) (fun _ => 1)
    [.add oneProxy true] selects_emptyStore (selects_oneProxy _ fun _ => rfl)) "a"
  have hstatus := congrArg (Option.map IOProxyNode.status) hsame
  revert hstatus
  decide

end Gvds.IOProxyMgr
