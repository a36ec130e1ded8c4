/-
Module: Gvds.Proofs.KnownManagers
Layer: Proofs
Purpose: The managers that a client knows, over all sequences of measurements and requests for the
  center list. The node list stays filled with the centers of the last valid list, unless a
  measurement finds the text fail in the place of a list, which empties it, or two centers have one
  name, of which one is dropped; and a list with other centers waits for the next measurement.
Imports: Gvds.Lib.Machine, Gvds.Client.OptNode, Mathlib.Data.List.Perm.Subperm
Trusted boundary: as Gvds.Client.OptNode
Main exports: Holds, Remembers, Keeps, step_remembers, manager_list_is_kept
-/
import Gvds.Lib.Machine
import Gvds.Client.OptNode
import Mathlib.Data.List.Perm.Subperm

namespace Gvds.OptNode

open Mconf (CenterInfo)

/-- A node without the ID of its center, which is not always written. -/
def place (node : struct_Node) : String × String × String :=
  (node.location, node.ip_addr, node.port)

/-- The nodes of a list of centers. -/
def places (l : CenterList) : List (String × String × String) :=
  l.info.centerID.map fun id => place (nodeOf l.info id id)

/-- Each center of the list is in the buffer exactly once. -/
def Holds (buf_delay : List struct_Node) (l : CenterList) : Prop :=
  ∀ p ∈ places l, (buf_delay.map place).count p = (places l).count p

/-! ### Refresh rounds -/

/-- The client with the last valid list that it has received, and whether it has known a manager. -/
structure Refreshed where
  node : SelectNode
  last : Option CenterList
  known : Bool

/-- The parts of a round. -/
inductive Action where
  | measure (rtt : String → Nat) (myvec : List (String × Nat)) (response : Text)
  | fetch (response : Text)

/-- The list that a response brings. -/
def Text.received (last : Option CenterList) : Text → Option CenterList
  | .list l => some l
  | _ => last

/-- The client after `SelectNode::start`. -/
def start (response : Text) : Refreshed where
  node := SelectNode.begin response
  last := response.received none
  known := (SelectNode.begin response).buf_delay ≠ []

/-- One step of the client. -/
def step (s : Refreshed) : Action → Option Refreshed
  | .measure rtt myvec response =>
      (measure s.node rtt myvec response).map fun node =>
        { s with node := node, known := s.known || node.buf_delay ≠ [] }
  | .fetch response =>
      some { s with node := getCenterInformation s.node response
                    last := response.received s.last }

/-- A client that has known a manager has one to ask, and its buffer holds each center of the last
valid list exactly once. -/
def Remembers (s : Refreshed) : Prop :=
  s.known = true → s.node.buf_delay ≠ [] ∧ get_manager s.node ≠ [] ∧
    ∀ l, s.last = some l → Holds s.node.buf_delay l

/-- A measurement finds no `fail` once a manager is known, and no two centers of one name; a list
that is received has the centers that are in the buffer. -/
def Keeps (s : Refreshed) : Action → Prop
  | .measure rtt myvec response =>
      ∀ node, measure s.node rtt myvec response = some node →
        match s.node.center_Information with
        | .empty => True
        | .fail => s.known = false
        | .list l => (names l.info).Nodup
  | .fetch (.list l) => s.known = true → Holds s.node.buf_delay l
  | .fetch _ => True

/-- The cached list is the last valid one, and a buffer with nodes is one that has been known. -/
structure Cached (s : Refreshed) : Prop where
  list : ∀ l, s.node.center_Information = .list l → s.last = some l
  known : s.node.buf_delay ≠ [] → s.known = true

/-- The endpoint is empty only where there is no node. -/
theorem get_manager_ne_nil {s : SelectNode} : get_manager s ≠ [] ↔ s.buf_delay ≠ [] := by
  unfold get_manager
  cases s.buf_delay with
  | nil => simp
  | cons center rest => simp [http]

/-- What is known where the buffer has a node: only the list remains to be compared. -/
theorem remembers_iff {s : Refreshed} (hbuf : s.node.buf_delay ≠ []) (hknown : s.known = true) :
    Remembers s ↔ ∀ l, s.last = some l → Holds s.node.buf_delay l := by
  constructor
  · intro h
    exact (h hknown).2.2
  · intro h _
    exact ⟨hbuf, get_manager_ne_nil.mpr hbuf, h⟩

/-! ### What a measurement writes -/

/-- `getmapIdName` finds a center with the name, if there is one. -/
theorem getmapIdName_spec {info : CenterInfo} {id name : String} (hid : id ∈ info.centerID)
    (hname : (info.centerName id).getD "" = name) :
    getmapIdName info name ∈ info.centerID ∧
      (info.centerName (getmapIdName info name)).getD "" = name := by
  have hfound : (info.centerID.find? fun i => (info.centerName i).getD "" = name).isSome := by
    rw [List.find?_isSome]
    exact ⟨id, hid, by simpa using hname⟩
  obtain ⟨i, hi⟩ := Option.isSome_iff_exists.mp hfound
  unfold getmapIdName
  rw [hi]
  exact ⟨List.mem_of_find?_eq_some hi, by simpa using List.find?_some hi⟩

/-- The name of a center leads back to it if the names are different. -/
theorem getmapIdName_of_mem {info : CenterInfo} (h : (names info).Nodup) {id : String}
    (hid : id ∈ info.centerID) : getmapIdName info ((info.centerName id).getD "") = id := by
  obtain ⟨hmem, hname⟩ := getmapIdName_spec hid rfl
  exact List.inj_on_of_nodup_map h hmem hid hname

/-- The node that `write_rtt` writes for a name. -/
def nodeOfName (info : CenterInfo) (name : String) : struct_Node :=
  nodeOf info (getmapIdName info name) ""

/-- The buffer after the measurement of a list: one node for each name. -/
theorem measure_list {s s' : SelectNode} {rtt : String → Nat} {myvec : List (String × Nat)}
    {response : Text} {l : CenterList} (htext : s.center_Information = .list l)
    (h : measure s rtt myvec response = some s') :
    s'.center_Information = .list l ∧
      s'.buf_delay.Perm ((names l.info).dedup.map (nodeOfName l.info)) := by
  unfold measure getRTT at h
  rw [htext] at h
  dsimp only at h
  split at h
  · rename_i hsorted
    cases h
    unfold write_rtt
    rw [htext]
    refine ⟨rfl, ?_⟩
    have hperm := hsorted.1.map fun p : String × Nat => nodeOfName l.info p.1
    rw [List.map_map] at hperm
    exact hperm
  · cases h

/-- The measurement of the text `fail` empties the buffer. -/
theorem measure_fail {s s' : SelectNode} {rtt : String → Nat} {myvec : List (String × Nat)}
    {response : Text} (htext : s.center_Information = .fail)
    (h : measure s rtt myvec response = some s') :
    s'.center_Information = .fail ∧ s'.buf_delay = [] := by
  unfold measure getRTT at h
  rw [htext] at h
  dsimp only at h
  split at h
  · rename_i hsorted
    cases h
    have hnil : myvec = [] := List.perm_nil.mp hsorted.1
    unfold write_rtt
    rw [htext, hnil]
    exact ⟨rfl, rfl⟩
  · cases h

/-- Where no text is cached a measurement changes nothing. -/
theorem measure_empty {s s' : SelectNode} {rtt : String → Nat} {myvec : List (String × Nat)}
    {response : Text} (htext : s.center_Information = .empty)
    (h : measure s rtt myvec response = some s') : s' = s := by
  unfold measure getRTT at h
  rw [htext] at h
  exact (Option.some.inj h).symm

/-- There is a node for some name. -/
theorem nodes_ne_nil (l : CenterList) :
    (names l.info).dedup.map (nodeOfName l.info) ≠ [] := by
  intro h
  have hnames : names l.info = [] := (List.dedup_eq_nil _).mp (List.map_eq_nil_iff.mp h)
  exact l.nonempty (List.map_eq_nil_iff.mp hnames)

/-- One node for each name is one for each center iff the names are different. -/
theorem holds_names_iff {buf_delay : List struct_Node} {l : CenterList}
    (hbuf : buf_delay.Perm ((names l.info).dedup.map (nodeOfName l.info))) :
    Holds buf_delay l ↔ (names l.info).Nodup := by
  constructor
  · intro h
    have hsub : (places l).Subperm (buf_delay.map place) :=
      List.subperm_ext_iff.mpr fun p hp => (h p hp).ge
    have hlen := hsub.length_le
    rw [List.length_map, hbuf.length_eq, List.length_map] at hlen
    have hsame : (names l.info).dedup = names l.info := by
      refine (List.dedup_sublist _).eq_of_length_le ?_
      have hlength : (names l.info).length = (places l).length := by simp [names, places]
      rw [hlength]
      exact hlen
    rw [← hsame]
    exact List.nodup_dedup _
  · intro hnodup p _
    have hplaces : (((names l.info).dedup.map (nodeOfName l.info)).map place) = places l := by
      rw [hnodup.dedup]
      unfold names places
      rw [List.map_map, List.map_map]
      refine List.map_congr_left fun id hid => ?_
      simp only [Function.comp_apply, nodeOfName, getmapIdName_of_mem hnodup hid]
      rfl
    rw [(hbuf.map place).count_eq, hplaces]

/-! ### One step -/

/-- The text that is cached after a request. -/
theorem getCenterInformation_text (s : SelectNode) (response : Text) :
    (getCenterInformation s response).center_Information = response ∨
      getCenterInformation s response = s ∧ response = .fail ∧ s.center_Information = .empty := by
  unfold getCenterInformation
  split
  · rename_i htext
    exact .inr ⟨rfl, rfl, htext⟩
  · exact .inl rfl

/-- A request does not touch the buffer. -/
theorem getCenterInformation_buf (s : SelectNode) (response : Text) :
    (getCenterInformation s response).buf_delay = s.buf_delay := by
  unfold getCenterInformation
  split <;> rfl

/-- The cache stays what it is. -/
theorem Cached.step {s s' : Refreshed} {a : Action} (h : Cached s)
    (hstep : OptNode.step s a = some s') : Cached s' := by
  cases a with
  | measure rtt myvec response =>
      simp only [OptNode.step, Option.map_eq_some_iff] at hstep
      obtain ⟨node, hnode, rfl⟩ := hstep
      refine ⟨fun l hl => ?_, fun hbuf => by simp [hbuf]⟩
      cases htext : s.node.center_Information with
      | empty =>
          rw [measure_empty htext hnode] at hl
          exact h.list l hl
      | fail =>
          have hfail := (measure_fail htext hnode).1
          rw [hl] at hfail
          cases hfail
      | list l' =>
          have hlist := (measure_list htext hnode).1
          rw [hl] at hlist
          cases hlist
          exact h.list l htext
  | fetch response =>
      cases hstep
      refine ⟨fun l hl => ?_, fun hbuf => h.known ?_⟩
      · dsimp only at hl ⊢
        rcases getCenterInformation_text s.node response with htext | ⟨hsame, -, htext⟩
        · rw [hl] at htext
          rw [← htext]
          rfl
        · rw [hsame, htext] at hl
          cases hl
      · dsimp only at hbuf
        rw [getCenterInformation_buf] at hbuf
        exact hbuf

/-- A step leads to a client that remembers its managers iff it meets the condition. -/
theorem step_remembers {s s' : Refreshed} {a : Action} (hcached : Cached s) (h : Remembers s)
    (hstep : step s a = some s') : Remembers s' ↔ Keeps s a := by
  cases a with
  | measure rtt myvec response =>
      simp only [step, Option.map_eq_some_iff] at hstep
      obtain ⟨node, hnode, rfl⟩ := hstep
      have hkeeps : Keeps s (.measure rtt myvec response) ↔
          match s.node.center_Information with
          | .empty => True
          | .fail => s.known = false
          | .list l => (names l.info).Nodup :=
        ⟨fun hk => hk node hnode, fun hk _ _ => hk⟩
      rw [hkeeps]
      cases htext : s.node.center_Information with
      | empty =>
          rw [measure_empty htext hnode]
          refine ⟨fun _ => trivial, fun _ hknown => h ?_⟩
          rcases Bool.or_eq_true_iff.mp hknown with hk | hbuf
          · exact hk
          · exact hcached.known (of_decide_eq_true hbuf)
      | fail =>
          have hnil := (measure_fail htext hnode).2
          constructor
          · intro h'
            by_contra hknown
            refine (h' ?_).1 hnil
            simp [Bool.not_eq_false _ ▸ hknown]
          · intro hunknown hknown
            simp [hunknown, hnil] at hknown
      | list l =>
          have hbuf := (measure_list htext hnode).2
          have hne : node.buf_delay ≠ [] := fun hnil =>
            nodes_ne_nil l (List.nil_perm.mp (hnil ▸ hbuf))
          rw [remembers_iff hne (by simp [hne])]
          dsimp only
          rw [← holds_names_iff hbuf]
          have hlast := hcached.list l htext
          constructor
          · intro h'
            exact h' l hlast
          · intro hholds l' hl'
            rw [hlast] at hl'
            cases hl'
            exact hholds
  | fetch response =>
      cases hstep
      have hsame : ∀ last, Remembers
          { s with node := getCenterInformation s.node response, last := last } ↔
          (s.known = true → s.node.buf_delay ≠ [] ∧ get_manager s.node ≠ [] ∧
            ∀ l, last = some l → Holds s.node.buf_delay l) := by
        intro last
        simp only [Remembers, get_manager_ne_nil, getCenterInformation_buf]
      rw [hsame]
      cases response with
      | empty => exact ⟨fun _ => trivial, fun _ => h⟩
      | fail => exact ⟨fun _ => trivial, fun _ => h⟩
      | list l =>
          constructor
          · intro h' hknown
            exact (h' hknown).2.2 l rfl
          · intro hholds hknown
            refine ⟨(h hknown).1, (h hknown).2.1, fun l' hl' => ?_⟩
            cases hl'
            exact hholds hknown

/-! ### Runs -/

/-- The first list is in the buffer at once. -/
theorem start_remembers (response : Text) : Cached (start response) ∧ Remembers (start response) := by
  cases response with
  | empty => exact ⟨⟨fun l hl => (by cases hl), fun hbuf => absurd rfl hbuf⟩, fun hk => (by cases hk)⟩
  | fail => exact ⟨⟨fun l hl => (by cases hl), fun hbuf => absurd rfl hbuf⟩, fun hk => (by cases hk)⟩
  | list l =>
      have hne : (start (.list l)).node.buf_delay ≠ [] := fun hnil =>
        l.nonempty (List.map_eq_nil_iff.mp hnil)
      have hknown : (start (.list l)).known = true := decide_eq_true hne
      refine ⟨⟨fun l' hl' => ?_, fun _ => hknown⟩, ?_⟩
      · cases hl'
        rfl
      · rw [remembers_iff hne hknown]
        intro l' hl'
        cases hl'
        intro p _
        change ((l.info.centerID.map fun id => nodeOf l.info id id).map place).count p = _
        rw [List.map_map]
        rfl

/-- **A client does not forget its managers** along a run iff all its steps meet the condition. -/
theorem manager_list_is_kept (response : Text) (as : List Action) :
    Machine.Always step Remembers (start response) as ↔
      Machine.Guarded step Keeps (start response) as := by
  have hinv : ∀ s a s', Cached s → step s a = some s' → Cached s' :=
    fun _ _ _ h hstep => h.step hstep
  refine Machine.always_iff_guarded hinv
    (fun _ _ _ hcached h hstep => step_remembers hcached h hstep) (fun s a hnone => ?_)
    (start_remembers response).1 (start_remembers response).2
  cases a with
  | measure rtt myvec response =>
      intro node hnode
      rw [step, hnode] at hnone
      cases hnone
  | fetch response => cases hnone

/-- A registry with one center. -/
def oneCenter : CenterList where
  info := Mconf.CenterInfo.empty.put ⟨"1", "10.0.0.1", "9090", "Beijing"⟩
  nonempty := List.cons_ne_nil _ _
  nodup := List.nodup_singleton _

/-- A client that has started with one center gets the answer `fail`, and forgets it with the next
measurement. -/
theorem failed_answer_empties_managers :
    ¬ ∀ (response : Text) (as : List Action), Machine.Always step Remembers (start response) as := by
  intro hall
  have halways := hall (.list oneCenter) [.fetch .fail, .measure (fun _ => 0) [] .empty]
  exact (((halways.2 _ rfl).2 _ rfl) rfl).1 rfl

end Gvds.OptNode
