/-
Module: Gvds.Proofs.ReachableCenters
Layer: Proofs
Purpose: The order in which a measurement stores the centers. It goes by the time of the probes
  alone: the centers that answer come first, in the order of their times, exactly where every probe
  that fails takes longer than every one that is answered. Of centers with one name the time of the
  last one ranks the first one.
Imports: Gvds.Lib.Ranking, Gvds.Proofs.KnownManagers
Trusted boundary: as Gvds.Client.OptNode
Main exports: Precedes, Ranked, Told, told_iff_of_nodup, answering_centers_come_first_iff,
  refused_connection_comes_first
-/
import Gvds.Lib.Ranking
import Gvds.Proofs.KnownManagers

namespace Gvds.OptNode

open Mconf (CenterInfo)

/-- Of two centers the one may stand before the other: if the other answers, so does the one, and in
no longer time. -/
def Precedes (probe probe' : Probe) : Prop :=
  probe'.answered = true → probe.answered = true ∧ probe.elapsed ≤ probe'.elapsed

/-- The center of a node that a measurement has stored: the first one with its name. -/
def centerOf (info : CenterInfo) (node : struct_Node) : String := getmapIdName info node.location

/-- The centers that answer precede those that do not, in the order of their times; and the node
that `get_manager` takes is one of them, if there is one. -/
structure Ranked (info : CenterInfo) (probes : String → Probe) (buf_delay : List struct_Node) :
    Prop where
  sorted : buf_delay.Pairwise fun node node' =>
    Precedes (probes (centerOf info node)) (probes (centerOf info node'))
  picked : (∃ id ∈ info.centerID, (probes id).answered = true) →
    ∃ node, buf_delay.head? = some node ∧ (probes (centerOf info node)).answered = true

/-- The time that stands under a name: that of the last center with it. -/
def timeOf (info : CenterInfo) (rtt : String → Nat) (name : String) : Nat :=
  ((Table.fill (fun id => (info.centerName id).getD "") info.centerID name).map rtt).getD 0

/-- The times tell the centers: of two names with different times, or with one, the first center of
the faster one may stand before that of the other; and if a center answers, so does one that is the
first of its name. -/
def Told (info : CenterInfo) (probes : String → Probe) : Prop :=
  (∀ name ∈ names info, ∀ name' ∈ names info, name ≠ name' →
    timeOf info (fun id => subgetRTT_rest (probes id)) name ≤
      timeOf info (fun id => subgetRTT_rest (probes id)) name' →
    Precedes (probes (getmapIdName info name)) (probes (getmapIdName info name'))) ∧
  ((∃ id ∈ info.centerID, (probes id).answered = true) →
    ∃ name ∈ names info, (probes (getmapIdName info name)).answered = true)

section Names

variable {info : CenterInfo} {probes : String → Probe}

/-! ### Names and centers -/

theorem mem_names {name : String} :
    name ∈ names info ↔ ∃ id ∈ info.centerID, (info.centerName id).getD "" = name := List.mem_map

/-- The center that is found for a name has it. -/
theorem name_getmapIdName {name : String} (hname : name ∈ names info) :
    (info.centerName (getmapIdName info name)).getD "" = name := by
  obtain ⟨id, hid, hidname⟩ := mem_names.mp hname
  exact (getmapIdName_spec hid hidname).2

/-- A node that is stored for a name leads back to its center. -/
theorem centerOf_nodeOfName {name : String} (hname : name ∈ names info) :
    centerOf info (nodeOfName info name) = getmapIdName info name := by
  change getmapIdName info ((info.centerName (getmapIdName info name)).getD "") = _
  rw [name_getmapIdName hname]

/-- If the names are different, the time under the name of a center is its own. -/
theorem timeOf_of_nodup (hnames : (names info).Nodup) (rtt : String → Nat) {id : String}
    (hid : id ∈ info.centerID) : timeOf info rtt ((info.centerName id).getD "") = rtt id := by
  unfold timeOf
  rw [Table.fill_of_mem hid fun i hi hsame => List.inj_on_of_nodup_map hnames hi hid hsame]
  rfl

/-- If the names are different, the times tell the centers iff every probe that fails takes longer
than every one that is answered. -/
theorem told_iff_of_nodup (hnames : (names info).Nodup) :
    Told info probes ↔ ∀ id ∈ info.centerID, ∀ id' ∈ info.centerID,
      (probes id).answered = true → (probes id').answered = false →
        (probes id).elapsed < (probes id').elapsed := by
  constructor
  · rintro ⟨htold, -⟩ id hid id' hid' hanswered hfailed
    by_contra hslow
    have hne : (info.centerName id').getD "" ≠ (info.centerName id).getD "" := by
      intro hsame
      have heq : id' = id := List.inj_on_of_nodup_map hnames hid' hid hsame
      rw [heq, hanswered] at hfailed
      cases hfailed
    have hfirst := htold _ (mem_names.mpr ⟨id', hid', rfl⟩) _ (mem_names.mpr ⟨id, hid, rfl⟩) hne
    rw [timeOf_of_nodup hnames _ hid, timeOf_of_nodup hnames _ hid', getmapIdName_of_mem hnames hid,
      getmapIdName_of_mem hnames hid'] at hfirst
    have hboth := (hfirst (Nat.not_lt.mp hslow) hanswered).1
    rw [hfailed] at hboth
    cases hboth
  · intro h
    constructor
    · intro name hname name' hname' _ hle
      obtain ⟨id, hid, rfl⟩ := mem_names.mp hname
      obtain ⟨id', hid', rfl⟩ := mem_names.mp hname'
      rw [timeOf_of_nodup hnames _ hid, timeOf_of_nodup hnames _ hid'] at hle
      rw [getmapIdName_of_mem hnames hid, getmapIdName_of_mem hnames hid']
      intro hanswered
      refine ⟨?_, hle⟩
      by_contra hfailed
      exact absurd (h id' hid' id hid hanswered (by simpa using hfailed)) (Nat.not_lt.mpr hle)
    · rintro ⟨id, hid, hanswered⟩
      refine ⟨_, mem_names.mpr ⟨id, hid, rfl⟩, ?_⟩
      rwa [getmapIdName_of_mem hnames hid]

end Names

section Measurement

variable {l : CenterList} {probes : String → Probe} {buf_delay : List struct_Node}
  {response : Text}

/-! ### A measurement -/

/-- The names with their times. -/
def times (info : CenterInfo) (rtt : String → Nat) : List (String × Nat) :=
  (names info).dedup.map fun name => (name, timeOf info rtt name)

/-- A measurement of a list stores the first center of each name, in some order of the times. -/
theorem measure_list_iff {rtt : String → Nat} {myvec : List (String × Nat)} {s' : SelectNode} :
    measure ⟨.list l, buf_delay⟩ rtt myvec response = some s' ↔
      Ranking Prod.snd (times l.info rtt) myvec ∧
        s' = ⟨.list l, myvec.map fun p => nodeOfName l.info p.1⟩ := by
  unfold measure
  change (if myvec.Perm (times l.info rtt) ∧ myvec.Pairwise (fun p q => p.2 ≤ q.2) then _
    else none) = _ ↔ _
  by_cases hranking : myvec.Perm (times l.info rtt) ∧ myvec.Pairwise (fun p q => p.2 ≤ q.2)
  · rw [if_pos hranking]
    constructor
    · intro h
      cases h
      exact ⟨hranking, rfl⟩
    · rintro ⟨-, rfl⟩
      rfl
  · rw [if_neg hranking]
    constructor
    · intro h
      cases h
    · intro h
      exact absurd h.1 hranking

/-- The nodes of an ordering are in order iff the centers of its names are. -/
theorem sorted_map_iff {rtt : String → Nat} {myvec : List (String × Nat)}
    (hperm : myvec.Perm (times l.info rtt)) :
    ((myvec.map fun p => nodeOfName l.info p.1).Pairwise fun node node' =>
        Precedes (probes (centerOf l.info node)) (probes (centerOf l.info node'))) ↔
      myvec.Pairwise fun p q => Precedes (probes (getmapIdName l.info p.1))
        (probes (getmapIdName l.info q.1)) := by
  have hname : ∀ p ∈ myvec, p.1 ∈ names l.info := by
    intro p hp
    obtain ⟨name, hname, rfl⟩ := List.mem_map.mp (hperm.mem_iff.mp hp)
    exact List.mem_dedup.mp hname
  rw [List.pairwise_map]
  refine List.Pairwise.iff_of_mem fun {p q} hp hq => ?_
  rw [centerOf_nodeOfName (hname p hp), centerOf_nodeOfName (hname q hq)]

theorem nodup_times (info : CenterInfo) (rtt : String → Nat) : (times info rtt).Nodup := by
  refine (List.nodup_dedup _).map ?_
  intro name name' h
  exact congrArg Prod.fst h

theorem mem_times {info : CenterInfo} {rtt : String → Nat} {p : String × Nat} :
    p ∈ times info rtt ↔ p.1 ∈ names info ∧ p.2 = timeOf info rtt p.1 := by
  unfold times
  rw [List.mem_map]
  constructor
  · rintro ⟨name, hname, rfl⟩
    exact ⟨List.mem_dedup.mp hname, rfl⟩
  · rintro ⟨hname, htime⟩
    exact ⟨p.1, List.mem_dedup.mpr hname, by rw [← htime]⟩

/-- Every order of the times is one of the centers iff the times tell these. -/
theorem forall_sorted_iff (l : CenterList) (rtt : String → Nat) (probes : String → Probe) :
    (∀ myvec, Ranking Prod.snd (times l.info rtt) myvec →
      (myvec.map fun p => nodeOfName l.info p.1).Pairwise fun node node' =>
        Precedes (probes (centerOf l.info node)) (probes (centerOf l.info node'))) ↔
      ∀ name ∈ names l.info, ∀ name' ∈ names l.info, name ≠ name' →
        timeOf l.info rtt name ≤ timeOf l.info rtt name' →
        Precedes (probes (getmapIdName l.info name)) (probes (getmapIdName l.info name')) := by
  have hpairs : (∀ myvec, Ranking Prod.snd (times l.info rtt) myvec →
      myvec.Pairwise fun p q => Precedes (probes (getmapIdName l.info p.1))
        (probes (getmapIdName l.info q.1))) ↔ _ :=
    Ranking.forall_ranking_iff (nodup_times l.info rtt)
  constructor
  · intro h name hname name' hname' hne hle
    have hall := hpairs.mp fun myvec hranking => (sorted_map_iff hranking.1).mp (h myvec hranking)
    exact hall (name, timeOf l.info rtt name) (mem_times.mpr ⟨hname, rfl⟩)
      (name', timeOf l.info rtt name') (mem_times.mpr ⟨hname', rfl⟩)
      (fun heq => hne (congrArg Prod.fst heq)) hle
  · intro h myvec hranking
    refine (sorted_map_iff hranking.1).mpr (hpairs.mpr ?_ myvec hranking)
    intro p hp q hq hne hle
    obtain ⟨hname, htime⟩ := mem_times.mp hp
    obtain ⟨hname', htime'⟩ := mem_times.mp hq
    refine h p.1 hname q.1 hname' (fun hsame => hne ?_) (htime ▸ htime' ▸ hle)
    exact Prod.ext hsame (by rw [htime, htime', hsame])

/-- The first node of an order of the centers is one that answers, if one of the first centers of
the names does. -/
theorem exists_head {rtt : String → Nat} {myvec : List (String × Nat)}
    (hperm : myvec.Perm (times l.info rtt))
    (hsorted : (myvec.map fun p => nodeOfName l.info p.1).Pairwise fun node node' =>
      Precedes (probes (centerOf l.info node)) (probes (centerOf l.info node')))
    {name : String} (hname : name ∈ names l.info)
    (hanswered : (probes (getmapIdName l.info name)).answered = true) :
    ∃ node, (myvec.map fun p => nodeOfName l.info p.1).head? = some node ∧
      (probes (centerOf l.info node)).answered = true := by
  have hmem : (name, timeOf l.info rtt name) ∈ myvec :=
    hperm.mem_iff.mpr (mem_times.mpr ⟨hname, rfl⟩)
  cases myvec with
  | nil => cases hmem
  | cons p rest =>
      refine ⟨nodeOfName l.info p.1, rfl, ?_⟩
      rcases List.mem_cons.mp hmem with heq | hrest
      · rw [← heq, centerOf_nodeOfName hname]
        exact hanswered
      · have hbefore := (List.pairwise_cons.mp hsorted).1 _
          (List.mem_map_of_mem hrest)
        rw [centerOf_nodeOfName hname] at hbefore
        exact (hbefore hanswered).1

/-- **Unreachable centers rank last**: after every measurement the centers that answered come before
those that did not, in the order of their times, and `get_manager` takes one that answered, iff the
times tell the centers. -/
theorem answering_centers_come_first_iff (l : CenterList) (buf_delay : List struct_Node)
    (probes : String → Probe) (response : Text) :
    (∀ myvec s', measure ⟨.list l, buf_delay⟩ (fun id => subgetRTT_rest (probes id)) myvec response =
        some s' → Ranked l.info probes s'.buf_delay) ↔ Told l.info probes := by
  unfold Told
  rw [← forall_sorted_iff l _ probes]
  constructor
  · intro h
    have hranked : ∀ myvec, Ranking Prod.snd (times l.info fun id => subgetRTT_rest (probes id))
        myvec → Ranked l.info probes (myvec.map fun p => nodeOfName l.info p.1) := by
      intro myvec hranking
      exact h myvec _ (measure_list_iff.mpr ⟨hranking, rfl⟩)
    refine ⟨fun myvec hranking => (hranked myvec hranking).sorted, fun hsome => ?_⟩
    have hranking := Ranking.ranking_mergeSort Prod.snd
      (times l.info fun id => subgetRTT_rest (probes id))
    obtain ⟨node, hnode, hanswered⟩ := (hranked _ hranking).picked hsome
    obtain ⟨p, hp, rfl⟩ := List.mem_map.mp (List.mem_of_mem_head? hnode)
    have hname := (mem_times.mp (hranking.1.mem_iff.mp hp)).1
    rw [centerOf_nodeOfName hname] at hanswered
    exact ⟨p.1, hname, hanswered⟩
  · rintro ⟨hsorted, hpicked⟩ myvec s' hmeasure
    obtain ⟨hranking, rfl⟩ := measure_list_iff.mp hmeasure
    refine ⟨hsorted myvec hranking, fun hsome => ?_⟩
    obtain ⟨name, hname, hanswered⟩ := hpicked hsome
    exact exists_head hranking.1 (hsorted myvec hranking) hname hanswered

end Measurement

/-- Two centers, of which the first refuses the connection. -/
def twoCenters : CenterList where
  info := (Mconf.CenterInfo.empty.put ⟨"1", "10.0.0.1", "9090", "Beijing"⟩).put
    ⟨"2", "10.0.0.2", "9090", "Jinan"⟩
  nonempty := List.cons_ne_nil _ _
  nodup := by decide

/-- The refusal comes within 100 microseconds, the answer of the other center takes 5000. -/
theorem refused_connection_comes_first :
    ¬ ∀ (l : CenterList) (buf_delay : List struct_Node) (probes : String → Probe) (response : Text)
      (myvec : List (String × Nat)) (s' : SelectNode),
      measure ⟨.list l, buf_delay⟩ (fun id => subgetRTT_rest (probes id)) myvec response = some s' →
      Ranked l.info probes s'.buf_delay := by
  intro hall
  let probes : String → Probe := fun id => if id = "1" then ⟨100, false⟩ else ⟨5000, true⟩
  have hranked := hall twoCenters [] probes .empty [("Beijing", 100), ("Jinan", 5000)] _ rfl
  obtain ⟨node, hnode, hanswered⟩ := hranked.picked ⟨"2", by decide, rfl⟩
  cases hnode
  cases hanswered

end Gvds.OptNode
