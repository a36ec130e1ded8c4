/-
Module: Gvds.Proofs.ReplicaRetention
Layer: Proofs
Purpose: When a page that was written survives somewhere. A center punches the pages of every update
  it hears of out of its own copy. Two updates that cross make both writers punch, and the page is
  lost; as long as the sender of every update still stores the pages that its receiver gives up, no
  written page is lost. Writes that wait for the undelivered updates of other centers on the same
  pages never cross.
Imports: Gvds.Lib.Machine, Gvds.Proofs.ReplicaSteps
Trusted boundary: none
Main exports: Retained, Uncrossed, written_retained, crossing_writes_lost, Separated,
  uncrossed_of_separated
-/
import Gvds.Lib.Machine
import Gvds.Proofs.ReplicaSteps

namespace Gvds.Replica

open SparseFile (Touches)

variable {φ : Type*} [DecidableEq φ]

/-! ### Written and retained pages -/

/-- The action writes into page `p` of file `f`: a write whose range the file system accepts. -/
def Act.WritesPage (f : φ) (p : Nat) : Act φ → Prop
  | .write _ f' off data =>
      f' = f ∧ off + data.length < 2 ^ 63 ∧ Touches pageSize off data.length p
  | .read .. => False
  | .deliver _ => False

/-- Page `p` of file `f` is data at one of the centers, or an update for it is undelivered and its
writer holds the page. -/
def Retained (sp : Space) (s : Centers φ) (f : φ) (p : Nat) : Prop :=
  (∃ c ∈ sp.ioproxys, (s.store c f).data p = true) ∨
    ∃ c ∈ sp.ioproxys, (∃ u ∈ s.queue c, u.file = f ∧ u.targets ≠ [] ∧ PunchedPage u.off u.len p) ∧
      (s.store c f).data p = true

omit [DecidableEq φ] in
/-- The writer of an undelivered update is itself a center that stores the page. -/
theorem retained_iff {sp : Space} {s : Centers φ} {f : φ} {p : Nat} :
    Retained sp s f p ↔ ∃ c ∈ sp.ioproxys, (s.store c f).data p = true := by
  constructor
  · rintro (h | ⟨c, hc, _, hdata⟩)
    · exact h
    · exact ⟨c, hc, hdata⟩
  · exact Or.inl

/-- The next update of a center does not cross a write of its receiver: what the receiver is about
to punch out of its copy is still stored at the sender. -/
def Uncrossed (s : Centers φ) : Act φ → Prop
  | .deliver c => ∀ f off len id ids rest, s.queue c = ⟨f, off, len, id :: ids⟩ :: rest →
      ∀ p, PunchedPage off len p → (s.store id f).data p = true → (s.store c f).data p = true
  | .read .. => True
  | .write .. => True

/-! ### One step -/

/-- Letting one copy grow loses no page of any file. -/
theorem retained_setFile {sp : Space} {s : Centers φ} {c : Nat} {f f' : φ} {g : DataFile} {p : Nat}
    (hg : Grows (s.store c f) g) (h : Retained sp s f' p) :
    Retained sp (s.setFile c f g) f' p := by
  rw [retained_iff] at h ⊢
  obtain ⟨c', hc', hdata⟩ := h
  refine ⟨c', hc', ?_⟩
  by_cases hsame : c' = c ∧ f' = f
  · obtain ⟨rfl, rfl⟩ := hsame
    rw [Centers.setFile_store_self]
    exact hg p hdata
  · rw [Centers.setFile_store_of_ne hsame]
    exact hdata

omit [DecidableEq φ] in
/-- The queues do not matter for what is stored. -/
theorem retained_setQueue {sp : Space} {s : Centers φ} {c : Nat} {q : List (Update φ)} {f : φ}
    {p : Nat} : Retained sp (s.setQueue c q) f p ↔ Retained sp s f p := by
  rw [retained_iff, retained_iff, Centers.setQueue_store]

/-- An update that crosses no write takes no page from the centers as a whole: the sender keeps what
the receiver gives up. -/
theorem retained_deliver {sp : Space} {s t : Centers φ} {c : Nat} {f : φ} {p : Nat}
    (hc : c ∈ sp.ioproxys) (hsound : QueuesSound s) (hok : Uncrossed s (.deliver c))
    (hstep : deliver sp s c = some t) (h : Retained sp s f p) : Retained sp t f p := by
  obtain ⟨f', off, len, rest, hqueue, rfl⟩ | ⟨f', off, len, id, ids, rest, hqueue, hid, rfl⟩ :=
    deliver_cases hstep
  · exact retained_setQueue.mpr h
  · rw [retained_setQueue, retained_iff]
    have hhead : Update.Sound c ⟨f', off, len, id :: ids⟩ :=
      hsound c _ (by rw [hqueue]; exact List.mem_cons_self)
    have hremote : c ≠ id := fun heq => hhead.remote (by rw [heq]; exact List.mem_cons_self)
    have hfits := hhead.fits
    obtain ⟨c', hc', hdata⟩ := retained_iff.mp h
    by_cases hsame : c' = id ∧ f = f'
    · obtain ⟨rfl, rfl⟩ := hsame
      by_cases hpage : PunchedPage off len p
      · -- the receiver gives the page up, the sender has it
        refine ⟨c, hc, ?_⟩
        rw [Centers.setFile_store_of_ne (fun heq => hremote heq.1)]
        exact hok f off len c' ids rest hqueue p hpage hdata
      · refine ⟨c', hc', ?_⟩
        rw [Centers.setFile_store_self]
        exact ((punchHoleLocal_spec (by simp only at hfits; omega)).2.1 p).mpr ⟨hdata, hpage⟩
    · exact ⟨c', hc', by rw [Centers.setFile_store_of_ne hsame]; exact hdata⟩

/-- The step lemma: no step that crosses no write loses a retained page, and every page a write
covers is retained afterwards. -/
theorem retained_step {sp : Space} {s t : Centers φ} {a : Act φ} {f : φ} {p : Nat}
    (hsound : QueuesSound s) (hok : Uncrossed s a) (hstep : step sp s a = some t)
    (h : Retained sp s f p ∨ a.WritesPage f p) : Retained sp t f p := by
  cases stepped_of_step hstep with
  | read mcid f' off len g _ hg =>
      obtain h | hw := h
      · exact retained_setFile hg h
      · exact hw.elim
  | refused mcid f' off data g _ hg hbig =>
      obtain h | hw := h
      · exact retained_setFile hg h
      · exact absurd hw.2.1 hbig
  | written mcid f' off data g q hmcid hg _ _ =>
      rw [retained_setQueue]
      obtain h | hw := h
      · exact retained_setFile (hg.trans (grows_pwrite g off data)) h
      · obtain ⟨rfl, _, htouch⟩ := hw
        refine retained_iff.mpr ⟨mcid, hmcid, ?_⟩
        rw [Centers.setFile_store_self]
        exact SparseFile.pwrite_data.mpr (Or.inr htouch)
  | deliver mcid _ hmcid hdeliver =>
      obtain h | hw := h
      · exact retained_deliver hmcid hsound hok hdeliver h
      · exact hw.elim

/-! ### Runs -/

/-- A page that is retained stays so in every run in which no delivery crosses a write. -/
theorem retained_run {sp : Space} {s t : Centers φ} {as : List (Act φ)} {f : φ} {p : Nat}
    (hsound : QueuesSound s) (hguard : Machine.Guarded (step sp) Uncrossed s as)
    (hrun : Machine.run (step sp) s as = some t) (h : Retained sp s f p) : Retained sp t f p := by
  have hkeep : ∀ s a t, QueuesSound s ∧ Retained sp s f p → Uncrossed s a →
      step sp s a = some t → QueuesSound t ∧ Retained sp t f p :=
    fun s a t hs hok hstep =>
      ⟨queuesSound_step hs.1 hstep, retained_step hs.1 hok hstep (Or.inl hs.2)⟩
  exact (Machine.run_invariant hkeep ⟨hsound, h⟩ hguard hrun).2

/-! ### Writes that wait for each other -/

/-- A write has at least one byte, and touches no page of an update that another center still has to
deliver. -/
def Separated (s : Centers φ) : Act φ → Prop
  | .write c f off data =>
      data ≠ [] ∧ ∀ c', c' ≠ c → ∀ u ∈ s.queue c', u.file = f →
        ∀ p, PunchedPage u.off u.len p → ¬ Touches pageSize off data.length p
  | .read .. => True
  | .deliver _ => True

/-- Where writes are separated, each writer holds the pages of its undelivered updates, and no two
centers have undelivered updates for one page. -/
structure Apart (s : Centers φ) : Prop where
  sound : QueuesSound s
  held : ∀ c, ∀ u ∈ s.queue c, ∀ p, PunchedPage u.off u.len p → (s.store c u.file).data p = true
  disjoint : ∀ c c', c ≠ c' → ∀ u ∈ s.queue c, ∀ u' ∈ s.queue c', u.file = u'.file →
    ∀ p, PunchedPage u.off u.len p → ¬ PunchedPage u'.off u'.len p

/-- A nonempty write punches at the peers exactly the pages it touches. -/
theorem punchedPage_iff_touches {off n p : Nat} (hn : n ≠ 0) :
    PunchedPage off n p ↔ Touches pageSize off n p := by
  unfold PunchedPage Touches pageSize
  omega

/-- Growing one copy keeps the writers' pages. -/
theorem Apart.setFile {s : Centers φ} (h : Apart s) {c : Nat} {f : φ} {g : DataFile}
    (hg : Grows (s.store c f) g) : Apart (s.setFile c f g) where
  sound := h.sound
  held := by
    intro c' u hu p hp
    have hdata := h.held c' u hu p hp
    by_cases hsame : c' = c ∧ u.file = f
    · obtain ⟨rfl, rfl⟩ := hsame
      rw [Centers.setFile_store_self]
      exact hg p hdata
    · rw [Centers.setFile_store_of_ne hsame]
      exact hdata
  disjoint := h.disjoint

/-- A separated write keeps the centers apart. -/
theorem Apart.write {s : Centers φ} (h : Apart s) {c : Nat} {f : φ} {off : Nat} {data : List UInt8}
    {g : DataFile} {q : List (Update φ)} {sp : Space} (hg : Grows (s.store c f) g)
    (hfits : off + data.length < 2 ^ 63) (hsep : Separated s (.write c f off data))
    (hq : q = s.queue c ∨ q = s.queue c ++ [writeUpdate sp c f off data.length]) :
    Apart ((s.setFile c f (g.pwrite off data)).setQueue c q) := by
  obtain ⟨hne, hsep⟩ := hsep
  have hlen : data.length ≠ 0 := fun h0 => hne (List.length_eq_zero_iff.mp h0)
  have hgrown := h.setFile (hg.trans (grows_pwrite g off data))
  -- a queued request is an old one or the new one
  have hmem : ∀ u ∈ q, u ∈ s.queue c ∨ u = writeUpdate sp c f off data.length := by
    intro u hu
    rcases hq with rfl | rfl
    · exact Or.inl hu
    · simpa using hu
  have hnew : ∀ c', c' ≠ c → ∀ u ∈ s.queue c', u.file = f → ∀ p, PunchedPage u.off u.len p →
      ¬ PunchedPage off data.length p := by
    intro c' hc u hu hfile p hp hp'
    exact hsep c' hc u hu hfile p hp ((punchedPage_iff_touches hlen).mp hp')
  refine ⟨hgrown.sound.setQueue fun u hu => ?_, fun c' u hu p hp => ?_, ?_⟩
  · rcases hmem u hu with hu | rfl
    · exact h.sound c u hu
    · exact ⟨sp.not_mem_peers c, hfits⟩
  · by_cases hc : c' = c
    · subst hc
      rw [Centers.setQueue_queue_self] at hu
      rcases hmem u hu with hu | rfl
      · exact hgrown.held c' u hu p hp
      · simp only [writeUpdate] at hp ⊢
        rw [Centers.setQueue_store, Centers.setFile_store_self]
        exact SparseFile.pwrite_data.mpr (Or.inr ((punchedPage_iff_touches hlen).mp hp))
    · rw [Centers.setQueue_queue_of_ne hc] at hu
      exact hgrown.held c' u hu p hp
  · intro c₁ c₂ hc u hu u' hu' hfile p hp hp'
    by_cases hc₁ : c₁ = c
    · subst hc₁
      rw [Centers.setQueue_queue_self] at hu
      rw [Centers.setQueue_queue_of_ne (Ne.symm hc)] at hu'
      rcases hmem u hu with hu | rfl
      · exact h.disjoint c₁ c₂ hc u hu u' hu' hfile p hp hp'
      · exact hnew c₂ (Ne.symm hc) u' hu' hfile.symm p hp' hp
    · rw [Centers.setQueue_queue_of_ne hc₁] at hu
      by_cases hc₂ : c₂ = c
      · subst hc₂
        rw [Centers.setQueue_queue_self] at hu'
        rcases hmem u' hu' with hu' | rfl
        · exact h.disjoint c₁ c₂ hc u hu u' hu' hfile p hp hp'
        · exact hnew c₁ hc u hu hfile p hp hp'
      · rw [Centers.setQueue_queue_of_ne hc₂] at hu'
        exact h.disjoint c₁ c₂ hc u hu u' hu' hfile p hp hp'

omit [DecidableEq φ] in
/-- Dropping a request, or some of its targets, keeps the centers apart. -/
theorem Apart.setQueue {s : Centers φ} (h : Apart s) {c : Nat} {q : List (Update φ)}
    (hq : ∀ u ∈ q, ∃ u₀ ∈ s.queue c, u₀.file = u.file ∧ u₀.off = u.off ∧ u₀.len = u.len ∧
      u.targets ⊆ u₀.targets) : Apart (s.setQueue c q) := by
  have hold : ∀ c', ∀ u ∈ (s.setQueue c q).queue c', ∃ u₀ ∈ s.queue c', u₀.file = u.file ∧
      u₀.off = u.off ∧ u₀.len = u.len ∧ u.targets ⊆ u₀.targets := by
    intro c' u hu
    by_cases hc : c' = c
    · subst hc
      rw [Centers.setQueue_queue_self] at hu
      exact hq u hu
    · rw [Centers.setQueue_queue_of_ne hc] at hu
      exact ⟨u, hu, rfl, rfl, rfl, fun _ hmem => hmem⟩
  refine ⟨fun c' u hu => ?_, fun c' u hu p hp => ?_, ?_⟩
  · obtain ⟨u₀, hu₀, _, hoff, hlen, htargets⟩ := hold c' u hu
    have hsound := h.sound c' u₀ hu₀
    exact ⟨fun hmem => hsound.remote (htargets hmem), by rw [← hoff, ← hlen]; exact hsound.fits⟩
  · obtain ⟨u₀, hu₀, hfile, hoff, hlen, _⟩ := hold c' u hu
    rw [Centers.setQueue_store, ← hfile]
    exact h.held c' u₀ hu₀ p (by rw [hoff, hlen]; exact hp)
  · intro c₁ c₂ hc u hu u' hu' hsame p hp hp'
    obtain ⟨u₀, hu₀, hfile, hoff, hlen, _⟩ := hold c₁ u hu
    obtain ⟨u₀', hu₀', hfile', hoff', hlen', _⟩ := hold c₂ u' hu'
    refine h.disjoint c₁ c₂ hc u₀ hu₀ u₀' hu₀' (by rw [hfile, hfile', hsame]) p ?_ ?_
    · rw [hoff, hlen]
      exact hp
    · rw [hoff', hlen']
      exact hp'

/-- A delivery keeps the centers apart: the receiver has no undelivered update for the pages it
gives up. -/
theorem Apart.deliver {sp : Space} {s t : Centers φ} (h : Apart s) {c : Nat}
    (hstep : Replica.deliver sp s c = some t) : Apart t := by
  obtain ⟨f, off, len, rest, hqueue, rfl⟩ | ⟨f, off, len, id, ids, rest, hqueue, _, rfl⟩ :=
    deliver_cases hstep
  · refine h.setQueue fun u hu => ⟨u, ?_, rfl, rfl, rfl, fun _ hmem => hmem⟩
    rw [hqueue]
    exact List.mem_cons_of_mem _ hu
  · have hmem : (⟨f, off, len, id :: ids⟩ : Update φ) ∈ s.queue c := by
      rw [hqueue]
      exact List.mem_cons_self
    have hhead := h.sound c _ hmem
    have hremote : c ≠ id := fun heq => hhead.remote (by rw [heq]; exact List.mem_cons_self)
    have hfits := hhead.fits
    have hpunched : Apart (s.setFile id f (punchHoleLocal (s.store id f) off len).1) := by
      refine ⟨h.sound, fun c' u hu p hp => ?_, h.disjoint⟩
      have hdata := h.held c' u hu p hp
      by_cases hsame : c' = id ∧ u.file = f
      · obtain ⟨rfl, rfl⟩ := hsame
        rw [Centers.setFile_store_self]
        refine ((punchHoleLocal_spec (by simp only at hfits; omega)).2.1 p).mpr ⟨hdata, ?_⟩
        exact h.disjoint c' c (Ne.symm hremote) u hu _ hmem rfl p hp
      · rw [Centers.setFile_store_of_ne hsame]
        exact hdata
    refine hpunched.setQueue fun u hu => ?_
    rcases List.mem_cons.mp hu with rfl | hu
    · exact ⟨_, hmem, rfl, rfl, rfl, fun _ h' => List.mem_cons_of_mem _ h'⟩
    · refine ⟨u, ?_, rfl, rfl, rfl, fun _ hmem => hmem⟩
      rw [Centers.setFile_queue, hqueue]
      exact List.mem_cons_of_mem _ hu

/-- Every separated step keeps the centers apart. -/
theorem apart_step {sp : Space} {s t : Centers φ} {a : Act φ} (h : Apart s) (hok : Separated s a)
    (hstep : step sp s a = some t) : Apart t := by
  cases stepped_of_step hstep with
  | read mcid f off len g _ hg => exact h.setFile hg
  | refused mcid f off data g _ hg _ => exact h.setFile hg
  | written mcid f off data g q _ hg hfits hq => exact h.write hg hfits hok hq
  | deliver mcid _ _ hdeliver => exact h.deliver hdeliver

/-- In a run whose writes are separated no delivery crosses a write. -/
theorem uncrossed_of_separated {sp : Space} {s : Centers φ} {as : List (Act φ)}
    (hstart : ∀ c, s.queue c = []) (hsep : Machine.Guarded (step sp) Separated s as) :
    Machine.Guarded (step sp) Uncrossed s as := by
  have hnone : ∀ c, ∀ u ∈ s.queue c, False := by
    intro c u hu
    rw [hstart c] at hu
    cases hu
  refine hsep.of_invariant (fun s a t (hs : Apart s) hok hstep => apart_step hs hok hstep) ?_
    ⟨fun c u hu => (hnone c u hu).elim, fun c u hu => (hnone c u hu).elim,
      fun c _ _ u hu => (hnone c u hu).elim⟩
  intro s a hs _
  cases a with
  | read => trivial
  | write => trivial
  | deliver c =>
      intro f off len id ids rest hqueue p hp _
      exact hs.held c ⟨f, off, len, id :: ids⟩ (by rw [hqueue]; exact List.mem_cons_self) p hp

/-! ### Written pages -/

/-- In every run from empty queues in which each delivered update finds its sender still storing the
pages its receiver gives up, every page that was written is still stored at some center, or an
update for it is undelivered and its writer holds it. -/
theorem written_retained {sp : Space} {s t : Centers φ} {as : List (Act φ)}
    (hstart : ∀ c, s.queue c = []) (hguard : Machine.Guarded (step sp) Uncrossed s as)
    (hrun : Machine.run (step sp) s as = some t) :
    ∀ f p, (∃ a ∈ as, a.WritesPage f p) → Retained sp t f p := by
  have hsound : QueuesSound s := by
    intro c u hu
    rw [hstart c] at hu
    cases hu
  clear hstart
  intro f p ⟨a, ha, hw⟩
  induction as generalizing s with
  | nil => cases ha
  | cons b as ih =>
      obtain ⟨u, hu, hrest⟩ := Machine.run_cons_eq_some.mp hrun
      have hsound' := queuesSound_step hsound hu
      rcases List.mem_cons.mp ha with rfl | ha
      · exact retained_run hsound' (hguard.2 u hu) hrest
          (retained_step hsound hguard.1 hu (Or.inr hw))
      · exact ih (hguard.2 u hu) hrest hsound' ha

/-- One write at center 1, delivered to center 2. -/
theorem written_retained_once :
    ∃ t, Machine.run (step ⟨[1, 2]⟩) Centers.empty [.write 1 () 0 [7], .deliver 1] = some t ∧
      Retained ⟨[1, 2]⟩ t () 0 := by
  have hruns : (Machine.run (step ⟨[1, 2]⟩) Centers.empty
      [.write 1 () 0 [7], .deliver 1]).isSome = true := by
    decide
  obtain ⟨t, hrun⟩ := Option.isSome_iff_exists.mp hruns
  have hguard : Machine.Guarded (step ⟨[1, 2]⟩) Uncrossed Centers.empty
      [.write 1 () 0 [7], .deliver 1] := by
    refine uncrossed_of_separated (fun _ => rfl)
      ⟨⟨by simp, ?_⟩, fun _ _ => ⟨trivial, fun _ _ => trivial⟩⟩
    intro c _ u hu
    cases hu
  exact ⟨t, hrun, written_retained (fun _ => rfl) hguard hrun () 0
    ⟨.write 1 () 0 [7], List.mem_cons_self, rfl, by decide, by decide⟩⟩

/-- The run from empty copies in which center 2 writes the page that center 1 has just written,
before it has heard of that write; then both updates are delivered. -/
def crossingWrites : List (Act Unit) :=
  [.write 1 () 0 [7], .write 2 () 0 [8], .deliver 1, .deliver 2]

/-- Two writers that cross punch each other's page: afterwards no center stores it. -/
theorem crossing_writes_lost :
    ∃ t, Machine.run (step ⟨[1, 2]⟩) Centers.empty crossingWrites = some t ∧
      (∃ a ∈ crossingWrites, a.WritesPage () 0) ∧ ¬ Retained ⟨[1, 2]⟩ t () 0 := by
  have hfinal : (Machine.run (step ⟨[1, 2]⟩) Centers.empty crossingWrites).map
      (fun t => ((t.store 1 ()).data 0, (t.store 2 ()).data 0)) = some (false, false) := by
    decide
  rw [Option.map_eq_some_iff] at hfinal
  obtain ⟨t, hrun, hdata⟩ := hfinal
  rw [Prod.mk.injEq] at hdata
  refine ⟨t, hrun, ⟨.write 1 () 0 [7], List.mem_cons_self, rfl, by decide, by decide⟩, ?_⟩
  rw [retained_iff]
  rintro ⟨c, hc, hstored⟩
  simp only [Space.ioproxys, List.map_cons, List.map_nil, List.mem_cons, List.not_mem_nil,
    or_false] at hc
  rcases hc with rfl | rfl
  · exact absurd hstored (by simpa using hdata.1)
  · exact absurd hstored (by simpa using hdata.2)

end Gvds.Replica
