/-
Module: Gvds.Proofs.ReplicaSteps
Layer: Proofs
Purpose: What one step of the centers can change. A read or a write of center `c` touches only its
  own copy of the file and turns no data into a hole there; a delivery punches the copy of one other
  center. Every invariant of the centers is derived from these inversion lemmas.
Imports: Gvds.IoProxy.ReplicaMgr
Trusted boundary: none
Main exports: Grows, syncFiledata_cases, doOpWrite_cases, doOpRead_cases, deliver_cases, Stepped,
  stepped_of_step
-/
import Gvds.IoProxy.ReplicaMgr

namespace Gvds.Replica

variable {φ : Type*} [DecidableEq φ]

/-! ### The targets of an update -/

/-- A center is not one of its own peers. -/
theorem Space.not_mem_peers (sp : Space) (mcid : Nat) : mcid ∉ sp.peers mcid := by
  simp [Space.peers]

/-! ### Fetching -/

/-- Every stored page of `g` is stored in `h`. -/
def Grows (g h : DataFile) : Prop := ∀ p, g.data p = true → h.data p = true

theorem Grows.refl (g : DataFile) : Grows g g := fun _ hp => hp

theorem Grows.trans {g h k : DataFile} (hgh : Grows g h) (hhk : Grows h k) : Grows g k :=
  fun p hp => hhk p (hgh p hp)

theorem grows_pwrite (g : DataFile) (off : Nat) (data : List UInt8) :
    Grows g (g.pwrite off data) := fun _ hp => SparseFile.data_of_pwrite hp

/-- Writing a reply into the local copy frees no page. -/
theorem applySync_grows (h : DataFile) (params : List (Nat × Nat)) (data : List UInt8) :
    Grows h (applySync h params data) := by
  induction params generalizing h data with
  | nil => exact Grows.refl h
  | cons param params ih =>
      obtain ⟨off, size⟩ := param
      exact (grows_pwrite h off _).trans (ih _ _)

omit [DecidableEq φ] in
/-- A round of fetches frees no page. -/
theorem syncFrom_foldlM_grows {sp : Space} {s : Centers φ} {f : φ} {off len : Nat} {ids : List Nat}
    {g h : DataFile} (hrun : ids.foldlM (syncFrom sp s f off len) g = some h) : Grows g h := by
  induction ids generalizing g with
  | nil =>
      obtain rfl : g = h := Option.some.inj hrun
      exact Grows.refl g
  | cons id ids ih =>
      simp only [List.foldlM_cons, Option.bind_eq_bind, Option.bind_eq_some_iff] at hrun
      obtain ⟨k, hk, hrest⟩ := hrun
      refine Grows.trans ?_ (ih hrest)
      unfold syncFrom at hk
      split at hk
      · simp only [Option.map_eq_some_iff] at hk
        obtain ⟨reply, _, rfl⟩ := hk
        exact applySync_grows _ _ _
      · cases hk

/-- `sync_filedata` changes only the local copy, and frees no page of it. -/
theorem syncFiledata_cases {sp : Space} {s t : Centers φ} {mcid : Nat} {f : φ} {off len : Nat}
    (h : syncFiledata sp s mcid f off len = some t) :
    ∃ g, t = s.setFile mcid f g ∧ Grows (s.store mcid f) g := by
  unfold syncFiledata at h
  split at h
  · cases h
  · cases h
    exact ⟨s.store mcid f, by simp, Grows.refl _⟩
  · simp only [Option.map_eq_some_iff] at h
    obtain ⟨g, hfold, rfl⟩ := h
    exact ⟨g, rfl, syncFrom_foldlM_grows hfold⟩

/-- `sync_unalign_page` changes only the local copy, and frees no page of it. -/
theorem syncUnalignPage_cases {sp : Space} {s t : Centers φ} {mcid : Nat} {f : φ} {off len : Nat}
    (h : syncUnalignPage sp s mcid f off len = some t) :
    ∃ g, t = s.setFile mcid f g ∧ Grows (s.store mcid f) g := by
  unfold syncUnalignPage at h
  simp only [Option.bind_eq_some_iff] at h
  obtain ⟨u, hfirst, hsecond⟩ := h
  have hone : ∃ g, u = s.setFile mcid f g ∧ Grows (s.store mcid f) g := by
    split at hfirst
    · exact syncFiledata_cases hfirst
    · cases hfirst
      exact ⟨s.store mcid f, by simp, Grows.refl _⟩
  obtain ⟨g, rfl, hg⟩ := hone
  split at hsecond
  · obtain ⟨k, rfl, hk⟩ := syncFiledata_cases hsecond
    rw [Centers.setFile_store_self] at hk
    exact ⟨k, by simp, hg.trans hk⟩
  · cases hsecond
    exact ⟨g, rfl, hg⟩

/-! ### The steps -/

/-- What a read can do: fetch into the local copy. -/
theorem doOpRead_cases {sp : Space} {s t : Centers φ} {mcid : Nat} {f : φ} {off len : Nat}
    {reply : Option (List UInt8)} (h : doOpRead sp s mcid f off len = some (t, reply)) :
    ∃ g, t = s.setFile mcid f g ∧ Grows (s.store mcid f) g := by
  unfold doOpRead at h
  simp only [Option.bind_eq_some_iff] at h
  obtain ⟨u, hsync, hread⟩ := h
  split at hread
  · cases hread
    exact syncFiledata_cases hsync
  · cases hread

/-- The request that a write of center `mcid` queues. -/
def writeUpdate (sp : Space) (mcid : Nat) (f : φ) (off len : Nat) : Update φ :=
  ⟨f, off, len, sp.peers mcid⟩

/-- What a write can do: fetch into the local copy, and unless the file system refuses the range,
write into it and queue an update. -/
theorem doOpWrite_cases {sp : Space} {s t : Centers φ} {mcid : Nat} {f : φ} {off : Nat}
    {data : List UInt8} (h : doOpWrite sp s mcid f off data = some t) :
    ∃ g, Grows (s.store mcid f) g ∧
      ((¬ off + data.length < 2 ^ 63 ∧ t = s.setFile mcid f g) ∨
        (off + data.length < 2 ^ 63 ∧ ∃ q,
          (q = s.queue mcid ∨ q = s.queue mcid ++ [writeUpdate sp mcid f off data.length]) ∧
          t = (s.setFile mcid f (g.pwrite off data)).setQueue mcid q)) := by
  unfold doOpWrite at h
  simp only [Option.bind_eq_some_iff] at h
  obtain ⟨u, hsync, hwrite⟩ := h
  obtain ⟨g, rfl, hg⟩ := syncUnalignPage_cases hsync
  refine ⟨g, hg, ?_⟩
  by_cases hfits : off + data.length < 2 ^ 63
  · right
    refine ⟨hfits, ?_⟩
    simp only [hfits, if_true, Centers.setFile_store_self, Centers.setFile_setFile,
      Centers.setFile_queue] at hwrite
    split at hwrite
    · cases hwrite
      exact ⟨s.queue mcid, Or.inl rfl, (Centers.setQueue_same (s.setFile mcid f _) mcid).symm⟩
    · cases hwrite
      exact ⟨_, Or.inr rfl, rfl⟩
  · left
    refine ⟨hfits, ?_⟩
    simp only [hfits, if_false] at hwrite
    cases hwrite
    rfl

/-- What a flusher can do: drop a request that has been sent to all its targets, or send the first
request to its next target, which punches the pages out of the copy there. -/
theorem deliver_cases {sp : Space} {s t : Centers φ} {mcid : Nat}
    (h : deliver sp s mcid = some t) :
    (∃ f off len rest, s.queue mcid = ⟨f, off, len, []⟩ :: rest ∧ t = s.setQueue mcid rest) ∨
      ∃ f off len id ids rest, s.queue mcid = ⟨f, off, len, id :: ids⟩ :: rest ∧
        id ∈ sp.ioproxys ∧
        t = (s.setFile id f (punchHoleLocal (s.store id f) off len).1).setQueue mcid
          (⟨f, off, len, ids⟩ :: rest) := by
  unfold deliver at h
  split at h
  · cases h
  · rename_i f off len rest hqueue
    cases h
    exact Or.inl ⟨f, off, len, rest, hqueue, rfl⟩
  · rename_i f off len id ids rest hqueue
    split at h
    · rename_i hid
      cases h
      exact Or.inr ⟨f, off, len, id, ids, rest, hqueue, hid, rfl⟩
    · cases h

/-- The steps of the centers by what they find and what they leave. -/
inductive Stepped (sp : Space) (s : Centers φ) : Act φ → Centers φ → Prop where
  | read (mcid : Nat) (f : φ) (off len : Nat) (g : DataFile) (hmcid : mcid ∈ sp.ioproxys)
      (hg : Grows (s.store mcid f) g) : Stepped sp s (.read mcid f off len) (s.setFile mcid f g)
  | refused (mcid : Nat) (f : φ) (off : Nat) (data : List UInt8) (g : DataFile)
      (hmcid : mcid ∈ sp.ioproxys) (hg : Grows (s.store mcid f) g)
      (hbig : ¬ off + data.length < 2 ^ 63) :
      Stepped sp s (.write mcid f off data) (s.setFile mcid f g)
  | written (mcid : Nat) (f : φ) (off : Nat) (data : List UInt8) (g : DataFile)
      (q : List (Update φ)) (hmcid : mcid ∈ sp.ioproxys) (hg : Grows (s.store mcid f) g)
      (hfits : off + data.length < 2 ^ 63)
      (hq : q = s.queue mcid ∨ q = s.queue mcid ++ [writeUpdate sp mcid f off data.length]) :
      Stepped sp s (.write mcid f off data)
        ((s.setFile mcid f (g.pwrite off data)).setQueue mcid q)
  | deliver (mcid : Nat) (t : Centers φ) (hmcid : mcid ∈ sp.ioproxys)
      (hstep : deliver sp s mcid = some t) : Stepped sp s (.deliver mcid) t

theorem stepped_of_step {sp : Space} {s t : Centers φ} {a : Act φ} (hstep : step sp s a = some t) :
    Stepped sp s a t := by
  cases a with
  | read mcid f off len =>
      obtain ⟨hmcid, hmap⟩ := Option.ite_none_right_eq_some.mp hstep
      obtain ⟨⟨u, reply⟩, hread, rfl⟩ := Option.map_eq_some_iff.mp hmap
      obtain ⟨g, rfl, hg⟩ := doOpRead_cases hread
      exact .read mcid f off len g hmcid hg
  | write mcid f off data =>
      obtain ⟨hmcid, hwrite⟩ := Option.ite_none_right_eq_some.mp hstep
      obtain ⟨g, hg, ⟨hbig, rfl⟩ | ⟨hfits, q, hq, rfl⟩⟩ := doOpWrite_cases hwrite
      · exact .refused mcid f off data g hmcid hg hbig
      · exact .written mcid f off data g q hmcid hg hfits hq
  | deliver mcid =>
      obtain ⟨hmcid, hdeliver⟩ := Option.ite_none_right_eq_some.mp hstep
      exact .deliver mcid t hmcid hdeliver

/-! ### The queued requests -/

/-- What every request that center `c` has queued satisfies: the center does not have to send it to
itself, and the file system has accepted its range. -/
structure Update.Sound (c : Nat) (u : Update φ) : Prop where
  remote : c ∉ u.targets
  fits : u.off + u.len < 2 ^ 63

/-- All queued requests are sound. -/
def QueuesSound (s : Centers φ) : Prop := ∀ c, ∀ u ∈ s.queue c, u.Sound c

omit [DecidableEq φ] in
/-- Replacing the queue of one center by sound requests keeps all queues sound. -/
theorem QueuesSound.setQueue {s : Centers φ} (h : QueuesSound s) {c : Nat} {q : List (Update φ)}
    (hq : ∀ u ∈ q, u.Sound c) : QueuesSound (s.setQueue c q) := by
  intro c' u hu
  by_cases hc : c' = c
  · subst hc
    rw [Centers.setQueue_queue_self] at hu
    exact hq u hu
  · rw [Centers.setQueue_queue_of_ne hc] at hu
    exact h c' u hu

/-- Every step keeps the queues sound. -/
theorem queuesSound_step {sp : Space} {s t : Centers φ} {a : Act φ} (h : QueuesSound s)
    (hstep : step sp s a = some t) : QueuesSound t := by
  cases stepped_of_step hstep with
  | read mcid f off len g _ _ => exact h
  | refused mcid f off data g _ _ _ => exact h
  | written mcid f off data g q _ _ hfits hq =>
      refine QueuesSound.setQueue (s := s.setFile mcid f _) h ?_
      intro u hu
      rcases hq with rfl | rfl
      · exact h mcid u hu
      · rcases List.mem_append.mp hu with hu | hu
        · exact h mcid u hu
        · rw [List.mem_singleton] at hu
          subst hu
          exact ⟨sp.not_mem_peers mcid, hfits⟩
  | deliver mcid _ _ hdeliver =>
      obtain ⟨f, off, len, rest, hqueue, rfl⟩ | ⟨f, off, len, id, ids, rest, hqueue, _, rfl⟩ :=
        deliver_cases hdeliver
      · exact h.setQueue fun u hu => h mcid u (by rw [hqueue]; exact List.mem_cons_of_mem _ hu)
      · have hhead : Update.Sound mcid ⟨f, off, len, id :: ids⟩ :=
          h mcid _ (by rw [hqueue]; exact List.mem_cons_self)
        refine QueuesSound.setQueue (s := s.setFile id f _) h ?_
        intro u hu
        rcases List.mem_cons.mp hu with rfl | hu
        · exact ⟨fun hmem => hhead.remote (List.mem_cons_of_mem _ hmem), hhead.fits⟩
        · exact h mcid u (by rw [hqueue]; exact List.mem_cons_of_mem _ hu)

end Gvds.Replica
