/-
Module: Gvds.Proofs.ReplicaConsistency
Layer: Proofs
Purpose: When the centers of a replicated space behave as if they shared one file. Reads and writes
  are sequential: each starts only after every earlier update has been applied everywhere. The
  centers then simulate the shared files, with at most one update in flight, as long as no fetch
  leaves out a nonzero byte of a page that it stores, no scan is cut off by the `int` of
  `find_data_in_range`, and no empty write lies beyond the end of its file.
Imports: Gvds.Lib.Machine, Gvds.Proofs.ReplicaFetch
Trusted boundary: none
Main exports: sharedStep, sharedRead, Consistent, Sequential, Admissible, reads_eq_shared,
  partial_fetch_reads_zero
-/
import Gvds.Lib.Machine
import Gvds.Proofs.ReplicaFetch

namespace Gvds.Replica

open ByteFile (InRange)

variable {φ : Type*} [DecidableEq φ]

/-! ### The shared files -/

/-- What an action does to files that all centers share. -/
def sharedStep (ref : φ → ByteFile) : Act φ → φ → ByteFile
  | .write _ f off data => fun f' =>
      if f' = f ∧ off + data.length < 2 ^ 63 then (ref f).write off data else ref f'
  | .read .. => ref
  | .deliver _ => ref

/-- The bytes of a read of a shared file, or none where `pread` refuses the range. -/
def sharedRead (ref : ByteFile) (off len : Nat) : Option (List UInt8) :=
  if off + len < 2 ^ 63 then some (ref.read off len) else none

/-- All copies agree with the shared files, and together they store them. -/
structure Consistent (sp : Space) (ref : φ → ByteFile) (s : Centers φ) : Prop where
  faithful : ∀ c ∈ sp.ioproxys, ∀ f, Faithful (ref f) (s.store c f)
  covers : ∀ f, Covers sp (ref f) s f

/-- Every queued update has been sent to all its targets. -/
def Quiet (s : Centers φ) : Prop := ∀ c, ∀ u ∈ s.queue c, u.targets = []

/-- Reads and writes start in quiet states only. -/
def Sequential (s : Centers φ) : Act φ → Prop
  | .read .. => Quiet s
  | .write .. => Quiet s
  | .deliver _ => True

/-- The steps of a sequential run that meet no defect. The fetches of a read or write are not hit by
the `int` of the scan for data; a read has a size that a string can have, and leaves out nothing but
zeros of the pages it fetches; an empty write does not lie beyond the end of its file. -/
def Admissible (sp : Space) (s : Centers φ) : Act φ → Prop
  | .read mcid f off len =>
      Quiet s ∧ len < 2 ^ 63 ∧ ScansFit sp s mcid f off len ∧ FetchesWhole sp s mcid f off len
  | .write mcid f off data =>
      Quiet s ∧ (data = [] → off ≤ (s.store mcid f).size) ∧
        (off % pageSize ≠ 0 → ScansFit sp s mcid f (off / pageSize * pageSize) pageSize) ∧
        (addU64 off data.length % pageSize ≠ 0 →
          ScansFit sp s mcid f (addU64 off data.length / pageSize * pageSize) pageSize)
  | .deliver _ => True

/-! ### A read -/

/-- Putting a faithful copy in place keeps the centers consistent. -/
theorem Consistent.setFile {sp : Space} {ref : φ → ByteFile} {s : Centers φ}
    (hs : Consistent sp ref s) {c : Nat} {f : φ} {h : DataFile} (hf : Faithful (ref f) h)
    (hgrows : Grows (s.store c f) h) : Consistent sp ref (s.setFile c f h) := by
  refine ⟨fun c' hc' f' => ?_, fun f' => (hs.covers f').setFile hgrows⟩
  by_cases hsame : c' = c ∧ f' = f
  · obtain ⟨rfl, rfl⟩ := hsame
    rw [Centers.setFile_store_self]
    exact hf
  · rw [Centers.setFile_store_of_ne hsame]
    exact hs.faithful c' hc' f'

/-- In a consistent state an admissible read returns the bytes of the shared file, and the state it
leaves is consistent. -/
theorem doOpRead_spec {sp : Space} (hsp : sp.Decodable) {s : Centers φ} {ref : φ → ByteFile}
    {mcid : Nat} {f : φ} {off len : Nat} (hmcid : mcid ∈ sp.ioproxys) (hs : Consistent sp ref s)
    (hok : Admissible sp s (.read mcid f off len)) :
    ∃ h, doOpRead sp s mcid f off len =
        some (s.setFile mcid f h, sharedRead (ref f) off len) ∧
      Consistent sp ref (s.setFile mcid f h) := by
  obtain ⟨_, hlen, hfits, hwhole⟩ := hok
  obtain ⟨h, hsync, hFaithful, hGrows, hBrings⟩ :=
    syncFiledata_spec hsp hlen hmcid (fun c hc => hs.faithful c hc f) (hs.covers f) hfits hwhole
  refine ⟨h, ?_, hs.setFile hFaithful hGrows⟩
  unfold doOpRead sharedRead
  simp only [hsync, Option.bind_some, if_pos hlen, Centers.setFile_store_self]
  by_cases hsmall : off + len < 2 ^ 63
  · rw [if_pos hsmall, if_pos hsmall]
    congr 3
    refine ByteFile.read_congr hFaithful.size fun i hlow hhigh _ => ?_
    have hsum : addU64 off len = off + len := Nat.mod_eq_of_lt (by omega)
    exact hFaithful.byte_of_zero (hBrings i hlow (by omega))
  · rw [if_neg hsmall, if_neg hsmall]

/-! ### A write -/

/-- Writing into a faithful copy that stores the partly covered pages leaves a copy that is faithful
to the written reference and stores all the pages that the peers will punch. -/
theorem pwrite_faithful {ref : ByteFile} {h : DataFile} {off : Nat} {data : List UInt8}
    (hf : Faithful ref h) (hfirst : off % pageSize ≠ 0 → HoldsPage ref h (off / pageSize))
    (hlast : (off + data.length) % pageSize ≠ 0 →
      HoldsPage ref h ((off + data.length) / pageSize)) :
    Faithful (ref.write off data) (h.pwrite off data) ∧
      ∀ p, PunchedPage off data.length p →
        HoldsPage (ref.write off data) (h.pwrite off data) p := by
  -- a byte of a punched page that the write leaves alone lies in a partly covered page
  have hedge : ∀ i, PunchedPage off data.length (i / pageSize) → ¬ InRange off data.length i →
      ref.byte i ≠ 0 → h.data (i / pageSize) = true := by
    intro i hpage hout href
    unfold PunchedPage at hpage
    unfold InRange at hout
    by_cases hlow : i < off
    · have hsame : i / pageSize = off / pageSize := by
        unfold pageSize at *
        omega
      rw [hsame]
      refine hfirst ?_ i hsame href
      unfold pageSize at *
      omega
    · have hsame : i / pageSize = (off + data.length) / pageSize := by
        unfold pageSize at *
        omega
      rw [hsame]
      refine hlast ?_ i hsame href
      unfold pageSize at *
      omega
  have htouches : ∀ p, SparseFile.Touches pageSize off data.length p →
      PunchedPage off data.length p := by
    intro p hp
    unfold SparseFile.Touches pageSize at hp
    unfold PunchedPage pageSize
    omega
  constructor
  · refine ⟨?_, fun i hi => ?_⟩
    · simp only [SparseFile.pwrite_toByteFile, ByteFile.write, hf.size]
    · rw [SparseFile.pwrite_toByteFile]
      by_cases hin : InRange off data.length i
      · rw [ByteFile.write_byte_of_inRange hin, ByteFile.write_byte_of_inRange hin]
      · rw [ByteFile.write_byte_of_not_inRange hin, ByteFile.write_byte_of_not_inRange hin]
        rcases SparseFile.pwrite_data.mp hi with hold | htouch
        · exact hf.byte i hold
        · exact hf.byte_of_zero (hedge i (htouches _ htouch) hin)
  · intro p hp i hip href
    subst hip
    by_cases hin : InRange off data.length i
    · exact SparseFile.pwrite_data.mpr (Or.inr (SparseFile.touches_of_inRange hin))
    · rw [ByteFile.write_byte_of_not_inRange hin] at href
      exact SparseFile.data_of_pwrite (hedge i hp hin href)

/-- The copy `h` becomes faithful by applying the update. -/
structure Behind (ref : ByteFile) (off len : Nat) (h : DataFile) : Prop where
  size : max h.size (off + len) = ref.size
  byte : ∀ i, h.data (i / pageSize) = true → ¬ PunchedPage off len (i / pageSize) →
    h.byte i = ref.byte i

/-- A copy that was faithful before a write is behind by its update. -/
theorem Faithful.behind_write {ref : ByteFile} {h : DataFile} {off : Nat} {data : List UInt8}
    (hf : Faithful ref h) (hempty : data = [] → off ≤ h.size) :
    Behind (ref.write off data) off data.length h := by
  refine ⟨?_, fun i hi hpage => ?_⟩
  · by_cases hnil : data = []
    · subst hnil
      have := hempty rfl
      rw [ByteFile.write_nil, ← hf.size, List.length_nil]
      omega
    · rw [ByteFile.write_size hnil, hf.size]
  · have hout : ¬ InRange off data.length i := by
      unfold PunchedPage pageSize at hpage
      unfold InRange
      omega
    rw [ByteFile.write_byte_of_not_inRange hout]
    exact hf.byte i hi

/-- Applying an update makes a copy that is behind by it faithful. -/
theorem Behind.punch {ref : ByteFile} {h : DataFile} {off len : Nat} (hb : Behind ref off len h)
    (hfits : off + len < 2 ^ 63) : Faithful ref (punchHoleLocal h off len).1 := by
  obtain ⟨hsize, hdata, hbyte⟩ := punchHoleLocal_spec (f := h) (show off + len < 2 ^ 64 by omega)
  refine ⟨by rw [hsize, hb.size], fun i hi => ?_⟩
  obtain ⟨hold, hpage⟩ := (hdata _).mp hi
  rw [hbyte i hpage]
  exact hb.byte i hold hpage

/-- A faithful copy may be told again of an update that it has applied. -/
theorem Faithful.behind {ref : ByteFile} {h : DataFile} {off len : Nat} (hf : Faithful ref h)
    (hle : off + len ≤ ref.size) : Behind ref off len h :=
  ⟨by rw [hf.size]; omega, fun i hi _ => hf.byte i hi⟩

/-- The state after a write at center `c`: its update `u` is the only one with targets left, the
copies at these targets are behind by it, and the writer stores the pages that they will punch. -/
structure Pending (sp : Space) (ref : φ → ByteFile) (s : Centers φ) (c : Nat) (u : Update φ) :
    Prop where
  writer : c ∈ sp.ioproxys
  remote : c ∉ u.targets
  fits : u.off + u.len < 2 ^ 63
  others : ∀ c', c' ≠ c → ∀ u' ∈ s.queue c', u'.targets = []
  queue : ∃ done, s.queue c = done ++ [u] ∧ ∀ u' ∈ done, u'.targets = []
  behind : ∀ id ∈ sp.ioproxys, id ∈ u.targets →
    Behind (ref u.file) u.off u.len (s.store id u.file)
  faithful : ∀ id ∈ sp.ioproxys, ∀ f, ¬ (f = u.file ∧ id ∈ u.targets) →
    Faithful (ref f) (s.store id f)
  covers : ∀ f, Covers sp (ref f) s f
  holds : ∀ p, PunchedPage u.off u.len p → HoldsPage (ref u.file) (s.store c u.file) p

/-- The relation between the shared files and the centers in a sequential run. -/
def Simulates (sp : Space) (ref : φ → ByteFile) (s : Centers φ) : Prop :=
  (Quiet s ∧ Consistent sp ref s) ∨ ∃ c u, Pending sp ref s c u

omit [DecidableEq φ] in
/-- In a quiet state all copies are faithful. -/
theorem Simulates.consistent {sp : Space} {ref : φ → ByteFile} {s : Centers φ}
    (h : Simulates sp ref s) (hquiet : Quiet s) : Consistent sp ref s := by
  rcases h with h | ⟨c, u, h⟩
  · exact h.2
  · obtain ⟨done, hqueue, _⟩ := h.queue
    have hnone : u.targets = [] := hquiet c u (by rw [hqueue]; simp)
    exact ⟨fun id hid f => h.faithful id hid f (by simp [hnone]), h.covers⟩

theorem sharedStep_write_self {ref : φ → ByteFile} {c : Nat} {f : φ} {off : Nat}
    {data : List UInt8} (hsmall : off + data.length < 2 ^ 63) :
    sharedStep ref (.write c f off data) f = (ref f).write off data := by
  simp only [sharedStep, hsmall, and_self, if_true]

theorem sharedStep_write_of_ne {ref : φ → ByteFile} {c : Nat} {f f' : φ} {off : Nat}
    {data : List UInt8} (hne : f' ≠ f) : sharedStep ref (.write c f off data) f' = ref f' := by
  simp only [sharedStep, hne, false_and, if_false]

/-- A nonzero byte of the written file is stored at the writer or where it was before. -/
theorem covers_write {sp : Space} {ref : φ → ByteFile} {s : Centers φ} (hs : Consistent sp ref s)
    {c : Nat} {f : φ} {k : DataFile} {off : Nat} {data : List UInt8} (hc : c ∈ sp.ioproxys)
    (hsmall : off + data.length < 2 ^ 63) (hgrows : Grows (s.store c f) k)
    (hholds : ∀ p, PunchedPage off data.length p → HoldsPage ((ref f).write off data) k p) (f' : φ) :
    Covers sp (sharedStep ref (.write c f off data) f') (s.setFile c f k) f' := by
  by_cases hfile : f' = f
  · subst hfile
    rw [sharedStep_write_self hsmall]
    intro i href
    by_cases hpage : PunchedPage off data.length (i / pageSize)
    · exact ⟨c, hc, by rw [Centers.setFile_store_self]; exact hholds _ hpage i rfl href⟩
    · have hout : ¬ InRange off data.length i := by
        unfold PunchedPage pageSize at hpage
        unfold InRange
        omega
      rw [ByteFile.write_byte_of_not_inRange hout] at href
      exact (hs.covers f').setFile hgrows i href
  · rw [sharedStep_write_of_ne hfile]
    exact (hs.covers f').setFile hgrows

/-- A space with fewer than two centers has only one. -/
theorem Space.eq_of_length_lt_two (sp : Space) (hlen : sp.cids.length < 2) {c c' : Nat}
    (hc : c ∈ sp.ioproxys) (hc' : c' ∈ sp.ioproxys) : c = c' := by
  cases hcids : sp.cids with
  | nil => simp [Space.ioproxys, hcids] at hc
  | cons id ids =>
      cases ids with
      | nil =>
          simp [Space.ioproxys, hcids] at hc hc'
          rw [hc, hc']
      | cons id' ids =>
          rw [hcids, List.length_cons, List.length_cons] at hlen
          omega

/-- In a consistent, quiet state an admissible write returns, and it acts as on the shared file. -/
theorem doOpWrite_spec {sp : Space} (hsp : sp.Decodable) {s : Centers φ} {ref : φ → ByteFile}
    {mcid : Nat} {f : φ} {off : Nat} {data : List UInt8} (hmcid : mcid ∈ sp.ioproxys)
    (hs : Consistent sp ref s) (hok : Admissible sp s (.write mcid f off data)) :
    ∃ t, doOpWrite sp s mcid f off data = some t ∧
      Simulates sp (sharedStep ref (.write mcid f off data)) t := by
  obtain ⟨hquiet, hempty, hfirst, hlast⟩ := hok
  obtain ⟨h, hsync, hFaithful, hGrows, hFirst, hLast⟩ :=
    syncUnalignPage_spec hsp hmcid (fun c hc => hs.faithful c hc f) (hs.covers f) hfirst hlast
  unfold doOpWrite
  simp only [hsync, Option.bind_some, Centers.setFile_store_self, Centers.setFile_setFile,
    Centers.setFile_queue]
  by_cases hsmall : off + data.length < 2 ^ 63
  · obtain ⟨hwritten, hholds⟩ := pwrite_faithful hFaithful (hFirst hsmall) (hLast hsmall)
    have hgrows : Grows (s.store mcid f) (h.pwrite off data) :=
      hGrows.trans (grows_pwrite h off data)
    rw [if_pos hsmall]
    by_cases hsingle : sp.cids.length < 2
    · -- a space of one center: nobody else has a copy
      rw [if_pos hsingle]
      refine ⟨_, rfl, Or.inl ⟨hquiet, fun c hc f' => ?_, covers_write hs hmcid hsmall hgrows hholds⟩⟩
      have hown : c = mcid := sp.eq_of_length_lt_two hsingle hc hmcid
      subst hown
      by_cases hfile : f' = f
      · subst hfile
        rw [Centers.setFile_store_self, sharedStep_write_self hsmall]
        exact hwritten
      · rw [Centers.setFile_store_of_ne (fun heq => hfile heq.2), sharedStep_write_of_ne hfile]
        exact hs.faithful c hc f'
    · rw [if_neg hsingle]
      refine ⟨_, rfl, Or.inr ⟨mcid, ⟨f, off, data.length, sp.peers mcid⟩, ?_⟩⟩
      have hother : ∀ id f', f' = f → id ∈ sp.peers mcid → id ≠ mcid :=
        fun id _ _ hid heq => sp.not_mem_peers mcid (heq ▸ hid)
      refine
        { writer := hmcid
          remote := sp.not_mem_peers mcid
          fits := hsmall
          others := ?_
          queue := ⟨s.queue mcid, by simp, hquiet mcid⟩
          behind := ?_
          faithful := ?_
          covers := covers_write hs hmcid hsmall hgrows hholds
          holds := ?_ }
      · intro c' hne u' hu'
        rw [Centers.setQueue_queue_of_ne hne] at hu'
        exact hquiet c' u' hu'
      · intro id hid hpeer
        simp only [Centers.setQueue_store]
        rw [Centers.setFile_store_of_ne (fun heq => hother id f rfl hpeer heq.1),
          sharedStep_write_self hsmall]
        refine (hs.faithful id hid f).behind_write fun hnil => ?_
        rw [(hs.faithful id hid f).size, ← (hs.faithful mcid hmcid f).size]
        exact hempty hnil
      · intro id hid f' hnot
        simp only [Centers.setQueue_store]
        by_cases hfile : f' = f
        · have hown : id = mcid := by
            by_contra hne
            exact hnot ⟨hfile, hsp.mem_peers hid hne⟩
          subst hown hfile
          rw [Centers.setFile_store_self, sharedStep_write_self hsmall]
          exact hwritten
        · rw [Centers.setFile_store_of_ne (fun heq => hfile heq.2), sharedStep_write_of_ne hfile]
          exact hs.faithful id hid f'
      · intro p hp
        simp only [Centers.setQueue_store]
        rw [Centers.setFile_store_self, sharedStep_write_self hsmall]
        exact hholds p hp
  · rw [if_neg hsmall]
    have hsame : sharedStep ref (.write mcid f off data) = ref := by
      funext f'
      simp only [sharedStep, hsmall, and_false, if_false]
    rw [hsame]
    exact ⟨_, rfl, Or.inl ⟨hquiet, hs.setFile hFaithful hGrows⟩⟩

/-! ### A delivery -/

omit [DecidableEq φ] in
/-- Dropping a request without targets changes nothing that matters. -/
theorem Quiet.setQueue {s : Centers φ} (h : Quiet s) {c : Nat} {q : List (Update φ)}
    (hq : ∀ u ∈ q, u ∈ s.queue c) : Quiet (s.setQueue c q) := by
  intro c' u hu
  by_cases hc : c' = c
  · subst hc
    rw [Centers.setQueue_queue_self] at hu
    exact h c' u (hq u hu)
  · rw [Centers.setQueue_queue_of_ne hc] at hu
    exact h c' u hu

/-- One target of the pending update applies it. -/
theorem Pending.send {sp : Space} {ref : φ → ByteFile} {s : Centers φ} {c : Nat} {f : φ}
    {off len id : Nat} {ids : List Nat} (h : Pending sp ref s c ⟨f, off, len, id :: ids⟩)
    (hid : id ∈ sp.ioproxys) :
    Pending sp ref ((s.setFile id f (punchHoleLocal (s.store id f) off len).1).setQueue c
      [⟨f, off, len, ids⟩]) c ⟨f, off, len, ids⟩ := by
  have hremote : c ≠ id := fun heq => h.remote (by rw [heq]; exact List.mem_cons_self)
  have hbehind := h.behind id hid List.mem_cons_self
  have happlied := hbehind.punch h.fits
  have hend : off + len ≤ (ref f).size := by
    rw [← hbehind.size]
    exact Nat.le_max_right _ _
  have hwriter : (s.setFile id f (punchHoleLocal (s.store id f) off len).1).store c f =
      s.store c f := Centers.setFile_store_of_ne fun heq => hremote heq.1
  refine
    { writer := h.writer
      remote := fun hmem => h.remote (List.mem_cons_of_mem _ hmem)
      fits := h.fits
      others := ?_
      queue := ⟨[], by simp, by simp⟩
      behind := ?_
      faithful := ?_
      covers := ?_
      holds := ?_ }
  · intro c' hne u' hu'
    rw [Centers.setQueue_queue_of_ne hne] at hu'
    exact h.others c' hne u' hu'
  · intro id' hid' hmem
    simp only [Centers.setQueue_store]
    by_cases hsame : id' = id
    · subst hsame
      rw [Centers.setFile_store_self]
      exact happlied.behind hend
    · rw [Centers.setFile_store_of_ne (fun heq => hsame heq.1)]
      exact h.behind id' hid' (List.mem_cons_of_mem _ hmem)
  · intro id' hid' f' hnot
    simp only [Centers.setQueue_store]
    by_cases hsame : id' = id ∧ f' = f
    · obtain ⟨rfl, rfl⟩ := hsame
      rw [Centers.setFile_store_self]
      exact happlied
    · rw [Centers.setFile_store_of_ne hsame]
      refine h.faithful id' hid' f' ?_
      rintro ⟨hfile, hmem⟩
      rcases List.mem_cons.mp hmem with heq | hmem
      · exact hsame ⟨heq, hfile⟩
      · exact hnot ⟨hfile, hmem⟩
  · intro f' i href
    simp only [Centers.setQueue_store]
    obtain ⟨c', hc', hdata⟩ := h.covers f' i href
    by_cases hsame : c' = id ∧ f' = f
    · obtain ⟨rfl, rfl⟩ := hsame
      by_cases hpage : PunchedPage off len (i / pageSize)
      · exact ⟨c, h.writer, by rw [hwriter]; exact h.holds _ hpage i rfl href⟩
      · refine ⟨c', hc', ?_⟩
        have hfits := h.fits
        rw [Centers.setFile_store_self]
        exact ((punchHoleLocal_spec (by simp only at hfits; omega)).2.1 _).mpr ⟨hdata, hpage⟩
    · exact ⟨c', hc', by rw [Centers.setFile_store_of_ne hsame]; exact hdata⟩
  · intro p hp
    simp only [Centers.setQueue_store]
    rw [hwriter]
    exact h.holds p hp

omit [DecidableEq φ] in
/-- The queue with the pending update may lose requests that have been sent. -/
theorem Pending.setQueue {sp : Space} {ref : φ → ByteFile} {s : Centers φ} {c₀ c : Nat}
    {u : Update φ} (h : Pending sp ref s c₀ u) {q : List (Update φ)}
    (hq : ∀ u' ∈ q, c ≠ c₀ → u' ∈ s.queue c)
    (hdone : c = c₀ → ∃ done, q = done ++ [u] ∧ ∀ u' ∈ done, u'.targets = []) :
    Pending sp ref (s.setQueue c q) c₀ u := by
  refine { h with others := ?_, queue := ?_ }
  · intro c' hne u' hu'
    by_cases hc : c' = c
    · subst hc
      rw [Centers.setQueue_queue_self] at hu'
      exact h.others c' hne u' (hq u' hu' hne)
    · rw [Centers.setQueue_queue_of_ne hc] at hu'
      exact h.others c' hne u' hu'
  · by_cases hc : c = c₀
    · subst hc
      rw [Centers.setQueue_queue_self]
      exact hdone rfl
    · rw [Centers.setQueue_queue_of_ne (Ne.symm hc)]
      exact h.queue

/-- Sending an update on keeps the shared files in place. -/
theorem simulates_deliver {sp : Space} {s t : Centers φ} {ref : φ → ByteFile} {c : Nat}
    (h : Simulates sp ref s) (hstep : deliver sp s c = some t) : Simulates sp ref t := by
  rcases h with ⟨hquiet, hs⟩ | ⟨c₀, u, h⟩
  · -- nothing is in flight: the request is dropped
    obtain ⟨f, off, len, rest, hqueue, rfl⟩ | ⟨f, off, len, id, ids, rest, hqueue, _, rfl⟩ :=
      deliver_cases hstep
    · exact Or.inl ⟨hquiet.setQueue fun u hu => by rw [hqueue]; exact List.mem_cons_of_mem _ hu,
        hs.faithful, hs.covers⟩
    · cases hquiet c ⟨f, off, len, id :: ids⟩ (by rw [hqueue]; exact List.mem_cons_self)
  · by_cases hc : c = c₀
    · subst hc
      obtain ⟨done, hdone, hsent⟩ := h.queue
      cases done with
      | nil =>
          rw [List.nil_append] at hdone
          obtain ⟨f, off, len, rest, hqueue, rfl⟩ |
            ⟨f, off, len, id, ids, rest, hqueue, hid, rfl⟩ := deliver_cases hstep
          · -- the update has reached all its targets
            rw [hdone, List.cons.injEq] at hqueue
            obtain ⟨rfl, rfl⟩ := hqueue
            refine Or.inl ⟨fun c' u' hu' => ?_, fun id hid f' => ?_, h.covers⟩
            · by_cases hown : c' = c
              · subst hown
                rw [Centers.setQueue_queue_self] at hu'
                cases hu'
              · rw [Centers.setQueue_queue_of_ne hown] at hu'
                exact h.others c' hown u' hu'
            · exact h.faithful id hid f' (by simp)
          · rw [hdone, List.cons.injEq] at hqueue
            obtain ⟨rfl, rfl⟩ := hqueue
            exact Or.inr ⟨c, _, h.send hid⟩
      | cons d done =>
          rw [List.cons_append] at hdone
          obtain ⟨f, off, len, rest, hqueue, rfl⟩ |
            ⟨f, off, len, id, ids, rest, hqueue, _, rfl⟩ := deliver_cases hstep
          · rw [hdone, List.cons.injEq] at hqueue
            obtain ⟨_, rfl⟩ := hqueue
            exact Or.inr ⟨c, u, h.setQueue (fun _ _ hne => absurd rfl hne)
              (fun _ => ⟨done, rfl, fun u' hu' => hsent u' (List.mem_cons_of_mem _ hu')⟩)⟩
          · rw [hdone, List.cons.injEq] at hqueue
            obtain ⟨rfl, _⟩ := hqueue
            cases hsent _ List.mem_cons_self
    · obtain ⟨f, off, len, rest, hqueue, rfl⟩ | ⟨f, off, len, id, ids, rest, hqueue, _, rfl⟩ :=
        deliver_cases hstep
      · refine Or.inr ⟨c₀, u, h.setQueue (fun u' hu' _ => ?_) fun heq => absurd heq hc⟩
        rw [hqueue]
        exact List.mem_cons_of_mem _ hu'
      · cases h.others c hc ⟨f, off, len, id :: ids⟩ (by rw [hqueue]; exact List.mem_cons_self)

/-! ### Runs -/

/-- The step lemma of the simulation. -/
theorem simulates_step {sp : Space} (hsp : sp.Decodable) {ref : φ → ByteFile} {s t : Centers φ}
    {a : Act φ} (h : Simulates sp ref s) (hok : Admissible sp s a) (hstep : step sp s a = some t) :
    Simulates sp (sharedStep ref a) t := by
  cases a with
  | read mcid f off len =>
      simp only [step] at hstep
      split at hstep
      · rename_i hmcid
        obtain ⟨g, hread, hs⟩ := doOpRead_spec hsp hmcid (h.consistent hok.1) hok
        rw [hread, Option.map_some, Option.some.injEq] at hstep
        subst hstep
        exact Or.inl ⟨hok.1, hs⟩
      · cases hstep
  | write mcid f off data =>
      simp only [step] at hstep
      split at hstep
      · rename_i hmcid
        obtain ⟨u, hwrite, hs⟩ := doOpWrite_spec hsp hmcid (h.consistent hok.1) hok
        rw [hwrite, Option.some.injEq] at hstep
        subst hstep
        exact hs
      · cases hstep
  | deliver mcid =>
      simp only [step] at hstep
      split at hstep
      · exact simulates_deliver h hstep
      · cases hstep

/-- After every sequential run from consistent copies, every admissible read at every center returns
exactly what the shared file holds, and every admissible write returns. -/
theorem reads_eq_shared {sp : Space} (hsp : sp.Decodable) {ref : φ → ByteFile} {s t : Centers φ}
    {as : List (Act φ)} (hquiet : Quiet s) (hstart : Consistent sp ref s)
    (hguard : Machine.Guarded (step sp) (Admissible sp) s as)
    (hrun : Machine.run (step sp) s as = some t) :
    (∀ c ∈ sp.ioproxys, ∀ f off len, Admissible sp t (.read c f off len) →
      ∃ t', doOpRead sp t c f off len =
        some (t', sharedRead (as.foldl sharedStep ref f) off len)) ∧
    ∀ c ∈ sp.ioproxys, ∀ f off data, Admissible sp t (.write c f off data) →
      ∃ t', doOpWrite sp t c f off data = some t' := by
  have hstep : ∀ (ref : φ → ByteFile) s a t, Simulates sp ref s → Admissible sp s a →
      step sp s a = some t → Simulates sp (sharedStep ref a) t :=
    fun ref s a t h hok hstep => simulates_step hsp h hok hstep
  have hsim : Simulates sp (as.foldl sharedStep ref) t :=
    Machine.run_simulation hstep (Or.inl ⟨hquiet, hstart⟩) hguard hrun
  refine ⟨fun c hc f off len hok => ?_, fun c hc f off data hok => ?_⟩
  · obtain ⟨h, hread, _⟩ := doOpRead_spec hsp hc (hsim.consistent hok.1) hok
    exact ⟨_, hread⟩
  · obtain ⟨u, hwrite, _⟩ := doOpWrite_spec hsp hc (hsim.consistent hok.1) hok
    exact ⟨u, hwrite⟩

omit [DecidableEq φ] in
/-- Nothing is stored and nothing queued at the start. -/
theorem quiet_empty : Quiet (Centers.empty : Centers φ) := by
  intro c u hu
  cases hu

omit [DecidableEq φ] in
/-- Files without contents are consistent. -/
theorem consistent_empty (sp : Space) :
    Consistent sp (fun _ => ByteFile.empty) (Centers.empty : Centers φ) :=
  ⟨fun _ _ _ => ⟨rfl, fun _ h => by cases h⟩, fun _ _ h => absurd rfl h⟩

/-- Two bytes written at center 1, and the update delivered to center 2. -/
def writtenOnce : List (Act Unit) := [.write 1 () 0 [7, 8], .deliver 1]

/-- After `writtenOnce` nothing is in flight. -/
theorem quiet_writtenOnce {t : Centers Unit}
    (hrun : Machine.run (step ⟨[1, 2]⟩) Centers.empty writtenOnce = some t) : Quiet t := by
  have hqueue : (Machine.run (step ⟨[1, 2]⟩) Centers.empty writtenOnce).map Centers.queue =
      some ((Centers.empty.setQueue 1 [⟨(), 0, 2, [2]⟩]).setQueue 1 [⟨(), 0, 2, []⟩]).queue := rfl
  rw [hrun, Option.map_some, Option.some.injEq] at hqueue
  intro c u hu
  rw [hqueue] at hu
  by_cases hc : c = 1
  · subst hc
    rw [Centers.setQueue_queue_self, List.mem_singleton] at hu
    rw [hu]
  · rw [Centers.setQueue_queue_of_ne hc, Centers.setQueue_queue_of_ne hc] at hu
    cases hu

/-- Center 2 reads what center 1 has written. -/
theorem reads_eq_shared_once :
    ∃ t t', Machine.run (step ⟨[1, 2]⟩) Centers.empty writtenOnce = some t ∧
      doOpRead ⟨[1, 2]⟩ t 2 () 0 4096 = some (t', some [7, 8]) := by
  have hruns : (Machine.run (step ⟨[1, 2]⟩) Centers.empty writtenOnce).map
      (fun t => (t.store 1 ()).size) = some 2 := by
    decide
  obtain ⟨t, hrun, hsize⟩ := Option.map_eq_some_iff.mp hruns
  have hguard : Machine.Guarded (step ⟨[1, 2]⟩) (Admissible ⟨[1, 2]⟩) Centers.empty
      writtenOnce := by
    refine ⟨⟨quiet_empty, by simp, by simp, fun _ => ?_⟩, fun _ _ => ⟨trivial, fun _ _ => trivial⟩⟩
    rintro ⟨i, _, _, hend, _⟩
    exact absurd hend (Nat.not_lt_zero i)
  have hread : Admissible ⟨[1, 2]⟩ t (.read 2 () 0 4096) := by
    refine ⟨quiet_writtenOnce hrun, by omega, fun _ id hid => ?_, fun id _ => ?_⟩
    · obtain rfl : id = 1 := by simpa [Space.peers, idOfChar] using hid
      exact scanFits_of_size_le (by omega) _ _
    · exact leavesOutZeros_page _ _ 0
  have hids : Space.Decodable ⟨[1, 2]⟩ := by simp [Space.Decodable]
  obtain ⟨t', hdone⟩ := (reads_eq_shared hids quiet_empty (consistent_empty ⟨[1, 2]⟩) hguard
    hrun).1 2 (by decide) () 0 4096 hread
  exact ⟨t, t', hrun, hdone⟩

/-- Center 2 reads the second byte before it reads the first. -/
def partialFetch : List (Act Unit) := writtenOnce ++ [.read 2 () 1 1]

/-- The page that a partial read has fetched is data with a zero for the byte that was left out, and
a later read returns the zero. -/
theorem partial_fetch_reads_zero :
    ∃ t t', Machine.Guarded (step ⟨[1, 2]⟩) Sequential Centers.empty partialFetch ∧
      Machine.run (step ⟨[1, 2]⟩) Centers.empty partialFetch = some t ∧
      Sequential t (.read 2 () 0 1) ∧
      doOpRead ⟨[1, 2]⟩ t 2 () 0 1 = some (t', some [0]) ∧
      sharedRead (partialFetch.foldl sharedStep (fun _ => ByteFile.empty) ()) 0 1 = some [7] := by
  have hruns : ((Machine.run (step ⟨[1, 2]⟩) Centers.empty partialFetch).bind fun t =>
      (doOpRead ⟨[1, 2]⟩ t 2 () 0 1).map Prod.snd) = some (some [0]) := by
    decide
  obtain ⟨t, hrun, hread⟩ := Option.bind_eq_some_iff.mp hruns
  obtain ⟨⟨t', reply⟩, hdone, hreply⟩ := Option.map_eq_some_iff.mp hread
  obtain rfl : reply = some [0] := hreply
  refine ⟨t, t', ?_, hrun, ?_, hdone, by decide⟩
  · refine Machine.Guarded.append ⟨quiet_empty, fun _ _ => ⟨trivial, fun _ _ => trivial⟩⟩ ?_
    exact fun u hu => ⟨quiet_writtenOnce hu, fun _ _ => trivial⟩
  · -- the partial read leaves the queues alone
    unfold partialFetch at hrun
    rw [Machine.run_append] at hrun
    obtain ⟨u, hu, hlast⟩ := Option.bind_eq_some_iff.mp hrun
    obtain ⟨v, hv, hend⟩ := Machine.run_cons_eq_some.mp hlast
    obtain rfl : v = t := Option.some.inj hend
    simp only [step] at hv
    split at hv
    · obtain ⟨⟨w, bytes⟩, hpartial, rfl⟩ := Option.map_eq_some_iff.mp hv
      obtain ⟨g, rfl, _⟩ := doOpRead_cases hpartial
      have hquiet : Quiet u := quiet_writtenOnce hu
      exact hquiet
    · cases hv

end Gvds.Replica
