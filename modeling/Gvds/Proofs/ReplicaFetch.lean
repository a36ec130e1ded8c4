/-
Module: Gvds.Proofs.ReplicaFetch
Layer: Proofs
Purpose: What `sync_filedata` fetches. While every copy agrees with one reference file on the pages
  it stores, and every nonzero byte of the reference is stored somewhere, a fetch leaves the local
  copy agreeing with the reference and right on the whole range. The exception is a range that
  covers only a part of a page: a hole of the local copy then turns into a whole page of data with
  zeros for what the fetch left out.
Imports: Gvds.Proofs.ReplicaSteps
Trusted boundary: none
Main exports: Faithful, Covers, ScansFit, FetchesWhole, syncFiledata_spec, syncUnalignPage_spec
-/
import Gvds.Proofs.ReplicaSteps

namespace Gvds.Replica

/-! ### Copies of a reference file -/

/-- The copy `h` has the size of the reference file and its bytes on every stored page. -/
structure Faithful (ref : ByteFile) (h : DataFile) : Prop where
  size : h.size = ref.size
  byte : ∀ i, h.data (i / pageSize) = true → h.byte i = ref.byte i

/-- A page that is a hole of a faithful copy is right if the reference is zero there. -/
theorem Faithful.byte_of_zero {ref : ByteFile} {h : DataFile} (hf : Faithful ref h) {i : Nat}
    (hzero : ref.byte i ≠ 0 → h.data (i / pageSize) = true) : h.byte i = ref.byte i := by
  cases hdata : h.data (i / pageSize) with
  | true => exact hf.byte i hdata
  | false =>
      by_cases href : ref.byte i = 0
      · rw [href]
        exact h.hole_zero i hdata
      · exact absurd (hzero href) (by simp [hdata])

/-- Every nonzero byte of the reference file is stored at one of the centers. -/
def Covers {φ : Type*} (sp : Space) (ref : ByteFile) (s : Centers φ) (f : φ) : Prop :=
  ∀ i, ref.byte i ≠ 0 → ∃ c ∈ sp.ioproxys, (s.store c f).data (i / pageSize) = true

/-! ### Writing a reply into the local copy -/

/-- Writing the answer of a peer into the local copy replaces the covered bytes, stores the pages
they lie in and changes nothing else. -/
theorem applySync_spec {g : DataFile} {ranges : List (Nat × Nat)}
    (hranges : ∀ r ∈ ranges, r.1 < r.2 ∧ r.2 ≤ g.size) {h : DataFile} (hsize : g.size ≤ h.size) :
    ∀ k, k = applySync h (ranges.map fun r => (r.1, (g.read r.1 (r.2 - r.1)).length))
        (ranges.flatMap fun r => g.read r.1 (r.2 - r.1)) →
      k.size = h.size ∧ (∀ i, Covered ranges i → k.byte i = g.byte i) ∧
        (∀ i, ¬ Covered ranges i → k.byte i = h.byte i) ∧
        ∀ p, k.data p = true ↔
          h.data p = true ∨ ∃ i, Covered ranges i ∧ i / pageSize = p := by
  induction ranges generalizing h with
  | nil =>
      rintro k rfl
      exact ⟨rfl, by simp, fun _ _ => rfl, by simp⟩
  | cons r ranges ih =>
      obtain ⟨a, b⟩ := r
      rintro k hk
      obtain ⟨hab, hb⟩ := hranges (a, b) List.mem_cons_self
      have hlen : (g.read a (b - a)).length = b - a := by
        rw [ByteFile.read_length]
        omega
      simp only [List.map_cons, List.flatMap_cons, applySync, List.take_left, List.drop_left] at hk
      -- the first range is written, the rest of the reply goes into the result
      obtain ⟨hsize', hcov, hout, hdata⟩ := ih (fun r hr => hranges r (List.mem_cons_of_mem _ hr))
        (h := h.pwrite a (g.read a (b - a)))
        (by
          have hne : g.read a (b - a) ≠ [] := by
            intro hnil
            rw [hnil, List.length_nil] at hlen
            omega
          rw [SparseFile.pwrite_toByteFile, ByteFile.write_size hne]
          omega) k hk
      have hinside : ∀ i, ByteFile.InRange a (g.read a (b - a)).length i ↔ a ≤ i ∧ i < b := by
        intro i
        rw [hlen, ByteFile.InRange]
        omega
      have hvalue : ∀ i, a ≤ i ∧ i < b →
          (h.pwrite a (g.read a (b - a))).byte i = g.byte i := by
        intro i hi
        rw [SparseFile.pwrite_toByteFile, ByteFile.write_byte_of_inRange ((hinside i).mpr hi),
          List.getD_eq_getElem _ _ (by omega)]
        simp only [ByteFile.read, List.getElem_map, List.getElem_range]
        congr 1
        omega
      refine ⟨?_, fun i hi => ?_, fun i hi => ?_, fun p => ?_⟩
      · rw [hsize', SparseFile.pwrite_toByteFile, ByteFile.write]
        simp only
        split
        · rfl
        · omega
      · by_cases hrest : Covered ranges i
        · exact hcov i hrest
        · rw [hout i hrest]
          rw [covered_cons] at hi
          exact hvalue i (hi.resolve_right hrest)
      · rw [covered_cons, not_or] at hi
        rw [hout i hi.2, SparseFile.pwrite_toByteFile,
          ByteFile.write_byte_of_not_inRange (fun h => hi.1 ((hinside i).mp h))]
      · rw [hdata, SparseFile.pwrite_data, or_assoc]
        refine or_congr_right ?_
        constructor
        · rintro (htouch | ⟨i, hi, hip⟩)
          · obtain ⟨i, hi, hip⟩ := SparseFile.exists_inRange_of_touches htouch
            exact ⟨i, (covered_cons ..).mpr (Or.inl ((hinside i).mp hi)), hip⟩
          · exact ⟨i, (covered_cons ..).mpr (Or.inr hi), hip⟩
        · rintro ⟨i, hi, hip⟩
          rw [covered_cons] at hi
          rcases hi with hi | hi
          · subst hip
            exact Or.inl (SparseFile.touches_of_inRange ((hinside i).mpr hi))
          · exact Or.inr ⟨i, hi, hip⟩

/-! ### One peer -/

/-- The range has a hole in the copy `h`. -/
def HasHole (h : DataFile) (off lim : Nat) : Prop :=
  ∃ i, off ≤ i ∧ i < lim ∧ i < h.size ∧ h.data (i / pageSize) = false

/-- Where the range meets a page that is stored in `g` and a hole in `h`, the bytes of that page
outside the range are zero. -/
def LeavesOutZeros (h g : DataFile) (off lim : Nat) : Prop :=
  ∀ p, h.data p = false → g.data p = true →
    (∃ i, off ≤ i ∧ i < lim ∧ i < g.size ∧ i / pageSize = p) →
    ∀ j, j / pageSize = p → ¬ (off ≤ j ∧ j < lim) → g.byte j = 0

/-- A range that consists of one page leaves out nothing of it. -/
theorem leavesOutZeros_page (h g : DataFile) (pg : Nat) :
    LeavesOutZeros h g (pg * pageSize) (addU64 (pg * pageSize) pageSize) := by
  rintro p _ _ ⟨i, hlow, hhigh, _, hip⟩ j hjp hout
  simp only [addU64, pageSize] at *
  omega

variable {φ : Type*} [DecidableEq φ]

omit [DecidableEq φ] in
/-- The answer of one peer keeps the local copy faithful and brings every page of the range that the
peer stores. -/
theorem syncFrom_spec {sp : Space} {s : Centers φ} {f : φ} {off len id : Nat} {ref : ByteFile}
    (hid : id ∈ sp.ioproxys) (hlen : len < 2 ^ 63) (hpeer : Faithful ref (s.store id f))
    (hfits : ScanFits (s.store id f) off (addU64 off len)) {h₀ h : DataFile}
    (hleft : LeavesOutZeros h₀ (s.store id f) off (addU64 off len)) (hgrown : Grows h₀ h)
    (hlocal : Faithful ref h) :
    ∃ k, syncFrom sp s f off len h id = some k ∧ Faithful ref k ∧ Grows h k ∧
      ∀ i, off ≤ i → i < addU64 off len → i < ref.size →
        (s.store id f).data (i / pageSize) = true → k.data (i / pageSize) = true := by
  obtain ⟨ranges, hscan, hranges, hcovered⟩ := findDataInRange_spec hfits
  have hsizes : (s.store id f).size ≤ h.size := by rw [hpeer.size, hlocal.size]
  obtain ⟨hsize, hcov, hout, hdata⟩ := applySync_spec hranges hsizes _ rfl
  have hreply : handleFileSyncData (s.store id f) off len =
      some ⟨ranges.map fun r => (r.1, ((s.store id f).read r.1 (r.2 - r.1)).length),
        ranges.flatMap fun r => (s.store id f).read r.1 (r.2 - r.1)⟩ := by
    unfold handleFileSyncData
    rw [if_pos hlen, hscan]
    rfl
  have hsync : syncFrom sp s f off len h id = some (applySync h
      (ranges.map fun r => (r.1, ((s.store id f).read r.1 (r.2 - r.1)).length))
      (ranges.flatMap fun r => (s.store id f).read r.1 (r.2 - r.1))) := by
    unfold syncFrom
    rw [if_pos hid, hreply]
    rfl
  refine ⟨_, hsync, ?_, applySync_grows _ _ _, ?_⟩
  · refine ⟨by rw [hsize, hlocal.size], fun i hi => ?_⟩
    by_cases hic : Covered ranges i
    · rw [hcov i hic]
      exact hpeer.byte i ((hcovered i).mp hic).2.2.2
    · rw [hout i hic]
      rcases (hdata (i / pageSize)).mp hi with hold | ⟨j, hj, hjp⟩
      · exact hlocal.byte i hold
      · -- the page of `i` may be new: what was left out of it is zero
        refine hlocal.byte_of_zero fun href => ?_
        by_contra hhole
        have hhole₀ : h₀.data (i / pageSize) = false :=
          Bool.eq_false_iff.mpr fun h₀data => hhole (hgrown _ h₀data)
        obtain ⟨hlow, hhigh, hend, hstored⟩ := (hcovered j).mp hj
        rw [hjp] at hstored
        have hnot : ¬ (off ≤ i ∧ i < addU64 off len) := by
          rintro ⟨hlow', hhigh'⟩
          refine hic ((hcovered i).mpr ⟨hlow', hhigh', ?_, hstored⟩)
          by_contra hbeyond
          exact href (ref.beyond i (by rw [← hpeer.size]; omega))
        have hzero := hleft _ hhole₀ hstored ⟨j, hlow, hhigh, hend, hjp⟩ i rfl hnot
        rw [hpeer.byte i hstored] at hzero
        exact href hzero
  · intro i hlow hhigh hend hstored
    refine (hdata _).mpr (Or.inr ⟨i, (hcovered i).mpr ⟨hlow, hhigh, ?_, hstored⟩, rfl⟩)
    rw [hpeer.size]
    exact hend

/-! ### All peers -/

/-- All IDs of the space survive the sign extension of `char`. -/
def Space.Decodable (sp : Space) : Prop := ∀ c ∈ sp.cids, c.toNat < 128

/-- The peers are centers of the space. -/
theorem Space.Decodable.peers_subset {sp : Space} (h : sp.Decodable) {mcid id : Nat}
    (hid : id ∈ sp.peers mcid) : id ∈ sp.ioproxys := by
  simp only [Space.peers, List.mem_filter, List.mem_map] at hid
  obtain ⟨⟨c, hc, rfl⟩, _⟩ := hid
  exact List.mem_map.mpr ⟨c, hc, by simp [idOfChar, h c hc]⟩

/-- Every other center of the space is a peer. -/
theorem Space.Decodable.mem_peers {sp : Space} (h : sp.Decodable) {mcid id : Nat}
    (hid : id ∈ sp.ioproxys) (hne : id ≠ mcid) : id ∈ sp.peers mcid := by
  simp only [Space.ioproxys, List.mem_map] at hid
  obtain ⟨c, hc, rfl⟩ := hid
  refine List.mem_filter.mpr ⟨List.mem_map.mpr ⟨c, hc, ?_⟩, by simpa using hne⟩
  simp [idOfChar, h c hc]

/-- If the local copy has a hole in the range, the `int` of the scan for data does no harm at any
peer. -/
def ScansFit (sp : Space) (s : Centers φ) (mcid : Nat) (f : φ) (off len : Nat) : Prop :=
  HasHole (s.store mcid f) off (addU64 off len) →
    ∀ id ∈ sp.peers mcid, ScanFits (s.store id f) off (addU64 off len)

/-- A fetch of the range leaves out nothing but zeros of the pages it brings. -/
def FetchesWhole (sp : Space) (s : Centers φ) (mcid : Nat) (f : φ) (off len : Nat) : Prop :=
  ∀ id ∈ sp.peers mcid, LeavesOutZeros (s.store mcid f) (s.store id f) off (addU64 off len)

omit [DecidableEq φ] in
/-- The answers of a list of peers keep the local copy faithful and bring all the pages of the range
that they store. -/
theorem syncFrom_foldlM_spec {sp : Space} {s : Centers φ} {f : φ} {off len : Nat} {ref : ByteFile}
    (hlen : len < 2 ^ 63) {h₀ : DataFile} {ids : List Nat}
    (hids : ∀ id ∈ ids, id ∈ sp.ioproxys ∧ Faithful ref (s.store id f) ∧
      ScanFits (s.store id f) off (addU64 off len) ∧
      LeavesOutZeros h₀ (s.store id f) off (addU64 off len)) {h : DataFile} (hgrown : Grows h₀ h)
    (hlocal : Faithful ref h) :
    ∃ k, ids.foldlM (syncFrom sp s f off len) h = some k ∧ Faithful ref k ∧ Grows h k ∧
      ∀ id ∈ ids, ∀ i, off ≤ i → i < addU64 off len → i < ref.size →
        (s.store id f).data (i / pageSize) = true → k.data (i / pageSize) = true := by
  induction ids generalizing h with
  | nil => exact ⟨h, rfl, hlocal, Grows.refl h, by simp⟩
  | cons id ids ih =>
      obtain ⟨hid, hpeer, hfits, hleft⟩ := hids id List.mem_cons_self
      obtain ⟨k, hk, hkFaithful, hkGrows, hkBrings⟩ :=
        syncFrom_spec hid hlen hpeer hfits hleft hgrown hlocal
      obtain ⟨m, hm, hmFaithful, hmGrows, hmBrings⟩ :=
        ih (fun id' hid' => hids id' (List.mem_cons_of_mem _ hid')) (hgrown.trans hkGrows) hkFaithful
      refine ⟨m, by simp [List.foldlM_cons, hk, hm], hmFaithful, hkGrows.trans hmGrows, ?_⟩
      intro id' hid' i hlow hhigh hend hstored
      rcases List.mem_cons.mp hid' with rfl | hid'
      · exact hmGrows _ (hkBrings i hlow hhigh hend hstored)
      · exact hmBrings id' hid' i hlow hhigh hend hstored

/-- `sync_filedata` returns, and leaves a faithful local copy that stores every nonzero byte of the
range. -/
theorem syncFiledata_spec {sp : Space} (hsp : sp.Decodable) {s : Centers φ} {mcid : Nat} {f : φ}
    {off len : Nat} {ref : ByteFile} (hlen : len < 2 ^ 63) (hmcid : mcid ∈ sp.ioproxys)
    (hfaithful : ∀ c ∈ sp.ioproxys, Faithful ref (s.store c f)) (hcovers : Covers sp ref s f)
    (hfits : ScansFit sp s mcid f off len) (hwhole : FetchesWhole sp s mcid f off len) :
    ∃ h, syncFiledata sp s mcid f off len = some (s.setFile mcid f h) ∧ Faithful ref h ∧
      Grows (s.store mcid f) h ∧
      ∀ i, off ≤ i → i < addU64 off len → ref.byte i ≠ 0 → h.data (i / pageSize) = true := by
  have hlocal := hfaithful mcid hmcid
  obtain ⟨holes, hscan, hnone⟩ := findHolesInRange_spec (s.store mcid f) off (addU64 off len)
  cases holes with
  | nil =>
      refine ⟨s.store mcid f, by simp [syncFiledata, hscan], hlocal, Grows.refl _, ?_⟩
      intro i hlow hhigh href
      refine hnone.mp rfl i hlow hhigh ?_
      by_contra hbeyond
      exact href (ref.beyond i (by rw [← hlocal.size]; omega))
  | cons hole holes =>
      have hhole : HasHole (s.store mcid f) off (addU64 off len) := by
        by_contra hno
        refine absurd (hnone.mpr fun i hlow hhigh hend => ?_) (List.cons_ne_nil _ _)
        by_contra hdata
        exact hno ⟨i, hlow, hhigh, hend, by simpa using hdata⟩
      obtain ⟨h, hfold, hFaithful, hGrows, hBrings⟩ :=
        syncFrom_foldlM_spec hlen
          (fun id (hid : id ∈ sp.peers mcid) => ⟨hsp.peers_subset hid,
            hfaithful id (hsp.peers_subset hid), hfits hhole id hid, hwhole id hid⟩)
          (Grows.refl (s.store mcid f)) hlocal
      refine ⟨h, by simp [syncFiledata, hscan, hfold], hFaithful, hGrows, ?_⟩
      intro i hlow hhigh href
      have hend : i < ref.size := by
        by_contra hbeyond
        exact href (ref.beyond i (by omega))
      obtain ⟨c, hc, hdata⟩ := hcovers i href
      by_cases hown : c = mcid
      · subst hown
        exact hGrows _ hdata
      · exact hBrings c (hsp.mem_peers hc hown) i hlow hhigh hend hdata

/-! ### Whole pages -/

/-- The copy `h` stores every nonzero byte of page `p`. -/
def HoldsPage (ref : ByteFile) (h : DataFile) (p : Nat) : Prop :=
  ∀ i, i / pageSize = p → ref.byte i ≠ 0 → h.data p = true

theorem HoldsPage.grows {ref : ByteFile} {g h : DataFile} {p : Nat} (hg : HoldsPage ref g p)
    (hgh : Grows g h) : HoldsPage ref h p := fun i hip href => hgh p (hg i hip href)

/-- Fetching one page leaves a faithful local copy that stores it, if the page lies below 2^63. -/
theorem syncPage_spec {sp : Space} (hsp : sp.Decodable) {s : Centers φ} {mcid : Nat} {f : φ}
    {pg : Nat} {ref : ByteFile} (hmcid : mcid ∈ sp.ioproxys)
    (hfaithful : ∀ c ∈ sp.ioproxys, Faithful ref (s.store c f)) (hcovers : Covers sp ref s f)
    (hfits : ScansFit sp s mcid f (pg * pageSize) pageSize) :
    ∃ h, syncFiledata sp s mcid f (pg * pageSize) pageSize = some (s.setFile mcid f h) ∧
      Faithful ref h ∧ Grows (s.store mcid f) h ∧
      (pg * pageSize < 2 ^ 63 → HoldsPage ref h pg) := by
  obtain ⟨h, hsync, hFaithful, hGrows, hBrings⟩ :=
    syncFiledata_spec hsp (by unfold pageSize; omega) hmcid hfaithful hcovers hfits
      (fun id _ => leavesOutZeros_page _ _ pg)
  refine ⟨h, hsync, hFaithful, hGrows, fun hsmall i hip href => ?_⟩
  rw [← hip]
  refine hBrings i ?_ ?_ href
  · unfold pageSize at *
    omega
  · unfold addU64 pageSize at *
    omega

omit [DecidableEq φ] in
/-- A scan that the `int` does not disturb stays so when the local copy grows. -/
theorem ScansFit.of_grows {sp : Space} {s t : Centers φ} {mcid : Nat} {f : φ} {off len : Nat}
    (hfits : ScansFit sp s mcid f off len) (hgrows : Grows (s.store mcid f) (t.store mcid f))
    (hsize : (t.store mcid f).size = (s.store mcid f).size)
    (hpeers : ∀ id, id ≠ mcid → t.store id f = s.store id f) : ScansFit sp t mcid f off len := by
  rintro ⟨i, hlow, hhigh, hend, hhole⟩ id hid
  have hne : id ≠ mcid := fun heq => sp.not_mem_peers mcid (heq ▸ hid)
  rw [hpeers id hne]
  refine hfits ⟨i, hlow, hhigh, hsize ▸ hend, ?_⟩ id hid
  exact Bool.eq_false_iff.mpr fun hdata => by simp [hgrows _ hdata] at hhole

/-- Replacing the local copy by a larger one keeps what the centers know together. -/
theorem Covers.setFile {sp : Space} {s : Centers φ} {mcid : Nat} {f f' : φ} {ref : ByteFile}
    {h : DataFile} (hcovers : Covers sp ref s f') (hgrows : Grows (s.store mcid f) h) :
    Covers sp ref (s.setFile mcid f h) f' := by
  intro i hi
  obtain ⟨c, hc, hdata⟩ := hcovers i hi
  refine ⟨c, hc, ?_⟩
  by_cases hsame : c = mcid ∧ f' = f
  · obtain ⟨rfl, rfl⟩ := hsame
    rw [Centers.setFile_store_self]
    exact hgrows _ hdata
  · rw [Centers.setFile_store_of_ne hsame]
    exact hdata

/-- `sync_unalign_page` returns, and leaves a faithful local copy that stores the first and the last
page of the range where the range covers only a part of them. -/
theorem syncUnalignPage_spec {sp : Space} (hsp : sp.Decodable) {s : Centers φ} {mcid : Nat} {f : φ}
    {off len : Nat} {ref : ByteFile} (hmcid : mcid ∈ sp.ioproxys)
    (hfaithful : ∀ c ∈ sp.ioproxys, Faithful ref (s.store c f)) (hcovers : Covers sp ref s f)
    (hfirst : off % pageSize ≠ 0 → ScansFit sp s mcid f (off / pageSize * pageSize) pageSize)
    (hlast : addU64 off len % pageSize ≠ 0 →
      ScansFit sp s mcid f (addU64 off len / pageSize * pageSize) pageSize) :
    ∃ h, syncUnalignPage sp s mcid f off len = some (s.setFile mcid f h) ∧ Faithful ref h ∧
      Grows (s.store mcid f) h ∧
      (off + len < 2 ^ 63 → off % pageSize ≠ 0 → HoldsPage ref h (off / pageSize)) ∧
      (off + len < 2 ^ 63 → (off + len) % pageSize ≠ 0 →
        HoldsPage ref h ((off + len) / pageSize)) := by
  -- the fetch of the first page
  obtain ⟨g, hg, hgFaithful, hgGrows, hgHolds⟩ : ∃ g,
      (if off % pageSize ≠ 0 then syncFiledata sp s mcid f (off / pageSize * pageSize) pageSize
        else some s) = some (s.setFile mcid f g) ∧ Faithful ref g ∧ Grows (s.store mcid f) g ∧
      (off + len < 2 ^ 63 → off % pageSize ≠ 0 → HoldsPage ref g (off / pageSize)) := by
    by_cases halign : off % pageSize ≠ 0
    · obtain ⟨g, hsync, hFaithful, hGrows, hHolds⟩ :=
        syncPage_spec hsp hmcid hfaithful hcovers (hfirst halign)
      refine ⟨g, by rw [if_pos halign, hsync], hFaithful, hGrows, fun hsmall _ => hHolds ?_⟩
      unfold pageSize
      omega
    · exact ⟨s.store mcid f, by rw [if_neg halign, Centers.setFile_same], hfaithful mcid hmcid,
        Grows.refl _, fun _ h => absurd h halign⟩
  -- the fetch of the last page, into the copy that the first one has left
  by_cases halign : addU64 off len % pageSize ≠ 0
  · have hfaithful' : ∀ c ∈ sp.ioproxys, Faithful ref ((s.setFile mcid f g).store c f) := by
      intro c hc
      by_cases hown : c = mcid
      · subst hown
        rw [Centers.setFile_store_self]
        exact hgFaithful
      · rw [Centers.setFile_store_of_ne (fun h => hown h.1)]
        exact hfaithful c hc
    have hfits := (hlast halign).of_grows (t := s.setFile mcid f g) (by simpa using hgGrows)
      (by rw [Centers.setFile_store_self, hgFaithful.size, (hfaithful mcid hmcid).size])
      (fun id hne => Centers.setFile_store_of_ne (fun h => hne h.1))
    obtain ⟨h, hsync, hFaithful, hGrows, hHolds⟩ :=
      syncPage_spec hsp hmcid hfaithful' (hcovers.setFile hgGrows) hfits
    rw [Centers.setFile_store_self] at hGrows
    refine ⟨h, ?_, hFaithful, hgGrows.trans hGrows, fun hsmall hoff => ?_, fun hsmall _ => ?_⟩
    · unfold syncUnalignPage
      simp only [hg, Option.bind_some, if_pos halign, hsync, Centers.setFile_setFile]
    · exact (hgHolds hsmall hoff).grows hGrows
    · have hsum : addU64 off len = off + len := Nat.mod_eq_of_lt (by omega)
      rw [hsum] at hHolds
      refine hHolds ?_
      unfold pageSize
      omega
  · refine ⟨g, ?_, hgFaithful, hgGrows, hgHolds, fun hsmall hend => absurd ?_ halign⟩
    · unfold syncUnalignPage
      simp only [hg, Option.bind_some, if_neg halign]
    · have hsum : addU64 off len = off + len := Nat.mod_eq_of_lt (by omega)
      rw [hsum]
      exact hend

end Gvds.Replica
