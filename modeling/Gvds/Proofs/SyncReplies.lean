/-
Module: Gvds.Proofs.SyncReplies
Layer: Proofs
Purpose: What the asking center writes of a rep_sync_data reply against the peer's file. Both ends
  stay in step if the scan of the peer is not led astray by its int, each data range is read by one
  pread in full, and the cursor of the asking center, which is an int, stays below 2^31 up to the
  last range; and only then are exactly the peer's data bytes written, at their own offsets.
Imports: Gvds.IoProxy.FileSync, Gvds.Proofs.RangeScans
Trusted boundary: as Gvds.IoProxy.FileSync; the reply arrives as it was built
Main exports: received, readRanges_ok, syncWrites_eq, Decodes, Decodable, sync_reply_decodes_iff,
  sync_reply_misses_data
-/
import Gvds.IoProxy.FileSync
import Gvds.Proofs.RangeScans

namespace Gvds.FileSync

open ByteFile (InRange)
open HvsFileHandler (DiskFile FindsData Fits within_of_mem_findDataLoop fits_of_reports
  finds_data_runs findDataLoop findDataLoop_of_ends farFile
  farFile_seekData seekData_eq_of_le)
open MaximalRuns (Runs IsRun)

variable {B : Nat} {f : DiskFile B} {answers : Nat → PreadAnswer} {around : Int → UInt8}

/-! ### What the peer puts into its reply -/

theorem readCount_le (n : Nat) (a : PreadAnswer) : readCount n a ≤ n := by
  cases a with
  | fails errno => exact Nat.zero_le n
  | reads missing => exact Nat.min_le_left n _

theorem readCount_le_max (n : Nat) (a : PreadAnswer) : readCount n a ≤ maxRwCount := by
  cases a with
  | fails errno => exact Nat.zero_le maxRwCount
  | reads missing =>
      have : 1 ≤ maxRwCount := by decide
      simp only [readCount]
      omega

/-- The parameters of a reply to which all data ranges have been read, with the first answer at
`i`. -/
def received (answers : Nat → PreadAnswer) (i : Nat) (ranges : List (Nat × Nat)) :
    List (Nat × Nat) :=
  ranges.mapIdx fun k r => (r.1, readCount (r.2 - r.1) (answers (i + k)))

theorem received_cons (answers : Nat → PreadAnswer) (i : Nat) (r : Nat × Nat)
    (ranges : List (Nat × Nat)) :
    received answers i (r :: ranges) =
      (r.1, readCount (r.2 - r.1) (answers i)) :: received answers (i + 1) ranges := by
  simp [received, List.mapIdx_cons, Nat.add_comm, Nat.add_left_comm]

/-- The bytes that belong to some parameters, one piece after another. -/
def pieces (f : DiskFile B) (params : List (Nat × Nat)) : List UInt8 :=
  params.flatMap fun p => f.read p.1 p.2

/-- A reply without an error has a parameter for each data range, and the bytes that belong to
them. -/
theorem readRanges_ok {len i : Nat} {ranges : List (Nat × Nat)} {reply reply' : SyncReply}
    (h : readRanges f answers len ranges i reply = some reply') (hok : reply'.err_code = 0) :
    (∀ k r, ranges[k]? = some r → ∃ missing, answers (i + k) = .reads missing) ∧
      reply'.io_params = reply.io_params ++ received answers i ranges ∧
      reply'.data = reply.data ++ pieces f (received answers i ranges) := by
  induction ranges generalizing i reply with
  | nil =>
      cases h
      simp [received, pieces]
  | cons r ranges ih =>
      obtain ⟨off1, off2⟩ := r
      unfold readRanges at h
      cases ha : answers i with
      | fails errno =>
          rw [ha] at h
          cases h
          have := errno.property
          simp only at hok
          omega
      | reads missing =>
          rw [ha] at h
          dsimp only at h
          split at h
          · cases h
          · obtain ⟨hreads, hparams, hdata⟩ := ih h
            rw [received_cons, ha]
            refine ⟨?_, ?_, ?_⟩
            · intro k r hk
              cases k with
              | zero => exact ⟨missing, ha⟩
              | succ k =>
                  obtain ⟨m, hm⟩ := hreads k r hk
                  exact ⟨m, by rw [← hm]; congr 1; omega⟩
            · rw [hparams, List.append_assoc, List.singleton_append]
            · rw [hdata, List.append_assoc]
              rfl

/-! ### What the asking center writes of it -/

/-- The calls of `pwrite` cover the ranges of the parameters, wherever the cursor stands. -/
theorem syncWrites_covers {data : List UInt8} {cursor : Int} {params : List (Nat × Nat)}
    (hmax : ∀ p ∈ params, p.2 ≤ maxRwCount) (i : Nat) :
    (∃ w ∈ syncWrites around data cursor params, InRange w.off w.data.length i) ↔
      ∃ p ∈ params, InRange p.1 p.2 i := by
  induction params generalizing cursor with
  | nil => simp [syncWrites]
  | cons p params ih =>
      obtain ⟨offset, size⟩ := p
      obtain ⟨hsize, hrest⟩ := List.forall_mem_cons.mp hmax
      simp only [syncWrites, List.exists_mem_cons_iff, ih hrest, List.length_map,
        List.length_range, Nat.min_eq_left hsize]

/-- A cursor below 2^31 stays where the sizes add up to. -/
theorem advance_of_lt {n size : Nat} (h : n + size < 2 ^ 31) : advance n size = (n + size : Nat) := by
  unfold advance
  rw [Int.bmod_def]
  omega

/-- A cursor that passes 2^31 becomes negative. -/
theorem advance_neg {n size : Nat} (hn : n < 2 ^ 31) (hsize : size ≤ maxRwCount)
    (h : 2 ^ 31 ≤ n + size) : advance n size < 0 := by
  unfold advance
  unfold maxRwCount at hsize
  rw [Int.bmod_def]
  omega

/-- The sizes of all parameters but the last one. -/
def sizesBeforeLast (params : List (Nat × Nat)) : Nat := (params.dropLast.map Prod.snd).sum

theorem sizesBeforeLast_cons {p q : Nat × Nat} {params : List (Nat × Nat)} :
    sizesBeforeLast (p :: q :: params) = p.2 + sizesBeforeLast (q :: params) := by
  simp [sizesBeforeLast]

theorem sizesBeforeLast_map (ranges : List (Nat × Nat)) :
    sizesBeforeLast (ranges.map fun r => (r.1, r.2 - r.1)) =
      (ranges.dropLast.map fun r => r.2 - r.1).sum := by
  rw [sizesBeforeLast, ← List.map_dropLast, List.map_map]
  rfl

/-- A piece that is read from its place in the string. -/
theorem map_charAt (around : Int → UInt8) (front piece back : List UInt8) :
    ((List.range piece.length).map fun (k : Nat) =>
        charAt around (front ++ (piece ++ back)) ((front.length : Int) + k)) = piece := by
  apply List.ext_getElem
  · simp
  · intro k hk hk'
    have hk : k < piece.length := hk'
    simp only [List.getElem_map, List.getElem_range, charAt]
    have hpos : ((front.length : Int) + k).toNat = front.length + k := by omega
    rw [if_pos (by simp only [List.length_append]; omega), hpos,
      List.getD_append_right _ _ _ _ (by omega), Nat.add_sub_cancel_left,
      List.getD_append _ _ _ _ hk, List.getD_eq_getElem _ _ hk]

/-- While the cursor stays below 2^31 up to the last parameter, every `pwrite` gets the bytes that
belong to its parameter, and none is read outside the string. -/
theorem syncWrites_eq {front : List UInt8} {params : List (Nat × Nat)}
    (hfile : ∀ p ∈ params, p.1 + p.2 ≤ f.size) (hmax : ∀ p ∈ params, p.2 ≤ maxRwCount)
    (hfront : front.length < 2 ^ 31) (hsum : front.length + sizesBeforeLast params < 2 ^ 31) :
    syncWrites around (front ++ pieces f params) front.length params =
        params.map (fun p => ⟨(), p.1, f.read p.1 p.2⟩) ∧
      ReadsInside (front ++ pieces f params).length front.length params := by
  induction params generalizing front with
  | nil => exact ⟨rfl, trivial⟩
  | cons p params ih =>
      obtain ⟨offset, size⟩ := p
      obtain ⟨hp, hfile⟩ := List.forall_mem_cons.mp hfile
      obtain ⟨hpmax, hmax⟩ := List.forall_mem_cons.mp hmax
      dsimp only at hp hpmax
      have hlen : (f.read offset size).length = size := by
        rw [ByteFile.read_length]
        omega
      have hcut : pieces f ((offset, size) :: params) = f.read offset size ++ pieces f params := rfl
      have hpiece : ((List.range size).map fun (k : Nat) =>
          charAt around (front ++ (f.read offset size ++ pieces f params))
            ((front.length : Int) + k)) = f.read offset size := by
        have := map_charAt around front (f.read offset size) (pieces f params)
        rwa [hlen] at this
      have hfits : (front.length : Int) + size ≤
          ((front ++ (f.read offset size ++ pieces f params)).length : Int) := by
        simp only [List.length_append, hlen]
        omega
      simp only [syncWrites, ReadsInside, List.map_cons, hcut, Nat.min_eq_left hpmax, hpiece]
      cases params with
      | nil => exact ⟨rfl, Or.inr ⟨by omega, hfits⟩, trivial⟩
      | cons q params =>
          rw [sizesBeforeLast_cons] at hsum
          dsimp only at hsum
          have hnext : (front ++ f.read offset size).length = front.length + size := by
            rw [List.length_append, hlen]
          obtain ⟨hwrites, hinside⟩ :=
            @ih (front ++ f.read offset size) hfile hmax (by omega) (by omega)
          rw [List.append_assoc, hnext] at hwrites hinside
          rw [advance_of_lt (by omega), hwrites]
          exact ⟨rfl, Or.inr ⟨by omega, hfits⟩, hinside⟩

/-- A cursor that passes 2^31 before the last parameter makes the loop read before the string. -/
theorem not_readsInside {n front : Nat} {params : List (Nat × Nat)} (hpos : ∀ p ∈ params, 0 < p.2)
    (hmax : ∀ p ∈ params, p.2 ≤ maxRwCount) (hfront : front < 2 ^ 31)
    (hsum : 2 ^ 31 ≤ front + sizesBeforeLast params) : ¬ ReadsInside n front params := by
  induction params generalizing front with
  | nil =>
      simp only [sizesBeforeLast, List.dropLast_nil, List.map_nil, List.sum_nil] at hsum
      omega
  | cons p params ih =>
      cases params with
      | nil =>
          simp only [sizesBeforeLast, List.dropLast_singleton, List.map_nil, List.sum_nil] at hsum
          omega
      | cons q params =>
          rw [sizesBeforeLast_cons] at hsum
          obtain ⟨-, hpos⟩ := List.forall_mem_cons.mp hpos
          obtain ⟨hpmax, hmax⟩ := List.forall_mem_cons.mp hmax
          rintro ⟨-, hrest⟩
          by_cases hlow : front + p.2 < 2 ^ 31
          · rw [advance_of_lt hlow] at hrest
            exact ih hpos hmax hlow (by omega) hrest
          · have hneg := advance_neg hfront hpmax (Nat.not_lt.mp hlow)
            have hq := hpos q List.mem_cons_self
            rcases hrest.1 with hzero | ⟨hge, -⟩
            · omega
            · omega

/-! ### Decoded replies -/

/-- The loop over a reply writes exactly the bytes of the file's data ranges in the part of the range
below the end, at their own offsets, and reads nothing outside the data of the reply. -/
structure Decodes (f : DiskFile B) (around : Int → UInt8) (off len : Nat) (reply : SyncReply) :
    Prop where
  inside : ReadsInside reply.data.length 0 reply.io_params
  covers : ∀ i, (∃ w ∈ syncWrites around reply.data 0 reply.io_params,
      InRange w.off w.data.length i) ↔ off ≤ i ∧ i < min (off + len) f.size ∧ f.Stored i
  bytes : ∀ w ∈ syncWrites around reply.data 0 reply.io_params,
    ∀ k < w.data.length, w.data.getD k 0 = f.byte (w.off + k)

/-- The peer's scan is not led astray by its `int`, each data range is read in full, and the ranges
before the last one have less than 2^31 bytes. -/
structure Decodable (f : DiskFile B) (answers : Nat → PreadAnswer) (off len : Nat) : Prop where
  fits : Fits f off (min (addU64 off len) f.size)
  full : ∀ ranges, Runs f.Stored off (min (addU64 off len) f.size) ranges →
    ∀ k r, ranges[k]? = some r → readCount (r.2 - r.1) (answers k) = r.2 - r.1
  short : ∀ ranges, Runs f.Stored off (min (addU64 off len) f.size) ranges →
    ((ranges.dropLast).map fun r => r.2 - r.1).sum < 2 ^ 31

section Decodes

variable {max_size : MaxSize} {rounds off len : Nat} {reply : SyncReply}

/-- What a reply without an error consists of. -/
theorem handle_file_sync_data_ok (h : handle_file_sync_data f max_size answers rounds off len = some reply)
    (hok : reply.err_code = 0) :
    len < 2 ^ 63 ∧ ∃ ranges, FindsData f off (addU64 off len) ranges ∧
      (∀ r ∈ ranges, r.1 < r.2 ∧ r.2 ≤ min (addU64 off len) f.size) ∧
      (∀ k r, ranges[k]? = some r → ∃ missing, answers k = .reads missing) ∧
      reply.io_params = received answers 0 ranges ∧
      reply.data = pieces f (received answers 0 ranges) := by
  obtain ⟨ranges, hscan, hread⟩ := Option.bind_eq_some_iff.mp h
  split at hread
  · cases hread
  · obtain ⟨hreads, hparams, hdata⟩ := readRanges_ok hread hok
    have hmax := max_size.property
    refine ⟨by omega, ranges, ⟨rounds, hscan⟩, ?_, ?_, hparams, hdata⟩
    · exact within_of_mem_findDataLoop (Nat.min_le_right _ _) hscan
    · intro k r hk
      have := hreads k r hk
      rwa [Nat.zero_add] at this

/-- Each parameter belongs to one data range, of which it is a part that is not empty. -/
theorem mem_received {ranges : List (Nat × Nat)}
    (hne : ∀ r ∈ ranges, r.1 < r.2)
    (hreads : ∀ k r, ranges[k]? = some r → ∃ missing, answers k = .reads missing) {p : Nat × Nat} :
    p ∈ received answers 0 ranges ↔
      ∃ k r, ranges[k]? = some r ∧ p = (r.1, readCount (r.2 - r.1) (answers k)) ∧ 0 < p.2 := by
  have hpos : ∀ k r, ranges[k]? = some r → 0 < readCount (r.2 - r.1) (answers k) := by
    intro k r hk
    obtain ⟨missing, hm⟩ := hreads k r hk
    have := hne r (List.mem_of_getElem? hk)
    rw [hm, readCount]
    omega
  rw [List.mem_iff_getElem?]
  simp only [received, List.getElem?_mapIdx, Option.map_eq_some_iff, Nat.zero_add]
  constructor
  · rintro ⟨k, r, hk, rfl⟩
    exact ⟨k, r, hk, rfl, hpos k r hk⟩
  · rintro ⟨k, r, hk, rfl, -⟩
    exact ⟨k, r, hk, rfl⟩

/-- Where all data ranges have been read in full the parameters are their offsets and sizes. -/
theorem received_eq_map {ranges : List (Nat × Nat)}
    (hfull : ∀ k r, ranges[k]? = some r → readCount (r.2 - r.1) (answers k) = r.2 - r.1) :
    received answers 0 ranges = ranges.map fun r => (r.1, r.2 - r.1) := by
  apply List.ext_getElem?
  intro k
  rw [received, List.getElem?_mapIdx, List.getElem?_map, Nat.zero_add]
  cases hk : ranges[k]? with
  | none => rfl
  | some r => simp [hfull k r hk]

/-- Two data ranges that hold one byte are the same one. -/
theorem index_unique {P : Nat → Prop} {lo hi i j k : Nat} {r s : Nat × Nat}
    {ranges : List (Nat × Nat)} (hruns : Runs P lo hi ranges) (hj : ranges[j]? = some r)
    (hk : ranges[k]? = some s) (hr : r.1 ≤ i ∧ i < r.2) (hs : s.1 ≤ i ∧ i < s.2) : j = k := by
  obtain ⟨hjlt, rfl⟩ := List.getElem?_eq_some_iff.mp hj
  obtain ⟨hklt, rfl⟩ := List.getElem?_eq_some_iff.mp hk
  rcases Nat.lt_trichotomy j k with hlt | heq | hgt
  · have := List.pairwise_iff_getElem.mp hruns.increasing j k hjlt hklt hlt
    omega
  · exact heq
  · have := List.pairwise_iff_getElem.mp hruns.increasing k j hklt hjlt hgt
    omega

/-- The ends of the range for the reader and for the handler. -/
theorem in_range_iff {i : Nat} (hlen : len < 2 ^ 63) :
    (off ≤ i ∧ i < min (off + len) f.size) ↔ off ≤ i ∧ i < min (addU64 off len) f.size := by
  have hsize := f.size_lt
  unfold addU64
  omega

/-- The parameters cover the stored bytes below `lim`, and nothing else. -/
def Complete (f : DiskFile B) (answers : Nat → PreadAnswer) (off lim : Nat)
    (ranges : List (Nat × Nat)) : Prop :=
  ∀ i, (∃ p ∈ received answers 0 ranges, InRange p.1 p.2 i) ↔ off ≤ i ∧ i < lim ∧ f.Stored i

variable {lim : Nat} {ranges : List (Nat × Nat)}

/-- The writes for a reply are where its parameters are. -/
theorem Decodes.complete (hdec : Decodes f around off len reply) (hlen : len < 2 ^ 63)
    (hparams : reply.io_params = received answers 0 ranges)
    (hsizes : ∀ p ∈ reply.io_params, p.2 ≤ maxRwCount) :
    Complete f answers off (min (addU64 off len) f.size) ranges := by
  intro i
  rw [← hparams, ← syncWrites_covers hsizes i, hdec.covers i, ← and_assoc, ← and_assoc,
    in_range_iff hlen]

/-- The scan was not led astray if all stored bytes are covered: each of them is in a range that it
found. -/
theorem Complete.fits (h : Complete f answers off (min lim f.size) ranges)
    (hfinds : FindsData f off lim ranges) (hne : ∀ r ∈ ranges, r.1 < r.2)
    (hreads : ∀ k r, ranges[k]? = some r → ∃ missing, answers k = .reads missing) :
    Fits f off (min lim f.size) := by
  have hmem := @mem_received answers ranges hne hreads
  apply fits_of_reports hfinds
  · intro r hr
    obtain ⟨k, hk⟩ := List.mem_iff_getElem?.mp hr
    obtain ⟨missing, hm⟩ := hreads k r hk
    have hlt := hne r hr
    have hpos : 0 < readCount (r.2 - r.1) (answers k) := by
      rw [hm, readCount]
      omega
    have hcovered := (h r.1).mp
      ⟨_, hmem.mpr ⟨k, r, hk, rfl, hpos⟩, Nat.le_refl _, by dsimp only; omega⟩
    exact hcovered.1
  · intro i hi hilim hstored
    obtain ⟨p, hp, hlow, hhigh⟩ := (h i).mpr ⟨hi, hilim, hstored⟩
    obtain ⟨k, r, hk, rfl, -⟩ := hmem.mp hp
    have hle := readCount_le (r.2 - r.1) (answers k)
    dsimp only at hlow hhigh
    exact ⟨r, List.mem_of_getElem? hk, hlow, by omega⟩

/-- Each data range was read in full if all stored bytes are covered: its last byte is covered, and
only by the parameter for the range itself. -/
theorem Complete.full (h : Complete f answers off lim ranges)
    (hruns : Runs f.Stored off lim ranges)
    (hreads : ∀ k r, ranges[k]? = some r → ∃ missing, answers k = .reads missing) {k : Nat}
    {r : Nat × Nat} (hk : ranges[k]? = some r) :
    readCount (r.2 - r.1) (answers k) = r.2 - r.1 := by
  have hne : ∀ r ∈ ranges, r.1 < r.2 := fun r hr => ((hruns.mem_iff r).mp hr).lt
  have hrun := (hruns.mem_iff r).mp (List.mem_of_getElem? hk)
  have hlt := hrun.lt
  have hlow := hrun.lo_le
  have hhigh := hrun.le_hi
  have hlast : r.1 ≤ r.2 - 1 ∧ r.2 - 1 < r.2 := by omega
  obtain ⟨p, hp, hfrom, hto⟩ := (h (r.2 - 1)).mpr
    ⟨by omega, by omega, hrun.inside _ hlast.1 hlast.2⟩
  obtain ⟨j, s, hj, rfl, -⟩ := (mem_received hne hreads).mp hp
  have hle := readCount_le (s.2 - s.1) (answers j)
  dsimp only at hfrom hto
  have hjk : j = k := index_unique hruns hj hk ⟨hfrom, by omega⟩ hlast
  subst hjk
  have hrs : s = r := Option.some.inj (hj.symm.trans hk)
  subst hrs
  omega

/-- Data ranges that have been read in full cover the stored bytes. -/
theorem complete_of_full (hruns : Runs f.Stored off lim ranges)
    (hfull : ∀ k r, ranges[k]? = some r → readCount (r.2 - r.1) (answers k) = r.2 - r.1) :
    Complete f answers off lim ranges := by
  intro i
  rw [received_eq_map hfull, ← and_assoc, and_assoc, ← hruns.mem_range_iff]
  simp only [List.mem_map, InRange]
  constructor
  · rintro ⟨p, ⟨r, hr, rfl⟩, hlow, hhigh⟩
    have hlt := ((hruns.mem_iff r).mp hr).lt
    exact ⟨r, hr, hlow, by omega⟩
  · rintro ⟨r, hr, hlow, hhigh⟩
    exact ⟨_, ⟨r, hr, rfl⟩, hlow, by dsimp only; omega⟩

/-- For every file of a peer, every requested range and every reply without an error: exactly the
bytes of the data ranges are written if and only if the reply is decodable. -/
theorem sync_reply_decodes_iff (B : Nat) (f : DiskFile B) (max_size : MaxSize)
    (answers : Nat → PreadAnswer) (around : Int → UInt8) (rounds off len : Nat) (reply : SyncReply)
    (h : handle_file_sync_data f max_size answers rounds off len = some reply)
    (hok : reply.err_code = 0) :
    Decodes f around off len reply ↔ Decodable f answers off len := by
  obtain ⟨hlen, found, hfound, hwithin, hreads, hparams, hdata⟩ := handle_file_sync_data_ok h hok
  have hne : ∀ r ∈ found, r.1 < r.2 := fun r hr => (hwithin r hr).1
  have hsizes : ∀ p ∈ reply.io_params, p.2 ≤ maxRwCount := by
    intro p hp
    rw [hparams, mem_received hne hreads] at hp
    obtain ⟨k, r, -, rfl, -⟩ := hp
    exact readCount_le_max _ _
  constructor
  · intro hdec
    have hcomplete := hdec.complete hlen hparams hsizes
    have hfits := hcomplete.fits hfound hne hreads
    obtain ⟨runs, hfinds, hruns⟩ := finds_data_runs hfits
    obtain rfl := hfound.unique hfinds
    have hfull : ∀ k r, found[k]? = some r → readCount (r.2 - r.1) (answers k) = r.2 - r.1 :=
      fun k r hk => hcomplete.full hruns hreads hk
    refine ⟨hfits, ?_, ?_⟩
    · intro ranges hranges
      obtain rfl := hruns.unique hranges
      exact hfull
    · intro ranges hranges
      obtain rfl := hruns.unique hranges
      by_contra hlong
      apply not_readsInside ?_ hsizes (by decide : 0 < 2 ^ 31) ?_ hdec.inside
      · intro p hp
        rw [hparams, mem_received hne hreads] at hp
        obtain ⟨k, r, -, -, hpos⟩ := hp
        exact hpos
      · rw [hparams, received_eq_map hfull, sizesBeforeLast_map, Nat.zero_add]
        exact Nat.not_lt.mp hlong
  · intro hcan
    obtain ⟨runs, hfinds, hruns⟩ := finds_data_runs hcan.fits
    obtain rfl := hfound.unique hfinds
    have hfull := hcan.full found hruns
    have hmap := received_eq_map hfull
    have hfile : ∀ p ∈ reply.io_params, p.1 + p.2 ≤ f.size := by
      intro p hp
      rw [hparams, hmap] at hp
      obtain ⟨r, hr, rfl⟩ := List.mem_map.mp hp
      have := hwithin r hr
      dsimp only
      omega
    have hshort := hcan.short found hruns
    have hsum : ([] : List UInt8).length + sizesBeforeLast reply.io_params < 2 ^ 31 := by
      rw [hparams, hmap, sizesBeforeLast_map, List.length_nil, Nat.zero_add]
      exact hshort
    obtain ⟨hwrites, hinside⟩ :=
      @syncWrites_eq B f around [] reply.io_params hfile hsizes (by decide) hsum
    rw [List.nil_append, hparams, ← hdata, ← hparams] at hwrites hinside
    refine ⟨hinside, ?_, ?_⟩
    · intro i
      rw [syncWrites_covers hsizes i, ← and_assoc, in_range_iff hlen, and_assoc, hparams]
      exact complete_of_full hruns hfull i
    · intro w hw k hk
      have hw' : w ∈ reply.io_params.map (fun p => ⟨(), p.1, f.read p.1 p.2⟩) := by
        rw [← hwrites]
        exact hw
      obtain ⟨p, -, rfl⟩ := List.mem_map.mp hw'
      exact ByteFile.read_getD hk

end Decodes

/-- A file of three bytes with a hole in the middle. -/
def threeBytes : DiskFile 1 where
  size := 3
  byte := fun i => if i = 0 then 7 else if i = 2 then 9 else 0
  beyond := by
    intro i hi
    rw [if_neg (by omega), if_neg (by omega)]
  data := fun p => p == 0 || p == 2
  hole_zero := by
    intro i hi
    rw [Nat.div_one, Bool.or_eq_false_iff, beq_eq_false_iff_ne, beq_eq_false_iff_ne] at hi
    rw [if_neg hi.1, if_neg hi.2]
  data_lt := by
    intro p hp
    rw [Bool.or_eq_true, beq_iff_eq, beq_iff_eq] at hp
    omega
  size_lt := by decide

/-- The reply for the whole of that file. -/
theorem sync_reply_decodes_iff_three_bytes :
    Decodes threeBytes (fun _ => 0) 0 3 ⟨[(0, 1), (2, 1)], [7, 9], 0⟩ ↔
      Decodable threeBytes (fun _ => .reads 0) 0 3 :=
  sync_reply_decodes_iff 1 threeBytes ⟨100, by decide⟩ (fun _ => .reads 0) (fun _ => 0) 5 0 3
    ⟨[(0, 1), (2, 1)], [7, 9], 0⟩ (by decide) rfl

/-- The peer's copy has a hole up to 2^31 and a page of data there; a request for the two pages on
both sides is answered without an error and without the data. -/
theorem sync_reply_misses_data :
    ¬ ∀ (B : Nat) (f : DiskFile B) (max_size : MaxSize) (answers : Nat → PreadAnswer)
        (around : Int → UInt8) (rounds off len : Nat) (reply : SyncReply),
        handle_file_sync_data f max_size answers rounds off len = some reply →
        reply.err_code = 0 → Decodes f around off len reply := by
  intro h
  have hseek : farFile.seekData (2 ^ 31 - 4096) = some (2 ^ 31) :=
    seekData_eq_of_le farFile_seekData (Nat.zero_le _) (by decide)
  have hend : (min (addU64 (2 ^ 31 - 4096) 8192) farFile.size) = 2 ^ 31 + 4096 := by decide
  have hscan : findDataLoop farFile (2 ^ 31 + 4096) 2 (2 ^ 31 - 4096) = some [] := by
    apply findDataLoop_of_ends (by decide)
    refine Or.inr ⟨rfl, ?_⟩
    rw [hseek]
    decide
  have hreply : handle_file_sync_data farFile ⟨2 ^ 62, by decide⟩ (fun _ => .reads 0) 2
      (2 ^ 31 - 4096) 8192 = some ⟨[], [], 0⟩ := by
    rw [handle_file_sync_data, hend, hscan]
    rfl
  have hdec := h _ _ _ _ (fun _ => 0) _ _ _ _ hreply rfl
  obtain ⟨w, hw, -⟩ := (hdec.covers (2 ^ 31)).mpr ⟨by decide, by decide, by decide⟩
  cases hw

end Gvds.FileSync
