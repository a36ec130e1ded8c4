/-
Module: Gvds.Proofs.ProxySurvival
Layer: Proofs
Purpose: Which requests the IO proxy survives. The handlers take it for granted that files, centers
  and numbers are as they should be: what each type of request has to meet so that the process does
  not end is necessary and sufficient, and a run of requests goes to its end exactly if all of them
  meet it.
Imports: Gvds.Lib.Rounds, Gvds.IoProxy.ProxyProcess
Trusted boundary: as Gvds.IoProxy.ProxyProcess
Main exports: Hole, SyncSafe, SpaceSafe, EntrySafe, DataSafe, BitmapSafe, Harmless, do_op_isSome_iff,
  proxy_survives_iff
-/
import Gvds.Lib.Rounds
import Gvds.IoProxy.ProxyProcess

namespace Gvds.ProxyProcess

open DataDirectory (Path spacePath firstComponent)
open DecimalText (stoi)
open CenterIds (compressIds key push_back split)
open ReplicaQueue (route toId)

variable {β : Type*}

/-! ### Descriptors and handlers -/

/-- What `FdManager::open` returns: the descriptor that is kept for a path, or else what the system
answers. -/
def Memory.descriptor (m : Memory β) (sys : System) (n : Nat) (path : Path) (flags : BitVec 32) :
    Int :=
  match m.fds.lookup path with
  | some fd => fd
  | none => sys.sysOpen n path (flags &&& ~~~IoProxy.maskFlags)

/-- The pointer to a bitmap that is held for a descriptor, if one is. -/
def Memory.held (m : Memory β) (fd : Nat) (cid : Int) : Option (Option β) :=
  (m.file_handlers fd).bind fun h => h.bitmaps cid

namespace Memory

theorem fdmOpen_fst (m : Memory β) (sys : System) (n : Nat) (path : Path) (flags : BitVec 32) :
    (m.fdmOpen sys n path flags).1 = m.descriptor sys n path flags := by
  unfold fdmOpen descriptor
  cases m.fds.lookup path with
  | some fd => rfl
  | none =>
      dsimp only
      split <;> rfl

@[simp] theorem fdmOpen_file_handlers (m : Memory β) (sys : System) (n : Nat) (path : Path)
    (flags : BitVec 32) : (m.fdmOpen sys n path flags).2.file_handlers = m.file_handlers := by
  unfold fdmOpen
  cases m.fds.lookup path with
  | some fd => rfl
  | none =>
      dsimp only
      split <;> rfl

/-- A path that has been opened is kept. -/
theorem lookup_fdmOpen {m : Memory β} {sys : System} {n : Nat} {path : Path} {flags : BitVec 32}
    (h : 0 ≤ m.descriptor sys n path flags) :
    (m.fdmOpen sys n path flags).2.fds.lookup path =
      some (m.descriptor sys n path flags).toNat := by
  unfold fdmOpen
  unfold descriptor at h ⊢
  cases hp : m.fds.lookup path with
  | some fd => simp [hp]
  | none =>
      simp only [hp] at h ⊢
      rw [if_neg (not_lt.mpr h)]
      have hpos := m.max_fd_num_pos
      have hentries := Lru.touch_entries hp
        (sys.sysOpen n path (flags &&& ~~~IoProxy.maskFlags)).toNat
      refine Lru.lookup_iterate_expire hentries ?_
      unfold Lru.size
      dsimp only
      rw [hentries, List.length_cons]
      omega

/-- What opening a path answers is its descriptor, and an opened path is kept under it. -/
theorem descriptor_of_fdmOpen {m m' : Memory β} {sys : System} {n : Nat} {path : Path}
    {flags : BitVec 32} {fd : Int} (hopen : m.fdmOpen sys n path flags = (fd, m')) :
    m.descriptor sys n path flags = fd ∧ (0 ≤ fd → m'.fds.lookup path = some fd.toNat) := by
  have hfd : fd = m.descriptor sys n path flags := by rw [← fdmOpen_fst, hopen]
  subst hfd
  refine ⟨rfl, fun hpos => ?_⟩
  have hkept := lookup_fdmOpen hpos
  rwa [hopen] at hkept

/-- A path that is kept gives its descriptor, and all that changes is the order. -/
theorem fdmOpen_of_lookup {m : Memory β} {path : Path} {fd : Nat} (h : m.fds.lookup path = some fd)
    (sys : System) (n : Nat) (flags : BitVec 32) :
    m.fdmOpen sys n path flags = ((fd : Int), { m with fds := m.fds.hit path }) := by
  simp [fdmOpen, h]

/-- The handler of a path is there exactly if the path can be opened. -/
theorem get_file_handler_eq_none_iff {m : Memory β} {sys : System} {n : Nat} {path : Path} :
    (m.get_file_handler sys n path).1 = none ↔ m.descriptor sys n path oRdwr < 0 := by
  rw [← fdmOpen_fst]
  unfold get_file_handler
  cases m.fdmOpen sys n path oRdwr with
  | mk fd m' =>
      dsimp only
      split
      · rename_i hneg
        exact iff_of_true rfl hneg
      · rename_i hneg
        cases m'.file_handlers fd.toNat with
        | some h => exact iff_of_false (Option.some_ne_none h) hneg
        | none => exact iff_of_false (Option.some_ne_none _) hneg

/-- The handler of a path is that of its descriptor, with the bitmaps that are held for it. -/
theorem get_file_handler_eq_some {m : Memory β} {sys : System} {n : Nat} {path : Path}
    {h : FileHandler β} (hget : (m.get_file_handler sys n path).1 = some h) :
    h.fd = (m.descriptor sys n path oRdwr).toNat ∧ h.bitmaps = m.held h.fd := by
  have hhandlers := fdmOpen_file_handlers m sys n path oRdwr
  rw [← fdmOpen_fst]
  unfold get_file_handler at hget
  cases hopen : m.fdmOpen sys n path oRdwr with
  | mk fd m' =>
      rw [hopen] at hget hhandlers
      dsimp only at hget hhandlers ⊢
      split at hget
      · cases hget
      · cases hh : m'.file_handlers fd.toNat with
        | some h' =>
            simp only [hh, Option.some.injEq] at hget
            subst hget
            have hfd := m'.handler_fd _ _ hh
            refine ⟨hfd, funext fun cid => ?_⟩
            rw [held, ← hhandlers, hfd, hh, Option.bind_some]
        | none =>
            simp only [hh, Option.some.injEq] at hget
            subst hget
            refine ⟨rfl, funext fun cid => ?_⟩
            rw [held, ← hhandlers, hh]
            rfl

end Memory

/-! ### Scans -/

/-- A range of a file has a hole before its end; of a file that `lseek` refuses, any range that is
not empty passes for one. -/
def Hole (layout : Option DataFile) (off len : Nat) : Prop :=
  match layout with
  | none => off < addU64 off len
  | some f => ∃ i, off ≤ i ∧ i < addU64 off len ∧ i < f.size ∧ f.data (i / pageSize) = false

/-- The scan for holes always ends, and finds one where there is one. -/
theorem find_holes_in_range_spec (layout : Option DataFile) (off len : Nat) :
    ∃ holes, find_holes_in_range layout off (addU64 off len) = some holes ∧
      (holes.length = 0 ↔ ¬ Hole layout off len) := by
  cases layout with
  | none =>
      refine ⟨_, rfl, ?_⟩
      unfold Hole
      split <;> simp_all
  | some f =>
      obtain ⟨holes, hscan, hnone⟩ := findHolesInRange_spec f off (addU64 off len)
      refine ⟨holes, hscan, ?_⟩
      rw [List.length_eq_zero_iff, hnone]
      unfold Hole
      constructor
      · rintro hall ⟨i, hoff, hlim, hsize, hdata⟩
        rw [hall i hoff hlim hsize] at hdata
        cases hdata
      · intro hno i hoff hlim hsize
        by_contra hdata
        exact hno ⟨i, hoff, hlim, hsize, by simpa using hdata⟩

/-- Where the next round of the loop of `find_data_in_range` begins, if there is one. -/
def nextRound (f : DataFile) (lim off : Nat) : Option Nat :=
  if off < lim then
    match f.seekHole off with
    | none => none
    | some dataBegin =>
        if off < dataBegin ∧ lim ≤ dataBegin then none
        else (f.seekData dataBegin).map throughInt
  else none

theorem dataLoop_eq_none_iff {f : DataFile} {lim fuel off : Nat} :
    dataLoop f lim fuel off = none ↔ Loop.Rounds (nextRound f lim) fuel off := by
  induction fuel generalizing off with
  | zero => exact iff_of_true rfl trivial
  | succ fuel ih =>
      change dataLoop f lim (fuel + 1) off = none ↔
        ∃ b, nextRound f lim off = some b ∧ Loop.Rounds (nextRound f lim) fuel b
      generalize Loop.Rounds (nextRound f lim) fuel = later at ih ⊢
      unfold dataLoop nextRound
      by_cases hlt : off < lim
      · simp only [if_pos hlt]
        cases f.seekHole off with
        | none => simp
        | some dataBegin =>
            dsimp only
            cases f.seekData dataBegin with
            | none =>
                by_cases hbefore : off < dataBegin
                · by_cases hpast : lim ≤ dataBegin
                  · simp [hbefore, hpast]
                  · simp [hbefore, hpast]
                · simp [hbefore]
            | some holeBegin =>
                by_cases hbefore : off < dataBegin
                · by_cases hpast : lim ≤ dataBegin
                  · simp [hbefore, hpast]
                  · simp [hbefore, hpast, ih]
                · simp [hbefore, ih]
      · simp [if_neg hlt]

/-- A scan for data that has no result in the model goes on for ever. -/
theorem find_data_in_range_eq_none_iff {f : DataFile} {start lim : Nat} :
    find_data_in_range (some f) start lim = none ↔
      ∀ fuel, dataLoop f (min lim f.size) fuel start = none := by
  constructor
  · intro hnone fuel
    have hbelow : ∀ a b, nextRound f (min lim f.size) a = some b →
        a ∈ Finset.range (min lim f.size) := by
      intro a b hnext
      unfold nextRound at hnext
      split at hnext
      · exact Finset.mem_range.mpr ‹_›
      · cases hnext
    have hrounds : Loop.Rounds (nextRound f (min lim f.size))
        ((Finset.range (min lim f.size)).card + 1) start := by
      rw [Finset.card_range]
      exact dataLoop_eq_none_iff.mp hnone
    exact dataLoop_eq_none_iff.mpr (hrounds.forever hbelow fuel)
  · intro hall
    exact hall _

/-! ### The buffer of a reply -/

/-- How many bytes a read has put into the buffer. -/
def taken (pread : Nat → Nat → Nat → Int) (i : Nat) (range : Nat × Nat) : Nat :=
  min (pread i (range.2 - range.1) range.1).toNat (range.2 - range.1)

/-- What the reads of some ranges give, up to one that fails, has room in so many bytes. -/
def Fits (len : Nat) (pread : Nat → Nat → Nat → Int) (ranges : List (Nat × Nat)) : Prop :=
  ∀ front, front <+: ranges →
    (∀ i range, front[i]? = some range → 0 ≤ pread i (range.2 - range.1) range.1) →
      (front.mapIdx (taken pread)).sum ≤ len

theorem readRanges_isSome_iff {len : Nat} {pread : Nat → Nat → Nat → Int} {cursor : Nat}
    {ranges : List (Nat × Nat)} (hcursor : cursor ≤ len) :
    (readRanges len pread cursor ranges).isSome = true ↔ Fits (len - cursor) pread ranges := by
  induction ranges generalizing pread cursor with
  | nil =>
      refine iff_of_true rfl fun front hfront _ => ?_
      rw [List.prefix_nil.mp hfront]
      simp
  | cons range ranges ih =>
      obtain ⟨off1, off2⟩ := range
      unfold readRanges
      dsimp only
      by_cases hret : pread 0 (off2 - off1) off1 < 0
      · rw [if_pos hret]
        refine iff_of_true rfl fun front hfront hreads => ?_
        cases front with
        | nil => simp
        | cons first front =>
            -- the read fails, so nothing is counted behind it
            obtain ⟨rfl, -⟩ := List.cons_prefix_cons.mp hfront
            have hfirst := hreads 0 (off1, off2) rfl
            exact absurd hret (not_lt.mpr hfirst)
      · rw [if_neg hret]
        have hbytes : taken pread 0 (off1, off2) = min (pread 0 (off2 - off1) off1).toNat
            (off2 - off1) := rfl
        have hshift : ∀ front : List (Nat × Nat),
            (((off1, off2) :: front).mapIdx (taken pread)).sum =
              taken pread 0 (off1, off2) +
                (front.mapIdx (taken fun i => pread (i + 1))).sum := by
          intro front
          rw [List.mapIdx_cons, List.sum_cons]
          rfl
        rw [← hbytes]
        by_cases hroom : cursor + taken pread 0 (off1, off2) ≤ len
        · rw [if_pos hroom, ih hroom]
          constructor
          · intro hfits front hfront hreads
            cases front with
            | nil => simp
            | cons first front =>
                obtain ⟨rfl, hrest⟩ := List.cons_prefix_cons.mp hfront
                have htail := hfits front hrest fun i range hi => hreads (i + 1) range (by simpa using hi)
                rw [hshift]
                omega
          · intro hfits front hfront hreads
            have hall := hfits ((off1, off2) :: front)
              (List.cons_prefix_cons.mpr ⟨rfl, hfront⟩) fun i range hi => by
                cases i with
                | zero =>
                    cases hi
                    exact not_lt.mp hret
                | succ i => exact hreads i range (by simpa using hi)
            rw [hshift] at hall
            omega
        · rw [if_neg hroom]
          refine iff_of_false (by simp) fun hfits => hroom ?_
          have hone := hfits [(off1, off2)]
            (List.cons_prefix_cons.mpr ⟨rfl, List.nil_prefix⟩) fun i range hi => by
              cases i with
              | zero =>
                  cases hi
                  exact not_lt.mp hret
              | succ i => simp at hi
          rw [hshift] at hone
          simp only [List.mapIdx_nil, List.sum_nil] at hone
          omega

/-- Where the `int` does no harm, the ranges that the scan for data reports do not overlap. -/
theorem sum_dataLoop_le {f : DataFile} {start lim : Nat} (hto : lim ≤ f.size)
    (hfits : ∀ h, start ≤ h → h < lim → f.data (h / pageSize) = false →
      ∀ v, f.seekData h = some v → throughInt v = v ∨ (lim ≤ v ∧ lim ≤ throughInt v)) :
    ∀ (fuel off : Nat) (ranges : List (Nat × Nat)), start ≤ off →
      dataLoop f lim fuel off = some ranges →
        (ranges.map fun r => r.2 - r.1).sum ≤ lim - off
  | 0, off, ranges, _, hscan => by cases hscan
  | fuel + 1, off, ranges, hfrom, hscan => by
      unfold dataLoop at hscan
      by_cases hlt : off < lim
      · obtain ⟨dataBegin, hseek, hge, -, -, hend⟩ :=
          SparseFile.seekHole_spec (show off < f.size by omega)
        simp only [if_pos hlt, hseek] at hscan
        by_cases hpast : lim ≤ dataBegin
        · rw [if_pos (show off < dataBegin by omega), if_pos hpast] at hscan
          cases hscan
          simp
        · -- what the rest of the scan reports begins behind the data that ends at `dataBegin`
          have hrest : ∀ rest, (match f.seekData dataBegin with
              | none => some []
              | some holeBegin => dataLoop f lim fuel (throughInt holeBegin)) = some rest →
              (rest.map fun r => r.2 - r.1).sum ≤ lim - dataBegin := by
            intro rest hrest
            cases hdata : f.seekData dataBegin with
            | none =>
                rw [hdata] at hrest
                cases hrest
                simp
            | some holeBegin =>
                rw [hdata] at hrest
                obtain ⟨-, ⟨hlow, -⟩, -⟩ := SparseFile.seekData_eq_some.mp hdata
                have hnext := hfits dataBegin (by omega) (by omega) (hend (by omega)) holeBegin hdata
                have hsum := sum_dataLoop_le hto hfits fuel (throughInt holeBegin) rest (by omega)
                  hrest
                omega
          by_cases hbefore : off < dataBegin
          · rw [if_pos hbefore, if_neg hpast, Option.map_eq_some_iff] at hscan
            obtain ⟨rest, hscan, rfl⟩ := hscan
            have hsum := hrest rest hscan
            rw [List.map_cons, List.sum_cons]
            dsimp only
            omega
          · rw [if_neg hbefore] at hscan
            have hsum := hrest ranges hscan
            omega
      · rw [if_neg hlt] at hscan
        cases hscan
        simp

/-- No read gives more than it asks for. -/
theorem sum_taken_le (pread : Nat → Nat → Nat → Int) (ranges : List (Nat × Nat)) :
    (ranges.mapIdx (taken pread)).sum ≤ (ranges.map fun r => r.2 - r.1).sum := by
  induction ranges generalizing pread with
  | nil => simp
  | cons range ranges ih =>
      rw [List.mapIdx_cons, List.sum_cons, List.map_cons, List.sum_cons]
      exact Nat.add_le_add (Nat.min_le_right _ _) (ih fun i => pread (i + 1))

/-- A file whose offsets all pass through the `int`, as those of a file of up to 2 GiB do, is scanned
to the end, and what is found has room. -/
theorem fits_of_scanFits {f : DataFile} {off len : Nat} (h : ScanFits f off (addU64 off len))
    (pread : Nat → Nat → Nat → Int) :
    ∃ data_ranges, find_data_in_range (some f) off (addU64 off len) = some data_ranges ∧
      Fits len pread data_ranges := by
  have hto : min (addU64 off len) f.size ≤ f.size := Nat.min_le_right _ _
  obtain ⟨ranges, hscan, -, -⟩ := dataLoop_spec hto h (min (addU64 off len) f.size + 1) off
    (Nat.le_refl _) (by omega)
  refine ⟨ranges, hscan, fun front hfront _ => ?_⟩
  have hsum := sum_dataLoop_le hto h _ off ranges (Nat.le_refl _) hscan
  have hpart : (front.map fun r => r.2 - r.1).sum ≤ (ranges.map fun r => r.2 - r.1).sum := by
    obtain ⟨rest, rfl⟩ := hfront
    rw [List.map_append, List.sum_append]
    exact Nat.le_add_right _ _
  have hwrap : addU64 off len ≤ off + len := Nat.mod_le _ _
  have htaken := sum_taken_le pread front
  omega

/-! ### The sync before a read or write -/

theorem firstComponent_eq_none_iff {path : Path} : firstComponent path = none ↔ path = [] := by
  constructor
  · intro h
    unfold firstComponent at h
    split at h
    · rfl
    · cases h
    · split at h <;> cases h
    · cases h
    · cases h
  · rintro rfl
    rfl

theorem spacePath_eq_none_iff {dp : DataDirectory.DataPath} {path : Path} :
    spacePath dp path = none ↔ path = [] := by
  rw [spacePath, Option.map_eq_none_iff, firstComponent_eq_none_iff]

variable (cfg : Config β) (sys : System)

/-- `ioproxys` has every other center that the space of a path is replicated to, as far as its
attribute can be read. -/
def KnowsPeers (n : Nat) (path : Path) : Prop :=
  ∀ space_path, spacePath cfg.data_path path = some space_path →
    ∀ cids, sys.center_ids n space_path = some cids →
      ∀ id ∈ CenterIds.peers cfg.mcid cids, sys.ioproxys id = true

/-- A range of the file behind a descriptor can be synced: where it has a hole, the path names a
space, and its centers are known. -/
def SyncSafe (n fd : Nat) (path : Path) (off len : Nat) : Prop :=
  Hole (sys.layout n fd) off len → path ≠ [] ∧ KnowsPeers cfg sys n path

variable {cfg sys} {m m' : Memory β}

theorem Memory.get_file_handler_of_lookup {path : Path} {fd : Nat}
    (h : m.fds.lookup path = some fd) (sys : System) (n : Nat) :
    ∃ fh m', m.get_file_handler sys n path = (some fh, m') ∧ fh.fd = fd ∧
      ∀ q, m'.fds.lookup q = m.fds.lookup q := by
  have hpos : ¬ (fd : Int) < 0 := by omega
  unfold get_file_handler
  rw [fdmOpen_of_lookup h]
  simp only [if_neg hpos, Int.toNat_natCast]
  cases hh : m.file_handlers fd with
  | some fh => exact ⟨fh, _, rfl, m.handler_fd fd fh hh, fun q => Lru.lookup_hit _ _ _⟩
  | none => exact ⟨_, _, rfl, rfl, fun q => Lru.lookup_hit _ _ _⟩

/-- The sync of a path that has been opened. -/
theorem sync_filedata_spec {fd : Nat} {path : Path}
    (h : m.fds.lookup (cfg.data_path.below path) = some fd) (sys : System) (n off len : Nat) :
    ((sync_filedata cfg sys m n path off len).isSome = true ↔
        SyncSafe cfg sys n fd path off len) ∧
      ∀ m', sync_filedata cfg sys m n path off len = some m' →
        ∀ q, m'.fds.lookup q = m.fds.lookup q := by
  obtain ⟨fh, m₁, hget, rfl, hkept⟩ := Memory.get_file_handler_of_lookup h sys (n + 1)
  obtain ⟨holes, hscan, hnone⟩ := find_holes_in_range_spec (sys.layout n fh.fd) off len
  unfold sync_filedata SyncSafe
  simp only [hget, hscan, Option.bind_some]
  by_cases hhole : Hole (sys.layout n fh.fd) off len
  · rw [if_neg fun hlength => hnone.mp hlength hhole]
    simp only [hhole, forall_const]
    cases hspace : spacePath cfg.data_path path with
    | none =>
        have hnil := spacePath_eq_none_iff.mp hspace
        simp [hnil]
    | some space_path =>
        have hne : path ≠ [] := fun hnil => by
          rw [spacePath_eq_none_iff.mpr hnil] at hspace
          cases hspace
        simp only [Option.bind_some, KnowsPeers, hspace, Option.some.injEq, forall_eq', hne,
          ne_eq, not_false_eq_true, true_and]
        cases sys.center_ids n space_path with
        | none => exact ⟨by simp, fun m' hm' => by cases hm'; exact hkept⟩
        | some cids =>
            dsimp only
            by_cases hall : (CenterIds.peers cfg.mcid cids).all sys.ioproxys = true
            · rw [if_pos hall]
              exact ⟨by simpa using hall, fun m' hm' => by cases hm'; exact hkept⟩
            · rw [if_neg hall]
              exact ⟨by simpa using hall, fun m' hm' => by cases hm'⟩
  · rw [if_pos (hnone.mpr hhole)]
    exact ⟨by simp [hhole], fun m' hm' => by cases hm'; exact hkept⟩

/-- The sync of the first and the last page. -/
theorem sync_unalign_page_isSome_iff {fd : Nat} {path : Path} {off len : Nat}
    (h : m.fds.lookup (cfg.data_path.below path) = some fd) :
    (sync_unalign_page cfg sys m path off len).isSome = true ↔
      (off % pageSize ≠ 0 →
          SyncSafe cfg sys 0 fd path (off / pageSize * pageSize) pageSize) ∧
        (addU64 off len % pageSize ≠ 0 →
          SyncSafe cfg sys 1 fd path (addU64 off len / pageSize * pageSize) pageSize) := by
  have hlast : ∀ m₁ : Memory β, (∀ q, m₁.fds.lookup q = m.fds.lookup q) →
      ((if addU64 off len % pageSize ≠ 0 then
          sync_filedata cfg sys m₁ 1 path (addU64 off len / pageSize * pageSize) pageSize
        else some m₁).isSome = true ↔
        (addU64 off len % pageSize ≠ 0 →
          SyncSafe cfg sys 1 fd path (addU64 off len / pageSize * pageSize) pageSize)) := by
    intro m₁ hsame
    by_cases hpart : addU64 off len % pageSize ≠ 0
    · rw [if_pos hpart, (sync_filedata_spec ((hsame _).trans h) _ _ _ _).1]
      simp [hpart]
    · rw [if_neg hpart]
      simp [hpart]
  unfold sync_unalign_page
  dsimp only
  by_cases hpart : off % pageSize ≠ 0
  · obtain ⟨hiff, hsame⟩ := sync_filedata_spec h sys 0 (off / pageSize * pageSize) pageSize
    rw [if_pos hpart, ← hiff]
    cases hfirst : sync_filedata cfg sys m 0 path (off / pageSize * pageSize) pageSize with
    | none => simp [hpart]
    | some m₁ =>
        have hrest := hlast m₁ (hsame m₁ hfirst)
        simpa [hpart] using hrest
  · rw [if_neg hpart]
    have hrest := hlast m fun _ => rfl
    simpa [hpart] using hrest

/-! ### A new replicated space -/

/-- A part of a list of centers is the number of a center in `ioproxys`. -/
def Known (sys : System) (part : List UInt8) : Prop :=
  ∃ id, stoi part = some id ∧ sys.ioproxys (key id) = true

/-- Where the loop that compresses the IDs ends: behind the list, at the first part that is no
number, or at the first center that is not known, whichever comes first. -/
theorem compressIds_spec (sys : System) (cids : List UInt8) (tmp : List (List UInt8)) :
    match compressIds sys.ioproxys cids tmp with
    | .ok cids' => ∃ ids : List Int, tmp.map stoi = ids.map some ∧
        (∀ id ∈ ids, sys.ioproxys (key id) = true) ∧ cids' = cids ++ ids.map push_back
    | .error .exception => ∃ front part rest, tmp = front ++ part :: rest ∧
        (∀ known ∈ front, Known sys known) ∧ stoi part = none
    | .error _ => ∃ front part rest id, tmp = front ++ part :: rest ∧
        (∀ known ∈ front, Known sys known) ∧ stoi part = some id ∧ sys.ioproxys (key id) = false := by
  induction tmp generalizing cids with
  | nil => exact ⟨[], rfl, by simp, by simp⟩
  | cons cid tmp ih =>
      unfold compressIds
      cases hid : stoi cid with
      | none => exact ⟨[], cid, tmp, rfl, by simp, hid⟩
      | some id =>
          by_cases hknown : sys.ioproxys (key id) = true
          · have hrest := ih (cids ++ [push_back id])
            have hcid : Known sys cid := ⟨id, hid, hknown⟩
            simp only [hknown, if_true]
            cases hcompress : compressIds sys.ioproxys (cids ++ [push_back id]) tmp with
            | ok cids' =>
                rw [hcompress] at hrest
                obtain ⟨ids, htmp, hall, rfl⟩ := hrest
                exact ⟨id :: ids, by simp [hid, htmp], by simpa [hknown] using hall, by simp⟩
            | error e =>
                rw [hcompress] at hrest
                cases e with
                | exception =>
                    obtain ⟨front, part, rest, rfl, hfront, hpart⟩ := hrest
                    exact ⟨cid :: front, part, rest, rfl, List.forall_mem_cons.mpr ⟨hcid, hfront⟩,
                      hpart⟩
                | unknownCenter =>
                    obtain ⟨front, part, rest, id', rfl, hfront, hpart⟩ := hrest
                    exact ⟨cid :: front, part, rest, id', rfl,
                      List.forall_mem_cons.mpr ⟨hcid, hfront⟩, hpart⟩
                | notSet =>
                    obtain ⟨front, part, rest, id', rfl, hfront, hpart⟩ := hrest
                    exact ⟨cid :: front, part, rest, id', rfl,
                      List.forall_mem_cons.mpr ⟨hcid, hfront⟩, hpart⟩
          · simp only [hknown]
            exact ⟨[], cid, tmp, id, rfl, by simp, hid, by simpa using hknown⟩

/-- The attribute with the centers of a new space. -/
def setCenters (space_path : Path) (cids : List UInt8) : SysCall :=
  .setxattr space_path "user.gvds.r.c" cids (BitVec.ofNat 64 cids.length) 1

variable (cfg sys) in
/-- A request for a replicated space: up to the first center that is not known every part of its
list is a number; and if all centers are known, its path names a space, and where the attribute of
the space is set, the characters that stand for the centers lead to known centers too. -/
structure SpaceSafe (path : Path) (cids_str : List UInt8) : Prop where
  numbers : ∀ front part rest, split cids_str = front ++ part :: rest →
    (∀ known ∈ front, Known sys known) → stoi part ≠ none
  nodes : ∀ ids : List Int, (split cids_str).map stoi = ids.map some →
    (∀ id ∈ ids, sys.ioproxys (key id) = true) →
      path ≠ [] ∧ ∀ space_path, spacePath cfg.data_path path = some space_path →
        0 ≤ sys.call (setCenters space_path (cfg.mcid :: ids.map push_back)) →
          ∀ id ∈ ids, sys.ioproxys (toId (push_back id)) = true

section Spaces

variable {path : Path} {cids_str : List UInt8}

/-- In a list of known centers every part is known. -/
theorem known_of_numbers {ids : List Int} (hids : (split cids_str).map stoi = ids.map some)
    (hall : ∀ id ∈ ids, sys.ioproxys (key id) = true) :
    ∀ part ∈ split cids_str, Known sys part := by
  intro part hpart
  have hmem : stoi part ∈ ids.map some := hids ▸ List.mem_map_of_mem hpart
  obtain ⟨id, hid, heq⟩ := List.mem_map.mp hmem
  exact ⟨id, heq.symm, hall id hid⟩

/-- Where a center is not known, the request is refused before anything else is read. -/
theorem spaceSafe_of_unknown {front rest : List (List UInt8)} {part : List UInt8} {id : Int}
    (hsplit : split cids_str = front ++ part :: rest) (hfront : ∀ known ∈ front, Known sys known)
    (hid : stoi part = some id) (hkey : sys.ioproxys (key id) = false) :
    SpaceSafe cfg sys path cids_str := by
  have hunknown : ¬ Known sys part := by
    rintro ⟨id', hid', hkey'⟩
    rw [hid] at hid'
    rw [Option.some.inj hid', hkey'] at hkey
    cases hkey
  refine ⟨fun front' part' rest' hsplit' hfront' hpart' => ?_, fun ids hids hall => ?_⟩
  · -- the part that is no number would stand behind the unknown center, or among the known ones
    rw [hsplit, List.append_eq_append_iff] at hsplit'
    obtain ⟨more, rfl, hmore⟩ | ⟨more, rfl, hmore⟩ := hsplit'
    · cases more with
      | nil =>
          obtain ⟨rfl, -⟩ := List.cons.inj hmore
          rw [hid] at hpart'
          cases hpart'
      | cons first more =>
          obtain ⟨rfl, -⟩ := List.cons.inj hmore
          exact hunknown (hfront' part (by simp))
    · cases more with
      | nil =>
          obtain ⟨rfl, -⟩ := List.cons.inj hmore
          rw [hid] at hpart'
          cases hpart'
      | cons first more =>
          obtain ⟨rfl, -⟩ := List.cons.inj hmore
          obtain ⟨id', hid', -⟩ := hfront part' (by simp)
          rw [hpart'] at hid'
          cases hid'
  · exact absurd (known_of_numbers hids hall part (by simp [hsplit])) hunknown

/-- Where all centers are known, the path and the nodes of the centers are left to be asked for. -/
theorem spaceSafe_iff_of_known {ids : List Int} (hids : (split cids_str).map stoi = ids.map some)
    (hall : ∀ id ∈ ids, sys.ioproxys (key id) = true) :
    SpaceSafe cfg sys path cids_str ↔
      path ≠ [] ∧ ∀ space_path, spacePath cfg.data_path path = some space_path →
        0 ≤ sys.call (setCenters space_path (cfg.mcid :: ids.map push_back)) →
          ∀ id ∈ ids, sys.ioproxys (toId (push_back id)) = true := by
  refine ⟨fun h => h.nodes ids hids hall, fun h => ⟨?_, ?_⟩⟩
  · intro front part rest hsplit _ hpart
    obtain ⟨id, hid, -⟩ := known_of_numbers hids hall part (by simp [hsplit])
    rw [hpart] at hid
    cases hid
  · intro ids' hids' _
    have hsame : ids' = ids :=
      (List.map_injective_iff.mpr (Option.some_injective Int)) (hids'.symm.trans hids)
    rw [hsame]
    exact h

theorem create_replicated_space_isSome_iff :
    (create_replicated_space cfg sys path cids_str).isSome = true ↔
      SpaceSafe cfg sys path cids_str := by
  have hspec := compressIds_spec sys [cfg.mcid] (split cids_str)
  unfold create_replicated_space
  cases hcompress : compressIds sys.ioproxys [cfg.mcid] (split cids_str) with
  | error e =>
      rw [hcompress] at hspec
      cases e with
      | exception =>
          obtain ⟨front, part, rest, hsplit, hfront, hpart⟩ := hspec
          exact iff_of_false (by simp) fun hsafe => hsafe.numbers front part rest hsplit hfront hpart
      | unknownCenter =>
          obtain ⟨_, _, _, _, hsplit, hfront, hid, hkey⟩ := hspec
          exact iff_of_true rfl (spaceSafe_of_unknown hsplit hfront hid hkey)
      | notSet =>
          obtain ⟨_, _, _, _, hsplit, hfront, hid, hkey⟩ := hspec
          exact iff_of_true rfl (spaceSafe_of_unknown hsplit hfront hid hkey)
  | ok cids =>
      rw [hcompress] at hspec
      obtain ⟨ids, hids, hall, rfl⟩ := hspec
      rw [spaceSafe_iff_of_known hids hall]
      cases hspace : spacePath cfg.data_path path with
      | none => simp [spacePath_eq_none_iff.mp hspace]
      | some space_path =>
          have hne : path ≠ [] := fun hnil => by
            rw [spacePath_eq_none_iff.mpr hnil] at hspace
            cases hspace
          dsimp only [List.singleton_append, List.tail_cons, Option.bind_some]
          simp only [hne, ne_eq, not_false_eq_true, true_and, Option.some.injEq, forall_eq']
          by_cases hset : sys.call (setCenters space_path (cfg.mcid :: ids.map push_back)) < 0
          · have hset' := hset
            unfold setCenters at hset'
            simp only [hset', if_true, Option.isSome_some, true_iff]
            exact fun hpos => absurd hset (not_lt.mpr hpos)
          · have hset' := hset
            unfold setCenters at hset'
            simp only [hset', if_false, not_lt.mp hset, forall_const]
            have hnodes : ((ids.map push_back).map toId).all sys.ioproxys = true ↔
                ∀ id ∈ ids, sys.ioproxys (toId (push_back id)) = true := by
              simp
            rw [← hnodes]
            change (if ((ids.map push_back).map toId).all sys.ioproxys = true then some (0 : Int)
              else none).isSome = true ↔ _
            by_cases hall' : ((ids.map push_back).map toId).all sys.ioproxys = true
            · rw [if_pos hall']
              exact iff_of_true rfl hall'
            · rw [if_neg hall']
              exact iff_of_false (by simp) hall'

end Spaces

/-! ### The requests of other centers -/

theorem Memory.get_file_handler_cases (m : Memory β) (sys : System) (n : Nat) (path : Path) :
    (m.descriptor sys n path oRdwr < 0 ∧ (m.get_file_handler sys n path).1 = none) ∨
      (0 ≤ m.descriptor sys n path oRdwr ∧ ∃ fh m', m.get_file_handler sys n path = (some fh, m') ∧
        fh.fd = (m.descriptor sys n path oRdwr).toNat ∧ fh.bitmaps = m.held fh.fd) := by
  cases hget : m.get_file_handler sys n path with
  | mk fh m' =>
      cases fh with
      | none => exact Or.inl ⟨get_file_handler_eq_none_iff.mp (by rw [hget]), rfl⟩
      | some fh =>
          have hnot : ¬ m.descriptor sys n path oRdwr < 0 := by
            rw [← get_file_handler_eq_none_iff, hget]
            exact Option.some_ne_none fh
          obtain ⟨hfd, hbitmaps⟩ := get_file_handler_eq_some (show (m.get_file_handler sys n path).1 =
            some fh by rw [hget])
          exact Or.inr ⟨not_lt.mp hnot, fh, m', rfl, hfd, hbitmaps⟩

variable (cfg sys) in
/-- An entry of a new replicated space: the reply has an entry for the name, and where it is a file,
that can be opened, and no null pointer is freed that is held for its descriptor. -/
def EntrySafe (r : OpRequest) (m : Memory β) (node : Nat × String × Option Attr) : Prop :=
  match node.2.2 with
  | none => False
  | some cur_attr => cur_attr.type = .regularFile →
      let fd := m.descriptor sys node.1 (cfg.data_path.below node.2.1.toList) oRdwr
      0 ≤ fd ∧ (m.held fd.toNat r.sender.toInt8.toInt = some none → cfg.lib.free_null = true)

theorem createEntry_isSome_iff {r : OpRequest} {m : Memory β} {node : Nat × String × Option Attr} :
    (createEntry cfg sys r m node).isSome = true ↔ EntrySafe cfg sys r m node := by
  obtain ⟨i, name, attr⟩ := node
  unfold createEntry EntrySafe
  dsimp only
  cases attr with
  | none => simp
  | some attr =>
      obtain ⟨type, size⟩ := attr
      by_cases htype : type = .regularFile
      · subst htype
        simp only [forall_const]
        obtain ⟨hneg, hnone⟩ | ⟨hpos, fh, m', hget, hfd, hbitmaps⟩ :=
          m.get_file_handler_cases sys i (cfg.data_path.below name.toList)
        · cases hget : m.get_file_handler sys i (cfg.data_path.below name.toList) with
          | mk fh m' =>
              rw [hget] at hnone
              cases hnone
              exact iff_of_false (by simp) fun h => absurd h.1 (not_le.mpr hneg)
        · rw [hfd] at hbitmaps
          simp only [hget, Option.isSome_map, FileHandler.set_bitmap, hbitmaps, hpos, true_and]
          cases m.held (m.descriptor sys i (cfg.data_path.below name.toList) oRdwr).toNat
              r.sender.toInt8.toInt with
          | none => simp
          | some bitmap =>
              cases bitmap with
              | none => by_cases hfree : cfg.lib.free_null = true <;> simp [hfree]
              | some bitmap => simp
      · cases type with
        | regularFile => exact absurd rfl htype
        | directory => simp
        | link => simp
        | unknown value => simp

/-- A request for data: the scan of its range for data ends, and what is read has room in the buffer
of the reply. -/
def DataSafe (sys : System) (fd : Nat) (r : OpRequest) : Prop :=
  ∃ data_ranges, find_data_in_range (sys.layout 0 fd) r.off (addU64 r.off r.len) = some data_ranges ∧
    Fits r.len sys.pread data_ranges

theorem _handle_file_sync_data_isSome_iff {r : OpRequest} :
    (_handle_file_sync_data cfg sys m r).isSome = true ↔
      0 ≤ m.descriptor sys 0 (cfg.data_path.below r.path) oRdwr ∧
        DataSafe sys (m.descriptor sys 0 (cfg.data_path.below r.path) oRdwr).toNat r ∧
          r.len ≤ cfg.max_size := by
  unfold _handle_file_sync_data DataSafe
  obtain ⟨hneg, hnone⟩ | ⟨hpos, fh, m', hget, hfd, -⟩ :=
    m.get_file_handler_cases sys 0 (cfg.data_path.below r.path)
  · cases hget : m.get_file_handler sys 0 (cfg.data_path.below r.path) with
    | mk fh m' =>
        rw [hget] at hnone
        cases hnone
        exact iff_of_false (by simp) fun h => absurd h.1 (not_le.mpr hneg)
  · simp only [hget, hfd, hpos, true_and]
    cases find_data_in_range
        (sys.layout 0 (m.descriptor sys 0 (cfg.data_path.below r.path) oRdwr).toNat) r.off
        (addU64 r.off r.len) with
    | none => simp
    | some data_ranges =>
        have hreads : (readRanges r.len sys.pread 0 data_ranges).isSome = true ↔
            Fits (r.len - 0) sys.pread data_ranges := readRanges_isSome_iff (Nat.zero_le r.len)
        simp only [Option.bind_some, Option.some.injEq, exists_eq_left']
        by_cases hsize : cfg.max_size < r.len
        · simp [hsize]
        · rw [if_neg hsize, Option.isSome_map, hreads]
          simp [not_lt.mp hsize]

variable (cfg sys m) in
/-- An index update: where the handler of the file holds a null pointer for the center, or finds an
attribute that is no bitmap, the library accepts it. -/
def BitmapSafe (fd : Nat) (r : OpRequest) : Prop :=
  let id : Int := r.sender.toNat
  let first := UInt32.ofNat (r.off / syncBlk)
  let last := UInt32.ofNat (addU64 r.off r.len / syncBlk)
  (m.held fd id = some none → cfg.lib.add_null first last = true ∧ cfg.lib.serialize_null = true) ∧
    (m.held fd id = none → sys.bitmap_attr fd id ≠ [] →
      cfg.lib.portable_deserialize_safe (sys.bitmap_attr fd id) = none →
        cfg.lib.add_null first last = true)

theorem _handle_file_index_update_isSome_iff {r : OpRequest} (htype : r.type = .rep_update_index) :
    (_handle_file_index_update cfg sys m r).isSome = true ↔
      0 ≤ m.descriptor sys 0 (cfg.data_path.below r.path) oRdwr ∧
        BitmapSafe cfg sys m (m.descriptor sys 0 (cfg.data_path.below r.path) oRdwr).toNat r := by
  unfold _handle_file_index_update BitmapSafe
  obtain ⟨hneg, hnone⟩ | ⟨hpos, fh, m', hget, hfd, hbitmaps⟩ :=
    m.get_file_handler_cases sys 0 (cfg.data_path.below r.path)
  · cases hget : m.get_file_handler sys 0 (cfg.data_path.below r.path) with
    | mk fh m' =>
        rw [hget] at hnone
        cases hnone
        exact iff_of_false (by simp) fun h => absurd h.1 (not_le.mpr hneg)
  · rw [← hfd]
    simp only [hget, htype, hpos, true_and, ne_eq, not_true_eq_false, if_false]
    have hheld : fh.bitmaps (r.sender.toNat : Int) = m.held fh.fd (r.sender.toNat : Int) := by
      rw [hbitmaps]
    unfold FileHandler.get_bitmap
    rw [hheld]
    cases hpointer : m.held fh.fd (r.sender.toNat : Int) with
    | some bitmap =>
        cases bitmap with
        | none =>
            by_cases hadd : cfg.lib.add_null (UInt32.ofNat (r.off / syncBlk))
                (UInt32.ofNat (addU64 r.off r.len / syncBlk)) = true
            · by_cases hser : cfg.lib.serialize_null = true
              · simp [Roaring.addRange, hadd, FileHandler.flush_bitmap, hheld, hpointer, hser]
              · simp [Roaring.addRange, hadd, FileHandler.flush_bitmap, hheld, hpointer, hser]
            · simp [Roaring.addRange, hadd]
        | some bitmap => simp [Roaring.addRange, FileHandler.flush_bitmap, FileHandler.put]
    | none =>
        by_cases hattr : sys.bitmap_attr fh.fd (r.sender.toNat : Int) = []
        · simp [hattr, Roaring.addRange, FileHandler.flush_bitmap, FileHandler.put]
        · cases hread : cfg.lib.portable_deserialize_safe
              (sys.bitmap_attr fh.fd (r.sender.toNat : Int)) with
          | some bitmap =>
              simp [hattr, hread, Roaring.addRange, FileHandler.flush_bitmap, FileHandler.put]
          | none =>
              by_cases hadd : cfg.lib.add_null (UInt32.ofNat (r.off / syncBlk))
                  (UInt32.ofNat (addU64 r.off r.len / syncBlk)) = true
              · simp [hattr, hread, Roaring.addRange, hadd, FileHandler.flush_bitmap, hheld,
                  hpointer]
              · simp [hattr, hread, Roaring.addRange, hadd]

/-! ### All requests -/

variable (cfg m) in
/-- What a request has to meet so that the process does not end. Of most types nothing is asked. -/
def Harmless (a : OpRequest × System) : Prop :=
  let r := a.1
  let sys := a.2
  let path := cfg.data_path.below r.path
  let fd := m.descriptor sys 0 path oRdwr
  match r.type with
  | .read => 0 ≤ fd →
      SyncSafe cfg sys 0 fd.toNat r.path r.off r.len ∧ r.len ≤ cfg.max_size
  | .write => 0 ≤ fd →
      (r.off % pageSize ≠ 0 →
          SyncSafe cfg sys 0 fd.toNat r.path (r.off / pageSize * pageSize) pageSize) ∧
        (addU64 r.off r.len % pageSize ≠ 0 →
          SyncSafe cfg sys 1 fd.toNat r.path (addU64 r.off r.len / pageSize * pageSize) pageSize)
  | .setxattr => r.xattr_name = "user.replicate.create" → SpaceSafe cfg sys r.path r.data
  | .getxattr => r.size.toNat ≤ cfg.max_size
  | .listxattr => r.size.toNat ≤ cfg.max_size
  | .rep_init_space => r.filepath ≠ "" →
      0 ≤ sys.call (.mkdir path 0o775#32) ∨ sys.call (.mkdir path 0o775#32) = -17 →
        0 ≤ sys.call (setCenters path r.extra) →
          Machine.Guarded (createEntry cfg sys r) (EntrySafe cfg sys r) m (nodes (sys.parse r.data))
  | .rep_sync_data => r.filepath ≠ "" →
      0 ≤ fd ∧ DataSafe sys fd.toNat r ∧ r.len ≤ cfg.max_size
  | .rep_update_index => r.filepath ≠ "" → 0 ≤ fd ∧ BitmapSafe cfg sys m fd.toNat r
  | _ => True

theorem path_eq_nil_iff {r : OpRequest} : r.path = [] ↔ r.filepath = "" := by
  simp [OpRequest.path]

/-- A request that the manager does not handle itself gets past `handle_replica_async`. -/
theorem handle_replica_async_isSome {r : OpRequest} (hroute : route r.type ≠ .handled) (err : Int) :
    (handle_replica_async cfg sys m r err).isSome = true := by
  have hask : r.filepath ≠ "" → (askSpace cfg m r err).isSome = true := by
    intro hpath
    unfold askSpace
    split
    · rfl
    · rw [Option.isSome_map, Option.isSome_iff_ne_none, ne_eq, spacePath_eq_none_iff,
        path_eq_nil_iff]
      exact hpath
  unfold handle_replica_async
  by_cases hpath : r.filepath = ""
  · simp [hpath]
  · rw [if_neg hpath]
    cases hr : route r.type with
    | readOnly => rfl
    | change =>
        dsimp only
        split
        · rfl
        · exact hask hpath
    | write => exact hask hpath
    | default => exact hask hpath
    | handled => exact absurd hr hroute

theorem do_op_isSome_iff_of_route {r : OpRequest} (hroute : route r.type ≠ .handled) :
    (do_op cfg sys m r).isSome = true ↔ (perform_op cfg sys m r).isSome = true := by
  unfold do_op
  cases perform_op cfg sys m r with
  | none => simp
  | some result => simpa using handle_replica_async_isSome hroute result.1

theorem _handle_create_replicated_space_isSome_iff {r : OpRequest} :
    (_handle_create_replicated_space cfg sys m r).isSome = true ↔
      (0 ≤ sys.call (.mkdir (cfg.data_path.below r.path) 0o775#32) ∨
        sys.call (.mkdir (cfg.data_path.below r.path) 0o775#32) = -17 →
        0 ≤ sys.call (setCenters (cfg.data_path.below r.path) r.extra) →
          Machine.Guarded (createEntry cfg sys r) (EntrySafe cfg sys r) m
            (nodes (sys.parse r.data))) := by
  unfold _handle_create_replicated_space setCenters
  dsimp only
  by_cases hdir : sys.call (.mkdir (cfg.data_path.below r.path) 0o775#32) < 0 ∧
      sys.call (.mkdir (cfg.data_path.below r.path) 0o775#32) ≠ -17
  · rw [if_pos hdir]
    refine iff_of_true rfl fun h => ?_
    obtain hpos | hexists := h
    · exact absurd hdir.1 (not_lt.mpr hpos)
    · exact absurd hexists hdir.2
  · rw [if_neg hdir]
    have hgo : 0 ≤ sys.call (.mkdir (cfg.data_path.below r.path) 0o775#32) ∨
        sys.call (.mkdir (cfg.data_path.below r.path) 0o775#32) = -17 := by
      by_contra hnot
      rw [not_or] at hnot
      exact hdir ⟨not_le.mp hnot.1, hnot.2⟩
    simp only [hgo, forall_const]
    by_cases hset : sys.call (.setxattr (cfg.data_path.below r.path) "user.gvds.r.c" r.extra
        (BitVec.ofNat 64 r.extra.length) 1) < 0
    · rw [if_pos hset]
      exact iff_of_true rfl fun h => absurd hset (not_lt.mpr h)
    · rw [if_neg hset, Option.isSome_map,
        Machine.isSome_run_iff fun _ _ => createEntry_isSome_iff]
      exact ⟨fun h _ => h, fun h => h (not_lt.mp hset)⟩

/-- A request that the manager handles itself comes to it as it is. -/
theorem do_op_of_handled {r : OpRequest} (hroute : route r.type = .handled) :
    do_op cfg sys m r = handle_replica_async cfg sys m r 0 := by
  have hnothing : perform_op cfg sys m r = some (0, m) := by
    unfold perform_op
    cases htype : r.type <;> rw [htype] at hroute <;> cases hroute
  rw [do_op, hnothing, Option.bind_some]

theorem perform_read_isSome_iff {r : OpRequest} (htype : r.type = .read) :
    (perform_op cfg sys m r).isSome = true ↔ Harmless cfg m (r, sys) := by
  unfold perform_op Harmless
  simp only [htype]
  cases hopen : m.fdmOpen sys 0 (cfg.data_path.below r.path) oRdwr with
  | mk fd m' =>
      obtain ⟨hfd, hkept⟩ := Memory.descriptor_of_fdmOpen hopen
      dsimp only
      rw [hfd]
      by_cases hneg : fd < 0
      · rw [if_pos hneg]
        exact iff_of_true rfl fun hpos => absurd hneg (not_lt.mpr hpos)
      · have hpos := not_lt.mp hneg
        obtain ⟨hiff, -⟩ := sync_filedata_spec (hkept hpos) sys 0 r.off r.len
        rw [if_neg hneg, ← hiff]
        cases sync_filedata cfg sys m' 0 r.path r.off r.len with
        | none => simp [hpos]
        | some m'' =>
            rw [Option.bind_some]
            by_cases hsize : cfg.max_size < r.len
            · rw [if_pos hsize]
              exact iff_of_false (by simp) fun h => absurd (h hpos).2 (not_le.mpr hsize)
            · rw [if_neg hsize]
              exact iff_of_true rfl fun _ => ⟨rfl, not_lt.mp hsize⟩

theorem perform_write_isSome_iff {r : OpRequest} (htype : r.type = .write) :
    (perform_op cfg sys m r).isSome = true ↔ Harmless cfg m (r, sys) := by
  unfold perform_op Harmless
  simp only [htype]
  cases hopen : m.fdmOpen sys 0 (cfg.data_path.below r.path) oRdwr with
  | mk fd m' =>
      obtain ⟨hfd, hkept⟩ := Memory.descriptor_of_fdmOpen hopen
      dsimp only
      rw [hfd]
      by_cases hneg : fd < 0
      · rw [if_pos hneg]
        exact iff_of_true rfl fun hpos => absurd hneg (not_lt.mpr hpos)
      · have hpos := not_lt.mp hneg
        rw [if_neg hneg, ← sync_unalign_page_isSome_iff (hkept hpos)]
        cases sync_unalign_page cfg sys m' r.path r.off r.len with
        | none => simp [hpos]
        | some m'' => exact iff_of_true rfl fun _ => rfl

/-- A request leaves the process alive exactly if it meets what its type has to meet. -/
theorem do_op_isSome_iff {r : OpRequest} :
    (do_op cfg sys m r).isSome = true ↔ Harmless cfg m (r, sys) := by
  cases htype : r.type with
  | read =>
      rw [do_op_isSome_iff_of_route (by rw [htype]; decide)]
      exact perform_read_isSome_iff htype
  | write =>
      rw [do_op_isSome_iff_of_route (by rw [htype]; decide)]
      exact perform_write_isSome_iff htype
  | setxattr =>
      rw [do_op_isSome_iff_of_route (by rw [htype]; decide)]
      unfold perform_op Harmless
      simp only [htype]
      by_cases hname : r.xattr_name = "user.replicate.create"
      · rw [if_pos hname, Option.isSome_map, create_replicated_space_isSome_iff]
        simp [hname]
      · rw [if_neg hname]
        simp [hname, reply]
  | getxattr =>
      rw [do_op_isSome_iff_of_route (by rw [htype]; decide)]
      unfold perform_op Harmless
      simp only [htype]
      split <;> simp_all [reply]
  | listxattr =>
      rw [do_op_isSome_iff_of_route (by rw [htype]; decide)]
      unfold perform_op Harmless
      simp only [htype]
      split <;> simp_all [reply]
  | rep_init_space =>
      have hroute : route r.type = .handled := by rw [htype]; rfl
      rw [do_op_of_handled hroute]
      unfold handle_replica_async Harmless
      simp only [htype]
      by_cases hpath : r.filepath = ""
      · simp [hpath]
      · simp only [hpath, if_false, ne_eq, not_false_eq_true, forall_const]
        exact _handle_create_replicated_space_isSome_iff
  | rep_sync_data =>
      have hroute : route r.type = .handled := by rw [htype]; rfl
      rw [do_op_of_handled hroute]
      unfold handle_replica_async Harmless
      simp only [htype]
      by_cases hpath : r.filepath = ""
      · simp [hpath]
      · simp only [hpath, if_false, ne_eq, not_false_eq_true, forall_const]
        exact _handle_file_sync_data_isSome_iff
  | rep_update_index =>
      have hroute : route r.type = .handled := by rw [htype]; rfl
      rw [do_op_of_handled hroute]
      unfold handle_replica_async Harmless
      simp only [htype]
      by_cases hpath : r.filepath = ""
      · simp [hpath]
      · simp only [hpath, if_false, ne_eq, not_false_eq_true, forall_const]
        exact _handle_file_index_update_isSome_iff htype
  | fallocate =>
      rw [do_op_isSome_iff_of_route (by rw [htype]; decide)]
      unfold perform_op Harmless
      simp only [htype]
      split <;> simp [reply]
  | _ =>
      rw [do_op_isSome_iff_of_route (by simp [htype, route])]
      simp [perform_op, Harmless, htype, reply]

theorem serve_isSome_iff {a : OpRequest × System} :
    (serve cfg m a).isSome = true ↔ Harmless cfg m a := by
  rw [serve, Option.isSome_map]
  exact do_op_isSome_iff

/-- **The IO proxy survives** a sequence of requests exactly if each of them, in the memory in which
it is served, meets what its type has to meet. -/
theorem proxy_survives_iff (cfg : Config β) (m : Memory β) (as : List (OpRequest × System)) :
    (Machine.run (serve cfg) m as).isSome = true ↔
      Machine.Guarded (serve cfg) (Harmless cfg) m as :=
  Machine.isSome_run_iff fun _ _ => serve_isSome_iff

/-! ### A file that is not there -/

/-- A library that does not accept null pointers. -/
def strictRoaring : Roaring Unit where
  from_range := fun first last _ => if first < last then some () else none
  create := ()
  portable_deserialize_safe := fun _ => some ()
  add_range_closed := fun _ _ _ => ()
  add_null := fun _ _ => false
  serialize_null := false
  free_null := false

/-- Center 1, with its data in `/d`. -/
def oneCenter : Config Unit where
  data_path := ⟨['/', 'd'], by decide, by decide⟩
  mcid := 1
  max_size := 2 ^ 62 - 1
  lib := strictRoaring

/-- A system that has no files. -/
def noFiles : System where
  call := fun _ => -2
  sysOpen := fun _ _ _ => -2
  layout := fun _ _ => none
  pread := fun _ _ _ => -9
  center_ids := fun _ _ => none
  bitmap_attr := fun _ _ => []
  ioproxys := fun _ => false
  parse := fun _ => ⟨[], []⟩

/-- Another center asks for the data of a file that has just been removed. -/
def syncsRemovedFile : OpRequest where
  filepath := "s/x"
  type := .rep_sync_data
  extra := []
  additional_param := .io_param ⟨0#64, 4096#64⟩
  mode := 0#32
  size := 0#64
  data := []

/-- The null handler of a file that is not there is dereferenced, and the process ends. -/
theorem removed_file_ends_process :
    Machine.run (serve oneCenter) (Memory.start 499) [(syncsRemovedFile, noFiles)] = none := by
  rfl

end Gvds.ProxyProcess
