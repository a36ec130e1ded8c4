/-
Module: Gvds.Proofs.PathMapping
Layer: Proofs
Purpose: How a path of three components or more is mapped. The split and the two searches of
  `locatePosition` agree on the zone, the space and what is behind them, so `get_mapping` makes the
  path of the space and the rest, where the client has a list of proxies for the center. Where it
  has none, the path of the space is missing. Different spaces and rests get different paths.
Imports: Gvds.Client.GraphMod, Gvds.Proofs.PathLookups, Gvds.Proofs.SpaceNames
Trusted boundary: as Gvds.Client.ZoneMod and Gvds.Client.GraphMod
Main exports: DeepPath, Names, exists_names, locatePosition_eq, LeadsTo, get_mapping_eq,
  lpath_injective, path_mapping_exact_and_injective, unlisted_centers_collide
-/
import Gvds.Client.GraphMod
import Gvds.Proofs.PathLookups
import Gvds.Proofs.SpaceNames

namespace Gvds.GraphMod

open IOProxyMgr (IOProxyNode)
open Manager (Bytes Space locateSpace)
open ZoneMod

/-! ### The parts of a path -/

/-- An absolute path with three components at least. -/
structure DeepPath extends FusePath where
  three : 3 ≤ (ZoneMod.splitWithStl path).length

/-- A path is made of the names of a zone and a space and of the rest behind them. -/
structure Names (path zone space rest : Bytes) : Prop where
  path_eq : path = slash :: (zone ++ slash :: (space ++ rest))
  zone_free : slash ∉ zone
  space_free : slash ∉ space
  rest_slash : rest = [] ∨ ∃ tail, rest = slash :: tail

/-- What `locatePosition` returns for the rest behind a space. -/
def restPath (rest : Bytes) : Bytes := if rest = [] then [slash] else rest

/-- Every absolute path with three components has these parts. -/
theorem exists_names (p : DeepPath) : ∃ zone space rest, Names p.path zone space rest := by
  obtain ⟨tail, htail⟩ := List.head?_eq_some_iff.mp p.absolute
  have hcount : 2 ≤ p.path.count slash := by
    have hthree := p.three
    have hlen := p.toFusePath.length_split
    omega
  have hmem : slash ∈ tail := by
    rw [htail, List.count_cons_self] at hcount
    exact List.count_pos_iff.mp (by omega)
  obtain ⟨zone, behind, rfl, hzone⟩ := List.eq_append_cons_of_mem hmem
  by_cases hrest : slash ∈ behind
  · obtain ⟨space, rest, rfl, hspace⟩ := List.eq_append_cons_of_mem hrest
    exact ⟨zone, space, slash :: rest, htail, hzone, hspace, .inr ⟨rest, rfl⟩⟩
  · refine ⟨zone, behind, [], ?_, hzone, hrest, .inl rfl⟩
    rw [List.append_nil]
    exact htail

theorem find_eq (path : Bytes) (pos : Nat) :
    find path pos = (find (path.drop pos) 0).map (· + pos) := by
  simp [find]

/-- What is before the first separator, and what is behind it, are determined. -/
theorem append_slash_inj {a a' b b' : Bytes} (ha : slash ∉ a) (ha' : slash ∉ a')
    (h : a ++ slash :: b = a' ++ slash :: b') : a = a' ∧ b = b' := by
  have hlen : a.length = a'.length := by
    have hfind := find_append_cons ha b
    rw [h, find_append_cons ha' b'] at hfind
    exact (Option.some.inj hfind).symm
  obtain ⟨hfront, hback⟩ := List.append_inj h hlen
  exact ⟨hfront, (List.cons.inj hback).2⟩

/-- A path has one zone only, and one space and one rest. -/
theorem Names.unique {path zone space rest zone' space' rest' : Bytes}
    (h : Names path zone space rest) (h' : Names path zone' space' rest') :
    zone = zone' ∧ space = space' ∧ rest = rest' := by
  have heq := h.path_eq.symm.trans h'.path_eq
  obtain ⟨hzone, hbehind⟩ := append_slash_inj h.zone_free h'.zone_free (List.cons.inj heq).2
  refine ⟨hzone, ?_⟩
  rcases h.rest_slash with rfl | ⟨tail, rfl⟩ <;> rcases h'.rest_slash with rfl | ⟨tail', rfl⟩
  · exact ⟨by simpa using hbehind, rfl⟩
  · refine absurd ?_ h.space_free
    rw [List.append_nil] at hbehind
    rw [hbehind]
    exact List.mem_append_right _ List.mem_cons_self
  · refine absurd ?_ h'.space_free
    rw [List.append_nil] at hbehind
    rw [← hbehind]
    exact List.mem_append_right _ List.mem_cons_self
  · obtain ⟨hspace, htail⟩ := append_slash_inj h.space_free h'.space_free hbehind
    exact ⟨hspace, by rw [htail]⟩

section Parts

variable {path zone space rest : Bytes}

/-- The split has them behind an empty component. -/
theorem Names.split (h : Names path zone space rest) :
    ∃ tail, ZoneMod.splitWithStl path = [] :: zone :: space :: tail := by
  have hne : path ≠ [] := by
    rw [h.path_eq]
    exact List.cons_ne_nil _ _
  have hzone : path.splitOn slash = [] :: zone :: (space ++ rest).splitOn slash := by
    rw [h.path_eq, List.splitOn_cons_eq_if_modifyHead, if_pos (beq_self_eq_true slash),
      List.splitOn_append_cons_self_of_not_mem h.zone_free]
  rw [ZoneMod.splitWithStl, if_neg hne, hzone]
  rcases h.rest_slash with rfl | ⟨tail, rfl⟩
  · rw [List.append_nil, List.splitOn_eq_singleton h.space_free]
    exact ⟨[], rfl⟩
  · rw [List.splitOn_append_cons_self_of_not_mem h.space_free]
    exact ⟨tail.splitOn slash, rfl⟩

/-- The two searches find the separator behind the zone, and the one behind the space if there is
a rest. -/
theorem Names.remotepath_eq (h : Names path zone space rest) :
    remotepath path = restPath rest := by
  have hfirst : find path 1 = some (zone.length + 1) := by
    rw [find_eq, h.path_eq, List.drop_succ_cons, List.drop_zero, find_append_cons h.zone_free]
    rfl
  have hdrop : path.drop (zone.length + 1 + 1) = space ++ rest := by
    rw [h.path_eq, List.drop_succ_cons, ← List.drop_drop, List.drop_left, List.drop_succ_cons,
      List.drop_zero]
  unfold remotepath restPath
  simp only [hfirst]
  rw [find_eq, hdrop]
  rcases h.rest_slash with rfl | ⟨tail, rfl⟩
  · rw [List.append_nil, find_eq_none h.space_free]
    rfl
  · rw [find_append_cons h.space_free, if_neg (List.cons_ne_nil _ _)]
    have hback : path.drop (space.length + (zone.length + 1 + 1)) = slash :: tail := by
      rw [Nat.add_comm, ← List.drop_drop, hdrop, List.drop_left]
    exact hback

/-- So `locatePosition` looks the zone and the space up, and returns the rest. -/
theorem Names.locatePosition_eq (h : Names path zone space rest) (zones : ClientZone) :
    locatePosition zones path = some (zones.zonemap zone,
      (zones.zonemap zone).bind fun z => locateSpace z.spaceBicInfo space, restPath rest) := by
  obtain ⟨tail, hsplit⟩ := h.split
  unfold locatePosition
  rw [hsplit, h.remotepath_eq]
  cases hz : zones.zonemap zone with
  | none => simp [hz]
  | some z => simp [hz]

end Parts

/-! ### The path at a center -/

/-- The path leads to a space that the client knows, with a rest behind it, and there is a list of
proxies for the center of the space. -/
def LeadsTo (g : ClientGraph) (zones : ClientZone) (path : Bytes) (sp : Space) (rest : Bytes) :
    Prop :=
  ∃ zone space z, Names path zone space rest ∧ zones.zonemap zone = some z ∧
    locateSpace z.spaceBicInfo space = some sp ∧ (g.ioproxy_list (g.centerID sp)).isSome

/-- Some zone lists the space. -/
def Listed (zones : ClientZone) (sp : Space) : Prop :=
  ∃ zone z, zones.zonemap zone = some z ∧ sp ∈ z.spaceBicInfo

theorem LeadsTo.listed {g : ClientGraph} {zones : ClientZone} {path rest : Bytes} {sp : Space}
    (h : LeadsTo g zones path sp rest) : Listed zones sp := by
  obtain ⟨zone, space, z, -, hz, hsp, -⟩ := h
  refine ⟨zone, z, hz, ?_⟩
  rcases Manager.foldl_locate z.spaceBicInfo space none with heq | ⟨it, hit, -, heq⟩
  · rw [locateSpace, heq] at hsp
    cases hsp
  · rw [locateSpace, heq] at hsp
    rw [← Option.some.inj hsp]
    exact hit

/-- A path that leads to a space is mapped to the path of the space with the rest behind it, if
there is a list for the center. -/
theorem get_mapping_eq {g : ClientGraph} {zones : ClientZone} {path zone space rest : Bytes}
    {z : ZoneInfo} {sp : Space} {iops : List IOProxyNode} (hnames : Names path zone space rest)
    (hz : zones.zonemap zone = some z) (hsp : locateSpace z.spaceBicInfo space = some sp)
    (hiops : g.ioproxy_list (g.centerID sp) = some iops) :
    get_mapping g zones path = some (runningProxy iops, lpath sp (restPath rest)) := by
  simp [get_mapping, hnames.locatePosition_eq zones, hz, hsp, hiops]

/-- Without a list there is the rest only. -/
theorem get_mapping_unlisted {g : ClientGraph} (zones : ClientZone) {path zone space rest : Bytes}
    {z : ZoneInfo} (sp : Space) (hnames : Names path zone space rest)
    (hz : zones.zonemap zone = some z) (hsp : locateSpace z.spaceBicInfo space = some sp)
    (hnone : g.ioproxy_list (g.centerID sp) = none) :
    get_mapping g zones path = some (none, restPath rest) := by
  simp [get_mapping, hnames.locatePosition_eq zones, hz, hsp, hnone]

/-! ### Different paths -/

/-- The listed spaces have different paths, none of them with a separator. -/
structure UuidPaths (zones : ClientZone) : Prop where
  slash_free : ∀ sp, Listed zones sp → slash ∉ sp.spacePath.toUTF8.toList
  distinct : Set.InjOn Space.spacePath {sp | Listed zones sp}

theorem toList_loop (bs : ByteArray) (i : Nat) (r : List UInt8) :
    ByteArray.toList.loop bs i r = r.reverse ++ bs.data.toList.drop i := by
  induction i, r using ByteArray.toList.loop.induct bs with
  | case1 i r hlt ih =>
      have hsize : i < bs.data.toList.length := hlt
      rw [ByteArray.toList.loop, if_pos hlt, ih, List.drop_eq_getElem_cons hsize,
        List.reverse_cons, List.append_assoc]
      simp only [List.singleton_append, List.append_cancel_left_eq, List.cons.injEq, and_true]
      rw [Array.getElem_toList]
      exact getElem!_pos bs.data i hlt
  | case2 i r hge =>
      have hsize : bs.data.toList.length ≤ i := Nat.le_of_not_lt hge
      rw [ByteArray.toList.loop, if_neg hge, List.drop_eq_nil_of_le hsize, List.append_nil]

theorem toList_eq_data (bs : ByteArray) : bs.toList = bs.data.toList := by
  rw [ByteArray.toList, toList_loop]
  rfl

/-- A text is determined by its bytes. -/
theorem toUTF8_toList_injective {s t : String} (h : s.toUTF8.toList = t.toUTF8.toList) : s = t := by
  rw [toList_eq_data, toList_eq_data] at h
  exact String.toByteArray_inj.mp (ByteArray.ext (Array.toList_inj.mp h))

/-- A rest whose path does not end with a separator is never taken for the missing rest. -/
theorem restPath_injective {path zone space rest path' zone' space' rest' : Bytes}
    (h : Names path zone space rest) (h' : Names path' zone' space' rest')
    (hlast : path.getLast? ≠ some slash) (hlast' : path'.getLast? ≠ some slash)
    (heq : restPath rest = restPath rest') : rest = rest' := by
  have hno : ∀ {path zone space : Bytes}, Names path zone space [slash] →
      path.getLast? = some slash := by
    intro path zone space h
    rw [h.path_eq]
    simp [List.getLast?_append, List.getLast?_cons]
  unfold restPath at heq
  split at heq <;> split at heq
  · rename_i hnil hnil'
    rw [hnil, hnil']
  · rw [← heq] at h'
    exact absurd (hno h') hlast'
  · rw [heq] at h
    exact absurd (hno h) hlast
  · exact heq

/-- The path at a center tells the space from the rest. -/
theorem lpath_injective {sp sp' : Space} {rest rest' : Bytes}
    (hsp : slash ∉ sp.spacePath.toUTF8.toList) (hsp' : slash ∉ sp'.spacePath.toUTF8.toList)
    (hrest : rest = [] ∨ ∃ tail, rest = slash :: tail)
    (hrest' : rest' = [] ∨ ∃ tail, rest' = slash :: tail)
    (h : lpath sp (restPath rest) = lpath sp' (restPath rest')) :
    sp.spacePath = sp'.spacePath ∧ restPath rest = restPath rest' := by
  have hslash : ∀ {rest : Bytes}, (rest = [] ∨ ∃ tail, rest = slash :: tail) →
      ∃ tail, restPath rest = slash :: tail := by
    rintro rest (rfl | ⟨tail, rfl⟩)
    · exact ⟨[], rfl⟩
    · exact ⟨tail, if_neg (List.cons_ne_nil _ _)⟩
  obtain ⟨tail, htail⟩ := hslash hrest
  obtain ⟨tail', htail'⟩ := hslash hrest'
  unfold lpath at h
  rw [htail, htail'] at h ⊢
  obtain ⟨hpath, hback⟩ := append_slash_inj hsp hsp' h
  exact ⟨toUTF8_toList_injective hpath, by rw [hback]⟩

/-- Two paths without a separator at the end are mapped to one path only if they name the same
space and have the same rest. -/
theorem leadsTo_injective {g : ClientGraph} {zones : ClientZone} (huuid : UuidPaths zones)
    {path path' rest rest' : Bytes} {sp sp' : Space} (h : LeadsTo g zones path sp rest)
    (h' : LeadsTo g zones path' sp' rest') (hlast : path.getLast? ≠ some slash)
    (hlast' : path'.getLast? ≠ some slash)
    (hsame : (get_mapping g zones path).map Prod.snd = (get_mapping g zones path').map Prod.snd) :
    sp = sp' ∧ rest = rest' := by
  have hlisted := h.listed
  have hlisted' := h'.listed
  obtain ⟨zone, space, z, hnames, hz, hsp, hlist⟩ := h
  obtain ⟨zone', space', z', hnames', hz', hsp', hlist'⟩ := h'
  obtain ⟨iops, hiops⟩ := Option.isSome_iff_exists.mp hlist
  obtain ⟨iops', hiops'⟩ := Option.isSome_iff_exists.mp hlist'
  rw [get_mapping_eq hnames hz hsp hiops, get_mapping_eq hnames' hz' hsp' hiops'] at hsame
  obtain ⟨hpath, hrest⟩ := lpath_injective (huuid.slash_free sp hlisted)
    (huuid.slash_free sp' hlisted') hnames.rest_slash hnames'.rest_slash (Option.some.inj hsame)
  exact ⟨huuid.distinct hlisted hlisted' hpath,
    restPath_injective hnames hnames' hlast hlast' hrest⟩

/-- Every absolute path with three components splits into a zone, a space and a rest, and
`locatePosition` returns the rest. Where the path leads to a space, and there is a list of proxies
for its center, `get_mapping` puts the path of the space before it, and this is injective. -/
theorem path_mapping_exact_and_injective (g : ClientGraph) (zones : ClientZone) :
    (∀ p : DeepPath, ∃ zone space rest, Names p.path zone space rest ∧
      locatePosition zones p.path = some (zones.zonemap zone,
        (zones.zonemap zone).bind fun z => locateSpace z.spaceBicInfo space, restPath rest) ∧
      ∀ z sp iops, zones.zonemap zone = some z → locateSpace z.spaceBicInfo space = some sp →
        g.ioproxy_list (g.centerID sp) = some iops →
        get_mapping g zones p.path = some (runningProxy iops, lpath sp (restPath rest))) ∧
    (UuidPaths zones → ∀ (p p' : DeepPath) (sp sp' : Space) (rest rest' : Bytes),
      LeadsTo g zones p.path sp rest → LeadsTo g zones p'.path sp' rest' →
      p.path.getLast? ≠ some slash → p'.path.getLast? ≠ some slash →
      (get_mapping g zones p.path).map Prod.snd = (get_mapping g zones p'.path).map Prod.snd →
      sp = sp' ∧ rest = rest') := by
  constructor
  · intro p
    obtain ⟨zone, space, rest, hnames⟩ := exists_names p
    refine ⟨zone, space, rest, hnames, hnames.locatePosition_eq zones, ?_⟩
    intro z sp iops hz hsp hiops
    exact get_mapping_eq hnames hz hsp hiops
  · intro huuid p p' sp sp' rest rest' h h' hlast hlast' hsame
    exact leadsTo_injective huuid h h' hlast hlast' hsame

/-! ### Two spaces -/

/-- A space of the center `Jinan` with a name and a path. -/
def jinanSpace (spaceName : Bytes) (spacePath : String) : Space where
  spaceID := spacePath
  spaceName := spaceName
  spaceSize := 1
  hostCenterID := "Jinan"
  storageSrcID := "d1"
  spacePath := spacePath
  hostCenterName := "Jinan"
  storageSrcName := "d1"
  status := true
  replica_spaces := []

/-- A zone `z` with the spaces `s` and `t`. -/
def twoSpaces : ClientZone where
  zonemap := fun name => if name = [122] then some
    { zoneID := "z1", zoneName := [122], ownerID := "u1", memberID := [], spaceID := ["p1", "p2"]
      spaceBicInfo := [jinanSpace [115] "p1", jinanSpace [116] "p2"] } else none
  spaceuuid_to_metadatamap := fun _ => none

theorem twoSpaces_uuidPaths : UuidPaths twoSpaces := by
  have hlisted : ∀ sp, Listed twoSpaces sp →
      sp = jinanSpace [115] "p1" ∨ sp = jinanSpace [116] "p2" := by
    rintro sp ⟨zone, z, hz, hmem⟩
    simp only [twoSpaces] at hz
    split at hz
    · rw [← Option.some.inj hz] at hmem
      simpa using hmem
    · cases hz
  constructor
  · intro sp hsp
    rw [toList_eq_data]
    rcases hlisted sp hsp with rfl | rfl
    · decide
    · decide
  · intro sp hsp sp' hsp' heq
    rcases hlisted sp hsp with rfl | rfl <;> rcases hlisted sp' hsp' with rfl | rfl
    · rfl
    · exact absurd heq (by decide)
    · exact absurd heq (by decide)
    · rfl

/-- The path `/z/s/a`, or the same in another space. -/
def pathIn (space : UInt8) (h : space = 115 ∨ space = 116) : DeepPath where
  path := [47, 122, 47, space, 47, 97]
  absolute := rfl
  three := by rcases h with rfl | rfl <;> decide

theorem pathIn_names (space : UInt8) (h : space = 115 ∨ space = 116) :
    Names (pathIn space h).path [122] [space] [47, 97] where
  path_eq := rfl
  zone_free := by decide
  space_free := by rcases h with rfl | rfl <;> decide
  rest_slash := .inr ⟨[97], rfl⟩

/-- `/z/s/a` and `/z/t/a` are mapped to different paths, where the center has a list. -/
theorem two_spaces_mapped_apart :
    (get_mapping ⟨fun _ => some [], fun _ => none⟩ twoSpaces (pathIn 115 (.inl rfl)).path).map
        Prod.snd ≠
      (get_mapping ⟨fun _ => some [], fun _ => none⟩ twoSpaces (pathIn 116 (.inr rfl)).path).map
        Prod.snd := by
  intro heq
  have hsame := (path_mapping_exact_and_injective ⟨fun _ => some [], fun _ => none⟩ twoSpaces).2
    twoSpaces_uuidPaths (pathIn 115 (.inl rfl)) (pathIn 116 (.inr rfl))
    (jinanSpace [115] "p1") (jinanSpace [116] "p2") [47, 97] [47, 97]
    ⟨[122], [115], _, pathIn_names _ _, rfl, by decide, rfl⟩
    ⟨[122], [116], _, pathIn_names _ _, rfl, by decide, rfl⟩ (by decide) (by decide) heq
  exact absurd hsame.1 (by decide)

/-- Without a list for the center both are mapped to `/a`, without the path of a space. -/
theorem unlisted_centers_collide :
    (¬ ∀ (g : ClientGraph) (zones : ClientZone) (p : DeepPath) (z : ZoneInfo) (sp : Space)
      (rpath : Bytes), locatePosition zones p.path = some (some z, some sp, rpath) →
      (get_mapping g zones p.path).map Prod.snd = some (lpath sp rpath)) ∧
    ¬ ∀ (g : ClientGraph) (zones : ClientZone), UuidPaths zones → ∀ (p p' : DeepPath)
      (z z' : ZoneInfo) (sp sp' : Space) (rpath rpath' : Bytes),
      locatePosition zones p.path = some (some z, some sp, rpath) →
      locatePosition zones p'.path = some (some z', some sp', rpath') →
      p.path.getLast? ≠ some slash → p'.path.getLast? ≠ some slash →
      (get_mapping g zones p.path).map Prod.snd = (get_mapping g zones p'.path).map Prod.snd →
      sp = sp' := by
  have hs := (pathIn_names 115 (.inl rfl)).locatePosition_eq twoSpaces
  have ht := (pathIn_names 116 (.inr rfl)).locatePosition_eq twoSpaces
  have hmaps := get_mapping_unlisted (g := ⟨fun _ => none, fun _ => none⟩) twoSpaces
    (jinanSpace [115] "p1") (pathIn_names 115 (.inl rfl)) rfl (by decide) rfl
  have hmapt := get_mapping_unlisted (g := ⟨fun _ => none, fun _ => none⟩) twoSpaces
    (jinanSpace [116] "p2") (pathIn_names 116 (.inr rfl)) rfl (by decide) rfl
  constructor
  · intro hall
    have h := hall ⟨fun _ => none, fun _ => none⟩ twoSpaces _ _ _ _ hs
    rw [hmaps] at h
    have hlen := congrArg List.length (Option.some.inj h)
    unfold lpath at hlen
    rw [List.length_append, toList_eq_data] at hlen
    exact absurd hlen (by decide)
  · intro hall
    have h := hall ⟨fun _ => none, fun _ => none⟩ twoSpaces twoSpaces_uuidPaths _ _ _ _ _ _ _ _
      hs ht (by decide) (by decide) (by rw [hmaps, hmapt])
    exact absurd h (by decide)

end Gvds.GraphMod
