/-
Module: Gvds.Proofs.MountedZones
Layer: Proofs
Purpose: The zones to which a client gives access against the last answer to /zone/info, over all
  sequences of answers. They agree, unless an answer without zones comes while the client shows
  some, which it then keeps, or an answer has a zone whose name no path has as a component, or two
  zones of one name.
Imports: Gvds.Lib.Machine, Gvds.Client.ZoneMod
Trusted boundary: as Gvds.Client.ZoneMod
Main exports: Accessible, accessible_iff, Mirrors, Refreshes, zonemap_follows_answers
-/
import Gvds.Lib.Machine
import Gvds.Client.ZoneMod

namespace Gvds.ZoneMod

open Manager (Bytes Space locateSpace)

/-! ### Access -/

/-- A path leads to the zone: `isZoneSpacePath` says that it is one of a zone or below, and
`locatePosition` finds the zone. -/
def Accessible (s : ClientZone) (z : ZoneInfo) : Prop :=
  ∃ path r, isZoneSpacePath s path = some r ∧ 0 < r ∧
    ∃ space rest, locatePosition s path = some (some z, space, rest)

/-- What stands between separators has none. -/
theorem slash_not_mem_split {path component : Bytes} (h : component ∈ splitWithStl path) :
    slash ∉ component := by
  have hsplit : ∀ l : Bytes, ∀ x ∈ l.splitOn slash, slash ∉ x := by
    intro l
    induction l with
    | nil =>
        intro x hx
        rw [List.splitOn_nil, List.mem_singleton] at hx
        rw [hx]
        exact List.not_mem_nil
    | cons b l ih =>
        intro x hx
        rw [List.splitOn_cons_eq_if_modifyHead] at hx
        split at hx
        · rcases List.mem_cons.mp hx with rfl | hx
          · exact List.not_mem_nil
          · exact ih x hx
        · rename_i hb
          cases hsplit : l.splitOn slash with
          | nil => exact absurd hsplit (List.splitOn_ne_nil slash l)
          | cons y ys =>
              rw [hsplit] at hx ih
              rcases List.mem_cons.mp hx with rfl | hx
              · intro hmem
                rcases List.mem_cons.mp hmem with heq | hmem
                · exact hb (beq_iff_eq.mpr heq.symm)
                · exact ih y List.mem_cons_self hmem
              · exact ih x (List.mem_cons_of_mem y hx)
  unfold splitWithStl at h
  split at h
  · cases h
  · exact hsplit path component h

/-- The path of a zone with a separator behind it has three components. -/
theorem splitWithStl_zone {name : Bytes} (h : slash ∉ name) :
    splitWithStl (slash :: (name ++ [slash])) = [[], name, []] := by
  unfold splitWithStl
  rw [if_neg (List.cons_ne_nil _ _)]
  have hpath : slash :: (name ++ [slash]) = [slash].intercalate [[], name, []] := by
    simp [List.intercalate]
  rw [hpath]
  refine List.splitOn_intercalate slash (fun l hl => ?_) (List.cons_ne_nil _ _)
  simp only [List.mem_cons, List.not_mem_nil, or_false] at hl
  rcases hl with rfl | rfl | rfl
  · exact List.not_mem_nil
  · exact h
  · exact List.not_mem_nil

/-- A zone is accessible iff it stands under a name that can be a component of a path. -/
theorem accessible_iff {s : ClientZone} {z : ZoneInfo} :
    Accessible s z ↔ ∃ name, slash ∉ name ∧ s.zonemap name = some z := by
  constructor
  · rintro ⟨path, -, -, -, space, rest, hlocate⟩
    unfold locatePosition at hlocate
    split at hlocate
    · rename_i zonename spacename tail hsplit
      split at hlocate
      · rename_i zone hzone
        simp only [Option.some.injEq, Prod.mk.injEq] at hlocate
        have hmem : zonename ∈ splitWithStl path := by simp [hsplit]
        exact ⟨zonename, slash_not_mem_split hmem, by rw [hzone, hlocate.1]⟩
      · simp at hlocate
    · cases hlocate
  · rintro ⟨name, hname, hzone⟩
    refine ⟨slash :: (name ++ [slash]), 2, ?_, by decide,
      locateSpace z.spaceBicInfo [], remotepath (slash :: (name ++ [slash])), ?_⟩
    · unfold isZoneSpacePath
      rw [if_neg (by simp), splitWithStl_zone hname]
      simp only [hzone]
    · unfold locatePosition
      rw [splitWithStl_zone hname]
      simp only [hzone]

/-! ### Refreshes -/

/-- The client with the zones of the last answer that it has received. -/
structure Mounted where
  client : ClientZone
  last : Option (List ZoneInfo)

/-- A client that has just started. -/
def start : Mounted := ⟨⟨fun _ => none, fun _ => none⟩, none⟩

/-- `GetZoneInfo` is called; what it receives becomes the last answer. -/
def step (s : Mounted) (answer : Answer) : Option Mounted :=
  some {
    client := (GetZoneInfo s.client answer).1
    last := match answer with
      | .none => s.last
      | answer => some answer.zoneinfores }

/-- The client gives access to exactly the zones of the last answer. -/
def Mirrors (s : Mounted) : Prop :=
  ∀ zones, s.last = some zones → ∀ z, z ∈ zones ↔ Accessible s.client z

/-- The answers that a refresh follows: one without zones while no zone can be reached; or one whose
zones have different names, all without a separator. -/
def Refreshes (s : Mounted) (answer : Answer) : Prop :=
  match answer with
  | .none => True
  | .fail | .zones [] => ∀ name, slash ∉ name → s.client.zonemap name = none
  | .zones zones => (∀ z ∈ zones, slash ∉ z.zoneName) ∧
      ∀ a ∈ zones, ∀ b ∈ zones, a.zoneName = b.zoneName → a = b

/-- No zone is accessible iff no name that can be a component leads to one. -/
theorem no_access_iff {s : ClientZone} :
    (∀ z, ¬ Accessible s z) ↔ ∀ name, slash ∉ name → s.zonemap name = none := by
  constructor
  · intro h name hname
    cases hzone : s.zonemap name with
    | none => rfl
    | some z => exact absurd (accessible_iff.mpr ⟨name, hname, hzone⟩) (h z)
  · intro h z hz
    obtain ⟨name, hname, hzone⟩ := accessible_iff.mp hz
    rw [h name hname] at hzone
    cases hzone

/-- After a refresh, a zone of the answer is accessible iff it stands under its name, and that can
be a component. -/
theorem accessible_fill (zones : List ZoneInfo) (spaces : String → Option Space) {z : ZoneInfo} :
    Accessible ⟨Table.fill (fun it => it.zoneName) zones, spaces⟩ z ↔
      slash ∉ z.zoneName ∧ Table.fill (fun it : ZoneInfo => it.zoneName) zones z.zoneName =
        some z := by
  rw [accessible_iff]
  constructor
  · rintro ⟨name, hname, hzone⟩
    have hkey := (Table.fill_eq_some hzone).2
    dsimp only at hkey hzone
    subst hkey
    exact ⟨hname, hzone⟩
  · rintro ⟨hname, hzone⟩
    exact ⟨_, hname, hzone⟩

/-- A refresh leaves the client with exactly the zones of the last answer iff it meets the
condition. -/
theorem step_mirrors {s t : Mounted} {answer : Answer} (hs : Mirrors s)
    (hstep : step s answer = some t) : Mirrors t ↔ Refreshes s answer := by
  cases hstep
  have hempty : (Mirrors { client := s.client, last := some [] } ↔
      ∀ name, slash ∉ name → s.client.zonemap name = none) := by
    rw [← no_access_iff]
    simp [Mirrors]
  cases answer with
  | none => exact ⟨fun _ => trivial, fun _ => hs⟩
  | fail => exact hempty
  | zones zones =>
      cases zones with
      | nil => exact hempty
      | cons z₀ rest =>
          generalize hzones : z₀ :: rest = zones
          have hne : zones ≠ [] := hzones ▸ List.cons_ne_nil z₀ rest
          have hclient : (GetZoneInfo s.client (.zones zones)).1.zonemap =
              Table.fill (fun it => it.zoneName) zones := by
            unfold GetZoneInfo
            split
            · rename_i hnil
              exact absurd hnil hne
            · rfl
          have hrefreshes : Refreshes s (.zones zones) ↔ (∀ z ∈ zones, slash ∉ z.zoneName) ∧
              ∀ a ∈ zones, ∀ b ∈ zones, a.zoneName = b.zoneName → a = b := by
            rw [← hzones]
            rfl
          have hinjective : (∀ a ∈ zones, ∀ b ∈ zones, a.zoneName = b.zoneName → a = b) ↔
              ∀ z ∈ zones, Table.fill (fun it : ZoneInfo => it.zoneName) zones z.zoneName = some z :=
            Table.fill_injective_iff.symm
          rw [hrefreshes, hinjective]
          have haccess : ∀ z, Accessible (GetZoneInfo s.client (.zones zones)).1 z ↔
              slash ∉ z.zoneName ∧ Table.fill (fun it : ZoneInfo => it.zoneName) zones z.zoneName =
                some z := by
            intro z
            rw [← accessible_fill zones (fun _ => none), accessible_iff, accessible_iff, hclient]
          simp only [Mirrors, Answer.zoneinfores, Option.some.injEq, forall_eq', haccess]
          constructor
          · intro h
            exact ⟨fun z hz => ((h z).mp hz).1, fun z hz => ((h z).mp hz).2⟩
          · rintro ⟨hnames, hfill⟩ z
            exact ⟨fun hz => ⟨hnames z hz, hfill z hz⟩, fun hz => (Table.fill_eq_some hz.2).1⟩

/-- **The mounted zones follow the server** along a sequence of answers iff each one that is
received meets the condition. -/
theorem zonemap_follows_answers (answers : List Answer) :
    Machine.Always step Mirrors start answers ↔ Machine.Guarded step Refreshes start answers := by
  have hinv : ∀ s a t, True → step s a = some t → True := fun _ _ _ _ _ => trivial
  exact Machine.always_iff_guarded hinv (fun _ _ _ _ hs hstep => step_mirrors hs hstep)
    (fun _ _ hnone => by cases hnone) trivial fun _ hlast => by cases hlast

/-- A zone with a name and no space. -/
def emptyZone (name : Bytes) : ZoneInfo := ⟨⟨"z", name, "u", [], []⟩, []⟩

/-- The only zone of a user is taken away: the manager answers `fail`, and the client keeps it. -/
theorem revoked_zone_stays :
    ¬ ∀ answers : List Answer, Machine.Always step Mirrors start answers := by
  intro hall
  have hlast := ((hall [.zones [emptyZone [122]], .fail]).2 _ rfl).2 _ rfl [] rfl (emptyZone [122])
  have haccess : Accessible (GetZoneInfo start.client (.zones [emptyZone [122]])).1
      (emptyZone [122]) := accessible_iff.mpr ⟨[122], by decide, rfl⟩
  exact List.not_mem_nil (hlast.mpr haccess)

end Gvds.ZoneMod
