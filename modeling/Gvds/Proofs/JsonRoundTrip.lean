/-
Module: Gvds.Proofs.JsonRoundTrip
Layer: Proofs
Purpose: What comes back of a value that is encoded and decoded into an object that exists. It is
  the value in every encoded field, unless a string or a key of a map has a null byte, a vector has
  2^31 elements, a pointer is null, or an object with its flag set is read into one without.
Imports: Gvds.Common.JsonSerializer, Mathlib.Data.List.TakeWhile
Trusted boundary: as Gvds.Common.JsonSerializer
Main exports: toJson, encode_denotes, Same, Restores, decode_toJson_iff, json_round_trip_iff,
  standardJson, string_with_null_byte_cut
-/
import Gvds.Common.JsonSerializer
import Mathlib.Data.List.TakeWhile

namespace Gvds.JsonSerializer

open JsonText (Json)

/-! ### The value of a text -/

mutual

/-- The JSON value for which the text of a value stands. -/
def toJson : (T : Ty) → Val T → Json
  | .string, s => .str s
  | .unsigned, n => .int (UInt32.toNat n)
  | .int, n => .int (Int32.toInt n)
  | .int64, n => .int (Int64.toInt n)
  | .uint64, n => .int (UInt64.toNat n)
  | .bool, b => .bool b
  | .vector V, l => .arr (List.map (toJson V) l)
  | .map V, m => .obj (List.map (fun e => (cstr e.1, toJson V e.2)) (SortedMap.entries m))
  | .shared_ptr V, some v => toJson V v
  | .shared_ptr _, none => .int 0
  | .object always whenSet, v =>
      .obj (toMembers always (Object.always v) ++
        if Object.flag v then toMembers whenSet (Object.whenSet v) else [])

/-- The keys and values of members. -/
def toMembers : (M : Members) → Vals M → List (Bytes × Json)
  | .nil, _ => []
  | .cons key T rest, vs => (cstr key, toJson T (Prod.fst vs)) :: toMembers rest (Prod.snd vs)

end

/-- A text without null bytes is all of it a C string. -/
theorem cstr_eq_self_iff {s : Bytes} : cstr s = s ↔ 0 ∉ s := by
  unfold cstr
  rw [List.takeWhile_eq_self_iff]
  constructor
  · intro h hmem
    exact absurd (h 0 hmem) (by decide)
  · intro h b hb
    refine decide_eq_true fun heq => ?_
    rw [heq] at hb
    exact h hb

theorem zero_notMem_cstr (s : Bytes) : 0 ∉ cstr s := by
  intro hmem
  exact absurd (List.mem_takeWhile_imp hmem) (by decide)

section Denotes

variable (rj : Rapidjson)

theorem Rapidjson.array_map {α : Type} {text : α → Bytes} {j : α → Json} (l : List α)
    (h : ∀ a ∈ l, rj.Denotes (text a) (j a)) :
    rj.Denotes (rj.array (l.map text)) (.arr (l.map j)) := by
  have hall := rj.array_denotes (l.map fun a => (text a, j a)) fun e he => by
    obtain ⟨a, ha, rfl⟩ := List.mem_map.mp he
    exact h a ha
  rwa [List.map_map, List.map_map] at hall

theorem Rapidjson.object_map {α : Type} {key text : α → Bytes} {j : α → Json} (l : List α)
    (h : ∀ a ∈ l, rj.Denotes (text a) (j a)) :
    rj.Denotes (rj.object (l.map fun a => (key a, text a)))
      (.obj (l.map fun a => (key a, j a))) := by
  have hall := rj.object_denotes (l.map fun a => (key a, text a, j a)) fun e he => by
    obtain ⟨a, ha, rfl⟩ := List.mem_map.mp he
    exact h a ha
  rwa [List.map_map, List.map_map] at hall

mutual

/-- The text of a value stands for the JSON value. -/
theorem encode_denotes : ∀ (T : Ty) (v : Val T), rj.Denotes (encode rj T v) (toJson T v)
  | .string, s => rj.string_denotes s
  | .unsigned, n => by
      have hlt := UInt32.toNat_lt n
      exact rj.int_denotes _ (by omega) (by omega)
  | .int, n => by
      have hle := Int32.le_toInt n
      have hlt := Int32.toInt_lt n
      exact rj.int_denotes _ (by omega) (by omega)
  | .int64, n => by
      have hle := Int64.le_toInt n
      have hlt := Int64.toInt_lt n
      exact rj.int_denotes _ hle (by omega)
  | .uint64, n => by
      have hlt := UInt64.toNat_lt n
      exact rj.int_denotes _ (by omega) (by omega)
  | .bool, b => rj.bool_denotes b
  | .vector V, l => rj.array_map l fun v _ => encode_denotes V v
  | .map V, m => rj.object_map (SortedMap.entries m) fun e _ => encode_denotes V e.2
  | .shared_ptr V, some v => encode_denotes V v
  | .shared_ptr _, none => rj.int_denotes 0 (by decide) (by decide)
  | .object always whenSet, v => by
      obtain ⟨l, hl, htexts, hjson⟩ := members_denote always (Object.always v)
      obtain ⟨l', hl', htexts', hjson'⟩ := members_denote whenSet (Object.whenSet v)
      have hall := rj.object_denotes (l ++ if Object.flag v then l' else []) fun e he => by
        rcases List.mem_append.mp he with he | he
        · exact hl e he
        · split at he
          · exact hl' e he
          · cases he
      have hobject : rj.Denotes (rj.object (serialize_impl rj always (Object.always v) ++
          if Object.flag v then serialize_impl rj whenSet (Object.whenSet v) else []))
          (toJson (.object always whenSet) v) := by
        rw [toJson, htexts, hjson, htexts', hjson']
        cases hflag : Object.flag v <;> simpa [hflag] using hall
      rw [encode, cstr_eq_self_iff.mpr (rj.no_null _ _ hobject)]
      exact hobject

/-- So do the texts of members. -/
theorem members_denote : ∀ (M : Members) (vs : Vals M), ∃ l : List (Bytes × Bytes × Json),
    (∀ e ∈ l, rj.Denotes e.2.1 e.2.2) ∧ serialize_impl rj M vs = l.map (fun e => (e.1, e.2.1)) ∧
      toMembers M vs = l.map fun e => (e.1, e.2.2)
  | .nil, _ => ⟨[], fun _ he => absurd he List.not_mem_nil, rfl, rfl⟩
  | .cons key T rest, vs => by
      obtain ⟨l, hl, htexts, hjson⟩ := members_denote rest (Prod.snd vs)
      refine ⟨(cstr key, encode rj T (Prod.fst vs), toJson T (Prod.fst vs)) :: l, ?_, ?_, ?_⟩
      · intro e he
        rcases List.mem_cons.mp he with rfl | he
        · exact encode_denotes T (Prod.fst vs)
        · exact hl e he
      · rw [serialize_impl, htexts]
        rfl
      · rw [toMembers, hjson]
        rfl

end

end Denotes

/-! ### What comes back -/

mutual

/-- The second value is the first one in every field that is encoded of the first. -/
def Same : (T : Ty) → Val T → Val T → Prop
  | .string, s, s' => (s : Bytes) = s'
  | .unsigned, n, n' => (n : UInt32) = n'
  | .int, n, n' => (n : Int32) = n'
  | .int64, n, n' => (n : Int64) = n'
  | .uint64, n, n' => (n : UInt64) = n'
  | .bool, b, b' => (b : Bool) = b'
  | .vector V, l, l' => List.Forall₂ (Same V) l l'
  | .map V, m, m' => List.Forall₂ (fun e e' => e.1 = e'.1 ∧ Same V e.2 e'.2)
      (SortedMap.entries m) (SortedMap.entries m')
  | .shared_ptr V, some v, some v' => Same V v v'
  | .shared_ptr _, none, none => True
  | .shared_ptr _, _, _ => False
  | .object always whenSet, v, v' =>
      SameMembers always (Object.always v) (Object.always v') ∧
        (Object.flag v = true → SameMembers whenSet (Object.whenSet v) (Object.whenSet v'))

/-- So are the members. -/
def SameMembers : (M : Members) → Vals M → Vals M → Prop
  | .nil, _, _ => True
  | .cons _ T rest, vs, vs' =>
      Same T (Prod.fst vs) (Prod.fst vs') ∧ SameMembers rest (Prod.snd vs) (Prod.snd vs')

end

/-- A text without null bytes. -/
def NoNull (s : Bytes) : Prop := 0 ∉ s

/-- All elements of a list have a property. -/
def Each {α : Type} (l : List α) (P : α → Prop) : Prop := ∀ a ∈ l, P a

mutual

/-- A value comes back when it is read into the second one: its strings and the keys of its maps
have no null byte, its vectors fewer than 2^31 elements, its pointers are not null, and where the
flag of an object is set, it is set in the object that is read into, or what depends on it is the
same there already. -/
def Restores : (T : Ty) → Val T → Val T → Prop
  | .string, s, _ => NoNull s
  | .vector V, l, _ => List.length l < 2 ^ 31 ∧ Each l fun v => Restores V v (fresh V)
  | .map V, m, _ => Each (SortedMap.entries m) fun e => NoNull e.1 ∧ Restores V e.2 (fresh V)
  | .shared_ptr V, some v, dest => Restores V v (Option.getD dest (fresh V))
  | .shared_ptr _, none, _ => False
  | .object always whenSet, v, dest =>
      RestoresMembers always (Object.always v) (Object.always dest) ∧
        (Object.flag v = true →
          if Object.flag dest then
            RestoresMembers whenSet (Object.whenSet v) (Object.whenSet dest)
          else SameMembers whenSet (Object.whenSet v) (Object.whenSet dest))
  | _, _, _ => True

/-- So do the members. -/
def RestoresMembers : (M : Members) → Vals M → Vals M → Prop
  | .nil, _, _ => True
  | .cons _ T rest, vs, dest =>
      Restores T (Prod.fst vs) (Prod.fst dest) ∧ RestoresMembers rest (Prod.snd vs) (Prod.snd dest)

end

/-! ### Vectors and maps -/

/-- What is decoded one by one is right iff each element is. -/
theorem mapM_forall₂_iff {α β γ : Type} {f : β → Option γ} {g : α → β} {R : α → γ → Prop}
    {P : α → Prop} (l : List α) (h : ∀ a ∈ l, (∃ c, f (g a) = some c ∧ R a c) ↔ P a) :
    (∃ w, (l.map g).mapM f = some w ∧ List.Forall₂ R l w) ↔ ∀ a ∈ l, P a := by
  induction l with
  | nil => simp
  | cons a l ih =>
      have hhead := h a List.mem_cons_self
      have htail := ih fun b hb => h b (List.mem_cons_of_mem a hb)
      rw [List.forall_mem_cons, ← hhead, ← htail, List.map_cons, List.mapM_cons]
      constructor
      · rintro ⟨w, hw, hsame⟩
        obtain ⟨c, w', hc, hrest, rfl⟩ := List.forall₂_cons_left_iff.mp hsame
        cases hfirst : f (g a) with
        | none =>
            rw [hfirst] at hw
            cases hw
        | some c' =>
            cases hmore : (l.map g).mapM f with
            | none =>
                rw [hfirst, hmore] at hw
                cases hw
            | some w'' =>
                rw [hfirst, hmore] at hw
                cases hw
                exact ⟨⟨c, rfl, hc⟩, w', rfl, hrest⟩
      · rintro ⟨⟨c, hfirst, hc⟩, w, hmore, hrest⟩
        refine ⟨c :: w, ?_, List.Forall₂.cons hc hrest⟩
        rw [hfirst, hmore]
        rfl

section Fold

variable {α : Type} (f : Json → α → Option α) (new : α)

/-- One round of the loop over the members of an object that is decoded into a map. -/
def putMember (tmp : SortedMap Bytes α) (member : Bytes × Json) : Option (SortedMap Bytes α) :=
  (f member.2 ((tmp.find (cstr member.1)).getD new)).map (tmp.insert (cstr member.1))

/-- Whatever the members, no key of the map has a null byte. -/
theorem putMembers_noNull {l : List (Bytes × Json)} {tmp m : SortedMap Bytes α}
    (htmp : Each tmp.entries fun e => NoNull e.1) (h : l.foldlM (putMember f new) tmp = some m) :
    Each m.entries fun e => NoNull e.1 := by
  induction l generalizing tmp with
  | nil =>
      cases h
      exact htmp
  | cons member l ih =>
      rw [List.foldlM_cons] at h
      obtain ⟨tmp', hput, hrest⟩ := Option.bind_eq_some_iff.mp h
      obtain ⟨v, -, rfl⟩ := Option.map_eq_some_iff.mp hput
      refine ih (fun e he => ?_) hrest
      rcases SortedMap.mem_insertEntry he with hkey | ⟨e', he', hkey⟩
      · rw [hkey]
        exact zero_notMem_cstr member.1
      · rw [hkey]
        exact htmp e' he'

/-- Members whose keys are sorted and have no null bytes are decoded into new elements one by one,
behind the entries that are there. By induction on the members. -/
theorem putMembers_entries {β : Type} (key : β → Bytes) (j : β → Json) {l : List β}
    (hnull : Each l fun b => NoNull (key b)) (hsorted : l.Pairwise fun b b' => key b < key b')
    (tmp : SortedMap Bytes α) (hlt : ∀ e ∈ tmp.entries, ∀ b ∈ l, e.1 < key b) :
    ((l.map fun b => (cstr (key b), j b)).foldlM (putMember f new) tmp).map SortedMap.entries =
      (l.mapM fun b => (f (j b) new).map fun v => (key b, v)).map (tmp.entries ++ ·) := by
  induction l generalizing tmp with
  | nil =>
      change some tmp.entries = some (tmp.entries ++ [])
      rw [List.append_nil]
  | cons b l ih =>
      obtain ⟨hhead, htail⟩ := List.pairwise_cons.mp hsorted
      have hkey : cstr (key b) = key b := cstr_eq_self_iff.mpr (hnull b List.mem_cons_self)
      have hbehind : ∀ e ∈ tmp.entries, e.1 < key b := fun e he => hlt e he b List.mem_cons_self
      rw [List.map_cons, List.foldlM_cons, List.mapM_cons, putMember, hkey, hkey,
        SortedMap.find_of_forall_lt hbehind, Option.getD_none]
      cases hfirst : f (j b) new with
      | none => rfl
      | some v =>
          have hentries : (tmp.insert (key b) v).entries = tmp.entries ++ [(key b, v)] :=
            SortedMap.insertEntry_of_forall_lt v hbehind
          have hrest := ih (fun b' hb' => hnull b' (List.mem_cons_of_mem b hb')) htail
            (tmp.insert (key b) v) fun e he b' hb' => by
              rw [hentries] at he
              rcases List.mem_append.mp he with he | he
              · exact hlt e he b' (List.mem_cons_of_mem b hb')
              · rw [List.mem_singleton.mp he]
                exact hhead b' hb'
          simp only [Option.map_some, Option.bind_eq_bind, Option.bind_some, hrest, hentries]
          cases l.mapM fun b => (f (j b) new).map fun v => (key b, v) with
          | none => rfl
          | some w => simp

end Fold

theorem keys_eq_of_forall₂ {α : Type} {R : α → α → Prop} {l l' : List (Bytes × α)}
    (h : List.Forall₂ (fun e e' => e.1 = e'.1 ∧ R e.2 e'.2) l l') :
    l.map Prod.fst = l'.map Prod.fst := by
  induction h with
  | nil => rfl
  | cons hentry _ ih => rw [List.map_cons, List.map_cons, hentry.1, ih]

/-- A map comes back iff its keys have no null byte and its values come back in new objects. -/
theorem putMembers_iff {α : Type} {f : Json → α → Option α} {new : α} {j : α → Json}
    {R : α → α → Prop} {P : α → Prop} (h : ∀ v, (∃ w, f (j v) new = some w ∧ R v w) ↔ P v)
    (m : SortedMap Bytes α) :
    (∃ w, (m.entries.map fun e => (cstr e.1, j e.2)).foldlM (putMember f new) .empty = some w ∧
        List.Forall₂ (fun e e' => e.1 = e'.1 ∧ R e.2 e'.2) m.entries w.entries) ↔
      Each m.entries fun e => NoNull e.1 ∧ P e.2 := by
  have hvalues := mapM_forall₂_iff (g := fun e : Bytes × α => e)
    (f := fun e => (f (j e.2) new).map fun v => (e.1, v))
    (R := fun e e' => e.1 = e'.1 ∧ R e.2 e'.2) (P := fun e => P e.2) m.entries fun e _ => by
      rw [← h e.2]
      constructor
      · rintro ⟨e', he', -, hR⟩
        obtain ⟨v, hv, rfl⟩ := Option.map_eq_some_iff.mp he'
        exact ⟨v, hv, hR⟩
      · rintro ⟨v, hv, hR⟩
        exact ⟨(e.1, v), by rw [hv, Option.map_some], rfl, hR⟩
  rw [List.map_id'] at hvalues
  have hfold := fun hnull => putMembers_entries f new Prod.fst (fun e => j e.2)
    (l := m.entries) hnull m.sorted .empty fun e he => absurd he List.not_mem_nil
  constructor
  · rintro ⟨w, hw, hsame⟩
    have hkeys := putMembers_noNull f new (fun e he => absurd he List.not_mem_nil) hw
    have hnull : Each m.entries fun e => NoNull e.1 := by
      intro e he
      have hmem := List.mem_map_of_mem (f := Prod.fst) he
      rw [keys_eq_of_forall₂ hsame] at hmem
      obtain ⟨e', he', hkey⟩ := List.mem_map.mp hmem
      rw [← hkey]
      exact hkeys e' he'
    have hentries := hfold hnull
    rw [hw, Option.map_some] at hentries
    obtain ⟨w', hw', heq⟩ := Option.map_eq_some_iff.mp hentries.symm
    have hall := hvalues.mp ⟨w', hw', by rw [← heq] at hsame; exact hsame⟩
    exact fun e he => ⟨hnull e he, hall e he⟩
  · intro hall
    have hentries := hfold fun e he => (hall e he).1
    obtain ⟨w', hw', hsame⟩ := hvalues.mpr fun e he => (hall e he).2
    rw [hw', Option.map_some] at hentries
    obtain ⟨w, hw, heq⟩ := Option.map_eq_some_iff.mp hentries
    exact ⟨w, hw, by rw [heq]; exact hsame⟩

/-! ### Members -/

theorem toMembers_keys : ∀ (M : Members) (vs : Vals M), (toMembers M vs).map Prod.fst = M.keys
  | .nil, _ => rfl
  | .cons key _ rest, vs => congrArg (cstr key :: ·) (toMembers_keys rest (Prod.snd vs))

/-- With different keys, a lookup finds the member. -/
theorem find?_of_mem {l : List (Bytes × Json)} (hl : (l.map Prod.fst).Nodup) {p : Bytes × Json}
    (hp : p ∈ l) : l.find? (fun member => member.1 = p.1) = some p := by
  induction l with
  | nil => cases hp
  | cons member l ih =>
      obtain ⟨hnotMem, hrest⟩ := List.nodup_cons.mp hl
      rcases List.mem_cons.mp hp with rfl | hp
      · exact List.find?_cons_of_pos (decide_eq_true rfl)
      · rw [List.find?_cons_of_neg, ih hrest hp]
        intro heq
        refine hnotMem ?_
        rw [of_decide_eq_true heq]
        exact List.mem_map_of_mem hp

/-- Members that are not there stay as they are. -/
theorem deserialize_impl_of_missing : ∀ (M : Members) (l : List (Bytes × Json)) (dest : Vals M),
    (∀ key ∈ M.keys, ∀ member ∈ l, member.1 ≠ key) → deserialize_impl M l dest = some dest
  | .nil, _, _, _ => rfl
  | .cons key T rest, l, dest, h => by
      have hnone : l.find? (fun member => member.1 = cstr key) = none :=
        List.find?_eq_none.mpr fun member hmember heq =>
          h (cstr key) List.mem_cons_self member hmember (of_decide_eq_true heq)
      have hrest := deserialize_impl_of_missing rest l (Prod.snd dest) fun key' hkey' =>
        h key' (List.mem_cons_of_mem _ hkey')
      rw [deserialize_impl, hnone, hrest]
      rfl

/-! ### The round trip -/

theorem asInt_of_bounds {lo hi n : Int} (hlo : lo ≤ n) (hhi : n < hi) :
    asInt lo hi (.int n) = some n := if_pos ⟨hlo, hhi⟩

theorem asInt_uint32 (n : UInt32) : asInt 0 (2 ^ 32) (.int n.toNat) = some (n.toNat : Int) := by
  have hlt := UInt32.toNat_lt n
  exact asInt_of_bounds (by omega) (by omega)

theorem asInt_int32 (n : Int32) : asInt (-2 ^ 31) (2 ^ 31) (.int n.toInt) = some n.toInt :=
  asInt_of_bounds (Int32.le_toInt n) (Int32.toInt_lt n)

theorem asInt_int64 (n : Int64) : asInt (-2 ^ 63) (2 ^ 63) (.int n.toInt) = some n.toInt :=
  asInt_of_bounds (Int64.le_toInt n) (Int64.toInt_lt n)

theorem asInt_uint64 (n : UInt64) : asInt 0 (2 ^ 64) (.int n.toNat) = some (n.toNat : Int) := by
  have hlt := UInt64.toNat_lt n
  exact asInt_of_bounds (by omega) (by omega)

theorem decode_unsigned (n dest : UInt32) :
    decode .unsigned (toJson .unsigned n) dest = some n := by
  change some (((asInt 0 (2 ^ 32) (.int n.toNat)).map fun n => UInt32.ofNat n.toNat).getD dest) = _
  rw [asInt_uint32, Option.map_some, Option.getD_some, Int.toNat_natCast, UInt32.ofNat_toNat]

theorem decode_int (n dest : Int32) : decode .int (toJson .int n) dest = some n := by
  change some (((asInt (-2 ^ 31) (2 ^ 31) (.int n.toInt)).map Int32.ofInt).getD dest) = _
  rw [asInt_int32, Option.map_some, Option.getD_some, Int32.ofInt_toInt]

theorem decode_int64 (n dest : Int64) : decode .int64 (toJson .int64 n) dest = some n := by
  change some (((asInt (-2 ^ 63) (2 ^ 63) (.int n.toInt)).map Int64.ofInt).getD dest) = _
  rw [asInt_int64, Option.map_some, Option.getD_some, Int64.ofInt_toInt]

theorem decode_uint64 (n dest : UInt64) : decode .uint64 (toJson .uint64 n) dest = some n := by
  change some (((asInt 0 (2 ^ 64) (.int n.toNat)).map fun n => UInt64.ofNat n.toNat).getD dest) = _
  rw [asInt_uint64, Option.map_some, Option.getD_some, Int.toNat_natCast, UInt64.ofNat_toNat]

theorem decode_string_iff (s dest : Bytes) :
    (∃ w, decode .string (toJson .string s) dest = some w ∧ Same .string s w) ↔
      Restores .string s dest := by
  change (∃ w, some (cstr s) = some w ∧ s = w) ↔ NoNull s
  constructor
  · rintro ⟨w, hw, hsame⟩
    exact cstr_eq_self_iff.mp ((Option.some.inj hw).trans hsame.symm)
  · intro hnull
    exact ⟨s, by rw [cstr_eq_self_iff.mpr hnull], rfl⟩

/-- A pointer comes back iff it is not null and what it points to comes back. -/
theorem decode_shared_ptr_iff {V : Ty} (h : ∀ v dest : Val V,
    (∃ w, decode V (toJson V v) dest = some w ∧ Same V v w) ↔ Restores V v dest)
    (v dest : Option (Val V)) :
    (∃ w, decode (.shared_ptr V) (toJson (.shared_ptr V) v) dest = some w ∧
      Same (.shared_ptr V) v w) ↔ Restores (.shared_ptr V) v dest := by
  cases v with
  | none =>
      refine iff_of_false ?_ id
      rintro ⟨w, hw, hsame⟩
      obtain ⟨w', -, rfl⟩ := Option.map_eq_some_iff.mp hw
      exact hsame
  | some v =>
      refine Iff.trans ?_ (h v (dest.getD (fresh V)))
      constructor
      · rintro ⟨w, hw, hsame⟩
        obtain ⟨w', hw', rfl⟩ := Option.map_eq_some_iff.mp hw
        exact ⟨w', hw', hsame⟩
      · rintro ⟨w, hw, hsame⟩
        exact ⟨some w, Option.map_eq_some_iff.mpr ⟨w, hw, rfl⟩, hsame⟩

/-- The part of `deserialize_impl` that depends on the flag of the object that is there. -/
def getWhenSet {M : Members} (l : List (Bytes × Json)) (flag : Bool) (dest : Vals M) :
    Option (Vals M) := if flag then deserialize_impl M l dest else some dest

theorem decode_object {always whenSet : Members} (l : List (Bytes × Json))
    (dest : Object (Vals always) (Vals whenSet)) :
    decode (.object always whenSet) (.obj l) dest =
      (deserialize_impl always l dest.always).bind fun as =>
        (getWhenSet l dest.flag dest.whenSet).map fun ss =>
          ({ always := as, flag := dest.flag, whenSet := ss } :
            Object (Vals always) (Vals whenSet)) := by
  obtain ⟨das, flag, dss⟩ := dest
  cases flag <;> rfl

/-- A vector comes back iff its elements do, each in a new object, and an int counts them. -/
theorem decode_vector_iff {V : Ty}
    (h : ∀ v dest : Val V,
      (∃ w, decode V (toJson V v) dest = some w ∧ Same V v w) ↔ Restores V v dest)
    (l dest : List (Val V)) :
    (∃ w, decode (.vector V) (toJson (.vector V) l) dest = some w ∧ Same (.vector V) l w) ↔
      Restores (.vector V) l dest := by
  have helements := mapM_forall₂_iff (f := fun x => decode V x (fresh V)) (R := Same V) l
    fun v _ => h v (fresh V)
  change (∃ w, (if (l.map (toJson V)).length < 2 ^ 31 then
      (l.map (toJson V)).mapM fun x => decode V x (fresh V) else none) = some w ∧
    List.Forall₂ (Same V) l w) ↔ l.length < 2 ^ 31 ∧ Each l fun v => Restores V v (fresh V)
  rw [List.length_map]
  by_cases hlen : l.length < 2 ^ 31
  · rw [if_pos hlen, and_iff_right hlen]
    exact helements
  · rw [if_neg hlen]
    refine iff_of_false ?_ fun hall => hlen hall.1
    rintro ⟨w, hw, -⟩
    cases hw

/-- Where all members of a class are found, its calls of `get` give them back iff they come back. -/
def GetsBack (M : Members) : Prop :=
  ∀ (l : List (Bytes × Json)) (vs dest : Vals M),
    (∀ p ∈ toMembers M vs, l.find? (fun member => member.1 = p.1) = some p) →
    ((∃ ws, deserialize_impl M l dest = some ws ∧ SameMembers M vs ws) ↔
      RestoresMembers M vs dest)

/-- The members of a text that depend on the flag, if it is set. -/
theorem getWhenSet_iff {M : Members} (l : List (Bytes × Json)) (flag dflag : Bool)
    (vs dest : Vals M) (h : GetsBack M)
    (hset : flag = true → ∀ p ∈ toMembers M vs,
      l.find? (fun member => member.1 = p.1) = some p)
    (hunset : flag = false → ∀ key ∈ M.keys, ∀ member ∈ l, member.1 ≠ key) :
    (∃ vs', getWhenSet l dflag dest = some vs' ∧ (flag = true → SameMembers M vs vs')) ↔
      (flag = true → if dflag then RestoresMembers M vs dest else SameMembers M vs dest) := by
  cases flag with
  | false =>
      refine iff_of_true ⟨dest, ?_, fun hflag => by cases hflag⟩ fun hflag => by cases hflag
      cases dflag with
      | false => rfl
      | true => exact deserialize_impl_of_missing M l dest (hunset rfl)
  | true =>
      simp only [forall_const]
      cases dflag with
      | false =>
          constructor
          · rintro ⟨vs', heq, hsame⟩
            rw [Option.some.inj heq]
            exact hsame
          · intro hsame
            exact ⟨dest, rfl, hsame⟩
      | true => exact h l vs dest (hset rfl)

/-- The two parts of an object among the members of its text. -/
theorem decode_object_iff {always whenSet : Members}
    (hkeys : (always.keys ++ whenSet.keys).Nodup) (halways : GetsBack always)
    (hwhenSet : GetsBack whenSet) (v dest : Object (Vals always) (Vals whenSet)) :
    (∃ w, decode (.object always whenSet) (toJson (.object always whenSet) v) dest = some w ∧
      Same (.object always whenSet) v w) ↔ Restores (.object always whenSet) v dest := by
  obtain ⟨as, flag, ss⟩ := v
  obtain ⟨das, dflag, dss⟩ := dest
  obtain ⟨hnodup, -, hdisjoint⟩ := List.nodup_append.mp hkeys
  have hdistinct : ((toMembers always as ++ if flag then toMembers whenSet ss else []).map
      Prod.fst).Nodup := by
    cases flag with
    | true => simpa [toMembers_keys] using hkeys
    | false => simpa [toMembers_keys] using hnodup
  have hfirst := halways _ as das fun p hp =>
    find?_of_mem hdistinct (List.mem_append_left _ hp)
  have hsecond := getWhenSet_iff (toMembers always as ++
      if flag then toMembers whenSet ss else []) flag dflag ss dss hwhenSet
    (fun hflag p hp => by
      rw [hflag] at hdistinct ⊢
      exact find?_of_mem hdistinct (List.mem_append_right _ hp))
    fun hflag key hkey member hmember heq => by
      rw [hflag] at hmember
      have hmem := List.mem_map_of_mem (f := Prod.fst) hmember
      rw [List.map_append, toMembers_keys, heq] at hmem
      exact hdisjoint key ((List.mem_append.mp hmem).resolve_right List.not_mem_nil) key hkey rfl
  change (∃ w, decode (.object always whenSet) (.obj _) _ = some w ∧
    SameMembers always as (Object.always w) ∧
      (flag = true → SameMembers whenSet ss (Object.whenSet w))) ↔
    RestoresMembers always as das ∧ (flag = true → if dflag then RestoresMembers whenSet ss dss
      else SameMembers whenSet ss dss)
  rw [← hfirst, ← hsecond, decode_object]
  constructor
  · rintro ⟨w, hw, hsame, hsames⟩
    obtain ⟨as', has, hmore⟩ := Option.bind_eq_some_iff.mp hw
    obtain ⟨ss', hss, rfl⟩ := Option.map_eq_some_iff.mp hmore
    exact ⟨⟨as', has, hsame⟩, ss', hss, hsames⟩
  · rintro ⟨⟨as', has, hsame⟩, ss', hss, hsames⟩
    refine ⟨⟨as', dflag, ss'⟩, ?_, hsame, hsames⟩
    simp only [has, Option.bind_some, hss, Option.map_some]
    rfl

mutual

/-- What is decoded of the JSON value of a value. By induction on the type. -/
theorem decode_toJson_iff : ∀ (T : Ty), T.wellKeyed = true → ∀ v dest : Val T,
    (∃ w, decode T (toJson T v) dest = some w ∧ Same T v w) ↔ Restores T v dest
  | .string, _, s, dest => decode_string_iff s dest
  | .unsigned, _, n, dest => iff_of_true ⟨n, decode_unsigned n dest, rfl⟩ trivial
  | .int, _, n, dest => iff_of_true ⟨n, decode_int n dest, rfl⟩ trivial
  | .int64, _, n, dest => iff_of_true ⟨n, decode_int64 n dest, rfl⟩ trivial
  | .uint64, _, n, dest => iff_of_true ⟨n, decode_uint64 n dest, rfl⟩ trivial
  | .bool, _, b, _ => iff_of_true ⟨b, rfl, rfl⟩ trivial
  | .vector V, h, l, dest => decode_vector_iff (decode_toJson_iff V h) l dest
  | .map V, h, m, _ => putMembers_iff (fun v => decode_toJson_iff V h v (fresh V)) m
  | .shared_ptr V, h, v, dest => decode_shared_ptr_iff (decode_toJson_iff V h) v dest
  | .object always whenSet, h, v, dest =>
      have hparts := Bool.and_eq_true_iff.mp h
      have hfirst := Bool.and_eq_true_iff.mp hparts.1
      decode_object_iff (of_decide_eq_true hfirst.1) (deserialize_impl_iff always hfirst.2)
        (deserialize_impl_iff whenSet hparts.2) v dest

/-- What the calls of `get` find among members that have those of the value. -/
theorem deserialize_impl_iff : ∀ (M : Members), M.wellKeyed = true →
    ∀ (l : List (Bytes × Json)) (vs dest : Vals M),
    (∀ p ∈ toMembers M vs, l.find? (fun member => member.1 = p.1) = some p) →
    ((∃ ws, deserialize_impl M l dest = some ws ∧ SameMembers M vs ws) ↔
      RestoresMembers M vs dest)
  | .nil, _, _, _, _, _ => iff_of_true ⟨(), rfl, trivial⟩ trivial
  | .cons key T rest, h, l, vs, dest, hfind => by
      obtain ⟨hT, hrest⟩ := Bool.and_eq_true_iff.mp h
      have hmember := hfind _ List.mem_cons_self
      have htail := deserialize_impl_iff rest hrest l (Prod.snd vs) (Prod.snd dest) fun p hp =>
        hfind p (List.mem_cons_of_mem _ hp)
      rw [RestoresMembers, ← htail, ← decode_toJson_iff T hT (Prod.fst vs) (Prod.fst dest),
        deserialize_impl, hmember]
      constructor
      · rintro ⟨ws, hws, hsame⟩
        obtain ⟨w, hw, hmore⟩ := Option.bind_eq_some_iff.mp hws
        obtain ⟨ws', hws', rfl⟩ := Option.map_eq_some_iff.mp hmore
        exact ⟨⟨w, hw, hsame.1⟩, ws', hws', hsame.2⟩
      · rintro ⟨⟨w, hw, hsame⟩, ws, hws, hsames⟩
        refine ⟨(w, ws), ?_, hsame, hsames⟩
        simp only [hw, Option.bind_some, hws]
        rfl

end

section Texts

variable (rj : Rapidjson)

/-- The text of a value is parsed whole. -/
theorem parse_encode (T : Ty) (v : Val T) :
    rj.parse (cstr (encode rj T v)) = some (toJson T v) := by
  have hdenotes := encode_denotes rj T v
  rw [cstr_eq_self_iff.mpr (rj.no_null _ _ hdenotes)]
  exact rj.parse_eq _ _ hdenotes

theorem json_decode_json_encode (T : Ty) (v dest : Val T) :
    json_decode rj T (json_encode rj T v) dest = decode T (toJson T v) dest := by
  have hnull := rj.no_null _ _ (encode_denotes rj T v)
  rw [json_decode, json_encode, cstr_eq_self_iff.mpr hnull, parse_encode, Option.getD_some]

theorem deserialize_serialize (c : JsonClass) (v dest : Val c.ty) :
    deserialize rj c (serialize rj c v) dest = decode c.ty (toJson c.ty v) dest := by
  rw [deserialize, serialize, parse_encode]
  rfl

/-- Encoding and decoding into an object that exists gives back a value in every encoded field iff
no string and no key of a map in it has a null byte, no vector has 2^31 elements, no pointer in it
is null, and no object with its flag set is read into one without that differs in what depends on
the flag. -/
theorem json_round_trip_iff :
    (∀ (t : JsonType) (v dest : Val t.ty),
      (∃ w, json_decode rj t.ty (json_encode rj t.ty v) dest = some w ∧ Same t.ty v w) ↔
        Restores t.ty v dest) ∧
    ∀ c ∈ [Space, Zone, ZoneRequest, CenterInfo, StorageResource], ∀ v dest : Val c.ty,
      (∃ w, deserialize rj c (serialize rj c v) dest = some w ∧ Same c.ty v w) ↔
        Restores c.ty v dest := by
  constructor
  · intro t v dest
    rw [json_decode_json_encode]
    exact decode_toJson_iff t.ty t.wellKeyed v dest
  · intro c _ v dest
    rw [deserialize_serialize]
    exact decode_toJson_iff c.ty c.wellKeyed v dest

end Texts

/-- An implementation of standard JSON. -/
def standardJson : Rapidjson where
  string := JsonText.quote
  int := JsonText.integer
  bool := JsonText.boolean
  array := JsonText.array
  object := JsonText.object
  parse := JsonText.parse
  Denotes := JsonText.Reads
  string_denotes := JsonText.reads_quote
  int_denotes n _ _ := JsonText.reads_integer n
  bool_denotes := JsonText.reads_boolean
  array_denotes := JsonText.reads_array
  object_denotes := JsonText.reads_object
  no_null _ _ h := h.noNull
  parse_eq _ _ h := h.parse_eq

/-- A zone with a member, a space and what is known of the space. -/
def zoneOfOneSpace : Val Zone.ty :=
  ({ always := ([49], [122], [117], [[117]], [[115]], ())
     flag := true
     whenSet := ([some (fresh Space.ty)], 7, 5, 0, ()) } :
    Object (Bytes × Bytes × Bytes × List Bytes × List Bytes × Unit)
      (List (Option (Val Space.ty)) × Int32 × Int32 × Int32 × Unit))

/-- A zone with its spaces is read into a new object. -/
theorem zone_of_one_space_round_trip :
    ∃ w, deserialize standardJson Zone (serialize standardJson Zone zoneOfOneSpace)
      (fresh Zone.ty) = some w ∧ Same Zone.ty zoneOfOneSpace w := by
  refine ((json_round_trip_iff standardJson).2 Zone (by simp) zoneOfOneSpace (fresh Zone.ty)).mpr ?_
  have hempty : NoNull [] := List.not_mem_nil
  have hletter : ∀ b ∈ [49, 122, 117, 115], NoNull [b] := by
    intro b hb hnull
    rw [← List.mem_singleton.mp hnull] at hb
    exact absurd hb (by decide)
  have heach : ∀ b ∈ [49, 122, 117, 115],
      [[b]].length < 2 ^ 31 ∧ Each [[b]] fun s => Restores .string s (fresh .string) := by
    intro b hb
    refine ⟨(by decide : 1 < 2 ^ 31), fun s hs => ?_⟩
    rw [List.mem_singleton.mp hs]
    exact hletter b hb
  have hspace : Restores Space.ty (fresh Space.ty) (fresh Space.ty) :=
    ⟨⟨hempty, hempty, trivial, hempty, hempty, hempty, hempty, hempty, trivial,
      ⟨by decide, fun _ h => absurd h List.not_mem_nil⟩, trivial⟩, fun _ => trivial⟩
  refine ⟨⟨hletter 49 (by decide), hletter 122 (by decide), hletter 117 (by decide),
    heach 117 (by decide), heach 115 (by decide), trivial⟩,
    fun _ => ⟨⟨by decide, ?_⟩, trivial, trivial, trivial, trivial⟩⟩
  intro pointer hpointer
  rw [List.mem_singleton.mp hpointer]
  exact hspace

/-- A string with a null byte in it is written whole and read up to the null byte. -/
theorem string_with_null_byte_cut :
    let text := json_encode standardJson .string ([97, 0, 98] : Bytes)
    text = [34, 97, 92, 117, 48, 48, 48, 48, 98, 34] ∧
      json_decode standardJson .string text ([] : Bytes) = some ([97] : Bytes) ∧
      ¬ ∃ w, json_decode standardJson .string text ([] : Bytes) = some w ∧
        Same .string ([97, 0, 98] : Bytes) w := by
  have hcut : json_decode standardJson .string
      (json_encode standardJson .string ([97, 0, 98] : Bytes)) ([] : Bytes) =
        some ([97] : Bytes) := rfl
  refine ⟨by decide, hcut, ?_⟩
  rintro ⟨w, hw, hsame⟩
  rw [hcut] at hw
  cases hw
  exact absurd hsame (by change ¬ ([97, 0, 98] : Bytes) = [97]; decide)

end Gvds.JsonSerializer
