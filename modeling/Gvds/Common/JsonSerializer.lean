/-
Module: Gvds.Common.JsonSerializer
Layer: Common
Purpose: JsonSerializer and json_encode, json_decode (common/JsonSerializer.h, .cc, common/json.h):
  values of strings, integers, booleans, vectors, maps, shared pointers and classes, as JSON text
  and back into an object that exists. With the classes Space, Zone, ZoneRequest
  (include/gvds_struct.h), CenterInfo (common/centerinfo.h) and StorageResource
  (include/aggregation_struct.h).
Imports: Gvds.Lib.JsonText, Gvds.Lib.SortedMap
Trusted boundary: rapidjson writes and parses standard JSON and leaves the bytes of a string as they
  are, which is a parameter. A function that ends without a return statement returns, and nobody
  looks at what. The pointers in an object point to different objects. Floating point numbers are
  left out
Main exports: Rapidjson, cstr, Ty, Members, Val, encode, decode, json_encode, json_decode,
  JsonClass, serialize, deserialize, Space, Zone, ZoneRequest, CenterInfo, StorageResource
-/
import Gvds.Lib.JsonText
import Gvds.Lib.SortedMap

namespace Gvds.JsonSerializer

open JsonText (Json)

/-- The bytes of a `std::string`. -/
abbrev Bytes := List UInt8

/-- The order of the bytes, in which a map keeps its keys. -/
instance : Trans (fun a b : Bytes => a < b) (fun a b : Bytes => a < b)
    (fun a b : Bytes => a < b) := inferInstance

/-- What `c_str` and `GetString` give away: the bytes before the first null byte. -/
def cstr (s : Bytes) : Bytes := s.takeWhile (· ≠ 0)

/-- rapidjson. The writer's calls as the texts that they put out, where those of an array and an
object are given the texts of their values, and its parser. `Denotes` says for which value a text
stands in JSON: what the writer puts out stands for what it is given, no such text has a null byte,
and the parser finds the value. -/
structure Rapidjson where
  string : Bytes → Bytes
  int : Int → Bytes
  bool : Bool → Bytes
  array : List Bytes → Bytes
  object : List (Bytes × Bytes) → Bytes
  parse : Bytes → Option Json
  Denotes : Bytes → Json → Prop
  string_denotes : ∀ s, Denotes (string s) (.str s)
  int_denotes : ∀ n, -2 ^ 63 ≤ n → n < 2 ^ 64 → Denotes (int n) (.int n)
  bool_denotes : ∀ b, Denotes (bool b) (.bool b)
  array_denotes : ∀ l : List (Bytes × Json), (∀ e ∈ l, Denotes e.1 e.2) →
    Denotes (array (l.map Prod.fst)) (.arr (l.map Prod.snd))
  object_denotes : ∀ l : List (Bytes × Bytes × Json), (∀ e ∈ l, Denotes e.2.1 e.2.2) →
    Denotes (object (l.map fun e => (e.1, e.2.1))) (.obj (l.map fun e => (e.1, e.2.2)))
  no_null : ∀ text j, Denotes text j → 0 ∉ text
  parse_eq : ∀ text j, Denotes text j → parse text = some j

/-! ### Types and values -/

mutual

/-- The types of values. A class has members that it always puts, and members that it puts and gets
only if its flag is set, such as `contains_spaceinfo`. -/
inductive Ty where
  | string
  | unsigned
  | int
  | int64
  | uint64
  | bool
  | vector (V : Ty)
  | map (V : Ty)
  | shared_ptr (V : Ty)
  | object (always whenSet : Members)

/-- The members of a class with their keys, in the order in which they are put. -/
inductive Members where
  | nil
  | cons (key : Bytes) (T : Ty) (rest : Members)

end

/-- An object of a class: its members, its flag, and the members that depend on the flag. -/
structure Object (α β : Type) where
  always : α
  flag : Bool
  whenSet : β

mutual

/-- The values of a type. -/
def Val : Ty → Type
  | .string => Bytes
  | .unsigned => UInt32
  | .int => Int32
  | .int64 => Int64
  | .uint64 => UInt64
  | .bool => Bool
  | .vector V => List (Val V)
  | .map V => SortedMap Bytes (Val V)
  | .shared_ptr V => Option (Val V)
  | .object always whenSet => Object (Vals always) (Vals whenSet)

/-- The values of some members. -/
def Vals : Members → Type
  | .nil => Unit
  | .cons _ T rest => Val T × Vals rest

end

mutual

/-- What a declaration or `make_shared` makes. The constructor sets the flag. -/
def fresh : (T : Ty) → Val T
  | .string => ([] : Bytes)
  | .unsigned => (0 : UInt32)
  | .int => (0 : Int32)
  | .int64 => (0 : Int64)
  | .uint64 => (0 : UInt64)
  | .bool => false
  | .vector V => ([] : List (Val V))
  | .map V => (SortedMap.empty : SortedMap Bytes (Val V))
  | .shared_ptr V => (none : Option (Val V))
  | .object always whenSet =>
      (⟨freshMembers always, true, freshMembers whenSet⟩ : Object (Vals always) (Vals whenSet))

/-- The members of a new object. -/
def freshMembers : (M : Members) → Vals M
  | .nil => ()
  | .cons _ T rest => (fresh T, freshMembers rest)

end

/-! ### Encoding -/

section Encode

variable (rj : Rapidjson)

mutual

/-- `JsonSerializer::encode`. An object is serialized with a writer of its own, and its text is put
in as it is; a null pointer is put as 0. -/
def encode : (T : Ty) → Val T → Bytes
  | .string, s => rj.string s
  | .unsigned, n => rj.int (UInt32.toNat n)
  | .int, n => rj.int (Int32.toInt n)
  | .int64, n => rj.int (Int64.toInt n)
  | .uint64, n => rj.int (UInt64.toNat n)
  | .bool, b => rj.bool b
  | .vector V, l => rj.array (List.map (encode V) l)
  | .map V, m => rj.object (List.map (fun e => (cstr e.1, encode V e.2)) (SortedMap.entries m))
  | .shared_ptr V, some v => encode V v
  | .shared_ptr _, none => rj.int 0
  | .object always whenSet, v =>
      cstr (rj.object (serialize_impl always (Object.always v) ++
        if Object.flag v then serialize_impl whenSet (Object.whenSet v) else []))

/-- The calls of `put`: the key and the text of each member. -/
def serialize_impl : (M : Members) → Vals M → List (Bytes × Bytes)
  | .nil, _ => []
  | .cons key T rest, vs => (cstr key, encode T (Prod.fst vs)) :: serialize_impl rest (Prod.snd vs)

end

end Encode

/-! ### Decoding -/

/-- A number that is an integer in a range, as `IsUint`, `IsInt`, `IsInt64` and `IsUint64` ask. -/
def asInt (lo hi : Int) : Json → Option Int
  | .int n => if lo ≤ n ∧ n < hi then some n else none
  | _ => none

mutual

/-- `JsonSerializer::decode`: the object that is there, afterwards. A value of another type leaves
it as it is. There is no result where an assertion fails or the int that counts the elements of an
array overflows. -/
def decode : (T : Ty) → Json → Val T → Option (Val T)
  | .string, j, dest =>
      match j with
      | .str s => some (cstr s)
      | _ => some dest
  | .unsigned, j, dest =>
      some (((asInt 0 (2 ^ 32) j).map fun n => UInt32.ofNat n.toNat).getD dest)
  | .int, j, dest => some (((asInt (-2 ^ 31) (2 ^ 31) j).map Int32.ofInt).getD dest)
  | .int64, j, dest => some (((asInt (-2 ^ 63) (2 ^ 63) j).map Int64.ofInt).getD dest)
  | .uint64, j, dest =>
      some (((asInt 0 (2 ^ 64) j).map fun n => UInt64.ofNat n.toNat).getD dest)
  | .bool, j, dest =>
      match j with
      | .bool b => some b
      | _ => some dest
  | .vector V, j, dest =>
      match j with
      | .arr l =>
          if l.length < 2 ^ 31 then List.mapM (fun x => decode V x (fresh V)) l else none
      | _ => some dest
  | .map V, j, dest =>
      match j with
      | .obj l =>
          List.foldlM (fun (tmp : SortedMap Bytes (Val V)) itr =>
            (decode V itr.2 ((tmp.find (cstr itr.1)).getD (fresh V))).map
              (tmp.insert (cstr itr.1))) SortedMap.empty l
      | _ => some dest
  | .shared_ptr V, j, dest => (decode V j (Option.getD dest (fresh V))).map some
  | .object always whenSet, j, dest =>
      match j with
      | .obj l =>
          (deserialize_impl always l (Object.always dest)).bind fun always' =>
            if Object.flag dest then
              (deserialize_impl whenSet l (Object.whenSet dest)).map fun whenSet' =>
                { always := always', flag := true, whenSet := whenSet' }
            else some { always := always', flag := false, whenSet := Object.whenSet dest }
      | _ => none

/-- The calls of `get`: a member whose key is not there stays as it is. -/
def deserialize_impl : (M : Members) → List (Bytes × Json) → Vals M → Option (Vals M)
  | .nil, _, _ => some ()
  | .cons key T rest, l, dest =>
      (match List.find? (fun member : Bytes × Json => member.1 = cstr key) l with
        | some member => decode T member.2 (Prod.fst dest)
        | none => some (Prod.fst dest)).bind fun v =>
      (deserialize_impl rest l (Prod.snd dest)).map fun vs => (v, vs)

end

/-! ### Whole texts -/

mutual

/-- All keys, as they are put, are different in each class of the type. -/
def Ty.wellKeyed : Ty → Bool
  | .vector V => V.wellKeyed
  | .map V => V.wellKeyed
  | .shared_ptr V => V.wellKeyed
  | .object always whenSet =>
      decide ((always.keys ++ whenSet.keys).Nodup) && always.wellKeyed && whenSet.wellKeyed
  | _ => true

/-- The keys of the members, as they are put. -/
def Members.keys : Members → List Bytes
  | .nil => []
  | .cons key _ rest => cstr key :: rest.keys

/-- The same of the types of the members. -/
def Members.wellKeyed : Members → Bool
  | .nil => true
  | .cons _ T rest => T.wellKeyed && rest.wellKeyed

end

/-- A type whose classes have different keys. -/
structure JsonType where
  ty : Ty
  wellKeyed : ty.wellKeyed = true

/-- A class, with its calls of `put`, which are also those of `get`. -/
structure JsonClass where
  always : Members
  whenSet : Members
  wellKeyed : (Ty.object always whenSet).wellKeyed = true

/-- The type of the objects of a class. -/
def JsonClass.ty (c : JsonClass) : Ty := .object c.always c.whenSet

section Texts

variable (rj : Rapidjson)

/-- `json_encode`. The result is taken from `GetString`. -/
def json_encode (T : Ty) (value : Val T) : Bytes := cstr (encode rj T value)

/-- `json_decode`. A text that is no JSON is parsed as null. -/
def json_decode (T : Ty) (json_string : Bytes) (dest : Val T) : Option (Val T) :=
  decode T ((rj.parse (cstr json_string)).getD .null) dest

/-- `JsonSerializer::serialize`. -/
def serialize (c : JsonClass) (value : Val c.ty) : Bytes := encode rj c.ty value

/-- `JsonSerializer::deserialize` of a text: what is no object is not looked at. -/
def deserialize (c : JsonClass) (jsonString : Bytes) (dest : Val c.ty) : Option (Val c.ty) :=
  match rj.parse (cstr jsonString) with
  | some (.obj l) => decode c.ty (.obj l) dest
  | _ => some dest

end Texts

/-! ### Classes -/

/-- The bytes of a literal. -/
def key (text : String) : Bytes := text.toUTF8.data.toList

/-- The members with these keys and types. -/
def members : List (String × Ty) → Members
  | [] => .nil
  | (k, T) :: rest => .cons (key k) T (members rest)

/-- What `Space` puts. -/
def spaceMembers : Members := members
  [("UUID", .string), ("name", .string), ("capcity", .int64), ("SC_UUID", .string),
    ("Storage_UUID", .string), ("root_location", .string), ("hostCenterName", .string),
    ("storageSrcName", .string), ("Status", .bool), ("replica_spaces", .vector .string)]

theorem spaceMembers_wellKeyed : (Ty.object spaceMembers .nil).wellKeyed = true := by decide

/-- `Space`. -/
def Space : JsonClass := ⟨spaceMembers, .nil, spaceMembers_wellKeyed⟩

/-- What `Zone` puts in any case. -/
def zoneMembers : Members := members
  [("UUID", .string), ("name", .string), ("owner", .string), ("members", .vector .string),
    ("spaces", .vector .string)]

/-- What `Zone` puts if `contains_spaceinfo` is set. -/
def zoneSpaceinfo : Members := members
  [("spaceinfo", .vector (.shared_ptr Space.ty)), ("ownerAuth", .int), ("groupAuth", .int),
    ("otherAuth", .int)]

theorem zoneMembers_wellKeyed : (Ty.object zoneMembers zoneSpaceinfo).wellKeyed = true := by decide

/-- `Zone`, whose flag is `contains_spaceinfo`. -/
def Zone : JsonClass := ⟨zoneMembers, zoneSpaceinfo, zoneMembers_wellKeyed⟩

/-- What `ZoneRequest` puts. -/
def zoneRequestMembers : Members := members
  [("UUID", .string), ("clientID", .string), ("memberID", .vector .string),
    ("spaceID", .vector .string), ("ownerID", .string), ("ZoneName", .string),
    ("newZoneName", .string), ("spaceSize", .int64), ("spaceName", .string),
    ("spacePathInfo", .string)]

theorem zoneRequestMembers_wellKeyed : (Ty.object zoneRequestMembers .nil).wellKeyed = true := by
  decide

/-- `ZoneRequest`. -/
def ZoneRequest : JsonClass := ⟨zoneRequestMembers, .nil, zoneRequestMembers_wellKeyed⟩

/-- What `CenterInfo` puts. -/
def centerInfoMembers : Members := members
  [("centerID", .vector .string), ("centerIP", .map .string), ("centerPort", .map .string),
    ("centerName", .map .string)]

theorem centerInfoMembers_wellKeyed : (Ty.object centerInfoMembers .nil).wellKeyed = true := by
  decide

/-- `CenterInfo`. -/
def CenterInfo : JsonClass := ⟨centerInfoMembers, .nil, centerInfoMembers_wellKeyed⟩

/-- What `StorageResource` puts. Its state is put and got as an `int`. -/
def storageResourceMembers : Members := members
  [("storage_src_id", .string), ("storage_src_name", .string), ("host_center_id", .string),
    ("host_center_name", .string), ("total_capacity", .int64), ("assign_capacity", .int64),
    ("mgs_address", .string), ("state", .int)]

theorem storageResourceMembers_wellKeyed :
    (Ty.object storageResourceMembers .nil).wellKeyed = true := by decide

/-- `StorageResource`. -/
def StorageResource : JsonClass := ⟨storageResourceMembers, .nil, storageResourceMembers_wellKeyed⟩

end Gvds.JsonSerializer
