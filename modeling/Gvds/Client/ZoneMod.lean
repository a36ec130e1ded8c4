/-
Module: Gvds.Client.ZoneMod
Layer: Client
Purpose: The zones that the client shows (client/zone_mod.cc): the refresh from the answer to
  /zone/info, and how a path leads to a zone, a space and the path behind it.
Imports: Gvds.Manager.Documents, Gvds.Lib.Table
Trusted boundary: JSON is read back as it was written; names have no NUL byte, since both sides
  read them as C strings. A path whose components the source looks at although they are not there
  has no result
Main exports: locateSpace, ZoneInfo, Answer, ClientZone, GetZoneInfo, locatePosition,
  isZoneSpacePath
-/
import Gvds.Manager.Documents
import Gvds.Lib.Table

namespace Gvds.Manager

/-- The loop of `locatePosition` over the spaces of a zone: the last one with the name. -/
def locateSpace (spaceBicInfo : List Space) (name : Bytes) : Option Space :=
  spaceBicInfo.foldl (fun space it => if it.spaceName = name then some it else space) none

end Gvds.Manager

namespace Gvds.ZoneMod

open Manager (Bytes Space locateSpace)

/-- `Zone`, as the manager sends it: with the information on its spaces. -/
structure ZoneInfo extends Manager.Zone where
  spaceBicInfo : List Space
deriving DecidableEq

/-- What `post_request` brings from /zone/info: no answer, which is the empty text; the text `fail`,
which the manager sends when the user has no zone; or a list of zones. -/
inductive Answer where
  | none
  | fail
  | zones (zones : List ZoneInfo)

/-- `ClientZone`. -/
structure ClientZone where
  zonemap : Bytes → Option ZoneInfo
  spaceuuid_to_metadatamap : String → Option Space

/-- What `GetZoneInfo` has in `zoneinfores` after `json_decode`: a text that is no JSON array leaves
it empty. -/
def Answer.zoneinfores : Answer → List ZoneInfo
  | none => []
  | fail => []
  | zones l => l

/-- `ClientZone::GetZoneInfo`. -/
def GetZoneInfo (s : ClientZone) (answer : Answer) : ClientZone × Bool :=
  if answer.zoneinfores = [] then (s, false)
  else
    ({ zonemap := Table.fill (fun it => it.zoneName) answer.zoneinfores
       spaceuuid_to_metadatamap :=
        Table.fill (fun sp => sp.spaceID) (answer.zoneinfores.flatMap ZoneInfo.spaceBicInfo) },
      true)

/-- The separator `/`. -/
def slash : UInt8 := 47

/-- `splitWithStl` with the pattern `/`: what stands between the separators, unless the text is
empty. -/
def splitWithStl (str : Bytes) : List Bytes := if str = [] then [] else str.splitOn slash

/-- `path.find('/', pos)`. -/
def find (path : Bytes) (pos : Nat) : Option Nat :=
  ((path.drop pos).findIdx? (· = slash)).map (· + pos)

/-- The loop of `splitWithStl` over the text with a separator behind it, for so many rounds. -/
def splitRounds : Nat → Bytes → List Bytes
  | 0, _ => []
  | rounds + 1, strs =>
      match find strs 0 with
      | none => []
      | some pos => strs.take pos :: splitRounds rounds (strs.drop (pos + 1))

/-- The remote path that `locatePosition` cuts off behind the second component. Where the first
search finds nothing, the second one begins at the front. -/
def remotepath (path : Bytes) : Bytes :=
  let pos := match find path 1 with
    | none => find path 0
    | some pos => find path (pos + 1)
  match pos with
  | none => [slash]
  | some pos => path.drop pos

/-- `ClientZone::locatePosition`. -/
def locatePosition (s : ClientZone) (path : Bytes) :
    Option (Option ZoneInfo × Option Space × Bytes) :=
  match splitWithStl path with
  | _ :: zonename :: spacename :: _ =>
      match s.zonemap zonename with
      | some zone => some (some zone, locateSpace zone.spaceBicInfo spacename, remotepath path)
      | none => some (none, none, remotepath path)
  | _ => none

/-- `-ENOENT`. -/
def noEntry : Int := -2

/-- `ClientZone::isZoneSpacePath`: 0 for the root, 1 for a zone, 2 for a space, 3 for what is
below. -/
def isZoneSpacePath (s : ClientZone) (path : Bytes) : Option Int :=
  if path = [slash] then some 0
  else
    match splitWithStl path with
    | _ :: zonename :: rest =>
        match s.zonemap zonename, rest with
        | none, _ => some noEntry
        | some _, [] => some 1
        | some _, [_] => some 2
        | some _, _ => some 3
    | _ => none

end Gvds.ZoneMod
