/-
Module: Gvds.Client.PathLookups
Layer: Client
Purpose: The elements of the split path that the FUSE callbacks (client/gvds_fuse_impl.cc) look at
  through `isZoneSpacePath` and `locatePosition`. Every callback of `gvdsfs_oper` that gets a path
  has its entry, with the test that it makes before it looks the path up, or without one.
Imports: Gvds.Client.ZoneMod
Trusted boundary: as Gvds.Client.ZoneMod; paths come from the kernel and are absolute
Main exports: FusePath, Access, InRange, Callback, accesses
-/
import Gvds.Client.ZoneMod

namespace Gvds.ZoneMod

open Manager (Bytes)

/-- A path as FUSE passes it. -/
structure FusePath where
  path : Bytes
  absolute : path.head? = some slash

/-- `namev[i]`, where `namev` is what `splitWithStl` makes of the path. -/
structure Access where
  path : Bytes
  i : Nat
deriving DecidableEq

/-- The access is within the vector. -/
def Access.InRange (a : Access) : Prop := a.i < (splitWithStl a.path).length

instance (a : Access) : Decidable a.InRange := inferInstanceAs (Decidable (_ < _))

/-- What `isZoneSpacePath` looks at. -/
def isZoneSpacePathAccesses (path : Bytes) : List Access :=
  if path = [slash] then []
  else if 2 ≤ (splitWithStl path).length then [⟨path, 1⟩]
  else []

/-- What `locatePosition` looks at: both components at first, and the second one again for every
space of the zone. -/
def locatePositionAccesses (s : ClientZone) (path : Bytes) : List Access :=
  ⟨path, 1⟩ :: ⟨path, 2⟩ ::
    match locatePosition s path with
    | some (some zone, _, _) => zone.spaceBicInfo.map fun _ => ⟨path, 2⟩
    | _ => []

/-- `get_mapping` begins with `locatePosition`. -/
def get_mappingAccesses (s : ClientZone) (path : Bytes) : List Access :=
  locatePositionAccesses s path

/-- So does `set_force_mapping`. -/
def set_force_mappingAccesses (s : ClientZone) (path : Bytes) : List Access :=
  locatePositionAccesses s path

/-! ### The tests before a lookup -/

/-- A callback that asks `isZoneSpacePath` and goes on for a space and what is below. -/
def belowZone (s : ClientZone) (path : Bytes) (next : List Access) : List Access :=
  isZoneSpacePathAccesses path ++
    match isZoneSpacePath s path with
    | some zs_res => if zs_res < 2 then [] else next
    | none => []

/-- A callback that returns if `namev.size() <= 3`. -/
def belowSpace (path : Bytes) (next : List Access) : List Access :=
  if (splitWithStl path).length ≤ 3 then [] else next

/-! ### The callbacks -/

def gvdsfs_getattr (s : ClientZone) (path : Bytes) : List Access :=
  belowZone s path (get_mappingAccesses s path)

def gvdsfs_readdir (s : ClientZone) (path : Bytes) : List Access :=
  belowZone s path (get_mappingAccesses s path)

def gvdsfs_open (s : ClientZone) (path : Bytes) : List Access :=
  belowZone s path (get_mappingAccesses s path)

def gvdsfs_access (s : ClientZone) (path : Bytes) : List Access :=
  belowZone s path (get_mappingAccesses s path)

def gvdsfs_read (s : ClientZone) (path : Bytes) : List Access := get_mappingAccesses s path

def gvdsfs_write (s : ClientZone) (path : Bytes) : List Access := get_mappingAccesses s path

def gvdsfs_truncate (s : ClientZone) (path : Bytes) : List Access := get_mappingAccesses s path

def gvdsfs_unlink (s : ClientZone) (path : Bytes) : List Access := get_mappingAccesses s path

def gvdsfs_mkdir (s : ClientZone) (path : Bytes) : List Access :=
  belowSpace path (get_mappingAccesses s path)

def gvdsfs_rmdir (s : ClientZone) (path : Bytes) : List Access :=
  belowSpace path (get_mappingAccesses s path)

/-- The test is for the old path only. -/
def gvdsfs_rename (s : ClientZone) (path newpath : Bytes) : List Access :=
  belowSpace path (get_mappingAccesses s path ++ get_mappingAccesses s newpath)

def gvdsfs_chmod (s : ClientZone) (path : Bytes) : List Access :=
  belowSpace path (get_mappingAccesses s path)

def gvdsfs_chown (s : ClientZone) (path : Bytes) : List Access :=
  belowSpace path (get_mappingAccesses s path)

def gvdsfs_create (s : ClientZone) (path : Bytes) : List Access :=
  belowSpace path (get_mappingAccesses s path)

def gvdsfs_utimens (s : ClientZone) (path : Bytes) : List Access :=
  belowSpace path (get_mappingAccesses s path)

/-- One name is for the client itself, and leads to `set_force_mapping`. -/
def gvdsfs_setxattr (s : ClientZone) (path : Bytes) (name : String) : List Access :=
  belowSpace path <|
    if name = "user.gvds.visit.force" then set_force_mappingAccesses s path
    else get_mappingAccesses s path

def gvdsfs_getxattr (s : ClientZone) (path : Bytes) : List Access :=
  belowSpace path (get_mappingAccesses s path)

def gvdsfs_listxattr (s : ClientZone) (path : Bytes) : List Access :=
  belowSpace path (get_mappingAccesses s path)

def gvdsfs_removexattr (s : ClientZone) (path : Bytes) : List Access :=
  belowSpace path (get_mappingAccesses s path)

/-- A callback that returns without a look at its path: readlink, mknod, symlink, link, statfs,
flush, release, fsync, opendir, releasedir. -/
def gvdsfs_nothing : List Access := []

/-- The entries of `gvdsfs_oper` that get a path, with the arguments that decide on lookups. -/
inductive Callback where
  | getattr (path : FusePath)
  | readlink (path : FusePath)
  | mknod (path : FusePath)
  | mkdir (path : FusePath)
  | unlink (path : FusePath)
  | rmdir (path : FusePath)
  | symlink (path newpath : FusePath)
  | rename (path newpath : FusePath)
  | link (path newpath : FusePath)
  | chmod (path : FusePath)
  | chown (path : FusePath)
  | truncate (path : FusePath)
  | open (path : FusePath)
  | read (path : FusePath)
  | write (path : FusePath)
  | statfs (path : FusePath)
  | flush (path : FusePath)
  | release (path : FusePath)
  | fsync (path : FusePath)
  | setxattr (path : FusePath) (name : String)
  | getxattr (path : FusePath)
  | listxattr (path : FusePath)
  | removexattr (path : FusePath)
  | opendir (path : FusePath)
  | readdir (path : FusePath)
  | releasedir (path : FusePath)
  | access (path : FusePath)
  | create (path : FusePath)
  | utimens (path : FusePath)

/-- The elements that a callback looks at in `isZoneSpacePath` and `locatePosition`, in order. -/
def Callback.accesses (s : ClientZone) : Callback → List Access
  | .getattr p => gvdsfs_getattr s p.path
  | .readlink _ | .mknod _ | .symlink _ _ | .link _ _ => gvdsfs_nothing
  | .mkdir p => gvdsfs_mkdir s p.path
  | .unlink p => gvdsfs_unlink s p.path
  | .rmdir p => gvdsfs_rmdir s p.path
  | .rename p newpath => gvdsfs_rename s p.path newpath.path
  | .chmod p => gvdsfs_chmod s p.path
  | .chown p => gvdsfs_chown s p.path
  | .truncate p => gvdsfs_truncate s p.path
  | .open p => gvdsfs_open s p.path
  | .read p => gvdsfs_read s p.path
  | .write p => gvdsfs_write s p.path
  | .statfs _ | .flush _ | .release _ | .fsync _ | .opendir _ | .releasedir _ => gvdsfs_nothing
  | .setxattr p name => gvdsfs_setxattr s p.path name
  | .getxattr p => gvdsfs_getxattr s p.path
  | .listxattr p => gvdsfs_listxattr s p.path
  | .removexattr p => gvdsfs_removexattr s p.path
  | .readdir p => gvdsfs_readdir s p.path
  | .access p => gvdsfs_access s p.path
  | .create p => gvdsfs_create s p.path
  | .utimens p => gvdsfs_utimens s p.path

end Gvds.ZoneMod
