/-
Module: Gvds.IoProxy.SpaceScan
Layer: IoProxy
Purpose: How a center reads a space that it is to replicate (io_proxy/replica_mgr.cc, proxy_op.cc):
  get_attr, and the loop of _replicate_space_request with its stack of directories. Both see the
  file system through stat and opendir, which follow symbolic links.
Imports: Gvds.Lib.LinkTree, Gvds.IoProxy.ProxyProcess
Trusted boundary: Linux; the proxy runs as root, nobody changes the data directory during the scan,
  and there are directories, regular files and symbolic links. No path is too long, and a descriptor
  is free. data_path leads to its directory through no link. Modes and times are left out
Main exports: maxLinks, Space, Space.stat, Space.readdir, get_attr, Scan, scanRound,
  _replicate_space_request
-/
import Gvds.Lib.LinkTree
import Gvds.IoProxy.ProxyProcess

namespace Gvds.SpaceScan

open DataDirectory (NodeType)
open ProxyProcess (Attr)

/-- So many links the kernel follows along one path, before it gives up with `ELOOP`. -/
def maxLinks : Nat := 40

/-- A file system, the data directory of the proxy in it, and a directory there that is a space.
Further paths are relative to the data directory. -/
structure Space where
  tree : LinkTree
  data_path : PathName
  name : String
  is_dir : tree.node (name :: data_path) = some .dir

namespace Space

variable (s : Space)

/-- The path of the space. -/
def path : PathName := [s.name]

/-- The location that `data_path / path` leads to. -/
def locate (path : PathName) : Option PathName := s.tree.walk maxLinks s.data_path path.reverse

/-- `stat(2)`. -/
def stat (path : PathName) : Option LinkNode := (s.locate path).bind s.tree.node

/-- `opendir(2)` with the names that `readdir(3)` returns. -/
def readdir (path : PathName) : Option (List String) :=
  (s.locate path).bind fun loc =>
    if s.tree.node loc = some .dir then some ("." :: ".." :: s.tree.names loc) else none

end Space

/-- `ProxyOP::get_attr`, where it returns 0. Nobody reads the size of a directory. -/
def get_attr (s : Space) (path : PathName) : Option Attr :=
  match s.stat path with
  | none => none
  | some .dir => some ⟨.directory, 0⟩
  | some (.file size) => some ⟨.regularFile, size⟩
  | some (.link _) => some ⟨.link, 0⟩

/-- The stack `dirs`, its top first, and `dir_entries` with their names. Not in the source is
`taken`: the directories that have been taken off the stack. -/
structure Scan where
  dirs : List PathName
  entries : List (PathName × Attr)
  taken : List PathName

/-- What has been put on the stack so far: it is still there, or has been taken off. -/
def Scan.pushed (st : Scan) : List PathName := st.taken ++ st.dirs

/-- One round of the inner loop. -/
def scanEntry (s : Space) (cur_dir : PathName) (st : Scan) (filename : String) : Scan :=
  if filename = "." ∨ filename = ".." then st
  else
    match get_attr s (filename :: cur_dir) with
    | none => st
    | some attr =>
        { st with
          dirs := if attr.type = .directory then (filename :: cur_dir) :: st.dirs else st.dirs
          entries := st.entries ++ [(filename :: cur_dir, attr)] }

/-- The inner loop, if the directory can be opened and read. -/
def scanDir (s : Space) (cur_dir : PathName) (st : Scan) : Scan :=
  match s.readdir cur_dir with
  | none => st
  | some filenames => filenames.foldl (scanEntry s cur_dir) st

/-- One round of the outer loop. -/
def scanRound (s : Space) (st : Scan) : Scan :=
  match st.dirs with
  | [] => st
  | cur_dir :: dirs => scanDir s cur_dir { st with dirs := dirs, taken := st.taken ++ [cur_dir] }

/-- `ReplicaMgr::_replicate_space_request`, up to so many rounds. -/
def _replicate_space_request (s : Space) (rounds : Nat) : Scan :=
  (scanRound s)^[rounds] ⟨[s.path], [], []⟩

end Gvds.SpaceScan
