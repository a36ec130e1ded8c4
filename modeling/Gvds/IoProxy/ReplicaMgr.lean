/-
Module: Gvds.IoProxy.ReplicaMgr
Layer: IoProxy
Purpose: The centers of one replicated space (io_proxy/replica_mgr.cc and the read and write cases
  of ProxyOP::do_op). Every center stores a sparse copy of every file. A write is applied locally
  and announced to the peers by a queued rep_update_index request; a peer that hears of it punches
  the pages out of its own copy, and fetches them with rep_sync_data when it needs them again.
  Descriptors are resolved: a path stands for the file that FdManager opens for it.
Imports: Gvds.IoProxy.FileHandler
Trusted boundary: RPCs between centers are reliable; a Submit is applied at the peer when it is sent
Main exports: Space, Centers, syncFiledata, syncUnalignPage, doOpRead, doOpWrite, deliver, step
-/
import Gvds.IoProxy.FileHandler

namespace Gvds.Replica

/-- `uint32_t id = cids[i]`: the `char` of the attribute is sign-extended. -/
def idOfChar (c : UInt8) : Nat := if c.toNat < 128 then c.toNat else 2 ^ 32 - 2 ^ 8 + c.toNat

/-- The replicated space: the value of its `user.gvds.r.c` attribute, one byte for each center and
the same at all of them. -/
structure Space where
  cids : List UInt8

/-- The keys of `ReplicaMgr::ioproxys` that belong to the centers of the space. -/
def Space.ioproxys (sp : Space) : List Nat := sp.cids.map UInt8.toNat

/-- The loop `for (i = 0; i < cids.size(); i++)` over the other centers, as center `mcid` decodes
them. -/
def Space.peers (sp : Space) (mcid : Nat) : List Nat :=
  (sp.cids.map idOfChar).filter fun id => id != mcid

/-- A queued rep_update_index request: the file, the range that was written, and the centers that
the flusher still has to send it to. -/
structure Update (φ : Type*) where
  file : φ
  off : Nat
  len : Nat
  targets : List Nat
deriving DecidableEq

/-- The copies of all files at all centers, and each center's replication queue (`m_new` behind what
the flusher has swapped out of it). -/
structure Centers (φ : Type*) where
  store : Nat → φ → DataFile
  queue : Nat → List (Update φ)

variable {φ : Type*}

/-- Files without contents, and nothing queued. -/
def Centers.empty : Centers φ where
  store := fun _ _ => SparseFile.empty pageSize
  queue := fun _ => []

/-- Replace the replication queue of center `c`. -/
def Centers.setQueue (s : Centers φ) (c : Nat) (q : List (Update φ)) : Centers φ where
  store := s.store
  queue := fun c' => if c' = c then q else s.queue c'

@[simp] theorem Centers.setQueue_store (s : Centers φ) (c : Nat) (q : List (Update φ)) :
    (s.setQueue c q).store = s.store := rfl

@[simp] theorem Centers.setQueue_queue_self (s : Centers φ) (c : Nat) (q : List (Update φ)) :
    (s.setQueue c q).queue c = q := by
  simp [Centers.setQueue]

theorem Centers.setQueue_queue_of_ne {s : Centers φ} {c c' : Nat} {q : List (Update φ)}
    (h : c' ≠ c) : (s.setQueue c q).queue c' = s.queue c' := by
  simp [Centers.setQueue, h]

/-- Putting back the queue that is there changes nothing. -/
@[simp] theorem Centers.setQueue_same (s : Centers φ) (c : Nat) :
    s.setQueue c (s.queue c) = s := by
  cases s with
  | mk store queue =>
      simp only [Centers.setQueue, Centers.mk.injEq, true_and]
      funext c'
      by_cases h : c' = c
      · simp [h]
      · simp [h]

variable [DecidableEq φ]

/-- Replace the copy of file `f` at center `c`. -/
def Centers.setFile (s : Centers φ) (c : Nat) (f : φ) (d : DataFile) : Centers φ where
  store := fun c' f' => if c' = c ∧ f' = f then d else s.store c' f'
  queue := s.queue

@[simp] theorem Centers.setFile_store_self (s : Centers φ) (c : Nat) (f : φ) (d : DataFile) :
    (s.setFile c f d).store c f = d := by
  simp [Centers.setFile]

theorem Centers.setFile_store_of_ne {s : Centers φ} {c c' : Nat} {f f' : φ} {d : DataFile}
    (h : ¬ (c' = c ∧ f' = f)) : (s.setFile c f d).store c' f' = s.store c' f' := by
  simp [Centers.setFile, h]

@[simp] theorem Centers.setFile_queue (s : Centers φ) (c : Nat) (f : φ) (d : DataFile) :
    (s.setFile c f d).queue = s.queue := rfl

/-- Putting back the copy that is there changes nothing. -/
@[simp] theorem Centers.setFile_same (s : Centers φ) (c : Nat) (f : φ) :
    s.setFile c f (s.store c f) = s := by
  cases s with
  | mk store queue =>
      simp only [Centers.setFile, Centers.mk.injEq, and_true]
      funext c' f'
      by_cases h : c' = c ∧ f' = f
      · simp [h]
      · simp [h]

/-- Of two changes of one copy the second one stays. -/
@[simp] theorem Centers.setFile_setFile (s : Centers φ) (c : Nat) (f : φ) (d d' : DataFile) :
    (s.setFile c f d).setFile c f d' = s.setFile c f d' := by
  simp only [Centers.setFile, Centers.mk.injEq, and_true]
  funext c' f'
  by_cases h : c' = c ∧ f' = f
  · simp [h]
  · simp [h]

/-- The answer to a rep_sync_data request: the parameters of the data ranges and their bytes one
after another. -/
structure SyncReply where
  ioParams : List (Nat × Nat)
  data : List UInt8
deriving DecidableEq

/-- `ReplicaMgr::_handle_file_sync_data`. The reply buffer is resized to the requested length first,
which `std::string` refuses from 2^63 on. -/
def handleFileSyncData (g : DataFile) (off len : Nat) : Option SyncReply :=
  if len < 2 ^ 63 then
    (findDataInRange g off (addU64 off len)).map fun ranges =>
      { ioParams := ranges.map fun r => (r.1, (g.read r.1 (r.2 - r.1)).length)
        data := ranges.flatMap fun r => g.read r.1 (r.2 - r.1) }
  else none

/-- The loop of `sync_filedata` that writes a reply into the local file, with its `cursor` into the
data. -/
def applySync (h : DataFile) : List (Nat × Nat) → List UInt8 → DataFile
  | [], _ => h
  | (off, size) :: params, data =>
      applySync (h.pwrite off (data.take size)) params (data.drop size)

/-- One round of the loop over the centers in `sync_filedata`: ask center `id` and write its answer
into the local copy `h`. An ID without a node is a null dereference. -/
def syncFrom (sp : Space) (s : Centers φ) (f : φ) (off len : Nat) (h : DataFile) (id : Nat) :
    Option DataFile :=
  if id ∈ sp.ioproxys then
    (handleFileSyncData (s.store id f) off len).map fun reply =>
      applySync h reply.ioParams reply.data
  else none

/-- `ReplicaMgr::sync_filedata` at center `mcid`. -/
def syncFiledata (sp : Space) (s : Centers φ) (mcid : Nat) (f : φ) (off len : Nat) :
    Option (Centers φ) :=
  match findHolesInRange (s.store mcid f) off (addU64 off len) with
  | none => none
  | some [] => some s
  | some (_ :: _) =>
      ((sp.peers mcid).foldlM (syncFrom sp s f off len) (s.store mcid f)).map fun h =>
        s.setFile mcid f h

/-- `ReplicaMgr::sync_unalign_page`: the first and the last page of the range are fetched where they
are not wholly overwritten. -/
def syncUnalignPage (sp : Space) (s : Centers φ) (mcid : Nat) (f : φ) (off len : Nat) :
    Option (Centers φ) :=
  let pgBg := off / pageSize
  let pgEd := addU64 off len / pageSize
  let first :=
    if off % pageSize ≠ 0 then syncFiledata sp s mcid f (pgBg * pageSize) pageSize else some s
  first.bind fun s =>
    if addU64 off len % pageSize ≠ 0 then syncFiledata sp s mcid f (pgEd * pageSize) pageSize
    else some s

/-- The read case of `ProxyOP::do_op`: the state afterwards and the bytes of the reply, or no bytes
where `pread` refuses a range beyond `loff_t`. `buf->resize` throws from 2^63 on. -/
def doOpRead (sp : Space) (s : Centers φ) (mcid : Nat) (f : φ) (off len : Nat) :
    Option (Centers φ × Option (List UInt8)) :=
  (syncFiledata sp s mcid f off len).bind fun s =>
    if len < 2 ^ 63 then
      some (s, if off + len < 2 ^ 63 then some ((s.store mcid f).read off len) else none)
    else none

/-- The write case of `ProxyOP::do_op` with `handle_replica_async` behind it, for a request whose
data has the announced size. `pwrite` refuses a range beyond `loff_t`; a failed write is not
queued. -/
def doOpWrite (sp : Space) (s : Centers φ) (mcid : Nat) (f : φ) (off : Nat) (data : List UInt8) :
    Option (Centers φ) :=
  (syncUnalignPage sp s mcid f off data.length).bind fun s =>
    if off + data.length < 2 ^ 63 then
      let s := s.setFile mcid f ((s.store mcid f).pwrite off data)
      if sp.cids.length < 2 then some s
      else
        some (s.setQueue mcid (s.queue mcid ++ [⟨f, off, data.length, sp.peers mcid⟩]))
    else some s

/-- `ReplicaMgr::_handle_file_index_update`: what it does to the file. -/
def handleFileIndexUpdate (s : Centers φ) (id : Nat) (u : Update φ) : Centers φ :=
  s.setFile id u.file (punchHoleLocal (s.store id u.file) u.off u.len).1

/-- One step of the flusher of center `mcid`: send the first queued request to its next target, or
drop it when it has been sent to all of them. -/
def deliver (sp : Space) (s : Centers φ) (mcid : Nat) : Option (Centers φ) :=
  match s.queue mcid with
  | [] => none
  | ⟨_, _, _, []⟩ :: rest => some (s.setQueue mcid rest)
  | ⟨f, off, len, id :: ids⟩ :: rest =>
      if id ∈ sp.ioproxys then
        some ((handleFileIndexUpdate s id ⟨f, off, len, id :: ids⟩).setQueue mcid
          (⟨f, off, len, ids⟩ :: rest))
      else none

/-- What can happen next: a client's read or write arrives at a center, or a center's flusher makes
one step. -/
inductive Act (φ : Type*) where
  | read (mcid : Nat) (f : φ) (off len : Nat)
  | write (mcid : Nat) (f : φ) (off : Nat) (data : List UInt8)
  | deliver (mcid : Nat)
deriving DecidableEq

/-- One step of the centers of space `sp`. -/
def step (sp : Space) (s : Centers φ) : Act φ → Option (Centers φ)
  | .read mcid f off len =>
      if mcid ∈ sp.ioproxys then (doOpRead sp s mcid f off len).map Prod.fst else none
  | .write mcid f off data =>
      if mcid ∈ sp.ioproxys then doOpWrite sp s mcid f off data else none
  | .deliver mcid => if mcid ∈ sp.ioproxys then deliver sp s mcid else none

end Gvds.Replica
