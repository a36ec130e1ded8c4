/-
Module: Gvds.Manager.IoProxyMgr
Layer: Manager
Purpose: The IO proxies of a manager (manager/ioproxy_mgr.cc, IOProxyNode of include/gvds_struct.h):
  a table in memory and a document for each proxy, which are changed one after the other, and the
  query by which a manager that starts fills its table.
Imports: Gvds.Lib.Table
Trusted boundary: Couchbase: a call that succeeds sees and changes the documents as they are, a call
  that fails changes nothing; the query, where it succeeds, has one row for each document. JSON is
  read back as it was written
Main exports: IOProxyNode, Store, IOProxyMgr, add, del, Row, Selects, init_ioproxy_list
-/
import Gvds.Lib.Table

namespace Gvds.IOProxyMgr

/-- `IOProxyNode`; the status as the number in its field. -/
structure IOProxyNode where
  rpc_port : Int
  data_port : Int
  ip : String
  name : String
  status : Int
  uuid : String
  cid : String
deriving DecidableEq

/-- `IOProxyNode::Running`. -/
def Running : Int := 0

/-- The documents under the prefix `IOPN-`, by what follows it: each one is that of the proxy with
this uuid. -/
structure Store where
  doc : String → Option IOProxyNode
  keyed : ∀ uuid iop, doc uuid = some iop → iop.uuid = uuid

/-- `CouchbaseDatastore::upsert` of the document of a proxy. -/
def Store.upsert (db : Store) (iop : IOProxyNode) : Store where
  doc := Function.update db.doc iop.uuid (some iop)
  keyed := by
    intro uuid iop' h
    by_cases huuid : uuid = iop.uuid
    · subst huuid
      rw [Function.update_self] at h
      rw [Option.some.inj h]
    · rw [Function.update_of_ne huuid] at h
      exact db.keyed uuid iop' h

/-- Only this document is written. -/
theorem upsert_doc (db : Store) (iop : IOProxyNode) (uuid : String) :
    (db.upsert iop).doc uuid = if uuid = iop.uuid then some iop else db.doc uuid :=
  Function.update_apply ..

/-- `CouchbaseDatastore::remove` of the document of a proxy. -/
def Store.remove (db : Store) (uuid : String) : Store where
  doc := Function.update db.doc uuid none
  keyed := by
    intro uuid' iop h
    by_cases huuid : uuid' = uuid
    · subst huuid
      rw [Function.update_self] at h
      cases h
    · rw [Function.update_of_ne huuid] at h
      exact db.keyed uuid' iop h

/-- Only this document is removed. -/
theorem remove_doc (db : Store) (uuid uuid' : String) :
    (db.remove uuid).doc uuid' = if uuid' = uuid then none else db.doc uuid' :=
  Function.update_apply ..

/-- `IOProxy_MGR` with its part of the bucket. -/
structure IOProxyMgr where
  live_ioproxy : String → Option IOProxyNode
  db : Store

/-- `IOProxy_MGR::add` of the proxy that `parse_request` finds; `stored` is whether the call to the
datastore succeeds. Its error is dropped. -/
def add (s : IOProxyMgr) (iop : IOProxyNode) (stored : Bool) : IOProxyMgr :=
  let iop := { iop with status := Running }
  { live_ioproxy := Function.update s.live_ioproxy iop.uuid (some iop)
    db := if stored then s.db.upsert iop else s.db }

/-- `IOProxy_MGR::del`; `removed` is whether the call to the datastore succeeds. Its error goes into
the response only. -/
def del (s : IOProxyMgr) (uuid : String) (removed : Bool) : IOProxyMgr where
  live_ioproxy := Function.update s.live_ioproxy uuid none
  db := if removed then s.db.remove uuid else s.db

/-- What `init_ioproxy_list` selects of a document: all fields but the status. -/
structure Row where
  uuid : String
  data_port : Int
  ip : String
  name : String
  rpc_port : Int
  cid : String
deriving DecidableEq

/-- The fields of a proxy that are selected. -/
def IOProxyNode.row (iop : IOProxyNode) : Row :=
  ⟨iop.uuid, iop.data_port, iop.ip, iop.name, iop.rpc_port, iop.cid⟩

/-- The rows of a query that succeeds. -/
def Selects (db : Store) (rows : List Row) : Prop :=
  ∀ row, row ∈ rows ↔ ∃ uuid iop, db.doc uuid = some iop ∧ iop.row = row

/-- `IOProxyNode::deserialize_impl`. A row has no status, so that the local variable for it is
stored as it is, which is `s`. -/
def Row.deserialize (s : Row → Int) (row : Row) : IOProxyNode where
  rpc_port := row.rpc_port
  data_port := row.data_port
  ip := row.ip
  name := row.name
  status := s row
  uuid := row.uuid
  cid := row.cid

/-- `IOProxy_MGR::init_ioproxy_list` of a manager that starts with this bucket. -/
def init_ioproxy_list (db : Store) (rows : List Row) (s : Row → Int) : IOProxyMgr where
  live_ioproxy := Table.fill (fun iop => iop.uuid) (rows.map (Row.deserialize s))
  db := db

end Gvds.IOProxyMgr
