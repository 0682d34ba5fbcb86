import CyodaGo.Model.Memory.Factory

/-! # The transaction manager

`txmanager.go` without `Commit` and `Rollback`: the staging helpers, the monotonic
submit-time floor, `Begin`, `Join`, `GetSubmitTime` and the savepoint calls. -/

namespace CyodaGo.Memory

namespace TransactionManager

def empty : TransactionManager := ⟨∅, [], ∅, ∅, ∅, ∅, 0, ∅, 0, ∅, ∅⟩

variable (m : TransactionManager)

def recordUniqueKeys (txID : TxID) (entityID : EntityID) (keys : List UniqueKey) :
    TransactionManager :=
  { m with
    txUniqueKeys := m.txUniqueKeys.set txID ((m.txUniqueKeys.getD txID ∅).set entityID keys) }

/-- A first save of an entity supersedes nothing. -/
def stageSuperseded (txID : TxID) (entityID : EntityID) : Option Entity → TransactionManager
  | none => m
  | some prior =>
    let saves := m.supersededSaves.getD txID ∅
    { m with
      supersededSaves :=
        m.supersededSaves.set txID (saves.set entityID (saves.getD entityID [] ++ [prior])) }

def stageScheduledTaskOp (txID : TxID) (op : ScheduledTaskOp) : TransactionManager :=
  { m with
    scheduledTaskOps := m.scheduledTaskOps.set txID (m.scheduledTaskOps.getD txID [] ++ [op]) }

/-- `max(now, lastSubmitTime + 1µs)`, recorded as the new floor. -/
def nextSubmitTime (now : Time) : Time × TransactionManager :=
  let stamp := if m.lastSubmitTime < now then now else m.lastSubmitTime + microsecond
  (stamp, { m with lastSubmitTime := stamp })

/-- The per-transaction cleanup shared by every end of a transaction. -/
def forget (txID : TxID) : TransactionManager :=
  { m with
    active := m.active.erase txID
    committing := m.committing.erase txID
    savepoints := m.savepoints.del txID
    txUniqueKeys := m.txUniqueKeys.del txID
    txSnapshotSeq := m.txSnapshotSeq.del txID
    supersededSaves := m.supersededSaves.del txID
    scheduledTaskOps := m.scheduledTaskOps.del txID }

end TransactionManager

namespace System

def empty : System := ⟨.empty, .empty, ∅⟩

variable (s : System)

def setTx (txID : TxID) (tx : TransactionState) : System :=
  { s with txs := s.txs.set txID tx }

/-- The tenant gate of every call that names a transaction. -/
def tenantMatches (user : Option TenantID) (tx : TransactionState) : Bool :=
  user == some tx.tenantID

/-- The record `m.active[txID]` points to. -/
def activeTx (txID : TxID) : Option TransactionState :=
  if txID ∈ s.tm.active then s.txs.get txID else none

/-- A fresh transaction, before it is published. -/
def newTransaction (tenant : TenantID) (snapshotTime : Time) : TransactionState where
  tenantID := tenant
  snapshotTime := snapshotTime
  readSet := ∅
  writeSet := ∅
  buffer := ∅
  deletes := ∅
  deleteAttribution := ∅
  rolledBack := false
  closed := false

/-- The `mu` section of `Begin`: the snapshot becomes the new floor, and the current
sequence number is recorded with it. -/
def publish (txID : TxID) (tenant : TenantID) (snapshot : Time) : System :=
  { s with
    tm := { s.tm with
      lastSubmitTime := snapshot
      active := insert txID s.tm.active
      txSnapshotSeq := s.tm.txSnapshotSeq.set txID s.tm.commitSeq }
    txs := s.txs.set txID (newTransaction tenant snapshot) }

/-- `Begin`, with the id drawn from the UUID generator and the clock reading taken
inside its `mu` section. -/
def begin (user : Option TenantID) (txID : TxID) (now : Time) : Outcome TxID × System :=
  match user with
  | none => (.err .noUserContext, s)
  | some tenant =>
    if tenant = "" then (.err .noTenant, s)
    else
      let snapshot := if now < s.tm.lastSubmitTime then s.tm.lastSubmitTime else now
      (.ok txID, s.publish txID tenant snapshot)

def join (user : Option TenantID) (txID : TxID) : Outcome TxID :=
  match s.activeTx txID with
  | none => .err (.tx "Join" .notFound txID)
  | some tx =>
    if tx.rolledBack then .err (.tx "Join" .rolledBack txID)
    else if tx.closed then .err (.tx "Join" .alreadyCommitted txID)
    else if tenantMatches user tx then .ok txID
    else .err (.tx "Join" .tenantMismatch txID)

def getSubmitTime (user : Option TenantID) (txID : TxID) : Outcome Time :=
  match s.activeTx txID with
  | some tx =>
    if tenantMatches user tx then .err (.notYetCommitted txID)
    else .err (.tx "GetSubmitTime" .tenantMismatch txID)
  | none =>
    match s.tm.submitTimes.get txID with
    | some e =>
      if user = some e.tenantID then .ok e.submitTime
      else .err (.tx "GetSubmitTime" .tenantMismatch txID)
    | none => .err (.tx "GetSubmitTime" .notFound txID)

/-! ## Savepoints -/

/-- The lookup and the two flag checks shared by `Savepoint` and
`RollbackToSavepoint`. -/
def openTx (op : String) (user : Option TenantID) (txID : TxID) : Except Err TransactionState :=
  match s.activeTx txID with
  | none => .error (.tx op .notFound txID)
  | some tx =>
    if tenantMatches user tx then
      if tx.rolledBack then .error (.tx op .rolledBack txID)
      else if tx.closed then .error (.tx op .alreadyCommitted txID)
      else .ok tx
    else .error (.tx op .tenantMismatch txID)

def savepoint (user : Option TenantID) (txID : TxID) (spID : SavepointID) :
    Outcome SavepointID × System :=
  match s.openTx "Savepoint" user txID with
  | .error e => (.err e, s)
  | .ok tx =>
    let superseded := s.tm.supersededSaves.getD txID ∅
    let snap : SavepointSnapshot :=
      { buffer := tx.buffer
        readSet := tx.readSet
        writeSet := tx.writeSet
        deletes := tx.deletes
        deleteAttribution := tx.deleteAttribution
        scheduledTaskOpsLen := (s.tm.scheduledTaskOps.getD txID []).length
        supersededLens := superseded.map List.length }
    (.ok spID,
      { s with tm := { s.tm with
          savepoints := s.tm.savepoints.set txID ((s.tm.savepoints.getD txID ∅).set spID snap) } })

/-- The superseded lists cut back to the lengths a savepoint recorded; lists it did
not know are dropped. -/
def truncateSuperseded (lens : GoMap EntityID ℕ) (saves : GoMap EntityID (List Entity)) :
    GoMap EntityID (List Entity) :=
  saves.filterMap fun eid entries => (lens.get eid).map entries.take

/-- `RollbackToSavepoint`. `txUniqueKeys` is not part of the snapshot and stays as it
is. -/
def rollbackToSavepoint (user : Option TenantID) (txID : TxID) (spID : SavepointID) :
    Outcome Unit × System :=
  match s.openTx "RollbackToSavepoint" user txID with
  | .error e => (.err e, s)
  | .ok tx =>
    match (s.tm.savepoints.getD txID ∅).get spID with
    | none => (.err (.savepointNotFound "RollbackToSavepoint" txID spID), s)
    | some snap =>
      let ops := s.tm.scheduledTaskOps.getD txID []
      (.ok (),
        { s with
          tm := { s.tm with
            scheduledTaskOps :=
              if snap.scheduledTaskOpsLen < ops.length then
                s.tm.scheduledTaskOps.set txID (ops.take snap.scheduledTaskOpsLen)
              else s.tm.scheduledTaskOps
            supersededSaves :=
              match s.tm.supersededSaves.get txID with
              | none => s.tm.supersededSaves
              | some saves =>
                s.tm.supersededSaves.set txID (truncateSuperseded snap.supersededLens saves)
            savepoints := s.tm.savepoints.set txID ((s.tm.savepoints.getD txID ∅).del spID) }
          txs := s.txs.set txID { tx with
            buffer := snap.buffer
            readSet := snap.readSet
            writeSet := snap.writeSet
            deletes := snap.deletes
            deleteAttribution := snap.deleteAttribution } })

def releaseSavepoint (user : Option TenantID) (txID : TxID) (spID : SavepointID) :
    Outcome Unit × System :=
  match s.activeTx txID with
  | none => (.err (.tx "ReleaseSavepoint" .notFound txID), s)
  | some tx =>
    if tenantMatches user tx then
      match (s.tm.savepoints.getD txID ∅).get spID with
      | none => (.err (.savepointNotFound "ReleaseSavepoint" txID spID), s)
      | some _ =>
        (.ok (),
          { s with tm := { s.tm with
              savepoints := s.tm.savepoints.set txID ((s.tm.savepoints.getD txID ∅).del spID) } })
    else (.err (.tx "ReleaseSavepoint" .tenantMismatch txID), s)

end System

end CyodaGo.Memory
