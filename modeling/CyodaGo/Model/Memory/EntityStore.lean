import CyodaGo.Model.Memory.TxManager

/-! # Writes of the entity store

`Save`, `CompareAndSave`, `Delete` and `DeleteAll` of `entity_store.go`, and the
staging call of `scheduled_task_store.go`. Inside a transaction a write only touches
the transaction's own record and the manager's staging maps. -/

namespace CyodaGo.Memory

/-- The two flag checks that open every in-transaction call. -/
def txGuard (op : String) (txID : TxID) (tx : TransactionState) : Option Err :=
  if tx.rolledBack then some (.tx op .rolledBack txID)
  else if tx.closed then some (.tx op .alreadyCommitted txID)
  else none

def unstageDelete (tx : TransactionState) (id : EntityID) : TransactionState :=
  { tx with
    deletes := tx.deletes.erase id
    deleteAttribution := tx.deleteAttribution.del id }

def stageDelete (tx : TransactionState) (id : EntityID) (a : WriteAttribution) : TransactionState :=
  { tx with
    deletes := insert id tx.deletes
    buffer := tx.buffer.del id
    writeSet := insert id tx.writeSet
    deleteAttribution := tx.deleteAttribution.set id a }

variable (versions : List EntityVersion)

/-- The transaction id of the newest row, or `""` when there is no entity. -/
def currentTxIDLocked : TxID :=
  match versions.getLast? with
  | none => ""
  | some latest =>
    if latest.deleted then ""
    else
      match latest.entity with
      | none => ""
      | some e => e.info.transactionID

/-- The backward scan of `saveUnlocked`. It tests `deleted` only, so the entity of
the row it stops at is dereferenced unchecked. -/
def nextSaveVersion : Outcome Int :=
  match versions.reverse.find? fun v => !v.deleted with
  | none => .ok 1
  | some v =>
    match v.entity with
    | none => .nilDeref
    | some e => .ok (e.info.version + 1)

/-- The creation date `saveUnlocked` stores: that of the oldest row, dereferenced
unchecked, or the caller's, or the stamp. -/
def saveCreationDate (caller now : Time) : Outcome Time :=
  match versions.head? with
  | some first =>
    match first.entity with
    | none => .nilDeref
    | some e => .ok e.info.creationDate
  | none => .ok (if caller = 0 then now else caller)

/-- The row a direct save appends. -/
def savedVersion (tid : TenantID) (entity : Entity) (version : Int) (now creationDate : Time)
    (changeType : String) : EntityVersion where
  entity := some
    { entity with
      info := { entity.info with
        tenantID := tid
        version := version
        creationDate := creationDate
        lastModifiedDate := now
        changeType := changeType } }
  version := version
  transactionID := entity.info.transactionID
  submitTime := now
  deleted := false
  changeType := changeType
  user := entity.info.changeUser
  changeUserKind := entity.info.changeUserKind
  executor := entity.info.changeExecutor

namespace StoreFactory

/-- What a direct save writes: the row, the index entry and the new claims. -/
def writeSaved (f : StoreFactory) (tid : TenantID) (entity : Entity) (version : Int)
    (now creationDate : Time) (newClaims : List UniqueClaim) : StoreFactory :=
  let eid := entity.info.id
  let versions := f.versions tid eid
  let changeType := deriveChangeType entity.info.changeType (!versions.isEmpty)
  let row := savedVersion tid entity version now creationDate changeType
  let f := f.setVersions tid eid (versions ++ [row])
  let f := f.recordTxIndex tid eid entity.info.transactionID version
  let f := f.releaseClaims tid eid
  f.insertClaims eid tid entity.info.modelRef newClaims

/-- What a direct delete writes: a tombstone with no transaction, and the released
claims. -/
def writeDeleted (f : StoreFactory) (tid : TenantID) (eid : EntityID) (version : Int) (now : Time)
    (a : WriteAttribution) : StoreFactory :=
  let f := f.setVersions tid eid (f.versions tid eid ++ [tombstone version "" now a])
  f.releaseClaims tid eid

end StoreFactory

namespace System

variable (s : System)

/-- Put a copy of `entity`, stamped with the transaction's id, into the buffer; stage
what it overwrites and capture the caller's unique keys. -/
def bufferEntity (txID : TxID) (tx : TransactionState) (entity : Entity) (keys : List UniqueKey) :
    System :=
  let eid := entity.info.id
  let cp : Entity := { entity with info := { entity.info with transactionID := txID } }
  { s with
    tm := (s.tm.stageSuperseded txID eid (tx.buffer.get eid)).recordUniqueKeys txID eid keys
    txs := s.txs.set txID
      { tx with buffer := tx.buffer.set eid cp, writeSet := insert eid tx.writeSet } }

def saveTx (txID : TxID) (tx : TransactionState) (entity : Entity) (keys : List UniqueKey) :
    Outcome Int × System :=
  match txGuard "Save" txID tx with
  | some e => (.err e, s)
  | none => (.ok 0, s.bufferEntity txID (unstageDelete tx entity.info.id) entity keys)

def compareAndSaveTx (tid : TenantID) (txID : TxID) (tx : TransactionState) (entity : Entity)
    (expectedTxID : TxID) (keys : List UniqueKey) : Outcome Int × System :=
  let eid := entity.info.id
  match txGuard "CompareAndSave" txID tx with
  | some e => (.err e, s)
  | none =>
    if eid ∈ tx.deletes then (.err (.casConflict eid), s)
    else
      match tx.buffer.get eid with
      | some buffered =>
        if buffered.info.transactionID ≠ expectedTxID then (.err (.casConflict eid), s)
        else (.ok 0, s.bufferEntity txID tx entity keys)
      | none =>
        if currentTxIDLocked (s.factory.versions tid eid) ≠ expectedTxID then (.err .conflict, s)
        else (.ok 0, s.bufferEntity txID tx entity keys)

/-- Whether a direct save of `eid` collides with a claim held by another entity. -/
def claimTaken (f : StoreFactory) (tid : TenantID) (eid : EntityID) (model : ModelRef)
    (claims : List UniqueClaim) : Bool :=
  claims.any fun c =>
    match f.uniqueClaims.get (StoreFactory.claimKey tid model c) with
    | some holder => holder ≠ eid
    | none => false

def saveUnlocked (spi : Spi) (s : System) (tid : TenantID) (keys : List UniqueKey)
    (entity : Entity) (clock : Time) : Outcome Int × System :=
  let eid := entity.info.id
  match spi.computeClaims keys entity.data with
  | none => (.err .partialUniqueKey, s)
  | some newClaims =>
    if claimTaken s.factory tid eid entity.info.modelRef newClaims then (.err .uniqueViolation, s)
    else
      let versions := s.factory.versions tid eid
      match nextSaveVersion versions with
      | .err e => (.err e, s)
      | .nilDeref => (.nilDeref, s)
      | .ok nextVersion =>
        let stamped := s.tm.nextSubmitTime clock
        match saveCreationDate versions entity.info.creationDate stamped.1 with
        | .err e => (.err e, { s with tm := stamped.2 })
        | .nilDeref => (.nilDeref, { s with tm := stamped.2 })
        | .ok creationDate =>
          let f := s.factory.writeSaved tid entity nextVersion stamped.1 creationDate newClaims
          (.ok nextVersion, { s with factory := f, tm := stamped.2 })

def compareAndSaveDirect (spi : Spi) (s : System) (tid : TenantID) (keys : List UniqueKey)
    (entity : Entity) (expectedTxID : TxID) (clock : Time) : Outcome Int × System :=
  if currentTxIDLocked (s.factory.versions tid entity.info.id) ≠ expectedTxID then
    (.err .conflict, s)
  else s.saveUnlocked spi tid keys entity clock

/-! ## Deletes -/

/-- Whether `Delete` finds a live newest row. -/
def liveNow (versions : List EntityVersion) : Bool :=
  match versions.getLast? with
  | none => false
  | some latest => !latest.deleted

def deleteTx (tid : TenantID) (txID : TxID) (tx : TransactionState) (entityID : EntityID)
    (a : WriteAttribution) : Outcome Unit × System :=
  match txGuard "Delete" txID tx with
  | some e => (.err e, s)
  | none =>
    if entityID ∈ tx.buffer.keys ∨ liveNow (s.factory.versions tid entityID) then
      (.ok (), s.setTx txID (stageDelete tx entityID a))
    else (.err (.notFound entityID), s)

def deleteDirect (tid : TenantID) (entityID : EntityID) (a : WriteAttribution) (clock : Time) :
    Outcome Unit × System :=
  match (s.factory.versions tid entityID).getLast? with
  | none => (.err (.notFound entityID), s)
  | some latest =>
    if latest.deleted then (.err (.notFound entityID), s)
    else
      let stamped := s.tm.nextSubmitTime clock
      match latest.entity with
      | none => (.nilDeref, { s with tm := stamped.2 })
      | some e =>
        let f := s.factory.writeDeleted tid entityID (e.info.version + 1) stamped.1 a
        (.ok (), { s with factory := f, tm := stamped.2 })

/-- The scan loop of `getSnapshotVersion`, `GetAsAt` and
`getAllSnapshotPointersUnlocked`: the entity found so far and whether the last row
passed was a tombstone. It stops at the first row stamped after `snapshotTime`. -/
def scanSnapshot (snapshotTime : Time) :
    Option Entity × Bool → List EntityVersion → Option Entity × Bool
  | acc, [] => acc
  | acc, v :: vs =>
    if v.submitTime ≤ snapshotTime then
      scanSnapshot snapshotTime (if v.deleted then (none, true) else (v.entity, false)) vs
    else acc

def getAllSnapshotPointers (data : GoMap EntityID (List EntityVersion)) (order : List EntityID)
    (modelRef : ModelRef) (snapshotTime : Time) : List Entity :=
  (data.inOrder order).filterMap fun kv =>
    match (scanSnapshot snapshotTime (none, false) kv.2).1 with
    | some found => if found.info.modelRef = modelRef then some found else none
    | none => none

def deleteAllTx (tid : TenantID) (txID : TxID) (tx : TransactionState) (modelRef : ModelRef)
    (a : WriteAttribution) (order : List EntityID) : Outcome Unit × System :=
  match txGuard "DeleteAll" txID tx with
  | some e => (.err e, s)
  | none =>
    let mainEntities :=
      getAllSnapshotPointers (s.factory.tenantData tid) order modelRef tx.snapshotTime
    let tx := mainEntities.foldl (fun tx ent => stageDelete tx ent.info.id a) tx
    let toDelete := tx.buffer.keys.filter fun id =>
      (tx.buffer.get id).any fun ent => ent.info.modelRef = modelRef
    (.ok (), s.setTx txID (toDelete.foldl (fun tx id => stageDelete tx id a) tx))

/-- The sweep of a direct `DeleteAll`, which dereferences the entity of every live
newest row. -/
def deleteAllLoop (tid : TenantID) (modelRef : ModelRef) (now : Time) (a : WriteAttribution) :
    List EntityID → StoreFactory → Outcome Unit × StoreFactory
  | [], f => (.ok (), f)
  | eid :: eids, f =>
    match (f.versions tid eid).getLast? with
    | none => deleteAllLoop tid modelRef now a eids f
    | some latest =>
      if latest.deleted then deleteAllLoop tid modelRef now a eids f
      else
        match latest.entity with
        | none => (.nilDeref, f)
        | some e =>
          if e.info.modelRef = modelRef then
            deleteAllLoop tid modelRef now a eids
              (f.writeDeleted tid eid (e.info.version + 1) now a)
          else deleteAllLoop tid modelRef now a eids f

def deleteAllDirect (tid : TenantID) (modelRef : ModelRef) (a : WriteAttribution) (clock : Time)
    (order : List EntityID) : Outcome Unit × System :=
  let stamped := s.tm.nextSubmitTime clock
  let swept := deleteAllLoop tid modelRef stamped.1 a order s.factory
  (swept.1, { s with factory := swept.2, tm := stamped.2 })

/-! ## Scheduled tasks -/

/-- `scheduledTaskStore.stage` inside a transaction. It tests `RolledBack` only. -/
def stageTx (txID : TxID) (tx : TransactionState) (op : ScheduledTaskOp) : Outcome Unit × System :=
  if tx.rolledBack then (.err (.tx "scheduledTaskStore" .rolledBack txID), s)
  else (.ok (), { s with tm := s.tm.stageScheduledTaskOp txID op })

def stageDirect (op : ScheduledTaskOp) : Outcome Unit × System :=
  (.ok (), { s with factory :=
    { s.factory with scheduledTasks := applyScheduledTaskOp s.factory.scheduledTasks op } })

end System

end CyodaGo.Memory
