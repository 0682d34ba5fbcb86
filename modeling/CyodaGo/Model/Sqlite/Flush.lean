import CyodaGo.Model.Memory.Types

/-! # The flush of a transaction to SQLite

`flushToSQLite` runs in one SQL transaction, which is rolled back on every error. Times are in
microseconds. The loops over the transaction's maps receive the order in which they visit the
keys. -/

namespace CyodaGo.SqliteTx

open Memory

/-! ## Tables -/

structure EntityRow where
  modelRef : ModelRef
  version : Int
  data : List UInt8
  info : EntityMeta
  deleted : Bool
  createdAt : Int
  updatedAt : Int
  deriving DecidableEq

inductive RowMeta where
  | entity (info : EntityMeta)
  | tombstone (changeUserKind : String) (executor : Principal)
  deriving DecidableEq

structure VersionRow where
  modelRef : ModelRef
  data : Option (List UInt8)
  info : RowMeta
  changeType : String
  transactionID : TxID
  submitTime : Int
  userID : String
  deriving DecidableEq

structure ClaimRow where
  tenantID : TenantID
  modelName : String
  modelVersion : String
  keyID : String
  signature : String
  entityID : EntityID
  deriving DecidableEq

/-- The columns of `unique_claims_uq`. -/
def ClaimRow.value (c : ClaimRow) : ClaimKey :=
  ⟨c.tenantID, c.modelName, c.modelVersion, c.keyID, c.signature⟩

def ClaimRow.owner (c : ClaimRow) : EntityTenantKey := ⟨c.tenantID, c.entityID⟩

/-- Each map is a table under its primary key; `(tenant_id, entity_id, key_id)` is the one of
`claims`. -/
structure Database where
  entities : GoMap (TenantID × EntityID) EntityRow
  versions : GoMap (TenantID × EntityID × Int) VersionRow
  claims : List ClaimRow
  submitTimes : GoMap TxID (TenantID × Int)
  scheduledTasks : GoMap String ScheduledTask

/-- A transaction as it is flushed, with what the manager has staged for it. An entity is buffered
under its own identifier. -/
structure TransactionState where
  id : TxID
  tenantID : TenantID
  buffer : GoMap EntityID Entity
  deletes : Finset EntityID
  deleteAttribution : GoMap EntityID WriteAttribution
  uniqueKeys : GoMap EntityID (List UniqueKey)
  superseded : GoMap EntityID (List Entity)
  scheduledOps : List ScheduledTaskOp
  buffered : ∀ id e, buffer.get id = some e → e.info.id = id

inductive FlushError where
  | versionTaken (id : EntityID)
  | partialUniqueKey (id : EntityID)
  | uniqueViolation
  | claimKeyTaken
  deriving DecidableEq

/-! ## Claims -/

def insertClaim (claims : List ClaimRow) (c : ClaimRow) : Except FlushError (List ClaimRow) :=
  if claims.any fun c' => c'.owner = c.owner ∧ c'.keyID = c.keyID then .error .claimKeyTaken
  else if claims.any fun c' => c'.value = c.value then .error .uniqueViolation
  else .ok (claims ++ [c])

def releaseClaims (tid : TenantID) (claims : List ClaimRow) (entityID : EntityID) : List ClaimRow :=
  claims.filter fun c => c.owner ≠ ⟨tid, entityID⟩

def claimRow (tid : TenantID) (e : Entity) (c : UniqueClaim) : ClaimRow :=
  ⟨tid, e.info.modelRef.entityName, e.info.modelRef.modelVersion, c.keyID, c.signature, e.info.id⟩

/-- Nothing is done when no keys are declared. -/
def replaceClaims (spi : Spi) (tid : TenantID) (e : Entity) (keys : List UniqueKey)
    (claims : List ClaimRow) : Except FlushError (List ClaimRow) :=
  if keys.isEmpty then .ok claims
  else
    match spi.computeClaims keys e.data with
    | none => .error (.partialUniqueKey e.info.id)
    | some cs => (cs.map (claimRow tid e)).foldlM insertClaim (releaseClaims tid claims e.info.id)

/-! ## Entities -/

def deriveChangeType (caller : String) (isNew : Bool) : String :=
  if isNew then "CREATED" else if caller ≠ "" ∧ caller ≠ "CREATED" then caller else "UPDATED"

namespace TransactionState

variable (tx : TransactionState) (submitTime : Int)

/-- The staged values of one entity on their way to `entity_versions`. -/
structure Flushing where
  baseVersion : Int
  curIsNew : Bool
  versions : GoMap (TenantID × EntityID × Int) VersionRow
  last : EntityMeta

def stamp (createdAt : Int) (f : Flushing) (staged : EntityMeta) : EntityMeta :=
  { staged with
    version := f.baseVersion + 1
    lastModifiedDate := submitTime
    transactionID := tx.id
    changeType := deriveChangeType staged.changeType f.curIsNew
    tenantID := tx.tenantID
    creationDate := createdAt }

def flushVersion (id : EntityID) (createdAt : Int) (f : Flushing) (staged : Entity) :
    Except FlushError Flushing :=
  let info := tx.stamp submitTime createdAt f staged.info
  let key := (tx.tenantID, id, info.version)
  if (f.versions.get key).isSome then .error (.versionTaken id)
  else
    .ok ⟨info.version, false,
      f.versions.set key ⟨info.modelRef, some staged.data, .entity info, info.changeType, tx.id,
        submitTime, info.changeUser⟩, info⟩

/-- Values superseded in the transaction come first; only the last one reaches `entities`. -/
def flushEntity (spi : Spi) (db : Database) (id : EntityID) (entity : Entity) :
    Except FlushError Database := do
  let row := db.entities.get (tx.tenantID, id)
  let baseVersion := (row.map (·.version)).getD 0
  let createdAt := (row.map (·.createdAt)).getD submitTime
  let toFlush := tx.superseded.getD id [] ++ [entity]
  let f ← toFlush.foldlM (tx.flushVersion submitTime id createdAt)
    ⟨baseVersion, row.isNone, db.versions, entity.info⟩
  let entities := db.entities.set (tx.tenantID, id)
    ⟨f.last.modelRef, f.last.version, entity.data, f.last, false, createdAt, submitTime⟩
  let claims ← replaceClaims spi tx.tenantID entity (tx.uniqueKeys.getD id []) db.claims
  return { db with entities := entities, versions := f.versions, claims := claims }

/-- An entity that does not exist is skipped. -/
def flushDelete (committer : WriteAttribution) (db : Database) (id : EntityID) :
    Except FlushError Database :=
  match db.entities.get (tx.tenantID, id) with
  | none => .ok db
  | some row =>
    let next := row.version + 1
    let attribution := tx.deleteAttribution.getD id committer
    if (db.versions.get (tx.tenantID, id, next)).isSome then .error (.versionTaken id)
    else
      .ok { db with
        entities := db.entities.set (tx.tenantID, id)
          { row with deleted := true, updatedAt := submitTime, version := next }
        versions := db.versions.set (tx.tenantID, id, next)
          ⟨row.modelRef, none,
            .tombstone attribution.attributed.kind attribution.executor, "DELETED", tx.id,
            submitTime, attribution.attributed.id⟩ }

def applyScheduledTaskOp (tasks : GoMap String ScheduledTask) :
    ScheduledTaskOp → GoMap String ScheduledTask
  | .upsert task => tasks.set task.id task
  | .delete id => tasks.del id

/-- Claims of deleted entities are released before buffered entities are flushed. -/
def flushToSQLite (spi : Spi) (committer : WriteAttribution)
    (order releaseOrder deleteOrder : List EntityID) (db : Database) :
    Except FlushError Database := do
  let released := { db with claims := releaseOrder.foldl (releaseClaims tx.tenantID) db.claims }
  let db ← (tx.buffer.inOrder order).foldlM
    (fun db c => tx.flushEntity submitTime spi db c.1 c.2) released
  let db ← deleteOrder.foldlM (tx.flushDelete submitTime committer) db
  return { db with
    submitTimes := db.submitTimes.set tx.id (tx.tenantID, submitTime)
    scheduledTasks := tx.scheduledOps.foldl applyScheduledTaskOp db.scheduledTasks }

end TransactionState

end CyodaGo.SqliteTx
