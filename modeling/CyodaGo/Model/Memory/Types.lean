import CyodaGo.Shared.GoMap
import Mathlib.Data.Finset.Basic

/-! # Data of the memory plugin

The types of `entity_store.go`, `store_factory.go`, `scheduled_task_store.go` and
`txmanager.go`, with the SPI records they are built from. A `map[string]bool` that
only ever holds `true` is a finite set. -/

namespace CyodaGo.Memory

abbrev TenantID := String

abbrev EntityID := String

abbrev TxID := String

abbrev SavepointID := String

/-- Nanoseconds since Go's zero `time.Time`, so `IsZero` is equality with `0`. -/
abbrev Time := Int

def microsecond : Time := 1000

def submitTimeTTL : Time := 3600 * 1000000000

structure ModelRef where
  entityName : String
  modelVersion : String
deriving DecidableEq, Repr

structure Principal where
  id : String
  kind : String
deriving DecidableEq, Repr

structure WriteAttribution where
  attributed : Principal
  executor : Principal
deriving DecidableEq, Repr

structure EntityMeta where
  id : EntityID
  tenantID : TenantID
  modelRef : ModelRef
  state : String
  version : Int
  creationDate : Time
  lastModifiedDate : Time
  transactionID : TxID
  changeType : String
  changeUser : String
  changeUserKind : String
  changeExecutor : Principal
  transitionForLatestSave : String
deriving DecidableEq, Repr

structure Entity where
  info : EntityMeta
  data : List UInt8
deriving DecidableEq, Repr

/-- One row of an entity's history. A tombstone carries no entity. -/
structure EntityVersion where
  entity : Option Entity
  version : Int
  transactionID : TxID
  submitTime : Time
  deleted : Bool
  changeType : String
  user : String
  changeUserKind : String
  executor : Principal
deriving DecidableEq, Repr

structure UniqueKey where
  id : String
  fields : List String
deriving DecidableEq, Repr

structure UniqueClaim where
  keyID : String
  signature : String
deriving DecidableEq, Repr

structure ClaimKey where
  tenant : TenantID
  model : String
  version : String
  keyID : String
  signature : String
deriving DecidableEq, Repr

structure EntityTenantKey where
  tenant : TenantID
  id : EntityID
deriving DecidableEq, Repr

structure ScheduledTask where
  id : String
  tenantID : TenantID
  scheduledTime : Int
  timeoutMs : Option Int
  entityID : EntityID
  transition : String
  sourceState : String
  armedAt : Int
  armedBy : Principal
  redispatchAfter : Option Int
  attemptCount : Int
deriving DecidableEq, Repr

inductive ScheduledTaskOp where
  | upsert (task : ScheduledTask)
  | delete (id : String)
deriving DecidableEq, Repr

/-- The factory state guarded by `entityMu`. -/
structure StoreFactory where
  entityData : GoMap TenantID (GoMap EntityID (List EntityVersion))
  txIndex : GoMap (TenantID × EntityID × TxID) Int
  uniqueClaims : GoMap ClaimKey EntityID
  claimsByEntity : GoMap EntityTenantKey (List ClaimKey)
  scheduledTasks : GoMap String ScheduledTask

/-- The SPI's per-transaction record. `buffer`, `readSet`, `writeSet`, `deletes` and
`deleteAttribution` are guarded by the transaction's own `OpMu`. Its `ID` is the key
under which `System.txs` holds it. -/
structure TransactionState where
  tenantID : TenantID
  snapshotTime : Time
  readSet : Finset EntityID
  writeSet : Finset EntityID
  buffer : GoMap EntityID Entity
  deletes : Finset EntityID
  deleteAttribution : GoMap EntityID WriteAttribution
  rolledBack : Bool
  closed : Bool

structure CommittedTx where
  id : TxID
  submitTime : Time
  seq : ℕ
  writeSet : Finset EntityID

structure SubmitTimeEntry where
  submitTime : Time
  tenantID : TenantID

structure SavepointSnapshot where
  buffer : GoMap EntityID Entity
  readSet : Finset EntityID
  writeSet : Finset EntityID
  deletes : Finset EntityID
  deleteAttribution : GoMap EntityID WriteAttribution
  scheduledTaskOpsLen : ℕ
  supersededLens : GoMap EntityID ℕ

/-- The manager state guarded by `mu`. `active` holds the ids of the open
transactions; their records live in `System.txs`, which every context that carries a
transaction also refers to. -/
structure TransactionManager where
  active : Finset TxID
  committedLog : List CommittedTx
  committing : Finset TxID
  submitTimes : GoMap TxID SubmitTimeEntry
  savepoints : GoMap TxID (GoMap SavepointID SavepointSnapshot)
  txUniqueKeys : GoMap TxID (GoMap EntityID (List UniqueKey))
  commitSeq : ℕ
  txSnapshotSeq : GoMap TxID ℕ
  lastSubmitTime : Time
  supersededSaves : GoMap TxID (GoMap EntityID (List Entity))
  scheduledTaskOps : GoMap TxID (List ScheduledTaskOp)

structure System where
  factory : StoreFactory
  tm : TransactionManager
  txs : GoMap TxID TransactionState

/-- What the memory plugin reads from a `context.Context`. -/
structure Ctx where
  user : Option TenantID
  tx : Option TxID
  uniqueKeys : List UniqueKey
  attribution : WriteAttribution

/-! ## Results -/

inductive TxErr where
  | notFound
  | rolledBack
  | alreadyCommitted
  | tenantMismatch
  | commitInProgress
deriving DecidableEq, Repr

/-- The errors of the plugin. `tx op kind id` is `"op: <kind> (txID=id)"`. -/
inductive Err where
  | tx (op : String) (kind : TxErr) (id : TxID)
  | savepointNotFound (op : String) (id : TxID) (savepoint : SavepointID)
  | noUserContext
  | noTenant
  | notFound (id : EntityID)
  | deletedAtTime (id : EntityID)
  | noVersionAt (id : EntityID) (asAt : Time)
  | conflict
  | casConflict (id : EntityID)
  | uniqueViolation
  | partialUniqueKey
  | emptyExpectedTxID
  | pageLimit
  | pageOffset
  | searchLimit
  | invalidPath
  | unpreparable
  | resultLimitExceeded
  | notYetCommitted (id : TxID)
deriving DecidableEq, Repr

/-- A call returns a value, returns an error, or dereferences a nil pointer. -/
inductive Outcome (α : Type) where
  | ok (a : α)
  | err (e : Err)
  | nilDeref
deriving DecidableEq, Repr

/-- The SPI functions the plugin calls. They live in a module of their own, so they
are parameters: `computeClaims` gives `none` for the partial-key error family, and
`mergeBounded committed adds hidden less limit` merges the two sorted streams. -/
structure Spi where
  computeClaims : List UniqueKey → List UInt8 → Option (List UniqueClaim)
  mergeBounded : List Entity → List Entity → (EntityID → Bool) → (Entity → Entity → Bool) →
    Int → Except Err (List Entity)

end CyodaGo.Memory
