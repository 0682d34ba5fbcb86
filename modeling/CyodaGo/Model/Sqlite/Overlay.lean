import CyodaGo.Model.Sqlite.Flush
import CyodaGo.Model.Memory.Reads

/-! # Reads of a model inside a SQLite transaction

`searchTxOverlay` of `searcher.go`, the overlay cursor of `tx_overlay.go` and the calls that
consume it. A query of the snapshot is a function of the table `entity_versions`; the part of a
filter that the planner pushes down and the part that it leaves are one test, `planMatch`. -/

namespace CyodaGo.SqliteTx

open Memory (EntityID EntityMeta Entity ModelRef Principal SearchQuery Spi TenantID Time TxID
  microsecond sortByOrder tallyByState)

abbrev VersionTable := GoMap (TenantID × EntityID × Int) VersionRow

/-- `mergeOrdered committed adds isDeleted less` merges two sorted streams. -/
structure OverlaySpi extends Spi where
  mergeOrdered : List Entity → List Entity → (EntityID → Bool) → (Entity → Entity → Bool) →
    List Entity

/-- The errors of a read. `tx op kind id` is `"op: <kind> (txID=id)"`. -/
inductive ReadError where
  | tx (op : String) (kind : Memory.TxErr) (id : TxID)
  | pageLimit
  | pageOffset
  | stateFilterTooLarge
  | searchLimit
  | invalidPath
  | unpreparable
  | merge (e : Memory.Err)
  deriving DecidableEq

/-- The flag checks that every call makes under `OpMu`. -/
def checkOpen (op : String) (txID : TxID) (tx : Memory.TransactionState) : Except ReadError Unit :=
  if tx.rolledBack then .error (.tx op .rolledBack txID)
  else if tx.closed then .error (.tx op .alreadyCommitted txID)
  else .ok ()

def timeToMicro (t : Time) : Int := t / microsecond

/-! ## The committed snapshot -/

/-- What `unmarshalEntityMeta` reads from the meta column. A tombstone's has two fields only. -/
def RowMeta.parsed : RowMeta → EntityMeta
  | .entity info => info
  | .tombstone changeUserKind executor =>
    { id := "", tenantID := "", modelRef := ⟨"", ""⟩, state := "", version := 0, creationDate := 0,
      lastModifiedDate := 0, transactionID := "", changeType := "", changeUser := "",
      changeUserKind := changeUserKind, changeExecutor := executor, transitionForLatestSave := "" }

def scanVersionEntity (entityID : EntityID) (version : Int) (row : VersionRow) : Entity where
  info := { row.info.parsed with id := entityID, modelRef := row.modelRef, version := version }
  data := row.data.getD []

section Snapshot

variable (versions : VersionTable) (tid : TenantID)

/-- The version numbers of an entity up to `snapshotMicro`, among the rows that pass `inner`. -/
def visibleVersions (inner : VersionRow → Bool) (snapshotMicro : Int) (entityID : EntityID) :
    List Int :=
  (versions.inOrder versions.keys).filterMap fun kv =>
    if kv.1.1 = tid ∧ kv.1.2.1 = entityID ∧ inner kv.2 ∧ kv.2.submitTime ≤ snapshotMicro
    then some kv.1.2.2 else none

/-- The row with the greatest of these numbers, unless it is a tombstone. -/
def latestLive (inner : VersionRow → Bool) (snapshotMicro : Int) (entityID : EntityID) :
    Option Entity :=
  (visibleVersions versions tid inner snapshotMicro entityID).max?.bind fun version =>
    (versions.get (tid, entityID, version)).bind fun row =>
      if row.changeType ≠ "DELETED" then some (scanVersionEntity entityID version row) else none

def getSnapshot (entityID : EntityID) (snapshotTime : Time) : Option Entity :=
  latestLive versions tid (fun _ => true) (timeToMicro snapshotTime) entityID

def entityIDs : List EntityID := ((versions.keys.filter (·.1 = tid)).map (·.2.1)).dedup

/-- The inner query groups the rows of the model only. -/
def searchSnapshotBase (modelRef : ModelRef) (snapshotMicro : Int) : List Entity :=
  (entityIDs versions tid).filterMap
    (latestLive versions tid (fun row => row.modelRef = modelRef) snapshotMicro)

end Snapshot

/-! ## The overlay -/

/-- The columns of the id/state projection. -/
def idState (e : Entity) : Entity where
  info :=
    { id := e.info.id, tenantID := "", modelRef := e.info.modelRef, state := e.info.state,
      version := 0, creationDate := 0, lastModifiedDate := 0, transactionID := "", changeType := "",
      changeUser := "", changeUserKind := "", changeExecutor := ⟨"", ""⟩,
      transitionForLatestSave := "" }
  data := []

def lessByID (a b : Entity) : Bool := a.info.id < b.info.id

section Reads

variable (spi : OverlaySpi) (versions : VersionTable) (tid : TenantID) (txID : TxID)
  (tx : Memory.TransactionState)

variable (modelRef : ModelRef)

/-- The matching buffered writes of the model that are not staged for deletion. -/
def bufferedAdds (pfMatch : Entity → Bool) : List Entity :=
  ((tx.buffer.inOrder tx.buffer.keys).filter fun kv =>
    !(kv.1 ∈ tx.deletes) && kv.2.info.modelRef = modelRef && pfMatch kv.2).map Prod.snd

/-- All that the stream of `openTxOverlay` yields. A buffered write of another model does not
suppress the committed row. -/
def openTxOverlay (planMatch pfMatch : Entity → Bool) (proj : Entity → Entity) : List Entity :=
  let committed := (searchSnapshotBase versions tid modelRef (timeToMicro tx.snapshotTime)).filter
    planMatch
  let adds := bufferedAdds tx modelRef pfMatch
  let suppressed (id : EntityID) : Bool :=
    id ∈ tx.deletes || (tx.buffer.get id).any fun e => e.info.modelRef = modelRef
  spi.mergeOrdered ((sortByOrder lessByID committed).map proj)
    ((sortByOrder lessByID adds).map proj) suppressed lessByID

/-- The states that `countTx` tallies; the filter is the one that matches everything. -/
def countTx : List String :=
  (openTxOverlay spi versions tid tx modelRef (fun _ => true) (fun _ => true) idState).map
    (·.info.state)

def count : Except ReadError ℕ := do
  checkOpen "Count" txID tx
  return (countTx spi versions tid tx modelRef).length

def maxStateFilterSize : ℕ := 999 - 3

def countByState (states : Option (List String)) :
    Except ReadError (String → ℕ) := do
  if states = some [] then return fun _ => 0
  if maxStateFilterSize < (states.getD []).length then throw .stateFilterTooLarge
  checkOpen "CountByState" txID tx
  return tallyByState states (countTx spi versions tid tx modelRef)

def getPage (limit offset : Int) : Except ReadError (List Entity) := do
  if limit < 1 then throw .pageLimit
  if offset < 0 then throw .pageOffset
  checkOpen "GetPage" txID tx
  let stream := openTxOverlay spi versions tid tx modelRef (fun _ => true) (fun _ => true) id
  return (stream.drop offset.toNat).take limit.toNat

/-- Here every buffered write suppresses the committed row. -/
def searchTxOverlay (planMatch : Entity → Bool) (q : SearchQuery) :
    Except ReadError (List Entity) := do
  if q.limit ≤ 0 then throw .searchLimit
  if !q.pathsValid then throw .invalidPath
  if !q.preparable then throw .unpreparable
  checkOpen "Search" txID tx
  let committed := (searchSnapshotBase versions tid q.modelRef (timeToMicro tx.snapshotTime)).filter
    planMatch
  let adds := bufferedAdds tx q.modelRef q.pfMatch
  let deleted (id : EntityID) : Bool := id ∈ tx.deletes || id ∈ tx.buffer.keys
  match spi.mergeBounded (sortByOrder q.less committed) (sortByOrder q.less adds) deleted q.less
      q.limit with
  | .error e => throw (.merge e)
  | .ok page => return page

end Reads

end CyodaGo.SqliteTx
