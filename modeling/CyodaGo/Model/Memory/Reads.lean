import CyodaGo.Model.Memory.EntityStore
import Mathlib.Data.List.Sort

/-! # Reads of the entity store

The read calls of `entity_store.go` and `searcher.go`. A read returns its result and
the entity ids it adds to the read set of the ambient transaction; it changes nothing
else. `order` is the order in which loops over `entityData[tenant]` visit the ids. -/

namespace CyodaGo.Memory

/-- A search request after `spi.Prepare`: `pfMatch` is the prepared filter, `less` is
`spi.LessByOrder` at the requested order. -/
structure SearchQuery where
  modelRef : ModelRef
  pathsValid : Bool
  preparable : Bool
  pfMatch : Entity → Bool
  less : Entity → Entity → Bool
  limit : Int
  pointInTime : Option Time
  trackingRead : Bool

structure VersionMetadataOptions where
  fromTime : Option Time
  untilTime : Option Time
  limit : Int

structure VersionView where
  entity : Entity
  changeType : String
  user : String
  timestamp : Time
  version : Int
  attributedKind : String
  executor : Principal
deriving DecidableEq

structure VersionMeta where
  version : Int
  changeType : String
  timestamp : Time
  user : String
  attributedKind : String
  executor : Principal
  transactionID : TxID
  deleted : Bool
deriving DecidableEq

inductive ReadOp where
  | get (id : EntityID)
  | getAsAt (id : EntityID) (asAt : Time)
  | exists (id : EntityID)
  | count (modelRef : ModelRef)
  | countByState (modelRef : ModelRef) (states : Option (List String))
  | getPage (modelRef : ModelRef) (limit offset : Int) (asAt : Option Time)
  | search (q : SearchQuery)
  | getVersionByTransaction (id : EntityID) (txID : TxID)
  | getVersionMetadata (id : EntityID) (opts : VersionMetadataOptions)

/-- The result of a call. `counts` is the map of `CountByState`, where an absent state
counts `0`. -/
inductive Value where
  | unit
  | txID (id : TxID)
  | savepointID (id : SavepointID)
  | time (t : Time)
  | versionNumber (n : Int)
  | task (t : Option ScheduledTask)
  | entity (e : Entity)
  | bool (b : Bool)
  | count (n : ℕ)
  | counts (c : String → ℕ)
  | page (rows : List Entity)
  | version (v : VersionView)
  | metas (rows : List VersionMeta)

/-! ## Point reads -/

variable (versions : List EntityVersion) (data : GoMap EntityID (List EntityVersion))

def getSnapshotVersion (entityID : EntityID) (snapshotTime : Time) : Outcome Entity :=
  match System.scanSnapshot snapshotTime (none, false) versions with
  | (some e, _) => .ok e
  | (none, true) => .err (.deletedAtTime entityID)
  | (none, false) => .err (.notFound entityID)

def getLatest (entityID : EntityID) : Outcome Entity :=
  match versions.getLast? with
  | none => .err (.notFound entityID)
  | some latest =>
    if latest.deleted then .err (.notFound entityID)
    else
      match latest.entity with
      | none => .nilDeref
      | some e => .ok e

def getAsAt (entityID : EntityID) (asAt : Time) : Outcome Entity :=
  if versions.isEmpty then .err (.notFound entityID)
  else
    match System.scanSnapshot asAt (none, false) versions with
    | (some e, _) => .ok e
    | (none, true) => .err (.deletedAtTime entityID)
    | (none, false) => .err (.noVersionAt entityID asAt)

def Outcome.map {α β : Type} (f : α → β) : Outcome α → Outcome β
  | .ok a => .ok (f a)
  | .err e => .err e
  | .nilDeref => .nilDeref

def Outcome.bind {α β : Type} (x : Outcome α) (f : α → Outcome β) : Outcome β :=
  match x with
  | .ok a => f a
  | .err e => .err e
  | .nilDeref => .nilDeref

/-- `Get` inside a transaction, with the read set it records. -/
def getTx (txID : TxID) (tx : TransactionState) (entityID : EntityID) :
    Outcome Entity × Finset EntityID :=
  match txGuard "Get" txID tx with
  | some e => (.err e, ∅)
  | none =>
    if entityID ∈ tx.deletes then (.err (.notFound entityID), ∅)
    else
      match tx.buffer.get entityID with
      | some buffered => (.ok buffered, {entityID})
      | none => (getSnapshotVersion versions entityID tx.snapshotTime, {entityID})

def existsTx (txID : TxID) (tx : TransactionState) (entityID : EntityID) : Outcome Bool :=
  match txGuard "Exists" txID tx with
  | some e => .err e
  | none =>
    if entityID ∈ tx.deletes then .ok false
    else if entityID ∈ tx.buffer.keys then .ok true
    else
      match getSnapshotVersion versions entityID tx.snapshotTime with
      | .ok _ => .ok true
      | _ => .ok false

/-! ## Counting -/

/-- The states `countTx` tallies: committed rows that are neither deleted nor
superseded by a buffered write of the same model, then the buffered rows. -/
def countTx (order : List EntityID) (tx : TransactionState) (modelRef : ModelRef) : List String :=
  let committed := System.getAllSnapshotPointers data order modelRef tx.snapshotTime
  let standing := committed.filter fun e =>
    !(e.info.id ∈ tx.deletes) &&
      !((tx.buffer.get e.info.id).any fun b => b.info.modelRef = modelRef)
  let buffered := (tx.buffer.inOrder tx.buffer.keys).filter fun kv =>
    kv.2.info.modelRef = modelRef && !(kv.1 ∈ tx.deletes)
  standing.map (·.info.state) ++ buffered.map (·.2.info.state)

/-- The newest live rows of a model; the entity of each is dereferenced unchecked. -/
def currentStatePointers (data : GoMap EntityID (List EntityVersion)) (modelRef : ModelRef) :
    List EntityID → Outcome (List Entity)
  | [] => .ok []
  | id :: ids =>
    match (data.getD id []).getLast? with
    | none => currentStatePointers data modelRef ids
    | some latest =>
      if latest.deleted then currentStatePointers data modelRef ids
      else
        match latest.entity with
        | none => .nilDeref
        | some e =>
          if e.info.modelRef = modelRef then
            (currentStatePointers data modelRef ids).map (e :: ·)
          else currentStatePointers data modelRef ids

def tallyByState (states : Option (List String)) (tallied : List String) (st : String) : ℕ :=
  match states with
  | some filter => if st ∈ filter then tallied.count st else 0
  | none => tallied.count st

/-! ## Pages and searches -/

def pageSlice (rows : List Entity) (limit offset : Int) : List Entity :=
  let sorted := rows.insertionSort fun a b => a.info.id ≤ b.info.id
  (sorted.drop offset.toNat).take limit.toNat

/-- The rows of the merged view a page is cut from. -/
def mergedRows (order : List EntityID) (tx : TransactionState) (modelRef : ModelRef) :
    List Entity :=
  let mainEntities := System.getAllSnapshotPointers data order modelRef tx.snapshotTime
  let merged := (mainEntities.filter fun e => !(e.info.id ∈ tx.deletes)).foldl
    (fun m e => m.set e.info.id e) (∅ : GoMap EntityID Entity)
  let merged := ((tx.buffer.inOrder tx.buffer.keys).filter fun kv =>
    kv.2.info.modelRef = modelRef).foldl (fun m kv => m.set kv.1 kv.2) merged
  (merged.inOrder merged.keys).map Prod.snd

def sortByOrder (less : Entity → Entity → Bool) (rows : List Entity) : List Entity :=
  rows.insertionSort fun a b => less b a = false

def matchSortBounded (q : SearchQuery) (rows : List Entity) : Outcome Value :=
  let filtered := rows.filter q.pfMatch
  if q.limit < filtered.length then .err .resultLimitExceeded
  else .ok (.page (sortByOrder q.less filtered))

/-- The committed stream and the own-write stream a search inside a transaction
merges. -/
def searchStreams (order : List EntityID) (tx : TransactionState) (q : SearchQuery) :
    List Entity × List Entity :=
  let committed := System.getAllSnapshotPointers data order q.modelRef tx.snapshotTime
  let adds := (tx.buffer.inOrder tx.buffer.keys).filter fun kv =>
    !(kv.1 ∈ tx.deletes) && kv.2.info.modelRef = q.modelRef && q.pfMatch kv.2
  (sortByOrder q.less (committed.filter q.pfMatch), sortByOrder q.less (adds.map Prod.snd))

def searchTx (spi : Spi) (data : GoMap EntityID (List EntityVersion)) (order : List EntityID)
    (tx : TransactionState) (q : SearchQuery) : Outcome Value × Finset EntityID :=
  let streams := searchStreams data order tx q
  let hidden (id : EntityID) : Bool := id ∈ tx.deletes || id ∈ tx.buffer.keys
  match spi.mergeBounded streams.1 streams.2 hidden q.less q.limit with
  | .error e => (.err e, ∅)
  | .ok page =>
    let recorded := (page.map (·.info.id)).filter fun id => id ∉ tx.buffer.keys
    (.ok (.page page), if q.trackingRead then recorded.toFinset else ∅)

/-! ## History -/

def getVersionByTransaction (f : StoreFactory) (tid : TenantID) (entityID : EntityID)
    (txID : TxID) : Outcome VersionView :=
  if txID = "" then .err (.notFound entityID)
  else
    match f.txIndex.get (tid, entityID, txID) with
    | none => .err (.notFound entityID)
    | some version =>
      let found := (f.versions tid entityID).findSome? fun v =>
        if v.deleted then none
        else v.entity.bind fun e => if e.info.version = version then some (v, e) else none
      match found with
      | none => .err (.notFound entityID)
      | some (v, e) =>
        .ok ⟨e, v.changeType, v.user, v.submitTime, e.info.version, v.changeUserKind, v.executor⟩

def versionMeta (v : EntityVersion) : VersionMeta :=
  ⟨v.version, v.changeType, v.submitTime, v.user, v.changeUserKind, v.executor, v.transactionID,
    v.changeType = "DELETED"⟩

/-- Newest first, ties broken by the larger version. -/
def newerFirst (a b : VersionMeta) : Prop :=
  b.timestamp < a.timestamp ∨ (a.timestamp = b.timestamp ∧ b.version ≤ a.version)

instance : DecidableRel newerFirst := fun a b =>
  inferInstanceAs (Decidable (b.timestamp < a.timestamp ∨
    (a.timestamp = b.timestamp ∧ b.version ≤ a.version)))

def getVersionMetadata (entityID : EntityID) (opts : VersionMetadataOptions) :
    Outcome (List VersionMeta) :=
  if versions.isEmpty then .err (.notFound entityID)
  else
    let window := versions.filter fun v =>
      !(opts.fromTime.any fun t => v.submitTime < t) && !(opts.untilTime.any fun t => t < v.submitTime)
    let sorted := (window.map versionMeta).insertionSort newerFirst
    .ok (if 0 < opts.limit then sorted.take opts.limit.toNat else sorted)

/-! ## The read calls -/

/-- A read outside any transaction. -/
def readDirect (f : StoreFactory) (tid : TenantID) (order : List EntityID) : ReadOp → Outcome Value
  | .get id => (getLatest (f.versions tid id) id).map .entity
  | .getAsAt id asAt => (getAsAt (f.versions tid id) id asAt).map .entity
  | .exists id => .ok (.bool (System.liveNow (f.versions tid id)))
  | .count m =>
    (currentStatePointers (f.tenantData tid) m order).map fun rows => .count rows.length
  | .countByState m states =>
    if states = some [] then .ok (.counts fun _ => 0)
    else (currentStatePointers (f.tenantData tid) m order).map fun rows =>
      .counts (tallyByState states (rows.map (·.info.state)))
  | .getPage m limit offset asAt =>
    if limit < 1 then .err .pageLimit
    else if offset < 0 then .err .pageOffset
    else
      match asAt with
      | some t =>
        .ok (.page (pageSlice (System.getAllSnapshotPointers (f.tenantData tid) order m t)
          limit offset))
      | none =>
        (currentStatePointers (f.tenantData tid) m order).map fun rows =>
          .page (pageSlice rows limit offset)
  | .search q =>
    if q.limit ≤ 0 then .err .searchLimit
    else if !q.pathsValid then .err .invalidPath
    else if !q.preparable then .err .unpreparable
    else
      match q.pointInTime with
      | some t =>
        matchSortBounded q (System.getAllSnapshotPointers (f.tenantData tid) order q.modelRef t)
      | none =>
        (currentStatePointers (f.tenantData tid) q.modelRef order).bind (matchSortBounded q)
  | .getVersionByTransaction id byTx => (getVersionByTransaction f tid id byTx).map .version
  | .getVersionMetadata id opts => (getVersionMetadata (f.versions tid id) id opts).map .metas

/-- A read inside the transaction `tx`, with the ids it records in the read set. The
history calls and a page at a point in time do not look at the transaction. -/
def readTx (spi : Spi) (f : StoreFactory) (tid : TenantID) (order : List EntityID)
    (txID : TxID) (tx : TransactionState) : ReadOp → Outcome Value × Finset EntityID
  | .get id =>
    let r := getTx (f.versions tid id) txID tx id
    (r.1.map .entity, r.2)
  | .getAsAt id asAt =>
    match txGuard "GetAsAt" txID tx with
    | some e => (.err e, ∅)
    | none => ((getAsAt (f.versions tid id) id asAt).map .entity, {id})
  | .exists id => ((existsTx (f.versions tid id) txID tx id).map .bool, ∅)
  | .count m =>
    match txGuard "Count" txID tx with
    | some e => (.err e, ∅)
    | none => (.ok (.count (countTx (f.tenantData tid) order tx m).length), ∅)
  | .countByState m states =>
    if states = some [] then (.ok (.counts fun _ => 0), ∅)
    else
      match txGuard "CountByState" txID tx with
      | some e => (.err e, ∅)
      | none => (.ok (.counts (tallyByState states (countTx (f.tenantData tid) order tx m))), ∅)
  | .getPage m limit offset asAt =>
    if limit < 1 then (.err .pageLimit, ∅)
    else if offset < 0 then (.err .pageOffset, ∅)
    else
      match asAt with
      | some t =>
        (.ok (.page (pageSlice (System.getAllSnapshotPointers (f.tenantData tid) order m t)
          limit offset)), ∅)
      | none =>
        match txGuard "GetPage" txID tx with
        | some e => (.err e, ∅)
        | none =>
          let page := pageSlice (mergedRows (f.tenantData tid) order tx m) limit offset
          (.ok (.page page), (page.map (·.info.id)).toFinset)
  | .search q =>
    if q.limit ≤ 0 then (.err .searchLimit, ∅)
    else if !q.pathsValid then (.err .invalidPath, ∅)
    else if !q.preparable then (.err .unpreparable, ∅)
    else
      match txGuard "Search" txID tx with
      | some e => (.err e, ∅)
      | none =>
        match q.pointInTime with
        | some t =>
          (matchSortBounded q
            (System.getAllSnapshotPointers (f.tenantData tid) order q.modelRef t), ∅)
        | none => searchTx spi (f.tenantData tid) order tx q
  | .getVersionByTransaction id byTx =>
    ((getVersionByTransaction f tid id byTx).map .version, ∅)
  | .getVersionMetadata id opts => ((getVersionMetadata (f.versions tid id) id opts).map .metas, ∅)

end CyodaGo.Memory
