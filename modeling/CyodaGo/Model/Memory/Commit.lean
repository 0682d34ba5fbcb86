import CyodaGo.Model.Memory.EntityStore
import Mathlib.Data.List.Sort

/-! # Commit and Rollback

`Commit` and `Rollback` of `txmanager.go`, cut at their `mu` sections. A commit holds
the transaction's `OpMu` and the factory's `entityMu` from its conflict check to its
last section, so what it does to the factory between two `mu` sections is part of the
section before. -/

namespace CyodaGo.Memory

/-- What the conflict check copies out of the manager for the flush. -/
structure Captured where
  keys : GoMap EntityID (List UniqueKey)
  scheduledTaskOps : List ScheduledTaskOp
  superseded : GoMap EntityID (List Entity)

/-! ## The conflict check -/

/-- First-committer-wins: a logged commit after the snapshot wrote something this
transaction read or wrote. -/
def conflicts (m : TransactionManager) (txID : TxID) (tx : TransactionState) : Bool :=
  m.committedLog.any fun committed =>
    m.txSnapshotSeq.getD txID 0 < committed.seq &&
      decide (∃ entityID ∈ committed.writeSet, entityID ∈ tx.readSet ∨ entityID ∈ tx.writeSet)

def capture (m : TransactionManager) (txID : TxID) : Captured where
  keys := m.txUniqueKeys.getD txID ∅
  scheduledTaskOps := m.scheduledTaskOps.getD txID []
  superseded := m.supersededSaves.getD txID ∅

/-! ## Claim validation -/

/-- Whether `entityID` may take the claim `k`, given the claims of the batch so far,
the committed claims and the holders about to release theirs. -/
def mayClaim (f : StoreFactory) (toRelease : Finset EntityID) (pending : GoMap ClaimKey EntityID)
    (entityID : EntityID) (k : ClaimKey) : Bool :=
  (pending.get k).all (· = entityID) &&
    (f.uniqueClaims.get k).all fun holder => holder = entityID || holder ∈ toRelease

def validateEntity (f : StoreFactory) (toRelease : Finset EntityID) (entityID : EntityID) :
    List ClaimKey → GoMap ClaimKey EntityID → Option (GoMap ClaimKey EntityID)
  | [], pending => some pending
  | k :: ks, pending =>
    if mayClaim f toRelease pending entityID k then
      validateEntity f toRelease entityID ks (pending.set k entityID)
    else none

/-- Step 3.5 of `Commit` over the buffered entities in sorted order: the claims of each
entity, or the first error. -/
def validateClaims (spi : Spi) (f : StoreFactory) (tid : TenantID) (toRelease : Finset EntityID)
    (keys : GoMap EntityID (List UniqueKey)) :
    List (EntityID × Entity) → GoMap ClaimKey EntityID → GoMap EntityID (List UniqueClaim) →
      Except Err (GoMap EntityID (List UniqueClaim))
  | [], _, computedClaims => .ok computedClaims
  | (entityID, entity) :: rest, pending, computedClaims =>
    match spi.computeClaims (keys.getD entityID []) entity.data with
    | none => .error .partialUniqueKey
    | some claims =>
      match validateEntity f toRelease entityID
          (claims.map (StoreFactory.claimKey tid entity.info.modelRef)) pending with
      | none => .error .uniqueViolation
      | some pending =>
        validateClaims spi f tid toRelease keys rest pending (computedClaims.set entityID claims)

/-! ## The flush -/

/-- The row a commit appends for one staged save. -/
def flushedVersion (txID : TxID) (tid : TenantID) (submitTime creationDate : Time)
    (nextVersion : Int) (hasPrior : Bool) (staged : Entity) : EntityVersion where
  entity := some
    { staged with
      info := { staged.info with
        version := nextVersion
        lastModifiedDate := submitTime
        transactionID := txID
        tenantID := tid
        changeType := deriveChangeType staged.info.changeType hasPrior
        creationDate :=
          if creationDate ≠ 0 then creationDate
          else if staged.info.creationDate = 0 then submitTime
          else staged.info.creationDate } }
  version := nextVersion
  transactionID := txID
  submitTime := submitTime
  deleted := false
  changeType := deriveChangeType staged.info.changeType hasPrior
  user := staged.info.changeUser
  changeUserKind := staged.info.changeUserKind
  executor := staged.info.changeExecutor

/-- The rows of the superseded saves and of the final one, numbered consecutively from
`baseVersion + 1`. -/
def flushRows (txID : TxID) (tid : TenantID) (submitTime creationDate : Time) :
    Int → Bool → List Entity → List EntityVersion
  | _, _, [] => []
  | baseVersion, hasPrior, staged :: rest =>
    flushedVersion txID tid submitTime creationDate (baseVersion + 1) hasPrior staged ::
      flushRows txID tid submitTime creationDate (baseVersion + 1) true rest

def baseVersion (versions : List EntityVersion) : Int :=
  match lastLive versions with
  | none => 0
  | some e => e.info.version

/-- The creation date `Commit` preserves: that of the oldest row, when it has an
entity. -/
def priorCreationDate (versions : List EntityVersion) : Time :=
  match versions.head?.bind EntityVersion.entity with
  | none => 0
  | some e => e.info.creationDate

/-- The rows a commit appends to `versions` for one buffered entity. -/
def rowsFor (txID : TxID) (tid : TenantID) (submitTime : Time) (superseded : List Entity)
    (entity : Entity) (versions : List EntityVersion) : List EntityVersion :=
  flushRows txID tid submitTime (priorCreationDate versions) (baseVersion versions)
    (!versions.isEmpty) (superseded ++ [entity])

namespace StoreFactory

variable (txID : TxID)

/-- One round of the buffer loop. -/
def flushEntity (tid : TenantID) (submitTime : Time) (superseded : GoMap EntityID (List Entity))
    (claims : GoMap EntityID (List UniqueClaim)) (f : StoreFactory) (kv : EntityID × Entity) :
    StoreFactory :=
  let (entityID, entity) := kv
  let versions := f.versions tid entityID
  let rows := rowsFor txID tid submitTime (superseded.getD entityID []) entity versions
  let f := f.setVersions tid entityID (versions ++ rows)
  let f := f.recordTxIndex tid entityID txID (baseVersion versions + 1)
  let f := f.releaseClaims tid entityID
  f.insertClaims entityID tid entity.info.modelRef (claims.getD entityID [])

/-- One round of the loop over `tx.Deletes`. -/
def flushDelete (tid : TenantID) (submitTime : Time)
    (attributions : GoMap EntityID WriteAttribution) (committer : WriteAttribution)
    (f : StoreFactory) (entityID : EntityID) : StoreFactory :=
  let versions := f.versions tid entityID
  let nextVersion := baseVersion versions + 1
  f.setVersions tid entityID
    (versions ++ [tombstone nextVersion txID submitTime (attributions.getD entityID committer)])

/-- Steps 4 to 5.5 of `Commit`. -/
def flush (tx : TransactionState) (committer : WriteAttribution) (captured : Captured)
    (claims : GoMap EntityID (List UniqueClaim)) (submitTime : Time)
    (bufferOrder deleteOrder : List EntityID) (f : StoreFactory) : StoreFactory :=
  let tid := tx.tenantID
  let f := deleteOrder.foldl (fun f id => f.releaseClaims tid id) f
  let f := (tx.buffer.inOrder bufferOrder).foldl
    (flushEntity txID tid submitTime captured.superseded claims) f
  let f := deleteOrder.foldl
    (flushDelete txID tid submitTime tx.deleteAttribution committer) f
  { f with
    scheduledTasks := captured.scheduledTaskOps.foldl applyScheduledTaskOp f.scheduledTasks }

end StoreFactory

/-! ## The last section -/

/-- The loop that looks for the oldest open snapshot; a zero `oldest` counts as not
yet set. -/
def oldestSnapshot (txs : GoMap TxID TransactionState) (order : List TxID) : Time :=
  (txs.inOrder order).foldl
    (fun oldest kv =>
      if oldest = 0 ∨ kv.2.snapshotTime < oldest then kv.2.snapshotTime else oldest) 0

def prune (oldest : Time) (log : List CommittedTx) : List CommittedTx :=
  if oldest ≠ 0 then log.filter fun c => oldest ≤ c.submitTime else []

namespace TransactionManager

/-- Step 6 of `Commit`, up to pruning. -/
def recordCommit (m : TransactionManager) (txID : TxID) (tx : TransactionState) (submitTime : Time)
    (clock : Time) : TransactionManager :=
  let submitTimes := m.submitTimes.set txID ⟨submitTime, tx.tenantID⟩
  { m with
    commitSeq := m.commitSeq + 1
    committedLog := m.committedLog ++ [⟨txID, submitTime, m.commitSeq + 1, tx.writeSet⟩]
    submitTimes := submitTimes.filter fun _ e => clock - submitTimeTTL ≤ e.submitTime }

end TransactionManager

namespace System

variable (s : System)

def close (txID : TxID) (tx : TransactionState) : System := s.setTx txID { tx with closed := true }

def forget (txID : TxID) : System := { s with tm := s.tm.forget txID }

/-- The first section of `Commit`: the record it found and the state with the mark. -/
def commitMark (user : Option TenantID) (txID : TxID) : Except Err (TransactionState × System) :=
  match s.activeTx txID with
  | none => .error (.tx "Commit" .notFound txID)
  | some tx =>
    if !tenantMatches user tx then .error (.tx "Commit" .tenantMismatch txID)
    else if txID ∈ s.tm.committing then .error (.tx "Commit" .commitInProgress txID)
    else .ok (tx, { s with tm := { s.tm with committing := insert txID s.tm.committing } })

/-- The conflict check, with the cleanup of its abort path. -/
def commitCheck (txID : TxID) (tx : TransactionState) : Except System Captured :=
  if conflicts s.tm txID tx then .error ((s.forget txID).close txID tx)
  else .ok (capture s.tm txID)

/-- Claim validation, then the stamp and the flush; or the cleanup of the abort path. -/
def commitApply (spi : Spi) (s : System) (txID : TxID) (tx : TransactionState)
    (committer : WriteAttribution) (captured : Captured) (clock : Time)
    (bufferOrder deleteOrder : List EntityID) : Except (Err × System) (Time × System) :=
  let ids := tx.buffer.keys.insertionSort (· ≤ ·)
  match validateClaims spi s.factory tx.tenantID tx.deletes captured.keys
      (tx.buffer.inOrder ids) ∅ ∅ with
  | .error e => .error (e, (s.forget txID).close txID tx)
  | .ok claims =>
    let stamped := s.tm.nextSubmitTime clock
    .ok (stamped.1,
      { s with
        tm := stamped.2
        factory := s.factory.flush txID tx committer captured claims stamped.1
          bufferOrder deleteOrder })

/-- The last section: sequence number, log, submit times, cleanup and pruning. -/
def commitFinish (txID : TxID) (tx : TransactionState) (submitTime clock : Time)
    (activeOrder : List TxID) : System :=
  let m := (s.tm.recordCommit txID tx submitTime clock).forget txID
  let m := { m with committedLog := prune (oldestSnapshot s.txs activeOrder) m.committedLog }
  { s with tm := m }.close txID tx

/-- The first section of `Rollback`. -/
def rollbackMark (user : Option TenantID) (txID : TxID) : Except Err Unit :=
  match s.activeTx txID with
  | none => .error (.tx "Rollback" .notFound txID)
  | some tx =>
    if tenantMatches user tx then .ok () else .error (.tx "Rollback" .tenantMismatch txID)

/-- The rest of `Rollback`. -/
def rollbackFinish (txID : TxID) (tx : TransactionState) : System :=
  (s.forget txID).close txID { tx with rolledBack := true }

/-- A `Commit` call with no other call between its sections. -/
def commit (spi : Spi) (s : System) (ctx : Ctx) (txID : TxID) (stampClock evictClock : Time)
    (bufferOrder deleteOrder : List EntityID) (activeOrder : List TxID) :
    Outcome Unit × System :=
  match s.commitMark ctx.user txID with
  | .error e => (.err e, s)
  | .ok (tx, s) =>
    match s.commitCheck txID tx with
    | .error s => (.err .conflict, s)
    | .ok captured =>
      match s.commitApply spi txID tx ctx.attribution captured stampClock
          bufferOrder deleteOrder with
      | .error (e, s) => (.err e, s)
      | .ok (submitTime, s) => (.ok (), s.commitFinish txID tx submitTime evictClock activeOrder)

end System

end CyodaGo.Memory
