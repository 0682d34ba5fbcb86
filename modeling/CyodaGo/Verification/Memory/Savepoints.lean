import CyodaGo.Verification.Memory.Timeless

/-! # Going back to a savepoint

A savepoint keeps copies of the transaction's record and the lengths of its staged lists. Going
back to it gives the state that was staged then, as long as nothing has shortened those lists
below their length and the unique keys of what was buffered have not been captured anew. -/

namespace CyodaGo.Memory

open GoMap

/-! ## Commits of the same staged state -/

/-- The committed data are the same up to their times. -/
structure SameCommitted (f f' : StoreFactory) : Prop where
  versions : ∀ tid eid, SameHistory (f.versions tid eid) (f'.versions tid eid)
  txIndex : f.txIndex = f'.txIndex
  uniqueClaims : f.uniqueClaims = f'.uniqueClaims
  claimsByEntity : f.claimsByEntity = f'.claimsByEntity
  scheduledTasks : f.scheduledTasks = f'.scheduledTasks

namespace SameCommitted

variable {f f' : StoreFactory}

theorem refl (f : StoreFactory) : SameCommitted f f := ⟨fun _ _ => rfl, rfl, rfl, rfl, rfl⟩

theorem releaseClaims (h : SameCommitted f f') (tid : TenantID) (eid : EntityID) :
    SameCommitted (f.releaseClaims tid eid) (f'.releaseClaims tid eid) := by
  refine ⟨?_, h.txIndex, ?_, ?_, h.scheduledTasks⟩
  · simpa using h.versions
  · simp only [StoreFactory.releaseClaims, h.uniqueClaims, h.claimsByEntity]
  · simp only [StoreFactory.releaseClaims, h.claimsByEntity]

theorem insertClaims (h : SameCommitted f f') (eid : EntityID) (tid : TenantID) (model : ModelRef)
    (claims : List UniqueClaim) :
    SameCommitted (f.insertClaims eid tid model claims) (f'.insertClaims eid tid model claims) := by
  unfold StoreFactory.insertClaims
  split
  · exact h
  · exact ⟨h.versions, h.txIndex, by rw [h.uniqueClaims], by rw [h.claimsByEntity], h.scheduledTasks⟩

theorem recordTxIndex (h : SameCommitted f f') (tid : TenantID) (eid : EntityID) (txID : TxID)
    (version : Int) :
    SameCommitted (f.recordTxIndex tid eid txID version) (f'.recordTxIndex tid eid txID version) := by
  have hrest : SameCommitted { f with txIndex := f.txIndex.set (tid, eid, txID) version }
      { f' with txIndex := f'.txIndex.set (tid, eid, txID) version } :=
    ⟨h.versions, by rw [h.txIndex], h.uniqueClaims, h.claimsByEntity, h.scheduledTasks⟩
  unfold StoreFactory.recordTxIndex
  rw [← h.txIndex]
  split
  · exact h
  split
  · split
    · exact h
    · exact h.txIndex ▸ hrest
  · exact h.txIndex ▸ hrest

theorem setVersions (h : SameCommitted f f') (tid : TenantID) (eid : EntityID)
    {vs vs' : List EntityVersion} (hvs : SameHistory vs vs') :
    SameCommitted (f.setVersions tid eid vs) (f'.setVersions tid eid vs') := by
  refine ⟨fun t e => ?_, h.txIndex, h.uniqueClaims, h.claimsByEntity, h.scheduledTasks⟩
  rw [StoreFactory.versions_setVersions, StoreFactory.versions_setVersions]
  split
  · exact hvs
  · exact h.versions t e

theorem flushEntity (h : SameCommitted f f') (txID : TxID) (tid : TenantID) (now now' : Time)
    {superseded superseded' : GoMap EntityID (List Entity)}
    (hsuperseded : ∀ eid, superseded.getD eid [] = superseded'.getD eid [])
    (claims : GoMap EntityID (List UniqueClaim)) (kv : EntityID × Entity) :
    SameCommitted (f.flushEntity txID tid now superseded claims kv)
      (f'.flushEntity txID tid now' superseded' claims kv) := by
  have hvs := h.versions tid kv.1
  simp only [StoreFactory.flushEntity, ← hsuperseded, ← timeFree_baseVersion.congr hvs]
  refine SameCommitted.insertClaims (SameCommitted.releaseClaims (SameCommitted.recordTxIndex
    (h.setVersions tid kv.1 ?_) _ _ _ _) _ _) _ _ _ _
  exact hvs.append (hvs.rowsFor txID tid now now' _ kv.2)

theorem flushDelete (h : SameCommitted f f') (txID : TxID) (tid : TenantID) (now now' : Time)
    (attributions : GoMap EntityID WriteAttribution) (committer : WriteAttribution)
    (eid : EntityID) :
    SameCommitted (f.flushDelete txID tid now attributions committer eid)
      (f'.flushDelete txID tid now' attributions committer eid) := by
  have hvs := h.versions tid eid
  simp only [StoreFactory.flushDelete, ← timeFree_baseVersion.congr hvs]
  exact h.setVersions tid eid (hvs.append (sameHistory_tombstone _ _ _ _ _))

/-- What each element of a list keeps, the whole loop keeps. -/
theorem foldl {α : Type} {g g' : StoreFactory → α → StoreFactory}
    (hstep : ∀ f f' x, SameCommitted f f' → SameCommitted (g f x) (g' f' x)) (xs : List α)
    (h : SameCommitted f f') : SameCommitted (xs.foldl g f) (xs.foldl g' f') := by
  induction xs generalizing f f' with
  | nil => exact h
  | cons x xs ih => exact ih (hstep f f' x h)

theorem flush (h : SameCommitted f f') (txID : TxID) (tx : TransactionState)
    (committer : WriteAttribution)
    {captured captured' : Captured}
    (hops : captured.scheduledTaskOps = captured'.scheduledTaskOps)
    (hsuperseded : ∀ eid, captured.superseded.getD eid [] = captured'.superseded.getD eid [])
    (claims : GoMap EntityID (List UniqueClaim)) (now now' : Time)
    (bufferOrder deleteOrder : List EntityID) :
    SameCommitted (f.flush txID tx committer captured claims now bufferOrder deleteOrder)
      (f'.flush txID tx committer captured' claims now' bufferOrder deleteOrder) := by
  have hreleased := h.foldl (fun _ _ id h => h.releaseClaims tx.tenantID id) deleteOrder
  have hsaved := hreleased.foldl
    (fun _ _ kv h => h.flushEntity txID tx.tenantID now now' hsuperseded claims kv)
    (tx.buffer.inOrder bufferOrder)
  have hdeleted := hsaved.foldl
    (fun _ _ id h => h.flushDelete txID tx.tenantID now now' tx.deleteAttribution committer id)
    deleteOrder
  exact ⟨hdeleted.versions, hdeleted.txIndex, hdeleted.uniqueClaims, hdeleted.claimsByEntity,
    by simp only [StoreFactory.flush, hops, hdeleted.scheduledTasks]⟩

end SameCommitted

/-- The captured keys matter for buffered entities only. -/
theorem validateClaims_keys_congr {spi : Spi} {f : StoreFactory} {tid : TenantID}
    {toRelease : Finset EntityID} {keys keys' : GoMap EntityID (List UniqueKey)}
    {entities : List (EntityID × Entity)}
    (hkeys : ∀ kv ∈ entities, keys.getD kv.1 [] = keys'.getD kv.1 [])
    (pending : GoMap ClaimKey EntityID) (computed : GoMap EntityID (List UniqueClaim)) :
    validateClaims spi f tid toRelease keys entities pending computed =
      validateClaims spi f tid toRelease keys' entities pending computed := by
  induction entities generalizing pending computed with
  | nil => rfl
  | cons kv rest ih =>
    rw [List.forall_mem_cons] at hkeys
    simp only [validateClaims, hkeys.1, ih hkeys.2]

/-- Two states in which the transaction has staged the same. -/
structure StagedAlike (txID : TxID) (s s' : System) : Prop where
  factory : s'.factory = s.factory
  active : s'.tm.active = s.tm.active
  committedLog : s'.tm.committedLog = s.tm.committedLog
  committing : s'.tm.committing = s.tm.committing
  txSnapshotSeq : s'.tm.txSnapshotSeq = s.tm.txSnapshotSeq
  record : s'.txs.get txID = s.txs.get txID
  ops : s'.tm.scheduledTaskOps.getD txID [] = s.tm.scheduledTaskOps.getD txID []
  superseded : ∀ eid, (s'.tm.supersededSaves.getD txID ∅).getD eid [] =
    (s.tm.supersededSaves.getD txID ∅).getD eid []
  keys : ∀ tx, s.txs.get txID = some tx → ∀ eid ∈ tx.buffer.keys,
    (s'.tm.txUniqueKeys.getD txID ∅).getD eid [] = (s.tm.txUniqueKeys.getD txID ∅).getD eid []

section Commit

variable {spi : Spi} {txID : TxID} {s s' : System}

theorem StagedAlike.activeTx (h : StagedAlike txID s s') : s'.activeTx txID = s.activeTx txID := by
  rw [System.activeTx, System.activeTx, h.active, h.record]

theorem StagedAlike.conflicts (h : StagedAlike txID s s') (tx : TransactionState) :
    Memory.conflicts s'.tm txID tx = Memory.conflicts s.tm txID tx := by
  rw [Memory.conflicts, Memory.conflicts, h.committedLog, h.txSnapshotSeq]

theorem StagedAlike.claims (h : StagedAlike txID s s') {tx : TransactionState}
    (hget : s.txs.get txID = some tx) :
    validateClaims spi s'.factory tx.tenantID tx.deletes (s'.tm.txUniqueKeys.getD txID ∅)
      (tx.buffer.inOrder (tx.buffer.keys.insertionSort (· ≤ ·))) ∅ ∅ =
    validateClaims spi s.factory tx.tenantID tx.deletes (s.tm.txUniqueKeys.getD txID ∅)
      (tx.buffer.inOrder (tx.buffer.keys.insertionSort (· ≤ ·))) ∅ ∅ := by
  rw [h.factory]
  refine validateClaims_keys_congr (fun kv hkv => ?_) _ _
  exact h.keys tx hget kv.1 (mem_keys_of_get (mem_inOrder.mp hkv).2)

/-- The sections after the first one. -/
theorem StagedAlike.commitCheck (h : StagedAlike txID s s') {tx : TransactionState}
    (hget : s.txs.get txID = some tx) (committer : WriteAttribution)
    (clock clock' evict evict' : Time) (bufferOrder deleteOrder : List EntityID)
    (activeOrder activeOrder' : List TxID) :
    let rest (s : System) (clock evict : Time) (activeOrder : List TxID) : Outcome Unit × System :=
      match s.commitCheck txID tx with
      | .error s => (.err .conflict, s)
      | .ok captured =>
        match s.commitApply spi txID tx committer captured clock bufferOrder deleteOrder with
        | .error (e, s) => (.err e, s)
        | .ok (submitTime, s) => (.ok (), s.commitFinish txID tx submitTime evict activeOrder)
    (rest s' clock' evict' activeOrder').1 = (rest s clock evict activeOrder).1 ∧
      SameCommitted (rest s clock evict activeOrder).2.factory
        (rest s' clock' evict' activeOrder').2.factory := by
  have hsame : SameCommitted s.factory s'.factory := h.factory ▸ .refl _
  intro rest
  simp only [rest, System.commitCheck, h.conflicts]
  cases hconflict : Memory.conflicts s.tm txID tx with
  | true => exact ⟨rfl, hsame⟩
  | false =>
    simp only [Bool.false_eq_true, if_false, System.commitApply, capture, h.claims hget]
    cases hclaims : validateClaims spi s.factory tx.tenantID tx.deletes
        (s.tm.txUniqueKeys.getD txID ∅)
        (tx.buffer.inOrder (tx.buffer.keys.insertionSort (· ≤ ·))) ∅ ∅ with
    | error e => exact ⟨rfl, hsame⟩
    | ok claims =>
      refine ⟨rfl, hsame.flush txID tx committer h.ops.symm (fun eid => ?_) claims _ _ _ _⟩
      exact (h.superseded eid).symm

/-- Commits of what is staged alike have the same outcome, and commit the same. -/
theorem StagedAlike.commit (h : StagedAlike txID s s') (ctx : Ctx)
    (clock clock' evict evict' : Time) (bufferOrder deleteOrder : List EntityID)
    (activeOrder activeOrder' : List TxID) :
    (s'.commit spi ctx txID clock' evict' bufferOrder deleteOrder activeOrder').1 =
      (s.commit spi ctx txID clock evict bufferOrder deleteOrder activeOrder).1 ∧
    SameCommitted
      (s.commit spi ctx txID clock evict bufferOrder deleteOrder activeOrder).2.factory
      (s'.commit spi ctx txID clock' evict' bufferOrder deleteOrder activeOrder').2.factory := by
  have hsame : SameCommitted s.factory s'.factory := h.factory ▸ .refl _
  have hmarked : StagedAlike txID
      { s with tm := { s.tm with committing := insert txID s.tm.committing } }
      { s' with tm := { s'.tm with committing := insert txID s'.tm.committing } } :=
    { h with committing := by rw [h.committing] }
  simp only [System.commit, System.commitMark, h.activeTx, h.committing]
  cases hactive : s.activeTx txID with
  | none => exact ⟨rfl, hsame⟩
  | some tx =>
    have hget := (activeTx_eq_some.mp hactive).2
    by_cases htenant : System.tenantMatches ctx.user tx
    · by_cases hcommitting : txID ∈ s.tm.committing
      · simp only [htenant, hcommitting, Bool.not_true, Bool.false_eq_true, if_false, if_true]
        exact ⟨trivial, hsame⟩
      simp only [htenant, hcommitting, Bool.not_true, Bool.false_eq_true, if_false]
      rw [h.committing] at hmarked
      exact hmarked.commitCheck hget ctx.attribution clock clock' evict evict' bufferOrder
        deleteOrder activeOrder activeOrder'
    · simp only [htenant, Bool.not_false, if_true]
      exact ⟨trivial, hsame⟩

end Commit

/-! ## Calls of one transaction -/

/-- The calls of a transaction between a savepoint and the way back to it. -/
inductive OwnCall where
  | store (tid : TenantID) (ctx : Ctx) (call : StoreCall) (order : List EntityID)
  | savepoint (user : Option TenantID) (spID : SavepointID)
  | rollbackToSavepoint (user : Option TenantID) (spID : SavepointID)
  | releaseSavepoint (user : Option TenantID) (spID : SavepointID)

def ownStep (spi : Spi) (txID : TxID) (s : System) : OwnCall → Option (Outcome Value × System)
  | .store tid ctx call order =>
    (s.txs.get txID).map fun tx => s.storeTx spi tid ctx txID tx order call
  | .savepoint user spID => some (s.manage user (.savepoint txID spID))
  | .rollbackToSavepoint user spID => some (s.manage user (.rollbackToSavepoint txID spID))
  | .releaseSavepoint user spID => some (s.manage user (.releaseSavepoint txID spID))

/-- Runs of one transaction's calls in which none cuts a list beyond its length. -/
abbrev OwnRun (spi : Spi) (txID : TxID)
    (allowed : List (Event System OwnCall (Outcome Value)) → System → OwnCall → Prop) :
    System → List (Event System OwnCall (Outcome Value)) → System → Prop :=
  Run (ownStep spi txID) fun tr s call =>
    (∀ user spID, call = .rollbackToSavepoint user spID →
      World.savepointCurrent s.tm txID spID = true) ∧ allowed tr s call

namespace System

variable (s : System) (txID : TxID)

def savepointsOf : GoMap SavepointID SavepointSnapshot := s.tm.savepoints.getD txID ∅

def opsOf : List ScheduledTaskOp := s.tm.scheduledTaskOps.getD txID []

def supersededOf : GoMap EntityID (List Entity) := s.tm.supersededSaves.getD txID ∅

def keysOf (eid : EntityID) : List UniqueKey := (s.tm.txUniqueKeys.getD txID ∅).getD eid []

/-- What a savepoint taken now would keep. -/
def snapshotOf (tx : TransactionState) : SavepointSnapshot where
  buffer := tx.buffer
  readSet := tx.readSet
  writeSet := tx.writeSet
  deletes := tx.deletes
  deleteAttribution := tx.deleteAttribution
  scheduledTaskOpsLen := (s.opsOf txID).length
  supersededLens := (s.supersededOf txID).map List.length

end System

open Memory.System

/-- The lists that `snap` recorded are no longer than those that `snap'` recorded. -/
structure SavepointSnapshot.Within (snap snap' : SavepointSnapshot) : Prop where
  ops : snap.scheduledTaskOpsLen ≤ snap'.scheduledTaskOpsLen
  superseded : ∀ eid n, snap.supersededLens.get eid = some n →
    ∃ n', snap'.supersededLens.get eid = some n' ∧ n ≤ n'

/-- The entity that a call saves. -/
def StoreCall.saved : StoreCall → Option Entity
  | .save entity | .compareAndSave entity _ => some entity
  | _ => none

/-- A call that keeps what the savepoint `spID`, just taken in `start`, stands for. It does not
end the savepoint. If it goes back to an older one, then nothing was staged in between. An
entity that was buffered is saved with the unique keys that were captured for it. -/
def Keeps (txID : TxID) (spID : SavepointID) (start : System)
    (_ : List (Event System OwnCall (Outcome Value))) (_ : System) : OwnCall → Prop
  | .store _ ctx call _ => ∀ entity, call.saved = some entity →
    ∀ tx, start.txs.get txID = some tx → entity.info.id ∈ tx.buffer.keys →
    ctx.uniqueKeys = start.keysOf txID entity.info.id
  | .savepoint _ new => new ≠ spID
  | .rollbackToSavepoint _ old => old ≠ spID ∧
    ∀ snap snapOld, (start.savepointsOf txID).get spID = some snap →
      (start.savepointsOf txID).get old = some snapOld → snap.Within snapOld
  | .releaseSavepoint _ old => old ≠ spID

/-! ## What the calls do -/

/-- What a store call can do to its transaction. -/
inductive Wrote (s : System) (txID : TxID) (tx : TransactionState) (keys : List UniqueKey)
    (saved : Option Entity) : System → Prop where
  | same : Wrote s txID tx keys saved s
  | record {tx' : TransactionState} (hid : SameIdentity tx tx') :
      Wrote s txID tx keys saved (s.setTx txID tx')
  | buffered {tx' : TransactionState} {entity : Entity} (hid : SameIdentity tx tx')
      (hsaved : saved = some entity) :
      Wrote s txID tx keys saved (s.bufferEntity txID tx' entity keys)
  | staged (op : ScheduledTaskOp) :
      Wrote s txID tx keys saved { s with tm := s.tm.stageScheduledTaskOp txID op }

section Calls

variable {spi : Spi} {s : System} {txID : TxID} {tx : TransactionState}

theorem wrote_storeTx (tid : TenantID) (ctx : Ctx) (order : List EntityID) (call : StoreCall) :
    Wrote s txID tx ctx.uniqueKeys call.saved (s.storeTx spi tid ctx txID tx order call).2 := by
  cases call with
  | save entity =>
    simp only [storeTx, saveTx]
    split
    · exact .same
    · exact .buffered ⟨rfl, rfl, rfl, rfl⟩ rfl
  | compareAndSave entity expectedTxID =>
    have hbuffered : Wrote s txID tx ctx.uniqueKeys
        (StoreCall.compareAndSave entity expectedTxID).saved
        (s.bufferEntity txID tx entity ctx.uniqueKeys) := .buffered (.refl tx) rfl
    simp only [storeTx, compareAndSaveTx]
    split
    · exact .same
    split
    · exact .same
    split
    · exact .same
    split
    · split
      · exact .same
      · exact hbuffered
    · split
      · exact .same
      · exact hbuffered
  | delete id =>
    simp only [storeTx, deleteTx]
    split
    · exact .same
    split
    · exact .record (sameIdentity_stageDelete tx id _)
    · exact .same
  | deleteAll modelRef =>
    simp only [storeTx, deleteAllTx]
    split
    · exact .same
    refine .record ?_
    exact (sameIdentity_foldl _ (fun tx (e : Entity) => sameIdentity_stageDelete tx e.info.id _)
      _ tx).trans (sameIdentity_foldl _ (fun tx id => sameIdentity_stageDelete tx id _) _ _)
  | read op =>
    simp only [storeTx, recordReads]
    split
    · exact .same
    · exact .record ⟨rfl, rfl, rfl, rfl⟩
  | stage op =>
    simp only [storeTx, stageTx]
    split
    · exact .same
    · exact .staged op

variable {keys : List UniqueKey} {saved : Option Entity} {s' : System}

theorem Wrote.edited (h : Wrote s txID tx keys saved s') (hget : s.txs.get txID = some tx) :
    Edited txID tx s s' := by
  cases h with
  | same => exact ⟨rfl, .refl _ _, fun _ _ => rfl, tx, hget, .refl tx⟩
  | record hid => exact edited_setTx hid
  | buffered hid _ => exact edited_bufferEntity _ keys hid
  | staged op => exact edited_stage op hget

open TransactionManager

theorem Wrote.savepointsOf (h : Wrote s txID tx keys saved s') :
    s'.savepointsOf txID = s.savepointsOf txID := by
  cases h with
  | @buffered tx' entity _ _ =>
    cases hprior : tx'.buffer.get entity.info.id <;>
      simp only [System.savepointsOf, bufferEntity, recordUniqueKeys,
        stageSuperseded, hprior]
  | _ => rfl

theorem Wrote.opsOf (h : Wrote s txID tx keys saved s') : s.opsOf txID <+: s'.opsOf txID := by
  cases h with
  | @buffered tx' entity _ _ =>
    cases hprior : tx'.buffer.get entity.info.id <;>
      simp only [System.opsOf, bufferEntity, recordUniqueKeys,
        stageSuperseded, hprior, List.prefix_rfl]
  | staged op =>
    simp only [System.opsOf, stageScheduledTaskOp, getD_set_self]
    exact List.prefix_append _ _
  | _ => exact List.prefix_rfl

theorem Wrote.supersededOf (h : Wrote s txID tx keys saved s') {eid : EntityID}
    {saves : List Entity} (hsaves : (s.supersededOf txID).get eid = some saves) :
    ∃ saves', (s'.supersededOf txID).get eid = some saves' ∧ saves <+: saves' := by
  cases h with
  | @buffered tx' entity _ _ =>
    cases hprior : tx'.buffer.get entity.info.id with
    | none =>
      refine ⟨saves, ?_, List.prefix_rfl⟩
      simpa only [System.supersededOf, bufferEntity, recordUniqueKeys,
        stageSuperseded, hprior] using hsaves
    | some prior =>
      simp only [System.supersededOf, bufferEntity, recordUniqueKeys,
        stageSuperseded, hprior, getD_set_self, get_set]
      split
      · rename_i heid
        refine ⟨_, rfl, ?_⟩
        subst heid
        rw [System.supersededOf] at hsaves
        rw [getD, hsaves]
        exact List.prefix_append _ _
      · exact ⟨saves, hsaves, List.prefix_rfl⟩
  | _ => exact ⟨saves, hsaves, List.prefix_rfl⟩

/-- Only a save captures unique keys, and only those of its entity. -/
theorem Wrote.keysOf (h : Wrote s txID tx keys saved s') {eid : EntityID}
    (hkeys : ∀ entity, saved = some entity → entity.info.id = eid → keys = s.keysOf txID eid) :
    s'.keysOf txID eid = s.keysOf txID eid := by
  cases h with
  | @buffered tx' entity _ hsaved =>
    have hset : (s.bufferEntity txID tx' entity keys).keysOf txID eid =
        if eid = entity.info.id then keys else s.keysOf txID eid := by
      cases hprior : tx'.buffer.get entity.info.id <;>
        simp only [System.keysOf, bufferEntity, recordUniqueKeys,
          stageSuperseded, hprior, getD_set_self, getD_set]
    rw [hset]
    split
    · rename_i heid
      exact hkeys entity hsaved heid.symm
    · rfl
  | _ => rfl

/-- What going back to a savepoint does when it succeeds. -/
structure Restored (txID : TxID) (tx : TransactionState) (spID : SavepointID)
    (snap : SavepointSnapshot) (s s' : System) : Prop where
  edited : Edited txID tx s s'
  record : s'.txs.get txID = some { tx with
    buffer := snap.buffer
    readSet := snap.readSet
    writeSet := snap.writeSet
    deletes := snap.deletes
    deleteAttribution := snap.deleteAttribution }
  savepointsOf : s'.savepointsOf txID = (s.savepointsOf txID).del spID
  opsOf : s'.opsOf txID = (s.opsOf txID).take snap.scheduledTaskOpsLen
  supersededOf : ∀ eid, (s'.supersededOf txID).get eid =
    ((s.supersededOf txID).get eid).bind fun saves => (snap.supersededLens.get eid).map saves.take
  keysOf : s'.keysOf txID = s.keysOf txID

theorem rollbackToSavepoint_restored {user : Option TenantID} {spID : SavepointID}
    {snap : SavepointSnapshot} (hopen : s.openTx "RollbackToSavepoint" user txID = .ok tx)
    (hsnap : (s.savepointsOf txID).get spID = some snap) :
    (s.rollbackToSavepoint user txID spID).1 = .ok () ∧
      Restored txID tx spID snap s (s.rollbackToSavepoint user txID spID).2 := by
  rw [System.savepointsOf] at hsnap
  have hedited := edited_rollbackToSavepoint hopen hsnap
  simp only [System.rollbackToSavepoint, hopen, hsnap] at hedited ⊢
  refine ⟨trivial, hedited, get_set_self _ _ _, ?_, ?_, fun eid => ?_, rfl⟩
  · simp only [System.savepointsOf, getD_set_self]
  · simp only [System.opsOf]
    split
    · rw [getD_set_self]
    · rw [List.take_of_length_le (Nat.le_of_not_lt ‹_›)]
  · simp only [System.supersededOf]
    cases hsaves : s.tm.supersededSaves.get txID with
    | none => simp [getD, hsaves]
    | some saves => simp [getD, hsaves, truncateSuperseded, get_filterMap]

theorem openTx_of_sameIdentity {op op' : String} {user : Option TenantID} {tx' : TransactionState}
    (hopen : s.openTx op user txID = .ok tx) (hactive : s'.tm.active = s.tm.active)
    (hget : s'.txs.get txID = some tx') (hid : SameIdentity tx tx') :
    s'.openTx op' user txID = .ok tx' := by
  obtain ⟨hmem, hget0, hrolledBack, hclosed⟩ := openTx_eq_ok hopen
  have htenant : tenantMatches user tx = true := by
    by_contra hno
    simp [openTx, activeTx_eq_some.mpr ⟨hmem, hget0⟩, hno] at hopen
  have hactiveTx : s'.activeTx txID = some tx' := activeTx_eq_some.mpr ⟨hactive ▸ hmem, hget⟩
  rw [tenantMatches, ← hid.tenantID] at htenant
  simp [openTx, hactiveTx, tenantMatches, htenant, hid.rolledBack, hrolledBack,
    hid.closed, hclosed]

end Calls

/-! ## The way back -/

theorem Edited.trans {txID : TxID} {tx tx' : TransactionState} {s s' s'' : System}
    (h : Edited txID tx s s') (hget : s'.txs.get txID = some tx') (h' : Edited txID tx' s' s'') :
    Edited txID tx s s'' := by
  refine ⟨h'.factory.trans h.factory, h.staged.trans h'.staged,
    fun t ht => (h'.others t ht).trans (h.others t ht), ?_⟩
  obtain ⟨tx1, hget1, hid1⟩ := h.record
  cases hget1.symm.trans hget
  obtain ⟨tx2, hget2, hid2⟩ := h'.record
  exact ⟨tx2, hget2, hid1.trans hid2⟩

/-- The savepoint `spID`, taken in `start`, can be gone back to from `s`. -/
structure Recoverable (txID : TxID) (spID : SavepointID) (tx : TransactionState)
    (start s : System) : Prop where
  edited : Edited txID tx start s
  snapshot : (s.savepointsOf txID).get spID = some (start.snapshotOf txID tx)
  ops : start.opsOf txID <+: s.opsOf txID
  superseded : ∀ eid saves, (start.supersededOf txID).get eid = some saves →
    ∃ saves', (s.supersededOf txID).get eid = some saves' ∧ saves <+: saves'
  keys : ∀ eid ∈ tx.buffer.keys, s.keysOf txID eid = start.keysOf txID eid
  others : ∀ id snap, (s.savepointsOf txID).get id = some snap →
    (start.savepointsOf txID).get id = some snap ∨ (start.snapshotOf txID tx).Within snap

namespace Recoverable

variable {spi : Spi} {txID : TxID} {spID : SavepointID} {tx tx' : TransactionState}
  {start s s' : System} (h : Recoverable txID spID tx start s)

include h

theorem within (tx' : TransactionState) :
    (start.snapshotOf txID tx).Within (s.snapshotOf txID tx') := by
  refine ⟨h.ops.length_le, fun eid n hn => ?_⟩
  simp only [System.snapshotOf, get_map, Option.map_eq_some_iff] at hn ⊢
  obtain ⟨saves, hsaves, rfl⟩ := hn
  obtain ⟨saves', hsaves', hle⟩ := h.superseded eid saves hsaves
  exact ⟨_, ⟨saves', hsaves', rfl⟩, hle.length_le⟩

theorem wrote (hget : s.txs.get txID = some tx')
    {keys : List UniqueKey} {saved : Option Entity} (hwrote : Wrote s txID tx' keys saved s')
    (hkeys : ∀ entity, saved = some entity → entity.info.id ∈ tx.buffer.keys →
      keys = start.keysOf txID entity.info.id) : Recoverable txID spID tx start s' where
  edited := h.edited.trans hget (hwrote.edited hget)
  snapshot := hwrote.savepointsOf ▸ h.snapshot
  ops := h.ops.trans hwrote.opsOf
  superseded := by
    intro eid saves hsaves
    obtain ⟨saves1, hsaves1, hle1⟩ := h.superseded eid saves hsaves
    obtain ⟨saves2, hsaves2, hle2⟩ := hwrote.supersededOf hsaves1
    exact ⟨saves2, hsaves2, hle1.trans hle2⟩
  keys := by
    intro eid heid
    refine (hwrote.keysOf fun entity hsaved hid => ?_).trans (h.keys eid heid)
    subst hid
    rw [h.keys _ heid]
    exact hkeys entity hsaved heid
  others := hwrote.savepointsOf ▸ h.others

/-- A change of the savepoints only. -/
theorem of_savepoints {savepoints : GoMap SavepointID SavepointSnapshot}
    (hsnapshot : savepoints.get spID = some (start.snapshotOf txID tx))
    (hothers : ∀ id snap, savepoints.get id = some snap →
      (s.savepointsOf txID).get id = some snap ∨ (start.snapshotOf txID tx).Within snap) :
    Recoverable txID spID tx start
      { s with tm := { s.tm with savepoints := s.tm.savepoints.set txID savepoints } } where
  edited := by
    obtain ⟨tx', hget, hid⟩ := h.edited.record
    refine h.edited.trans hget ⟨rfl, ?_, fun _ _ => rfl, tx', hget, .refl tx'⟩
    exact { StagedFor.refl txID s.tm with savepoints := fun _ ht => get_set_of_ne _ _ ht }
  snapshot := by simpa only [System.savepointsOf, getD_set_self] using hsnapshot
  ops := h.ops
  superseded := h.superseded
  keys := h.keys
  others := by
    intro id snap hsnap
    simp only [System.savepointsOf, getD_set_self] at hsnap
    exact (hothers id snap hsnap).elim (h.others id snap) .inr

theorem savepoint (user : Option TenantID)
    {new : SavepointID} (hnew : new ≠ spID) :
    Recoverable txID spID tx start (s.savepoint user txID new).2 := by
  unfold System.savepoint
  split
  · exact h
  rename_i tx' _
  refine h.of_savepoints ?_ fun id snap hsnap => ?_
  · exact (get_set_of_ne _ _ hnew.symm).trans h.snapshot
  · rw [get_set] at hsnap
    split at hsnap
    · cases hsnap
      exact .inr (h.within tx')
    · exact .inl hsnap

variable {old : SavepointID}

theorem releaseSavepoint (user : Option TenantID)
    (hold : old ≠ spID) :
    Recoverable txID spID tx start (s.releaseSavepoint user txID old).2 := by
  unfold System.releaseSavepoint
  split
  · exact h
  split
  · split
    · exact h
    refine h.of_savepoints ?_ fun id snap hsnap => ?_
    · exact (get_del_of_ne _ hold.symm).trans h.snapshot
    · rw [get_del] at hsnap
      split at hsnap
      · cases hsnap
      · exact .inl hsnap
  · exact h

/-- Going back to a savepoint that recorded at least as much shortens nothing that `spID`
needs. -/
theorem restored (hget : s.txs.get txID = some tx')
    {snap : SavepointSnapshot} (hrestored : Restored txID tx' old snap s s') (hold : old ≠ spID)
    (hwithin : (start.snapshotOf txID tx).Within snap) :
    Recoverable txID spID tx start s' where
  edited := h.edited.trans hget hrestored.edited
  snapshot := by
    rw [hrestored.savepointsOf, get_del_of_ne _ hold.symm]
    exact h.snapshot
  ops := by
    rw [hrestored.opsOf]
    exact (List.prefix_take_iff).mpr ⟨h.ops, hwithin.ops⟩
  superseded := by
    intro eid saves hsaves
    obtain ⟨saves', hsaves', hle⟩ := h.superseded eid saves hsaves
    have hlen : (start.snapshotOf txID tx).supersededLens.get eid = some saves.length := by
      rw [System.snapshotOf, get_map, hsaves, Option.map_some]
    obtain ⟨n, hn, hlen⟩ := hwithin.superseded eid _ hlen
    refine ⟨saves'.take n, ?_, List.prefix_take_iff.mpr ⟨hle, hlen⟩⟩
    rw [hrestored.supersededOf, hsaves', Option.bind_some, hn, Option.map_some]
  keys := hrestored.keysOf ▸ h.keys
  others := by
    intro id snap' hsnap'
    rw [hrestored.savepointsOf, get_del] at hsnap'
    split at hsnap'
    · cases hsnap'
    · exact h.others id snap' hsnap'

theorem rollbackToSavepoint (user : Option TenantID)
    (hold : old ≠ spID)
    (holder : ∀ snap, (start.savepointsOf txID).get old = some snap →
      (start.snapshotOf txID tx).Within snap) :
    Recoverable txID spID tx start (s.rollbackToSavepoint user txID old).2 := by
  cases hopen : s.openTx "RollbackToSavepoint" user txID with
  | error e => simpa only [System.rollbackToSavepoint, hopen] using h
  | ok tx' =>
    cases hsnap : (s.savepointsOf txID).get old with
    | none =>
      rw [System.savepointsOf] at hsnap
      simpa only [System.rollbackToSavepoint, hopen, hsnap] using h
    | some snap =>
      have hrestored := (rollbackToSavepoint_restored hopen hsnap).2
      refine h.restored (openTx_eq_ok hopen).2.1 hrestored hold ?_
      exact (h.others old snap hsnap).elim (holder snap) id

omit h in
theorem step {tr : List (Event System OwnCall (Outcome Value))} {call : OwnCall}
    {r : Outcome Value} (hstart : (start.savepointsOf txID).get spID = some (start.snapshotOf txID tx))
    (hget : start.txs.get txID = some tx) (h : Recoverable txID spID tx start s)
    (hkeeps : Keeps txID spID start tr s call) (hstep : ownStep spi txID s call = some (r, s')) :
    Recoverable txID spID tx start s' := by
  cases call with
  | store tid ctx call order =>
    obtain ⟨tx', hget', -⟩ := h.edited.record
    simp only [ownStep, hget', Option.map_some] at hstep
    obtain ⟨-, rfl⟩ := Prod.mk.inj (Option.some.inj hstep)
    refine h.wrote hget' (wrote_storeTx tid ctx order call) ?_
    exact fun entity hsaved hmem => hkeeps entity hsaved tx hget hmem
  | savepoint user new =>
    cases hstep
    exact h.savepoint user hkeeps
  | rollbackToSavepoint user old =>
    cases hstep
    exact h.rollbackToSavepoint user hkeeps.1 fun snap hsnap => hkeeps.2 _ snap hstart hsnap
  | releaseSavepoint user old =>
    cases hstep
    exact h.releaseSavepoint user hkeeps

/-- The lists are long enough for what the savepoint recorded. -/
theorem savepointCurrent : World.savepointCurrent s.tm txID spID = true := by
  have hsnapshot := h.snapshot
  rw [System.savepointsOf] at hsnapshot
  simp only [World.savepointCurrent, hsnapshot, Option.all_some, List.all_eq_true,
    decide_eq_true_eq]
  intro eid _
  cases hsaves : (start.supersededOf txID).get eid with
  | none => simp [getD, System.snapshotOf, get_map, hsaves]
  | some saves =>
    obtain ⟨saves', hsaves', hle⟩ := h.superseded eid saves hsaves
    have hnow : (s.tm.supersededSaves.getD txID ∅).getD eid [] = saves' := by
      rw [getD, ← System.supersededOf, hsaves', Option.getD_some]
    rw [hnow]
    simpa [System.snapshotOf, getD, get_map, hsaves] using hle.length_le

theorem stagedAlike (hget : start.txs.get txID = some tx)
    (hget' : s.txs.get txID = some tx') (hid : SameIdentity tx tx')
    (hrestored : Restored txID tx' spID (start.snapshotOf txID tx) s s') :
    StagedAlike txID start s' where
  factory := hrestored.edited.factory.trans h.edited.factory
  active := hrestored.edited.staged.active.trans h.edited.staged.active
  committedLog := hrestored.edited.staged.committedLog.trans h.edited.staged.committedLog
  committing := hrestored.edited.staged.committing.trans h.edited.staged.committing
  txSnapshotSeq := hrestored.edited.staged.txSnapshotSeq.trans h.edited.staged.txSnapshotSeq
  record := by
    rw [hrestored.record, hget]
    cases tx
    cases tx'
    obtain ⟨rfl, rfl, rfl, rfl⟩ := hid
    rfl
  ops := by
    have hops := hrestored.opsOf
    rw [System.snapshotOf, ← List.prefix_iff_eq_take.mp h.ops] at hops
    exact hops
  superseded := by
    intro eid
    change (s'.supersededOf txID).getD eid [] = (start.supersededOf txID).getD eid []
    rw [getD, getD, hrestored.supersededOf, System.snapshotOf, get_map]
    cases hsaves : (start.supersededOf txID).get eid with
    | none => simp
    | some saves =>
      obtain ⟨saves', hsaves', hle⟩ := h.superseded eid saves hsaves
      rw [hsaves', Option.map_some, Option.bind_some, Option.map_some, Option.getD_some,
        Option.getD_some, ← List.prefix_iff_eq_take.mp hle]
  keys := by
    intro tx1 hget1 eid heid
    cases hget1.symm.trans hget
    have hkeys := congrFun hrestored.keysOf eid
    exact hkeys.trans (h.keys eid heid)

end Recoverable

theorem recoverable_savepoint {s : System} {user : Option TenantID} {txID : TxID}
    {tx : TransactionState} (spID : SavepointID) (hopen : s.openTx "Savepoint" user txID = .ok tx) :
    let start := (s.savepoint user txID spID).2
    Recoverable txID spID tx start start ∧ start.openTx "Savepoint" user txID = .ok tx := by
  obtain ⟨-, hget, -, -⟩ := openTx_eq_ok hopen
  simp only [System.savepoint, hopen]
  refine ⟨⟨⟨rfl, .refl _ _, fun _ _ => rfl, tx, hget, .refl tx⟩, ?_, List.prefix_rfl,
    fun _ saves hsaves => ⟨saves, hsaves, List.prefix_rfl⟩, fun _ _ => rfl,
    fun _ _ hsnap => .inl hsnap⟩, openTx_of_sameIdentity hopen rfl hget (.refl tx)⟩
  simp only [System.savepointsOf, getD_set_self, get_set_self]
  rfl

/-- Whatever the transaction did since the savepoint, as long as every call keeps what the
savepoint stands for: going back to it succeeds and cuts no list beyond its length, and a commit then has the outcome and leaves
the committed data that a commit at the savepoint would have. -/
theorem rollbackToSavepoint_commits_as_then {spi : Spi} {s s' : System} {user : Option TenantID}
    {txID : TxID} {spID : SavepointID} {tr : List (Event System OwnCall (Outcome Value))}
    (htaken : (s.savepoint user txID spID).1 = .ok spID)
    (hrun : OwnRun spi txID (Keeps txID spID (s.savepoint user txID spID).2)
      (s.savepoint user txID spID).2 tr s') :
    World.savepointCurrent s'.tm txID spID = true ∧
    ∃ s'', ownStep spi txID s' (.rollbackToSavepoint user spID) = some (.ok .unit, s'') ∧
      ∀ ctx clock clock' evict evict' bufferOrder deleteOrder activeOrder activeOrder',
        let back := s''.commit spi ctx txID clock' evict' bufferOrder deleteOrder activeOrder'
        let direct := (s.savepoint user txID spID).2.commit spi ctx txID clock evict bufferOrder
          deleteOrder activeOrder
        back.1 = direct.1 ∧ SameCommitted direct.2.factory back.2.factory := by
  obtain ⟨tx, hopen⟩ : ∃ tx, s.openTx "Savepoint" user txID = .ok tx := by
    cases hopen : s.openTx "Savepoint" user txID with
    | error e => simp [System.savepoint, hopen] at htaken
    | ok tx => exact ⟨tx, rfl⟩
  obtain ⟨hinit, hopen⟩ := recoverable_savepoint spID hopen
  generalize (s.savepoint user txID spID).2 = start at hinit hopen hrun
  obtain ⟨-, hget, -, -⟩ := openTx_eq_ok hopen
  have hrecoverable : Recoverable txID spID tx start s' := by
    refine hrun.inv (I := fun _ s' => Recoverable txID spID tx start s') hinit ?_
    intro tr x call r y h hkeeps hstep
    exact h.step hinit.snapshot hget hkeeps.2 hstep
  obtain ⟨tx', hget', hid⟩ := hrecoverable.edited.record
  have hopen' : s'.openTx "RollbackToSavepoint" user txID = .ok tx' :=
    openTx_of_sameIdentity hopen hrecoverable.edited.staged.active hget' hid
  obtain ⟨hok, hrestored⟩ := rollbackToSavepoint_restored hopen' hrecoverable.snapshot
  refine ⟨hrecoverable.savepointCurrent, _, ?_, fun ctx clock clock' evict evict' bufferOrder deleteOrder activeOrder activeOrder' =>
    (hrecoverable.stagedAlike hget hget' hid hrestored).commit ctx clock clock' evict evict'
      bufferOrder deleteOrder activeOrder activeOrder'⟩
  simp only [ownStep, manage, hok]
  rfl

namespace Sample

def order : Entity := entity "e" [1]

def orderKey : UniqueKey := ⟨"k", ["$.number"]⟩

def task : ScheduledTask where
  id := "task"
  tenantID := "A"
  scheduledTime := 100
  timeoutMs := none
  entityID := "e"
  transition := "expire"
  sourceState := "OPEN"
  armedAt := 0
  armedBy := user
  redispatchAfter := none
  attemptCount := 0

/-- A save of the order inside the transaction, with the given unique keys in its context. -/
def saveOrder (keys : List UniqueKey) : OwnCall := .store "A" (ctx "A" (some "t") keys) (.save order) []

/-- A transaction that saved the order, took the savepoint `X` and staged a task. -/
def stagedTask : System :=
  let s := (empty.begin (some "A") "t" 10).2
  let s := (s.txs.get "t").elim s fun tx => (s.saveTx "t" tx order [orderKey]).2
  let s := (s.savepoint (some "A") "t" "X").2
  { s with tm := s.tm.stageScheduledTaskOp "t" (.upsert task) }

/-- The savepoint `S` comes next. -/
def atSavepoint : System := (stagedTask.savepoint (some "A") "t" "S").2

def backTo (spID : SavepointID) : OwnCall := .rollbackToSavepoint (some "A") spID

def committed (s : System) : StoreFactory :=
  (s.commit spi (ctx "A" none []) "t" 20 20 ["e"] [] ["t"]).2.factory

end Sample

open Sample

theorem rollbackToSavepoint_commits_as_then_nested :
    ∃ tr s s', OwnRun spi "t" (Keeps "t" "S" atSavepoint)
        atSavepoint tr s ∧
      tr.map (·.action) =
        [backTo "Y", saveOrder [orderKey], .savepoint (some "A") "Y"] ∧
      ownStep spi "t" s (backTo "S") = some (.ok .unit, s') ∧
      SameCommitted (committed atSavepoint) (committed s') := by
  have hstart : OwnRun spi "t" (Keeps "t" "S" atSavepoint)
      atSavepoint [] atSavepoint := .nil
  have hnew : "Y" ≠ "S" := by decide
  have htaken := Run.cons (OwnCall.savepoint (some "A") "Y") hstart ⟨nofun, hnew⟩ rfl
  have hkeys tr s : Keeps "t" "S" atSavepoint tr s (saveOrder [orderKey]) := by
    rintro entity ⟨⟩ tx _ _
    rfl
  have hsaved := Run.cons (saveOrder [orderKey]) htaken ⟨nofun, hkeys _ _⟩ rfl
  have hinner tr s : Keeps "t" "S" atSavepoint tr s (backTo "Y") := by
    refine ⟨hnew, fun snap snapOld _ hold => ?_⟩
    cases hold
  have hrun := Run.cons (backTo "Y") hsaved ⟨by rintro _ _ ⟨⟩; decide, hinner _ _⟩ rfl
  obtain ⟨-, s', hback, hcommit⟩ := rollbackToSavepoint_commits_as_then rfl hrun
  exact ⟨_, _, s', hrun, rfl, hback,
    (hcommit (ctx "A" none []) 20 20 20 20 ["e"] [] ["t"] ["t"]).2⟩

/-- A later save of the order leaves its keys behind, so that no claim is committed; a savepoint
is gone once it was rolled back to; and the task that was staged before `S` does not come back
after a rollback to `X`. -/
theorem rollbackToSavepoint_loses :
    (committed atSavepoint).uniqueClaims.keys ≠ [] ∧
    (committed atSavepoint).scheduledTasks.keys ≠ [] ∧
    (∃ tr s s', OwnRun spi "t" AnyStep atSavepoint tr s ∧
      tr.map (·.action) = [saveOrder []] ∧
      ownStep spi "t" s (backTo "S") = some (.ok .unit, s') ∧
      (committed s').uniqueClaims.keys = []) ∧
    (∃ tr s, OwnRun spi "t" AnyStep atSavepoint tr s ∧
      tr.map (·.action) = [backTo "S"] ∧
      ownStep spi "t" s (backTo "S") =
        some (.err (.savepointNotFound "RollbackToSavepoint" "t" "S"), s)) ∧
    (∃ tr s s', OwnRun spi "t" AnyStep atSavepoint tr s ∧
      tr.map (·.action) = [backTo "X"] ∧
      ownStep spi "t" s (backTo "S") = some (.ok .unit, s') ∧
      (committed s').scheduledTasks.keys = []) := by
  refine ⟨by decide +kernel, by decide +kernel, ?_, ?_, ?_⟩
  · exact ⟨_, _, _, .cons (saveOrder []) .nil ⟨nofun, trivial⟩ rfl, rfl, rfl, by decide +kernel⟩
  · exact ⟨_, _, .cons (backTo "S") .nil ⟨by rintro _ _ ⟨⟩; decide, trivial⟩ rfl, rfl, rfl⟩
  · exact ⟨_, _, _, .cons (backTo "X") .nil ⟨by rintro _ _ ⟨⟩; decide, trivial⟩ rfl, rfl, rfl, by decide +kernel⟩

end CyodaGo.Memory
