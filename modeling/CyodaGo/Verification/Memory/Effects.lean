import CyodaGo.Verification.Memory.Steps
import CyodaGo.Verification.Memory.Equations

/-! # Frames of the one-effect calls

Manager calls and in-transaction calls leave the factory alone and touch the record and
the staging maps of one transaction; direct calls leave every transaction alone. -/

namespace CyodaGo.Memory

open Memory.System

/-- What a call never changes in a transaction's record. -/
structure SameIdentity (tx tx' : TransactionState) : Prop where
  tenantID : tx'.tenantID = tx.tenantID
  snapshotTime : tx'.snapshotTime = tx.snapshotTime
  closed : tx'.closed = tx.closed
  rolledBack : tx'.rolledBack = tx.rolledBack

/-- `m'` differs from `m` in the staging maps of `txID` only. -/
structure StagedFor (txID : TxID) (m m' : TransactionManager) : Prop where
  active : m'.active = m.active
  committedLog : m'.committedLog = m.committedLog
  committing : m'.committing = m.committing
  submitTimes : m'.submitTimes = m.submitTimes
  commitSeq : m'.commitSeq = m.commitSeq
  txSnapshotSeq : m'.txSnapshotSeq = m.txSnapshotSeq
  lastSubmitTime : m'.lastSubmitTime = m.lastSubmitTime
  savepoints : ∀ t, t ≠ txID → m'.savepoints.get t = m.savepoints.get t
  txUniqueKeys : ∀ t, t ≠ txID → m'.txUniqueKeys.get t = m.txUniqueKeys.get t
  supersededSaves : ∀ t, t ≠ txID → m'.supersededSaves.get t = m.supersededSaves.get t
  scheduledTaskOps : ∀ t, t ≠ txID → m'.scheduledTaskOps.get t = m.scheduledTaskOps.get t

/-- `s'` differs from `s` in the record and the staging maps of `txID` only. -/
structure Edited (txID : TxID) (tx : TransactionState) (s s' : System) : Prop where
  factory : s'.factory = s.factory
  staged : StagedFor txID s.tm s'.tm
  others : ∀ t, t ≠ txID → s'.txs.get t = s.txs.get t
  record : ∃ tx', s'.txs.get txID = some tx' ∧ SameIdentity tx tx'

/-- What a manager call or an in-transaction call can do, where `free` tells whose
`OpMu` is not held and `starts` is the transaction the call may begin. -/
inductive CallEffect (free : TxID → Bool) (starts : Option TxID) (s s' : System) : Prop where
  | same (h : s' = s)
  | begun {txID : TxID} {tenant : TenantID} {snapshot : Time} (hstarts : starts = some txID)
      (hfresh : txID ∉ s.txs.keys) (hfloor : s.tm.lastSubmitTime ≤ snapshot)
      (h : s' = s.publish txID tenant snapshot)
  | edited {txID : TxID} {tx : TransactionState} (hfree : free txID = true)
      (hget : s.txs.get txID = some tx) (h : Edited txID tx s s')
  | released {savepoints : GoMap TxID (GoMap SavepointID SavepointSnapshot)}
      (h : s' = { s with tm := { s.tm with savepoints := savepoints } })

/-- What a call outside any transaction can do to the transactions: move the floor. -/
structure DirectEffect (s s' : System) : Prop where
  txs : s'.txs = s.txs
  floor : s.tm.lastSubmitTime ≤ s'.tm.lastSubmitTime
  tm : s'.tm = { s.tm with lastSubmitTime := s'.tm.lastSubmitTime }

theorem SameIdentity.refl (tx : TransactionState) : SameIdentity tx tx := ⟨rfl, rfl, rfl, rfl⟩

theorem StagedFor.refl (txID : TxID) (m : TransactionManager) : StagedFor txID m m :=
  ⟨rfl, rfl, rfl, rfl, rfl, rfl, rfl, fun _ _ => rfl, fun _ _ => rfl, fun _ _ => rfl,
    fun _ _ => rfl⟩

theorem DirectEffect.refl (s : System) : DirectEffect s s := ⟨rfl, le_rfl, rfl⟩

/-! ## The stamp -/

variable (m : TransactionManager) (clock : Time)

theorem lt_nextSubmitTime : m.lastSubmitTime < (m.nextSubmitTime clock).1 := by
  have hstamp : (m.nextSubmitTime clock).1 =
      if m.lastSubmitTime < clock then clock else m.lastSubmitTime + microsecond := rfl
  rw [hstamp]
  split
  · assumption
  · exact Int.lt_add_of_pos_right _ (by decide)

theorem nextSubmitTime_floor :
    (m.nextSubmitTime clock).2.lastSubmitTime = (m.nextSubmitTime clock).1 := rfl

/-! ## Staging -/

variable {txID : TxID} {s : System} {tx tx' : TransactionState}

theorem StagedFor.trans {m m' m'' : TransactionManager} (h : StagedFor txID m m')
    (h' : StagedFor txID m' m'') : StagedFor txID m m'' where
  active := h'.active.trans h.active
  committedLog := h'.committedLog.trans h.committedLog
  committing := h'.committing.trans h.committing
  submitTimes := h'.submitTimes.trans h.submitTimes
  commitSeq := h'.commitSeq.trans h.commitSeq
  txSnapshotSeq := h'.txSnapshotSeq.trans h.txSnapshotSeq
  lastSubmitTime := h'.lastSubmitTime.trans h.lastSubmitTime
  savepoints := fun t ht => (h'.savepoints t ht).trans (h.savepoints t ht)
  txUniqueKeys := fun t ht => (h'.txUniqueKeys t ht).trans (h.txUniqueKeys t ht)
  supersededSaves := fun t ht => (h'.supersededSaves t ht).trans (h.supersededSaves t ht)
  scheduledTaskOps := fun t ht => (h'.scheduledTaskOps t ht).trans (h.scheduledTaskOps t ht)

theorem stagedFor_recordUniqueKeys (txID : TxID) (entityID : EntityID) (keys : List UniqueKey) :
    StagedFor txID m (m.recordUniqueKeys txID entityID keys) :=
  { StagedFor.refl txID m with txUniqueKeys := fun _ ht => GoMap.get_set_of_ne _ _ ht }

theorem stagedFor_stageSuperseded (txID : TxID) (entityID : EntityID) (prior : Option Entity) :
    StagedFor txID m (m.stageSuperseded txID entityID prior) := by
  cases prior with
  | none => exact .refl txID m
  | some prior =>
    exact { StagedFor.refl txID m with supersededSaves := fun _ ht => GoMap.get_set_of_ne _ _ ht }

theorem stagedFor_stageScheduledTaskOp (txID : TxID) (op : ScheduledTaskOp) :
    StagedFor txID m (m.stageScheduledTaskOp txID op) :=
  { StagedFor.refl txID m with scheduledTaskOps := fun _ ht => GoMap.get_set_of_ne _ _ ht }

theorem edited_bufferEntity (entity : Entity) (keys : List UniqueKey) (hid : SameIdentity tx tx') :
    Edited txID tx s (s.bufferEntity txID tx' entity keys) where
  factory := rfl
  staged := (stagedFor_stageSuperseded _ _ _ _).trans (stagedFor_recordUniqueKeys _ _ _ _)
  others := fun _ ht => GoMap.get_set_of_ne _ _ ht
  record := ⟨_, GoMap.get_set_self _ _ _,
    ⟨hid.tenantID, hid.snapshotTime, hid.closed, hid.rolledBack⟩⟩

theorem edited_setTx (hid : SameIdentity tx tx') : Edited txID tx s (s.setTx txID tx') where
  factory := rfl
  staged := .refl _ _
  others := fun _ ht => GoMap.get_set_of_ne _ _ ht
  record := ⟨tx', GoMap.get_set_self _ _ _, hid⟩

theorem edited_stage (op : ScheduledTaskOp) (hget : s.txs.get txID = some tx) :
    Edited txID tx s { s with tm := s.tm.stageScheduledTaskOp txID op } where
  factory := rfl
  staged := stagedFor_stageScheduledTaskOp s.tm txID op
  others := fun _ _ => rfl
  record := ⟨tx, hget, .refl tx⟩

theorem sameIdentity_stageDelete (tx : TransactionState) (id : EntityID) (a : WriteAttribution) :
    SameIdentity tx (stageDelete tx id a) := ⟨rfl, rfl, rfl, rfl⟩

theorem SameIdentity.trans {tx'' : TransactionState} (h : SameIdentity tx tx')
    (h' : SameIdentity tx' tx'') : SameIdentity tx tx'' :=
  ⟨h'.tenantID.trans h.tenantID, h'.snapshotTime.trans h.snapshotTime, h'.closed.trans h.closed,
    h'.rolledBack.trans h.rolledBack⟩

theorem sameIdentity_foldl {β : Type} (f : TransactionState → β → TransactionState)
    (hf : ∀ tx b, SameIdentity tx (f tx b)) (bs : List β) (tx : TransactionState) :
    SameIdentity tx (bs.foldl f tx) := by
  induction bs generalizing tx with
  | nil => exact .refl tx
  | cons b bs ih => exact (hf tx b).trans (ih (f tx b))

/-! ## In-transaction calls -/

section InTx

variable {spi : Spi} {s : System} {tid : TenantID} {ctx : Ctx} {txID : TxID}
  {tx : TransactionState} {free : TxID → Bool}

theorem saveTx_effect (entity : Entity) (keys : List UniqueKey) (hfree : free txID = true)
    (hget : s.txs.get txID = some tx) : CallEffect free none s (s.saveTx txID tx entity keys).2 := by
  unfold saveTx
  split
  · exact .same rfl
  · exact .edited hfree hget (edited_bufferEntity entity keys ⟨rfl, rfl, rfl, rfl⟩)

theorem compareAndSaveTx_effect (entity : Entity) (expectedTxID : TxID) (keys : List UniqueKey)
    (hfree : free txID = true) (hget : s.txs.get txID = some tx) :
    CallEffect free none s (s.compareAndSaveTx tid txID tx entity expectedTxID keys).2 := by
  have hedit : CallEffect free none s (s.bufferEntity txID tx entity keys) :=
    .edited hfree hget (edited_bufferEntity entity keys (.refl tx))
  unfold compareAndSaveTx
  dsimp only
  split
  · exact .same rfl
  split
  · exact .same rfl
  split
  · split
    · exact .same rfl
    · exact hedit
  · split
    · exact .same rfl
    · exact hedit

theorem deleteTx_effect (id : EntityID) (a : WriteAttribution) (hfree : free txID = true)
    (hget : s.txs.get txID = some tx) : CallEffect free none s (s.deleteTx tid txID tx id a).2 := by
  unfold deleteTx
  split
  · exact .same rfl
  split
  · exact .edited hfree hget (edited_setTx (sameIdentity_stageDelete tx id a))
  · exact .same rfl

theorem deleteAllTx_effect (modelRef : ModelRef) (a : WriteAttribution) (order : List EntityID)
    (hfree : free txID = true) (hget : s.txs.get txID = some tx) :
    CallEffect free none s (s.deleteAllTx tid txID tx modelRef a order).2 := by
  unfold deleteAllTx
  split
  · exact .same rfl
  refine .edited hfree hget (edited_setTx ?_)
  exact (sameIdentity_foldl _ (fun tx (e : Entity) => sameIdentity_stageDelete tx e.info.id a) _ tx).trans
    (sameIdentity_foldl _ (fun tx id => sameIdentity_stageDelete tx id a) _ _)

theorem recordReads_effect (ids : Finset EntityID) (hget : s.txs.get txID = some tx)
    (h : ids = ∅ ∨ free txID = true) : CallEffect free none s (s.recordReads txID tx ids) := by
  unfold recordReads
  split
  · exact .same rfl
  rename_i hne
  rcases h with hempty | hfree
  · exact absurd hempty hne
  · exact .edited hfree hget (edited_setTx ⟨rfl, rfl, rfl, rfl⟩)

variable (order : List EntityID)

/-- A read that does not take `OpMu` records nothing. -/
theorem readTx_records (op : ReadOp) (h : World.takesOpMu (.read op) = false) :
    (readTx spi s.factory tid order txID tx op).2 = ∅ := by
  cases op with
  | countByState m states =>
    cases states with
    | none => simp [World.takesOpMu] at h
    | some states =>
      cases states with
      | nil => rfl
      | cons st sts => simp [World.takesOpMu] at h
  | getPage m limit offset asAt =>
    cases asAt with
    | none => simp [World.takesOpMu] at h
    | some t =>
      simp only [readTx]
      split
      · rfl
      · split <;> rfl
  | getVersionByTransaction id byTx => rfl
  | getVersionMetadata id opts => rfl
  | _ => simp [World.takesOpMu] at h

theorem storeTx_effect (call : StoreCall) (hget : s.txs.get txID = some tx)
    (hfree : World.takesOpMu call = true → free txID = true) :
    CallEffect free none s (s.storeTx spi tid ctx txID tx order call).2 := by
  cases call with
  | save entity => exact saveTx_effect entity _ (hfree rfl) hget
  | compareAndSave entity expectedTxID =>
    simp only [storeTx]
    split
    · exact .same rfl
    · exact compareAndSaveTx_effect entity expectedTxID _ (hfree rfl) hget
  | delete id => exact deleteTx_effect id _ (hfree rfl) hget
  | deleteAll modelRef => exact deleteAllTx_effect modelRef _ order (hfree rfl) hget
  | read op =>
    refine recordReads_effect _ hget ?_
    cases htakes : World.takesOpMu (.read op) with
    | true => exact .inr (hfree htakes)
    | false => exact .inl (readTx_records order op htakes)
  | stage op =>
    simp only [storeTx, stageTx]
    split
    · exact .same rfl
    · exact .edited (hfree rfl) hget (edited_stage op hget)

theorem inTx_effect {w : World} (call : StoreCall) (hget : w.sys.txs.get txID = some tx)
    (hmay : w.mayStoreTx txID tx call = true) :
    CallEffect w.opMuFree none w.sys (w.sys.storeTx spi tid ctx txID tx order call).2 := by
  refine storeTx_effect order call hget ?_
  intro htakes
  simp only [World.mayStoreTx, htakes, Bool.not_true, Bool.false_or, Bool.and_eq_true] at hmay
  exact hmay.1

end InTx

/-! ## Manager calls -/

section Manage

variable {w : World} {user : Option TenantID}

variable {free : TxID → Bool} {s : System} {txID : TxID}

theorem begin_effect (now : Time) (hfresh : txID ∉ s.txs.keys) :
    CallEffect free (some txID) s (s.begin user txID now).2 := by
  unfold begin
  split
  · exact .same rfl
  split
  · exact .same rfl
  refine .begun rfl hfresh ?_ rfl
  split
  · exact le_rfl
  · exact not_lt.mp ‹_›

theorem openTx_eq_ok {op : String} {tx : TransactionState} (h : s.openTx op user txID = .ok tx) :
    txID ∈ s.tm.active ∧ s.txs.get txID = some tx ∧ tx.rolledBack = false ∧ tx.closed = false := by
  unfold openTx at h
  split at h
  · cases h
  rename_i tx' hact
  obtain ⟨hmem, hget⟩ := activeTx_eq_some.mp hact
  split at h
  · split at h
    · cases h
    rename_i hrb
    split at h
    · cases h
    rename_i hcl
    cases h
    exact ⟨hmem, hget, by simpa using hrb, by simpa using hcl⟩
  · cases h

variable (spID : SavepointID)

theorem savepoint_effect : CallEffect free none s (s.savepoint user txID spID).2 := by
  unfold savepoint
  split
  · exact .same rfl
  · exact .released rfl

theorem edited_rollbackToSavepoint {tx : TransactionState} {spID : SavepointID}
    {snap : SavepointSnapshot} (hopen : s.openTx "RollbackToSavepoint" user txID = .ok tx)
    (hsnap : (s.tm.savepoints.getD txID ∅).get spID = some snap) :
    Edited txID tx s (s.rollbackToSavepoint user txID spID).2 := by
  simp only [rollbackToSavepoint, hopen, hsnap]
  refine ⟨rfl, ?_, ?_, ?_⟩
  · refine ⟨rfl, rfl, rfl, rfl, rfl, rfl, rfl, ?_, fun _ _ => rfl, ?_, ?_⟩
    · intro t ht
      exact GoMap.get_set_of_ne _ _ ht
    · intro t ht
      dsimp only
      split
      · rfl
      · exact GoMap.get_set_of_ne _ _ ht
    · intro t ht
      dsimp only
      split
      · exact GoMap.get_set_of_ne _ _ ht
      · rfl
  · intro t ht
    exact GoMap.get_set_of_ne _ _ ht
  · exact ⟨_, GoMap.get_set_self _ _ _, ⟨rfl, rfl, rfl, rfl⟩⟩

theorem rollbackToSavepoint_effect (hfree : free txID = true) :
    CallEffect free none s (s.rollbackToSavepoint user txID spID).2 := by
  cases hopen : s.openTx "RollbackToSavepoint" user txID with
  | error e =>
    simp only [rollbackToSavepoint, hopen]
    exact .same rfl
  | ok tx =>
    cases hsnap : (s.tm.savepoints.getD txID ∅).get spID with
    | none =>
      simp only [rollbackToSavepoint, hopen, hsnap]
      exact .same rfl
    | some snap =>
      exact .edited hfree (openTx_eq_ok hopen).2.1 (edited_rollbackToSavepoint hopen hsnap)

theorem releaseSavepoint_effect : CallEffect free none s (s.releaseSavepoint user txID spID).2 := by
  unfold releaseSavepoint
  split
  · exact .same rfl
  split
  · split
    · exact .same rfl
    · exact .released rfl
  · exact .same rfl

/-- The transaction a manager call begins. -/
def ManagerCall.starts : ManagerCall → Option TxID
  | .begin txID _ => some txID
  | _ => none

theorem manage_effect (call : ManagerCall) (hmay : w.mayManage call = true) :
    CallEffect w.opMuFree call.starts w.sys (w.sys.manage user call).2 := by
  cases call with
  | begin txID now =>
    simp only [World.mayManage, Bool.and_eq_true, decide_eq_true_eq] at hmay
    exact begin_effect now hmay.2
  | join txID => exact .same rfl
  | getSubmitTime txID => exact .same rfl
  | savepoint txID spID => exact savepoint_effect spID
  | rollbackToSavepoint txID spID => exact rollbackToSavepoint_effect spID hmay
  | releaseSavepoint txID spID => exact releaseSavepoint_effect spID

end Manage

/-! ## Direct calls -/

theorem directEffect_stamped (s : System) (f : StoreFactory) (clock : Time) :
    DirectEffect s { s with factory := f, tm := (s.tm.nextSubmitTime clock).2 } :=
  ⟨rfl, (lt_nextSubmitTime s.tm clock).le, rfl⟩

/-- The entity a call saves. -/
def StoreCall.saves : StoreCall → Option Entity
  | .save entity => some entity
  | .compareAndSave entity _ => some entity
  | _ => none

/-- `f'` is `f` after deletions. -/
inductive Swept (tid : TenantID) (now : Time) (a : WriteAttribution) (f : StoreFactory) :
    StoreFactory → Prop where
  | refl : Swept tid now a f f
  | delete {f' : StoreFactory} (eid : EntityID) (version : Int) (h : Swept tid now a f f') :
      Swept tid now a f (f'.writeDeleted tid eid version now a)

/-- What a direct call can write. A refused one may have moved the floor. -/
inductive DirectSpec (spi : Spi) (s : System) (tid : TenantID) (ctx : Ctx) (clock : Time)
    (call : StoreCall) (r : Outcome Value) (s' : System) : Prop where
  | kept {tasks : GoMap String ScheduledTask} {tm : TransactionManager}
      (hr : call.saves.isSome = true → ∀ v, r ≠ .ok v)
      (htm : tm = s.tm ∨ tm = (s.tm.nextSubmitTime clock).2)
      (h : s' = { s with factory := { s.factory with scheduledTasks := tasks }, tm := tm })
  | saved {entity : Entity} {claims : List UniqueClaim} {creationDate : Time} {v : Value}
      (hcall : call.saves = some entity) (hr : r = .ok v)
      (hclaims : spi.computeClaims ctx.uniqueKeys entity.data = some claims)
      (hfree : claimTaken s.factory tid entity.info.id entity.info.modelRef claims = false)
      (h : s' = { s with
        factory := s.factory.writeSaved tid entity
          (baseVersion (s.factory.versions tid entity.info.id) + 1) (s.tm.nextSubmitTime clock).1
          creationDate claims
        tm := (s.tm.nextSubmitTime clock).2 })
  | swept {f : StoreFactory} (hcall : call.saves = none)
      (hswept : Swept tid (s.tm.nextSubmitTime clock).1 ctx.attribution s.factory f)
      (h : s' = { s with factory := f, tm := (s.tm.nextSubmitTime clock).2 })

section Direct

variable {spi : Spi} {s : System} {tid : TenantID} {ctx : Ctx} {clock : Time}

theorem swept_deleteAllLoop (modelRef : ModelRef) {now : Time} {a : WriteAttribution}
    (ids : List EntityID) {f f' : StoreFactory} (h : Swept tid now a f f') :
    Swept tid now a f (deleteAllLoop tid modelRef now a ids f').2 := by
  induction ids generalizing f' with
  | nil => exact h
  | cons id ids ih =>
    simp only [deleteAllLoop]
    split
    · exact ih h
    split
    · exact ih h
    split
    · exact h
    split
    · exact ih (h.delete id _)
    · exact ih h

theorem saveUnlocked_directSpec {call : StoreCall} {entity : Entity}
    (hcall : call.saves = some entity) :
    DirectSpec spi s tid ctx clock call
      ((s.saveUnlocked spi tid ctx.uniqueKeys entity clock).1.map .versionNumber)
      (s.saveUnlocked spi tid ctx.uniqueKeys entity clock).2 := by
  obtain ⟨r, s1, hrun⟩ : ∃ r s1, s.saveUnlocked spi tid ctx.uniqueKeys entity clock = (r, s1) :=
    ⟨_, _, rfl⟩
  rw [hrun]
  cases saveUnlocked_spec hrun with
  | refused hr _ htm =>
    refine .kept (fun _ v hv => ?_) htm rfl
    cases r with
    | ok n => exact hr n rfl
    | _ => cases hv
  | saved hclaims hfree => exact .saved hcall rfl hclaims hfree rfl

theorem storeDirect_spec (order : List EntityID) (call : StoreCall) :
    DirectSpec spi s tid ctx clock call (s.storeDirect spi tid ctx clock order call).1
      (s.storeDirect spi tid ctx clock order call).2 := by
  cases call with
  | save entity => exact saveUnlocked_directSpec rfl
  | compareAndSave entity expectedTxID =>
    simp only [storeDirect, compareAndSaveDirect]
    split
    · exact .kept nofun (.inl rfl) rfl
    split
    · exact .kept nofun (.inl rfl) rfl
    · exact saveUnlocked_directSpec rfl
  | delete id =>
    obtain ⟨r, s1, hrun⟩ : ∃ r s1, s.deleteDirect tid id ctx.attribution clock = (r, s1) :=
      ⟨_, _, rfl⟩
    simp only [storeDirect, hrun]
    cases deleteDirect_spec hrun with
    | refused => exact .kept nofun (.inl rfl) rfl
    | crashed => exact .kept nofun (.inr rfl) rfl
    | deleted => exact .swept rfl (.delete id _ .refl) rfl
  | deleteAll modelRef => exact .swept rfl (swept_deleteAllLoop modelRef order .refl) rfl
  | read op => exact .kept nofun (.inl rfl) rfl
  | stage op => exact .kept nofun (.inl rfl) rfl

theorem storeDirect_effect (order : List EntityID) (call : StoreCall) :
    DirectEffect s (s.storeDirect spi tid ctx clock order call).2 := by
  cases storeDirect_spec order call with
  | kept _ htm h =>
    rw [h]
    rcases htm with rfl | rfl
    · exact ⟨rfl, le_rfl, rfl⟩
    · exact directEffect_stamped s _ clock
  | saved _ _ _ _ h =>
    rw [h]
    exact directEffect_stamped s _ clock
  | swept _ _ h =>
    rw [h]
    exact directEffect_stamped s _ clock

end Direct

/-- A task call touches the scheduled tasks only. -/
theorem task_factory (s : System) (call : TaskCall) :
    ∃ tasks, (s.task call).2.factory = { s.factory with scheduledTasks := tasks } := by
  cases call with
  | get id => exact ⟨_, rfl⟩
  | markRedispatch id after =>
    simp only [task]
    split
    · exact ⟨_, rfl⟩
    · exact ⟨_, rfl⟩

theorem task_effect (s : System) (call : TaskCall) : DirectEffect s (s.task call).2 := by
  cases call with
  | get id => exact .refl s
  | markRedispatch id after =>
    simp only [task]
    split
    · exact .refl s
    · exact ⟨rfl, le_rfl, rfl⟩

end CyodaGo.Memory
