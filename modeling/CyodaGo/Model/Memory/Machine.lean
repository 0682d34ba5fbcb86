import CyodaGo.Model.Memory.Calls
import CyodaGo.Model.Memory.Commit

/-! # The plugin at mutex-section granularity

A state holds the data of the plugin, the `Commit` and `Rollback` calls that passed
their first section and wait for `OpMu`, and the one commit that is between its
conflict check and its last section. That commit holds `entityMu` and the `OpMu` of its
transaction. -/

namespace CyodaGo.Memory

abbrev CallID := ℕ

inductive Waiting where
  | commit (txID : TxID) (committer : WriteAttribution)
  | rollback (txID : TxID)

inductive CommitStage where
  | checked (captured : Captured)
  | flushed (submitTime : Time)

structure Inside where
  call : CallID
  txID : TxID
  committer : WriteAttribution
  stage : CommitStage

structure World where
  sys : System
  waiting : GoMap CallID Waiting
  inside : Option Inside

/-- One atomic step. The orders are those in which the step's loops visit Go maps;
clock readings are arbitrary. -/
inductive Action where
  | manage (user : Option TenantID) (call : ManagerCall)
  | store (tid : TenantID) (ctx : Ctx) (call : StoreCall) (clock : Time) (order : List EntityID)
  | task (call : TaskCall)
  | commitMark (c : CallID) (ctx : Ctx) (txID : TxID)
  | commitCheck (c : CallID)
  | commitApply (clock : Time) (bufferOrder deleteOrder : List EntityID)
  | commitFinish (clock : Time) (activeOrder : List TxID)
  | rollbackMark (c : CallID) (user : Option TenantID) (txID : TxID)
  | rollbackFinish (c : CallID)

/-- `running` means that the call has more sections to go. -/
inductive Result where
  | running
  | done (r : Outcome Value)

namespace World

def init : World := ⟨.empty, ∅, none⟩

variable (w : World)

/-- No commit holds the `OpMu` of `txID`. -/
def opMuFree (txID : TxID) : Bool := w.inside.all fun i => i.txID ≠ txID

def entityMuFree : Bool := w.inside.isNone

/-- A savepoint taken before another one that was since rolled back to may record lists longer
than the present ones. For such a list `entries[:l]` reaches beyond the length: it brings back
what the array still holds, or panics beyond its capacity. -/
def savepointCurrent (m : TransactionManager) (txID : TxID) (spID : SavepointID) : Bool :=
  ((m.savepoints.getD txID ∅).get spID).all fun snap =>
    let saves := m.supersededSaves.getD txID ∅
    saves.keys.all fun eid => snap.supersededLens.getD eid 0 ≤ (saves.getD eid []).length

/-- When a manager call may run. `Begin` draws a fresh transaction id. -/
def mayManage : ManagerCall → Bool
  | .begin txID _ => txID ≠ "" && txID ∉ w.sys.txs.keys
  | .join txID => w.opMuFree txID
  | .savepoint txID _ => w.opMuFree txID
  | .rollbackToSavepoint txID _ => w.opMuFree txID
  | _ => true

/-- The step does not cut a list beyond its length, which `System.manage` does not follow. -/
def cutsWithin : Action → Bool
  | .manage _ (.rollbackToSavepoint txID spID) => savepointCurrent w.sys.tm txID spID
  | _ => true

/-- The reads that look at the ambient transaction. -/
def takesOpMu : StoreCall → Bool
  | .read (.countByState _ (some [])) => false
  | .read (.getPage _ _ _ (some _)) => false
  | .read (.getVersionByTransaction _ _) => false
  | .read (.getVersionMetadata _ _) => false
  | _ => true

/-- The in-transaction calls that go on to the committed data. -/
def takesEntityMu (tx : TransactionState) : StoreCall → Bool
  | .save _ => false
  | .stage _ => false
  | .compareAndSave entity _ => entity.info.id ∉ tx.deletes && entity.info.id ∉ tx.buffer.keys
  | .delete id => id ∉ tx.buffer.keys
  | .read (.get id) => id ∉ tx.deletes && id ∉ tx.buffer.keys
  | .read (.exists id) => id ∉ tx.deletes && id ∉ tx.buffer.keys
  | _ => true

def mayStoreTx (txID : TxID) (tx : TransactionState) (call : StoreCall) : Bool :=
  (!takesOpMu call || w.opMuFree txID) && (!takesEntityMu tx call || w.entityMuFree)

def freshCall (c : CallID) : Bool := c ∉ w.waiting.keys && w.inside.all fun i => i.call ≠ c

/-! ## The sections of Commit and Rollback -/

def markCommit (c : CallID) (ctx : Ctx) (txID : TxID) : Result × World :=
  match w.sys.commitMark ctx.user txID with
  | .error e => (.done (.err e), w)
  | .ok (_, sys) =>
    (.running, { w with sys := sys, waiting := w.waiting.set c (.commit txID ctx.attribution) })

def checkCommit (c : CallID) (txID : TxID) (committer : WriteAttribution) (tx : TransactionState) :
    Result × World :=
  match w.sys.commitCheck txID tx with
  | .error sys => (.done (.err .conflict), { w with sys := sys, waiting := w.waiting.del c })
  | .ok captured =>
    (.running, { w with
      waiting := w.waiting.del c
      inside := some ⟨c, txID, committer, .checked captured⟩ })

def applyCommit (spi : Spi) (w : World) (i : Inside) (captured : Captured) (tx : TransactionState)
    (clock : Time) (bufferOrder deleteOrder : List EntityID) : Result × World :=
  match w.sys.commitApply spi i.txID tx i.committer captured clock bufferOrder deleteOrder with
  | .error (e, sys) => (.done (.err e), { w with sys := sys, inside := none })
  | .ok (submitTime, sys) =>
    (.running, { w with sys := sys, inside := some { i with stage := .flushed submitTime } })

def markRollback (c : CallID) (user : Option TenantID) (txID : TxID) : Result × World :=
  match w.sys.rollbackMark user txID with
  | .error e => (.done (.err e), w)
  | .ok _ => (.running, { w with waiting := w.waiting.set c (.rollback txID) })

end World

/-- `none` when the step is not enabled: a lock is held, the call is not at this
section, or an order does not list the keys of the map it visits. -/
def step (spi : Spi) (w : World) : Action → Option (Result × World)
  | .manage user call =>
    if w.mayManage call then
      let r := w.sys.manage user call
      some (.done r.1, { w with sys := r.2 })
    else none
  | .store tid ctx call clock order =>
    if order.Perm (w.sys.factory.tenantData tid).keys then
      match ctx.tx with
      | none =>
        if w.entityMuFree then
          let r := w.sys.storeDirect spi tid ctx clock order call
          some (.done r.1, { w with sys := r.2 })
        else none
      | some txID =>
        match w.sys.txs.get txID with
        | none => none
        | some tx =>
          if w.mayStoreTx txID tx call then
            let r := w.sys.storeTx spi tid ctx txID tx order call
            some (.done r.1, { w with sys := r.2 })
          else none
    else none
  | .task call =>
    if w.entityMuFree then
      let r := w.sys.task call
      some (.done r.1, { w with sys := r.2 })
    else none
  | .commitMark c ctx txID => if w.freshCall c then some (w.markCommit c ctx txID) else none
  | .commitCheck c =>
    match w.waiting.get c, w.inside with
    | some (.commit txID committer), none =>
      (w.sys.txs.get txID).map (w.checkCommit c txID committer)
    | _, _ => none
  | .commitApply clock bufferOrder deleteOrder =>
    match w.inside with
    | some i =>
      match i.stage, w.sys.txs.get i.txID with
      | .checked captured, some tx =>
        if bufferOrder.Perm tx.buffer.keys ∧ deleteOrder.Nodup ∧ deleteOrder.toFinset = tx.deletes
        then some (w.applyCommit spi i captured tx clock bufferOrder deleteOrder)
        else none
      | _, _ => none
    | none => none
  | .commitFinish clock activeOrder =>
    match w.inside with
    | some i =>
      match i.stage, w.sys.txs.get i.txID with
      | .flushed submitTime, some tx =>
        if activeOrder.Nodup ∧ activeOrder.toFinset = w.sys.tm.active.erase i.txID then
          some (.done (.ok .unit),
            { w with
              sys := w.sys.commitFinish i.txID tx submitTime clock activeOrder
              inside := none })
        else none
      | _, _ => none
    | none => none
  | .rollbackMark c user txID => if w.freshCall c then some (w.markRollback c user txID) else none
  | .rollbackFinish c =>
    match w.waiting.get c with
    | some (.rollback txID) =>
      match w.sys.txs.get txID with
      | some tx =>
        if w.opMuFree txID then
          some (.done (.ok .unit),
            { w with sys := w.sys.rollbackFinish txID tx, waiting := w.waiting.del c })
        else none
      | none => none
    | _ => none

end CyodaGo.Memory
