import CyodaGo.Model.Memory.Reads

/-! # Calls with one effect

Every call of the plugin except `Commit` and `Rollback` takes effect at one instant:
the calls of the transaction manager, the store calls inside and outside a
transaction, and the scheduled-task calls that ignore the transaction. -/

namespace CyodaGo.Memory

inductive ManagerCall where
  | begin (txID : TxID) (now : Time)
  | join (txID : TxID)
  | getSubmitTime (txID : TxID)
  | savepoint (txID : TxID) (spID : SavepointID)
  | rollbackToSavepoint (txID : TxID) (spID : SavepointID)
  | releaseSavepoint (txID : TxID) (spID : SavepointID)

/-- The calls of an entity store, and the staging calls of the scheduled-task store. -/
inductive StoreCall where
  | save (entity : Entity)
  | compareAndSave (entity : Entity) (expectedTxID : TxID)
  | delete (id : EntityID)
  | deleteAll (modelRef : ModelRef)
  | read (op : ReadOp)
  | stage (op : ScheduledTaskOp)

inductive TaskCall where
  | get (id : String)
  | markRedispatch (id : String) (redispatchAfter : Int)

namespace System

def manage (s : System) (user : Option TenantID) : ManagerCall → Outcome Value × System
  | .begin txID now =>
    let r := s.begin user txID now
    (r.1.map .txID, r.2)
  | .join txID => ((s.join user txID).map .txID, s)
  | .getSubmitTime txID => ((s.getSubmitTime user txID).map .time, s)
  | .savepoint txID spID =>
    let r := s.savepoint user txID spID
    (r.1.map .savepointID, r.2)
  | .rollbackToSavepoint txID spID =>
    let r := s.rollbackToSavepoint user txID spID
    (r.1.map fun _ => .unit, r.2)
  | .releaseSavepoint txID spID =>
    let r := s.releaseSavepoint user txID spID
    (r.1.map fun _ => .unit, r.2)

/-- The read set grown by the ids a read recorded. -/
def recordReads (s : System) (txID : TxID) (tx : TransactionState) (ids : Finset EntityID) :
    System :=
  if ids = ∅ then s else s.setTx txID { tx with readSet := tx.readSet ∪ ids }

/-- A store call of the tenant `tid` inside the transaction `txID`, whose record is
`tx`. -/
def storeTx (spi : Spi) (s : System) (tid : TenantID) (ctx : Ctx) (txID : TxID)
    (tx : TransactionState) (order : List EntityID) : StoreCall → Outcome Value × System
  | .save entity =>
    let r := s.saveTx txID tx entity ctx.uniqueKeys
    (r.1.map .versionNumber, r.2)
  | .compareAndSave entity expectedTxID =>
    if expectedTxID = "" then (.err .emptyExpectedTxID, s)
    else
      let r := s.compareAndSaveTx tid txID tx entity expectedTxID ctx.uniqueKeys
      (r.1.map .versionNumber, r.2)
  | .delete id =>
    let r := s.deleteTx tid txID tx id ctx.attribution
    (r.1.map fun _ => .unit, r.2)
  | .deleteAll modelRef =>
    let r := s.deleteAllTx tid txID tx modelRef ctx.attribution order
    (r.1.map fun _ => .unit, r.2)
  | .read op =>
    let r := readTx spi s.factory tid order txID tx op
    (r.1, s.recordReads txID tx r.2)
  | .stage op =>
    let r := s.stageTx txID tx op
    (r.1.map fun _ => .unit, r.2)

/-- A store call of the tenant `tid` outside any transaction. -/
def storeDirect (spi : Spi) (s : System) (tid : TenantID) (ctx : Ctx) (clock : Time)
    (order : List EntityID) : StoreCall → Outcome Value × System
  | .save entity =>
    let r := s.saveUnlocked spi tid ctx.uniqueKeys entity clock
    (r.1.map .versionNumber, r.2)
  | .compareAndSave entity expectedTxID =>
    if expectedTxID = "" then (.err .emptyExpectedTxID, s)
    else
      let r := s.compareAndSaveDirect spi tid ctx.uniqueKeys entity expectedTxID clock
      (r.1.map .versionNumber, r.2)
  | .delete id =>
    let r := s.deleteDirect tid id ctx.attribution clock
    (r.1.map fun _ => .unit, r.2)
  | .deleteAll modelRef =>
    let r := s.deleteAllDirect tid modelRef ctx.attribution clock order
    (r.1.map fun _ => .unit, r.2)
  | .read op => (readDirect s.factory tid order op, s)
  | .stage op =>
    let r := s.stageDirect op
    (r.1.map fun _ => .unit, r.2)

/-- `Get` and `MarkRedispatch` of the scheduled-task store. `Delete` reports the
existence of the task with the same read as `Get`, then stages. -/
def task (s : System) : TaskCall → Outcome Value × System
  | .get id => (.ok (.task (s.factory.scheduledTasks.get id)), s)
  | .markRedispatch id redispatchAfter =>
    match s.factory.scheduledTasks.get id with
    | none => (.ok .unit, s)
    | some t =>
      let t := { t with redispatchAfter := some redispatchAfter, attemptCount := t.attemptCount + 1 }
      (.ok .unit, { s with factory :=
        { s.factory with scheduledTasks := s.factory.scheduledTasks.set id t } })

end System

end CyodaGo.Memory
