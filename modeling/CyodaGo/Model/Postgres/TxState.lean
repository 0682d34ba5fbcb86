import CyodaGo.Shared.GoMap
import CyodaGo.Shared.Nest

/-! # Bookkeeping of a PostgreSQL transaction

`txState` is what the plugin keeps of an open transaction: the versions it read and wrote, and
a snapshot of both for each savepoint. The database has a stack of savepoints of its own. -/

namespace CyodaGo.Postgres

/-! ## txState -/

structure SavepointEntry where
  id : String
  readSet : GoMap String Int
  writeSet : GoMap String Int

structure TxState where
  tenantID : String
  readSet : GoMap String Int
  writeSet : GoMap String Int
  savepoints : List SavepointEntry
  abortCause : Option String

def newTxState (tenantID : String) : TxState := ⟨tenantID, ∅, ∅, [], none⟩

namespace TxState

variable (s : TxState)

/-- The first failure is the one that aborted the transaction. -/
def recordAbort (err : String) : TxState :=
  if s.abortCause.isNone then { s with abortCause := some err } else s

def recordRead (id : String) (version : Int) : TxState :=
  if (s.writeSet.get id).isSome then s
  else if (s.readSet.get id).isSome then s
  else { s with readSet := s.readSet.set id version }

def recordWrite (id : String) (preWriteVersion : Int) : TxState :=
  if (s.writeSet.get id).isSome then s
  else
    match s.readSet.get id with
    | some readVersion =>
      { s with writeSet := s.writeSet.set id readVersion, readSet := s.readSet.del id }
    | none => { s with writeSet := s.writeSet.set id preWriteVersion }

def pushSavepoint (id : String) : TxState :=
  { s with savepoints := s.savepoints ++ [⟨id, s.readSet, s.writeSet⟩] }

def hasSavepoint (id : String) : Bool := s.savepoints.any (fun sp => sp.id = id)

/-- The position of the first entry with that id. -/
def savepointIdx (id : String) : Nat := s.savepoints.findIdx (fun sp => sp.id = id)

/-- `none` stands for `ErrSavepointNotFound`. -/
def restoreSavepoint (id : String) : Option TxState :=
  match s.savepoints.find? (fun sp => sp.id = id) with
  | none => none
  | some snap =>
    some { s with
      readSet := snap.readSet
      writeSet := snap.writeSet
      savepoints := s.savepoints.take (s.savepointIdx id + 1)
      abortCause := none }

def releaseSavepoint (id : String) : Option TxState :=
  match s.savepoints.find? (fun sp => sp.id = id) with
  | none => none
  | some _ =>
    some { s with
      savepoints := s.savepoints.take (s.savepointIdx id) ++
        s.savepoints.drop (s.savepointIdx id + 1) }

end TxState

/-! ## The database's side of the transaction -/

/-- A read or a write of an entity. -/
inductive Access where
  | read (id : String) (version : Int)
  | write (id : String) (preWriteVersion : Int)
  deriving DecidableEq

inductive Statement where
  | savepoint (name : String)
  | rollbackTo (name : String)
  | release (name : String)
  deriving DecidableEq

inductive SqlState where
  | inFailedSqlTransaction
  | invalidSavepointSpecification
  | queryCanceled
  deriving DecidableEq

/-- What the transaction has done and not undone, its savepoints, and whether a statement of it
has failed. -/
structure Session where
  nest : Nest String (List Access)
  aborted : Bool

/-- PostgreSQL's rules for savepoints. A statement that fails aborts the transaction, and only
`ROLLBACK TO` is accepted in an aborted one. -/
def Session.exec (s : Session) (statement : Statement) (canceled : Bool) :
    Option SqlState × Session :=
  if canceled then (some .queryCanceled, { s with aborted := true })
  else
    match statement with
    | .savepoint name =>
      if s.aborted then (some .inFailedSqlTransaction, s)
      else (none, { s with nest := s.nest.mark name })
    | .rollbackTo name =>
      if s.nest.knows name then (none, ⟨s.nest.rollbackTo name, false⟩)
      else (some .invalidSavepointSpecification, { s with aborted := true })
    | .release name =>
      if s.aborted then (some .inFailedSqlTransaction, s)
      else if s.nest.knows name then (none, { s with nest := s.nest.release name })
      else (some .invalidSavepointSpecification, { s with aborted := true })

/-! ## TransactionManager -/

structure Tx where
  state : TxState
  session : Session

def newTx (tenantID : String) : Tx := ⟨newTxState tenantID, ⟨⟨[], []⟩, false⟩⟩

inductive TxError where
  | tenantMismatch
  | savepointNotFound
  | sql (code : SqlState)
  deriving DecidableEq

/-- The statements sent and the outcome. -/
structure Reply where
  sent : List Statement
  result : Except TxError Unit
  deriving DecidableEq

def spName (spID : String) : String := "sp_" ++ spID

namespace Tx

variable (tx : Tx)

/-- `caller` is the tenant of the caller's user context, if there is one. -/
def verifyTenant (caller : Option String) : Bool := caller = some tx.state.tenantID

def savepoint (caller : Option String) (spID : String) (canceled : Bool) : Reply × Tx :=
  if tx.verifyTenant caller then
    match tx.session.exec (.savepoint (spName spID)) canceled with
    | (some code, session) => (⟨[.savepoint (spName spID)], .error (.sql code)⟩, { tx with session })
    | (none, session) =>
      (⟨[.savepoint (spName spID)], .ok ()⟩, ⟨tx.state.pushSavepoint spID, session⟩)
  else (⟨[], .error .tenantMismatch⟩, tx)

/-- The shared body of the two calls that name a savepoint: the stack is asked before the
database is, and follows it when the statement has succeeded. -/
def onSavepoint (caller : Option String) (spID : String) (canceled : Bool)
    (statement : String → Statement) (follow : TxState → String → Option TxState) : Reply × Tx :=
  if tx.verifyTenant caller then
    if tx.state.hasSavepoint spID then
      match tx.session.exec (statement (spName spID)) canceled with
      | (some code, session) =>
        (⟨[statement (spName spID)], .error (.sql code)⟩, { tx with session })
      | (none, session) =>
        match follow tx.state spID with
        | none => (⟨[statement (spName spID)], .error .savepointNotFound⟩, { tx with session })
        | some state => (⟨[statement (spName spID)], .ok ()⟩, ⟨state, session⟩)
    else (⟨[], .error .savepointNotFound⟩, tx)
  else (⟨[], .error .tenantMismatch⟩, tx)

def rollbackToSavepoint (caller : Option String) (spID : String) (canceled : Bool) : Reply × Tx :=
  tx.onSavepoint caller spID canceled .rollbackTo TxState.restoreSavepoint

def releaseSavepoint (caller : Option String) (spID : String) (canceled : Bool) : Reply × Tx :=
  tx.onSavepoint caller spID canceled .release TxState.releaseSavepoint

end Tx

/-! ## Runs -/

inductive Action where
  | recordRead (id : String) (version : Int)
  | recordWrite (id : String) (preWriteVersion : Int)
  | savepoint (caller : Option String) (spID : String) (canceled : Bool)
  | rollbackToSavepoint (caller : Option String) (spID : String) (canceled : Bool)
  | releaseSavepoint (caller : Option String) (spID : String) (canceled : Bool)
  /-- Some other statement of the transaction fails; ceilings are recorded. -/
  | abort (cause : Option String)
  deriving DecidableEq

def noReply : Reply := ⟨[], .ok ()⟩

/-- Reads and writes are recorded with the statement that made them. -/
def perform (tx : Tx) : Action → Reply × Tx
  | .recordRead id version =>
    (noReply,
      ⟨tx.state.recordRead id version,
        { tx.session with nest := tx.session.nest.update (· ++ [.read id version]) }⟩)
  | .recordWrite id preWriteVersion =>
    (noReply,
      ⟨tx.state.recordWrite id preWriteVersion,
        { tx.session with nest := tx.session.nest.update (· ++ [.write id preWriteVersion]) }⟩)
  | .savepoint caller spID canceled => tx.savepoint caller spID canceled
  | .rollbackToSavepoint caller spID canceled => tx.rollbackToSavepoint caller spID canceled
  | .releaseSavepoint caller spID canceled => tx.releaseSavepoint caller spID canceled
  | .abort cause =>
    (noReply,
      ⟨cause.elim tx.state tx.state.recordAbort, { tx.session with aborted := true }⟩)

end CyodaGo.Postgres
