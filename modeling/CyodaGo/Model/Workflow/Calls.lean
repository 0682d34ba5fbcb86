import CyodaGo.Model.Workflow.Types
import CyodaGo.Shared.Program

/-! # What the engine asks of its surroundings

Every call that leaves the engine is a question: to the stores, the transaction manager, the
external processing service, the context and the clock. Engine code is a program over these
questions; which answers come is not decided here. -/

namespace CyodaGo.Workflow

open Memory (TenantID EntityID TxID SavepointID ModelRef Principal Entity ScheduledTask)

structure ReconcileRequest where
  tenantID : TenantID
  entityID : EntityID
  currentState : String
  arm : List ScheduledTask
  cancel : List String
  deriving DecidableEq

/-- What a criterion is evaluated for, and the transaction its callout may join. -/
structure CriterionContext where
  tx : Option TxID
  txID : TxID
  workflowName : String
  transitionName : Option String
  deriving DecidableEq

/-- The fields of a function's `Schedule` result, with times in `T`. -/
structure ScheduleValue (T : Type) where
  fireAt : Option T
  fireAfterMs : Option T
  expireAt : Option T
  expireAfterMs : Option T
  deriving DecidableEq

/-- `value` is `none` where the JSON text does not decode. -/
structure FunctionResult where
  kind : String
  value : Option (ScheduleValue Int)
  deriving DecidableEq

inductive Call where
  | stateMachineAuditStore (tx : Option TxID)
  | record (recorder : Recorder) (tx : Option TxID) (event : StateMachineEvent)
  | workflowStore (tx : Option TxID)
  | getWorkflows (tx : Option TxID) (model : ModelRef)
  | matchInline (text : String) (entity : Entity) (cc : CriterionContext)
  | dispatchCriteria (text : String) (entity : Entity) (cc : CriterionContext)
  | dispatchProcessor (tx : Option TxID) (entity : Entity) (proc : ProcessorDefinition)
      (workflow transition : String) (txID : TxID)
  | dispatchFunction (tx : Option TxID) (entity : Entity) (function : String)
      (workflow transition : String) (txID : TxID)
  | checkProcessorData (tx : Option TxID) (model : ModelRef) (data : List UInt8)
  | entityStore (tx : Option TxID)
  | getEntity (tx : Option TxID) (id : EntityID)
  | save (tx : Option TxID) (entity : Entity)
  | compareAndSave (tx : Option TxID) (entity : Entity) (expectedTxID : TxID)
  | savepoint (txID : TxID)
  | rollbackToSavepoint (txID : TxID) (sp : SavepointID)
  | releaseSavepoint (txID : TxID) (sp : SavepointID)
  | contextErr
  | begin
  | commit (txID : TxID)
  | rollback (txID : TxID)
  | now
  | newTimeUUID
  | scheduledTaskStore (tx : Option TxID)
  | getTask (tx : Option TxID) (id : String)
  | deleteTask (tx : Option TxID) (id : String)
  | reconcileForEntity (tx : Option TxID) (req : ReconcileRequest)
  deriving DecidableEq

/-- A refused commit may or may not have ended the transaction, which the caller cannot
tell. -/
inductive CommitAnswer where
  | committed
  | refused (cause : ServiceError) (stillOpen : Bool)
  deriving DecidableEq

def Call.Answer : Call → Type
  | .stateMachineAuditStore _ | .workflowStore _ | .entityStore _ | .scheduledTaskStore _
  | .checkProcessorData .. | .save .. | .compareAndSave .. | .rollbackToSavepoint ..
  | .releaseSavepoint .. | .rollback _ => Except ServiceError Unit
  | .record .. => Unit
  | .getWorkflows .. => Except ServiceError (List WorkflowDefinition)
  | .matchInline .. => Except ServiceError Bool
  | .dispatchCriteria .. => Except ServiceError (Bool × String)
  | .dispatchProcessor .. => Except ServiceError (Option (List UInt8))
  | .dispatchFunction .. => Except ServiceError FunctionResult
  | .getEntity .. => Except ServiceError Entity
  | .savepoint _ => Except ServiceError SavepointID
  | .contextErr => Option ServiceError
  | .begin => Except ServiceError TxID
  | .commit _ => CommitAnswer
  | .now => Int
  | .newTimeUUID => String
  | .getTask .. => Except ServiceError (Option ScheduledTask)
  | .deleteTask .. => Except ServiceError Bool
  | .reconcileForEntity .. => Except ServiceError (List ScheduledTask)

/-- What engine functions share by pointer: the entity, and the If-Match slot of the context,
which is empty once it has been consumed. -/
structure Frame where
  entity : Entity
  ifMatch : TxID
  deriving DecidableEq

def Frame.withState (f : Frame) (state : String) : Frame :=
  { f with entity := { f.entity with info := { f.entity.info with state } } }

def Frame.withData (f : Frame) (data : List UInt8) : Frame :=
  { f with entity := { f.entity with data } }

abbrev EngineM := Routine Frame Call Call.Answer

abbrev ask (q : Call) : EngineM q.Answer := Routine.ask q

/-- The configuration of an `Engine`. `digest` is the hash behind `taskID`. -/
structure Engine where
  extProc : Bool
  maxStateVisits : ℕ
  defaultWorkflows : List WorkflowDefinition
  expiryGraceMs : Int
  digest : String → String

def recordEvent (recorder : Recorder) (ctx : Ctx) (txID : TxID) (eventType : EventType) :
    EngineM Unit := do
  let frame ← get
  ask (.record recorder ctx.tx
    { eventType, entityID := frame.entity.info.id, state := frame.entity.info.state,
      transactionID := txID })

/-- `ctx.Err()`. A context without cancellation never expires. -/
def contextErr (ctx : Ctx) : EngineM (Option ServiceError) :=
  if ctx.cancellable then ask .contextErr else pure none

/-- `rollbackSegment`; the error of the rollback is only logged. -/
def rollbackSegment (openTxID entryTxID : TxID) : EngineM Unit :=
  if openTxID = "" ∨ openTxID = entryTxID then pure ()
  else do
    let _ ← ask (.rollback openTxID)
    pure ()

def consumeIfMatch : EngineM TxID := do
  let frame ← get
  modify fun f => { f with ifMatch := "" }
  pure frame.ifMatch

/-- The context, the transaction and the error that a function hands back on every path. -/
structure Handed where
  ctx : Ctx
  txID : TxID
  err : Option EngineError
  deriving DecidableEq

end CyodaGo.Workflow
