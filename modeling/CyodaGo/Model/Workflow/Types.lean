import CyodaGo.Model.Memory.Types

/-! # Data of the workflow engine

Workflow definitions as the SPI has them, the audit events and the errors of
`internal/domain/workflow`, and what the engine reads from a `context.Context`. -/

namespace CyodaGo.Workflow

open Memory (TenantID EntityID TxID SavepointID ModelRef Principal Entity ScheduledTask)

/-! ## Definitions -/

/-- `unspecified` is the empty string, which the engine runs like `SYNC`. -/
inductive ExecutionMode where
  | unspecified
  | sync
  | asyncSameTx
  | asyncNewTx
  | commitBeforeDispatch
  deriving DecidableEq

inductive ProcessorType where
  | unspecified
  | externalized
  | internalized
  deriving DecidableEq

structure ProcessorDefinition where
  name : String
  type : ProcessorType
  executionMode : ExecutionMode
  startNewTxOnDispatch : Option Bool
  deriving DecidableEq

/-- A stored criterion as `predicate.ParseCondition` reads it. -/
inductive Criterion where
  | malformed (text : String)
  | function (text : String)
  | inline (text : String)
  deriving DecidableEq

/-- A schedule is static, by `delayMs`, or computed by a function callout. -/
structure Schedule where
  delayMs : Int
  timeoutMs : Option Int
  function : Option String
  deriving DecidableEq

structure TransitionDefinition where
  name : String
  next : String
  manual : Bool
  disabled : Bool
  criterion : Option Criterion
  processors : List ProcessorDefinition
  schedule : Option Schedule
  deriving DecidableEq

structure StateDefinition where
  transitions : List TransitionDefinition
  deriving DecidableEq

structure WorkflowDefinition where
  name : String
  initialState : String
  active : Bool
  criterion : Option Criterion
  states : GoMap String StateDefinition

/-! ## Contexts -/

/-- `tx` is the transaction that store calls join, `origin` the principal that
`spi.ResolveOrigin` finds. A context from `context.WithoutCancel` has `cancellable` false. -/
structure Ctx where
  tx : Option TxID
  cancellable : Bool
  origin : Principal
  deriving DecidableEq

/-! ## Audit events -/

inductive EventType where
  | started
  | workflowFound
  | workflowSkipped
  | workflowNotFound
  | transitionNotFound
  | transitionCriterionNoMatch
  | processingPaused
  | stateProcessResult
  | transitionMade
  | transitionAborted
  | cancelled
  | forcedSuccess
  | finished
  | scheduledTransitionArmed
  | scheduledTransitionCancelled
  | scheduledTransitionExpired
  | scheduledTransitionFired
  deriving DecidableEq

structure StateMachineEvent where
  eventType : EventType
  entityID : EntityID
  state : String
  transactionID : TxID
  deriving DecidableEq

/-- The engine function that records an event. -/
inductive Recorder where
  | entryPoint
  | selectWorkflow
  | attemptTransition
  | fireTransition
  | executeProcessors
  | recordAbort
  | cascadeAutomated
  | reconcileScheduledTasks
  | fireScheduledTransition
  deriving DecidableEq

/-! ## Errors -/

/-- What a store, the transaction manager, a context or a callout returns. -/
inductive ServiceError where
  | conflict
  | uniqueViolation
  | partialUniqueKey
  | notFound
  | other (text : String)
  deriving DecidableEq

def clientAttributableStoreErr : ServiceError → Bool
  | .conflict | .uniqueViolation | .partialUniqueKey => true
  | .notFound | .other _ => false

/-- Where a segment boundary failed on infrastructure. -/
inductive SegmentStage where
  | entityStore
  | precondition
  | flush
  | commit
  | beginPost
  | entityStorePost
  | applyResult
  deriving DecidableEq

inductive EngineError where
  | auditStore (cause : ServiceError)
  | workflowStore (cause : ServiceError)
  | loadWorkflows (cause : ServiceError)
  | noMatchingWorkflow (model : ModelRef)
  | workflowCriterion (workflow : String) (cause : EngineError)
  | malformedCriterion (text : String)
  | noCriterionService
  | criterion (cause : ServiceError)
  | stateNotFound (state workflow : String)
  | transitionNotFound (transition state : String)
  | transitionDisabled (transition state : String)
  | transitionScheduled (transition state : String)
  | transitionCriterion (cause : EngineError)
  | criterionNotMatched (transition reason : String)
  | internalizedProcessor (processor : String)
  | processorFailed (processor : String) (cause : EngineError)
  | dispatch (cause : ServiceError)
  | savepointCreation (cause : ServiceError)
  | savepointRelease (cause : ServiceError)
  | processorOutput (cause : ServiceError)
  | preconditionFailed (cause : ServiceError)
  | contextExpired (cause : ServiceError)
  | segmentInfra (stage : SegmentStage) (cause : ServiceError)
  | postSegmentConflict (cause : ServiceError)
  | cascadeAborted (cause : ServiceError)
  | stateVisits (state : String) (visits limit : ℕ)
  | cascadeDepth (limit : ℕ) (state : String)
  | noFunctionService (function : String)
  | functionResultKind (function kind : String)
  | invalidScheduleResult (message : String)
  | scheduledTaskStore (cause : ServiceError)
  | reconcile (cause : ServiceError)
  deriving DecidableEq

/-- `errors.Is` with one of the SPI's sentinels: a wrapped cause counts. -/
def EngineError.is (sentinel : ServiceError) : EngineError → Bool
  | .auditStore c | .workflowStore c | .loadWorkflows c | .criterion c | .dispatch c
  | .savepointCreation c | .savepointRelease c | .preconditionFailed c | .contextExpired c
  | .segmentInfra _ c | .postSegmentConflict c | .cascadeAborted c | .scheduledTaskStore c
  | .reconcile c => c = sentinel
  | .workflowCriterion _ e | .transitionCriterion e | .processorFailed _ e => e.is sentinel
  | _ => false

end CyodaGo.Workflow
