import CyodaGo.Model.Workflow.Processors
import CyodaGo.Model.Workflow.Arm

/-! # The workflow engine

The functions of `engine.go`: workflow selection, the named transition, the cascade of
automated transitions and the three entry points that callers use. -/

namespace CyodaGo.Workflow

open Memory (TxID Entity)

/-! ## Criteria and workflow selection -/

variable (e : Engine)

def evaluateCriterion (criterion : Criterion) (cc : CriterionContext) :
    EngineM (Except EngineError (Bool × String)) := do
  let frame ← get
  match criterion with
  | .malformed text => pure (.error (.malformedCriterion text))
  | .function text =>
    if e.extProc then
      match ← ask (.dispatchCriteria text frame.entity cc) with
      | .error err => pure (.error (.criterion err))
      | .ok answer => pure (.ok answer)
    else pure (.error .noCriterionService)
  | .inline text =>
    match ← ask (.matchInline text frame.entity cc) with
    | .error err => pure (.error (.criterion err))
    | .ok matched => pure (.ok (matched, ""))

/-- A missing criterion matches. -/
def evaluateOptional (criterion : Option Criterion) (cc : CriterionContext) :
    EngineM (Except EngineError (Bool × String)) :=
  match criterion with
  | none => pure (.ok (true, ""))
  | some criterion => evaluateCriterion e criterion cc

/-- The tail of `selectWorkflow`, where no workflow of the model matched. -/
def selectDefault (ctx : Ctx) (txID : TxID) :
    EngineM (Except EngineError WorkflowDefinition) := do
  match e.defaultWorkflows with
  | wf :: _ => do
    recordEvent .selectWorkflow ctx txID .workflowFound
    pure (.ok wf)
  | [] => do
    let frame ← get
    recordEvent .selectWorkflow ctx txID .workflowNotFound
    pure (.error (.noMatchingWorkflow frame.entity.info.modelRef))

def selectWorkflow (e : Engine) (ctx : Ctx) (txID : TxID) :
    List WorkflowDefinition → EngineM (Except EngineError WorkflowDefinition)
  | [] => selectDefault e ctx txID
  | wf :: rest => do
    if wf.active then
      match ← evaluateOptional e wf.criterion ⟨ctx.tx, txID, wf.name, none⟩ with
      | .error err => pure (.error (.workflowCriterion wf.name err))
      | .ok (true, _) => do
        recordEvent .selectWorkflow ctx txID .workflowFound
        pure (.ok wf)
      | .ok (false, _) => do
        recordEvent .selectWorkflow ctx txID .workflowSkipped
        selectWorkflow e ctx txID rest
    else selectWorkflow e ctx txID rest

/-- A model without workflows is run by the default ones. -/
def resolveWorkflow (ctx : Ctx) (txID : TxID) :
    EngineM (Except EngineError WorkflowDefinition) := do
  match ← ask (.workflowStore ctx.tx) with
  | .error err => pure (.error (.workflowStore err))
  | .ok _ => do
    let frame ← get
    match ← ask (.getWorkflows ctx.tx frame.entity.info.modelRef) with
    | .error .notFound => selectWorkflow e ctx txID e.defaultWorkflows
    | .error err => pure (.error (.loadWorkflows err))
    | .ok [] => selectWorkflow e ctx txID e.defaultWorkflows
    | .ok (wf :: rest) => selectWorkflow e ctx txID (wf :: rest)

/-! ## Transitions -/

def setState (state : String) : EngineM Unit := modify fun f => f.withState state

/-- The processors and the state change of a transition whose criterion holds. The events of
the transition itself carry `txID`, the pipeline is entered with `pipelineTxID`. -/
def runTransition (recorder : Recorder) (wf : WorkflowDefinition) (tr : TransitionDefinition)
    (ctx : Ctx) (txID pipelineTxID : TxID) : EngineM Handed := do
  let handed ← executeProcessors e ctx tr.processors wf.name tr.name pipelineTxID
  match handed.err with
  | some _ => do
    recordEvent recorder handed.ctx txID .stateProcessResult
    pure handed
  | none => do
    recordEvent recorder handed.ctx txID .transitionMade
    setState tr.next
    pure handed

def fireTransition (ctx : Ctx) (wf : WorkflowDefinition) (tr : TransitionDefinition) (txID : TxID) :
    EngineM Handed := do
  match ← evaluateOptional e tr.criterion ⟨ctx.tx, txID, wf.name, some tr.name⟩ with
  | .error err => pure ⟨ctx, txID, some (.transitionCriterion err)⟩
  | .ok (false, reason) => do
    recordEvent .fireTransition ctx txID .transitionCriterionNoMatch
    pure ⟨ctx, txID, some (.criterionNotMatched tr.name reason)⟩
  | .ok (true, _) => runTransition e .fireTransition wf tr ctx txID txID

def refuseTransition (ctx : Ctx) (txID : TxID) (err : EngineError) : EngineM Handed := do
  recordEvent .attemptTransition ctx txID .transitionNotFound
  pure ⟨ctx, txID, some err⟩

def attemptTransition (ctx : Ctx) (wf : WorkflowDefinition) (transitionName : String) (txID : TxID)
    : EngineM Handed := do
  let frame ← get
  match wf.states.get frame.entity.info.state with
  | none => pure ⟨ctx, txID, some (.stateNotFound frame.entity.info.state wf.name)⟩
  | some stateDef =>
    match stateDef.transitions.find? fun tr => tr.name = transitionName with
    | none => refuseTransition ctx txID (.transitionNotFound transitionName frame.entity.info.state)
    | some tr =>
      if tr.disabled then
        refuseTransition ctx txID (.transitionDisabled transitionName frame.entity.info.state)
      else if tr.schedule.isSome then
        refuseTransition ctx txID (.transitionScheduled transitionName frame.entity.info.state)
      else fireTransition e ctx wf tr txID

/-! ## The cascade -/

inductive Automated where
  | fired (ctx : Ctx) (txID : TxID)
  | stable
  | failed (handed : Handed)

/-- The first automated transition whose criterion holds. Its criterion and its pipeline get
`currentTxID`, the events of the cascade carry `txID`. -/
def fireAutomated (e : Engine) (wf : WorkflowDefinition) (txID : TxID) (ctx : Ctx)
    (currentTxID : TxID) : List TransitionDefinition → EngineM Automated
  | [] => pure .stable
  | tr :: rest => do
    if tr.disabled || tr.manual || tr.schedule.isSome then
      fireAutomated e wf txID ctx currentTxID rest
    else
      match ← evaluateOptional e tr.criterion ⟨ctx.tx, currentTxID, wf.name, some tr.name⟩ with
      | .error err => pure (.failed ⟨ctx, currentTxID, some (.transitionCriterion err)⟩)
      | .ok (false, _) => do
        recordEvent .cascadeAutomated ctx txID .transitionCriterionNoMatch
        fireAutomated e wf txID ctx currentTxID rest
      | .ok (true, _) => do
        let handed ← runTransition e .cascadeAutomated wf tr ctx txID currentTxID
        match handed.err with
        | some _ => pure (.failed handed)
        | none => pure (.fired handed.ctx handed.txID)

def maxCascadeDepth : ℕ := 100

/-- `left` counts the rounds that remain of `maxCascadeDepth`. -/
def cascadeFrom (e : Engine) (wf : WorkflowDefinition) (txID : TxID) :
    ℕ → GoMap String ℕ → Ctx → TxID → EngineM Handed
  | 0, _, ctx, currentTxID => do
    let frame ← get
    recordEvent .cascadeAutomated ctx txID .cancelled
    pure ⟨ctx, currentTxID, some (.cascadeDepth maxCascadeDepth frame.entity.info.state)⟩
  | left + 1, stateVisits, ctx, currentTxID => do
    match ← contextErr ctx with
    | some err => pure ⟨ctx, currentTxID, some (.cascadeAborted err)⟩
    | none => do
      let frame ← get
      let state := frame.entity.info.state
      let visits := stateVisits.getD state 0 + 1
      if e.maxStateVisits < visits then
        recordEvent .cascadeAutomated ctx txID .cancelled
        pure ⟨ctx, currentTxID, some (.stateVisits state visits e.maxStateVisits)⟩
      else
        match wf.states.get state with
        | none => pure ⟨ctx, currentTxID, none⟩
        | some stateDef =>
          match ← fireAutomated e wf txID ctx currentTxID stateDef.transitions with
          | .failed handed => pure handed
          | .stable => pure ⟨ctx, currentTxID, none⟩
          | .fired newCtx newTxID =>
            cascadeFrom e wf txID left (stateVisits.set state visits) newCtx newTxID

def cascadeAutomated (ctx : Ctx) (wf : WorkflowDefinition) (txID : TxID) : EngineM Handed :=
  cascadeFrom e wf txID maxCascadeDepth ∅ ctx txID

/-! ## Entry points -/

structure EngineResult where
  state : String
  stopReason : Option String
  finalCtx : Ctx
  finalTxID : TxID
  segmented : Bool
  deriving DecidableEq

def newTimeUUID : EngineM TxID := ask .newTimeUUID

def resolveAuditTxID (entity : Entity) : EngineM TxID :=
  if entity.info.transactionID ≠ "" then pure entity.info.transactionID else newTimeUUID

/-- The deferred guard of the entry points: a transaction that the engine began is rolled back
before an error goes up. -/
def abandon (openTxID entryTxID : TxID) (err : EngineError) :
    EngineM (Except EngineError EngineResult) := do
  rollbackSegment openTxID entryTxID
  pure (.error err)

/-- The end of every entry point: the cascade, the scheduled tasks, the last event. -/
def settle (wf : WorkflowDefinition) (txID : TxID) (ctx : Ctx) (currentTxID : TxID) :
    EngineM (Except EngineError EngineResult) := do
  let handed ← cascadeAutomated e ctx wf currentTxID
  match handed.err with
  | some err => abandon handed.txID txID err
  | none =>
    match ← reconcileScheduledTasks e handed.ctx wf handed.txID "" with
    | some err => abandon handed.txID txID err
    | none => do
      recordEvent .entryPoint handed.ctx txID .finished
      let frame ← get
      pure (.ok ⟨frame.entity.info.state, none, handed.ctx, handed.txID, handed.txID ≠ txID⟩)

/-- A named transition, then the cascade. -/
def transitionAndSettle (wf : WorkflowDefinition) (txID : TxID) (ctx : Ctx)
    (transitionName : String) : EngineM (Except EngineError EngineResult) := do
  let handed ← attemptTransition e ctx wf transitionName txID
  match handed.err with
  | some err => abandon handed.txID txID err
  | none => settle e wf txID handed.ctx handed.txID

/-- The beginning of every entry point. -/
def begun (ctx : Ctx) (body : WorkflowDefinition → TxID → EngineM (Except EngineError EngineResult)) :
    EngineM (Except EngineError EngineResult) := do
  match ← ask (.stateMachineAuditStore ctx.tx) with
  | .error err => pure (.error (.auditStore err))
  | .ok _ => do
    let frame ← get
    let txID ← resolveAuditTxID frame.entity
    recordEvent .entryPoint ctx txID .started
    match ← resolveWorkflow e ctx txID with
    | .error err => abandon txID txID err
    | .ok wf => body wf txID

def execute (ctx : Ctx) (transitionName : String) : EngineM (Except EngineError EngineResult) :=
  begun e ctx fun wf txID => do
    setState wf.initialState
    if transitionName ≠ "" then transitionAndSettle e wf txID ctx transitionName
    else settle e wf txID ctx txID

def manualTransition (ctx : Ctx) (transitionName : String) :
    EngineM (Except EngineError EngineResult) :=
  begun e ctx fun wf txID => transitionAndSettle e wf txID ctx transitionName

def loopback (ctx : Ctx) : EngineM (Except EngineError EngineResult) :=
  begun e ctx fun wf txID => do
    let frame ← get
    match wf.states.get frame.entity.info.state with
    | none => do
      recordEvent .entryPoint ctx txID .forcedSuccess
      recordEvent .entryPoint ctx txID .finished
      pure (.ok ⟨frame.entity.info.state, some "STATE_NOT_IN_WORKFLOW", ctx, txID, false⟩)
    | some _ => settle e wf txID ctx txID

/-- The calls that entity handlers make. Their If-Match variants differ in the frame's slot. -/
inductive EntryCall where
  | execute (transitionName : String)
  | manualTransition (transitionName : String)
  | loopback
  deriving DecidableEq

def EntryCall.routine (ctx : Ctx) : EntryCall → EngineM (Except EngineError EngineResult)
  | .execute transitionName => Workflow.execute e ctx transitionName
  | .manualTransition transitionName => Workflow.manualTransition e ctx transitionName
  | .loopback => Workflow.loopback e ctx

end CyodaGo.Workflow
