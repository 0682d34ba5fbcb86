import CyodaGo.Model.Workflow.Calls

/-! # Scheduled transitions

The functions of `arm.go` and `schedule_function.go`: when the cascade has settled, the
scheduled transitions of the state reached are armed, and tasks of other states are
cancelled. -/

namespace CyodaGo.Workflow

open Memory (TenantID EntityID TxID ScheduledTask)

def taskKey (tenantID : TenantID) (entityID : EntityID) (sourceState transition : String) :
    String :=
  "fire-transition|" ++ tenantID ++ "|" ++ entityID ++ "|" ++ sourceState ++ "|" ++ transition

def taskID (e : Engine) (tenantID : TenantID) (entityID : EntityID)
    (sourceState transition : String) : String :=
  e.digest (taskKey tenantID entityID sourceState transition)

def workflowHasSchedule (wf : WorkflowDefinition) : Bool :=
  wf.states.keys.any fun name =>
    ((wf.states.get name).map StateDefinition.transitions).any fun trs =>
      trs.any fun tr => tr.schedule.isSome

/-- The scheduled transitions that the scheduler may arm and fire. -/
def TransitionDefinition.armable (tr : TransitionDefinition) : Bool :=
  tr.schedule.isSome && !tr.manual && !tr.disabled

inductive ResolvedSchedule (T : Type) where
  | armed (scheduledTime : T) (timeoutMs : Option T)
  | bornExpired
  deriving DecidableEq

/-- The arithmetic is that of `T`: the engine here calculates with integers, the source with
`int64`. -/
def resolveSchedule {T : Type} [Add T] [Sub T] [LE T] [DecidableLE T]
    (value : Option (ScheduleValue T)) (armMs : T) : Except EngineError (ResolvedSchedule T) :=
  match value with
  | none => .error (.invalidScheduleResult "malformed Schedule result")
  | some s =>
    if s.fireAt.isNone = s.fireAfterMs.isNone then
      .error (.invalidScheduleResult "exactly one of fireAt/fireAfterMs required")
    else if s.expireAt.isSome && s.expireAfterMs.isSome then
      .error (.invalidScheduleResult "at most one of expireAt/expireAfterMs")
    else
      let sched := (s.fireAt.or (s.fireAfterMs.map (armMs + ·))).getD armMs
      match s.expireAt.or (s.expireAfterMs.map (sched + ·)) with
      | none => .ok (.armed sched none)
      | some expiry =>
        if expiry ≤ sched then .ok .bornExpired else .ok (.armed sched (some (expiry - sched)))

/-- What one armable transition contributes to the reconcile request. -/
inductive ArmOutcome where
  | arm (task : ScheduledTask)
  | expire (id : String)
  deriving DecidableEq

def ArmOutcome.task? : ArmOutcome → Option ScheduledTask
  | .arm task => some task
  | .expire _ => none

def ArmOutcome.cancelID? : ArmOutcome → Option String
  | .arm _ => none
  | .expire id => some id

/-- The task of a transition of the entity's current state. -/
def newTask (e : Engine) (ctx : Ctx) (frame : Frame) (transition : String)
    (scheduledTime : Int) (timeoutMs : Option Int) (armMs : Int) : ScheduledTask where
  id := taskID e frame.entity.info.tenantID frame.entity.info.id frame.entity.info.state transition
  tenantID := frame.entity.info.tenantID
  scheduledTime := scheduledTime
  timeoutMs := timeoutMs
  entityID := frame.entity.info.id
  transition := transition
  sourceState := frame.entity.info.state
  armedAt := armMs
  armedBy := ctx.origin
  redispatchAfter := none
  attemptCount := 0

def armViaFunction (e : Engine) (ctx : Ctx) (wf : WorkflowDefinition) (transition function : String)
    (armMs : Int) (txID : TxID) : EngineM (Except EngineError ArmOutcome) := do
  if e.extProc then
    let frame ← get
    match ← ask (.dispatchFunction ctx.tx frame.entity function wf.name transition txID) with
    | .error err => pure (.error (.dispatch err))
    | .ok res =>
      if res.kind = "Schedule" then
        match resolveSchedule res.value armMs with
        | .error err => pure (.error err)
        | .ok .bornExpired =>
          pure (.ok (.expire (taskID e frame.entity.info.tenantID frame.entity.info.id
            frame.entity.info.state transition)))
        | .ok (.armed scheduledTime timeoutMs) =>
          pure (.ok (.arm (newTask e ctx frame transition scheduledTime timeoutMs armMs)))
      else pure (.error (.functionResultKind function res.kind))
  else pure (.error (.noFunctionService function))

def armTransition (e : Engine) (ctx : Ctx) (wf : WorkflowDefinition) (transition : String)
    (schedule : Schedule) (armMs : Int) (txID : TxID) : EngineM (Except EngineError ArmOutcome) := do
  match schedule.function with
  | some function => armViaFunction e ctx wf transition function armMs txID
  | none => do
    let frame ← get
    pure (.ok (.arm (newTask e ctx frame transition (armMs + schedule.delayMs) schedule.timeoutMs
      armMs)))

/-- One outcome for each armable transition, in the order of the state's transitions. -/
def armTransitions (e : Engine) (ctx : Ctx) (wf : WorkflowDefinition) (armMs : Int) (txID : TxID) :
    List TransitionDefinition → EngineM (Except EngineError (List ArmOutcome))
  | [] => pure (.ok [])
  | tr :: rest =>
    match tr.schedule with
    | none => armTransitions e ctx wf armMs txID rest
    | some schedule =>
      if tr.manual || tr.disabled then armTransitions e ctx wf armMs txID rest
      else do
        match ← armTransition e ctx wf tr.name schedule armMs txID with
        | .error err => pure (.error err)
        | .ok outcome =>
          match ← armTransitions e ctx wf armMs txID rest with
          | .error err => pure (.error err)
          | .ok outcomes => pure (.ok (outcome :: outcomes))

/-- The audit events of a reconcile pass. A cancelled task's event names its own state. -/
def recordScheduled (ctx : Ctx) (txID : TxID) (entityID : EntityID) :
    List (EventType × String) → EngineM Unit
  | [] => pure ()
  | (eventType, state) :: rest => do
    ask (.record .reconcileScheduledTasks ctx.tx
      { eventType, entityID, state, transactionID := txID })
    recordScheduled ctx txID entityID rest

def scheduledEvents (state : String) (outcomes : List ArmOutcome) (cancelled : List ScheduledTask)
    (suppressCancelAuditFor : String) : List (EventType × String) :=
  (outcomes.filterMap ArmOutcome.task?).map (fun _ => (.scheduledTransitionArmed, state)) ++
    (cancelled.filter fun c => !(suppressCancelAuditFor ≠ "" && c.id = suppressCancelAuditFor)).map
      (fun c => (.scheduledTransitionCancelled, c.sourceState)) ++
    (outcomes.filterMap ArmOutcome.cancelID?).map (fun _ => (.scheduledTransitionExpired, state))

def WorkflowDefinition.transitionsOf (wf : WorkflowDefinition) (state : String) :
    List TransitionDefinition :=
  ((wf.states.get state).map StateDefinition.transitions).getD []

def reconcileScheduledTasks (e : Engine) (ctx : Ctx) (wf : WorkflowDefinition) (txID : TxID)
    (suppressCancelAuditFor : String) : EngineM (Option EngineError) := do
  if workflowHasSchedule wf then
    let armMs ← ask .now
    let frame ← get
    match ← armTransitions e ctx wf armMs txID (wf.transitionsOf frame.entity.info.state) with
    | .error err => pure (some err)
    | .ok outcomes =>
      match ← ask (.scheduledTaskStore ctx.tx) with
      | .error err => pure (some (.scheduledTaskStore err))
      | .ok _ =>
        match ← ask (.reconcileForEntity ctx.tx
            { tenantID := frame.entity.info.tenantID
              entityID := frame.entity.info.id
              currentState := frame.entity.info.state
              arm := outcomes.filterMap ArmOutcome.task?
              cancel := outcomes.filterMap ArmOutcome.cancelID? }) with
        | .error err => pure (some (.reconcile err))
        | .ok cancelled => do
          recordScheduled ctx txID frame.entity.info.id
            (scheduledEvents frame.entity.info.state outcomes cancelled suppressCancelAuditFor)
          pure none
  else pure none

end CyodaGo.Workflow
