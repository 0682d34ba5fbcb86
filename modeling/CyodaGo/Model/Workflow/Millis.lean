import CyodaGo.Model.Workflow.Arm

/-! # Schedules in 64-bit milliseconds

The arithmetic of `arm.go` and `fire_scheduled.go` as it is carried out, on `int64` milliseconds;
that of `schedule_function.go` is `resolveSchedule` on `Int64`. -/

namespace CyodaGo.Workflow.Millis

structure ScheduleFunction where
  name : String
  calculationNodesTags : String
  resultKind : String

structure Schedule where
  delayMs : Int64
  timeoutMs : Option Int64
  function : Option ScheduleFunction

inductive ScheduleDefError where
  | manualAndScheduled
  | exactlyOneOfDelayAndFunction
  | resultKindNotSchedule (got : String)
  | functionNameOrTags
  deriving DecidableEq

/-- What `validateWorkflowStructure` asks of a transition's schedule. -/
def validateSchedule (manual : Bool) (s : Schedule) : Except ScheduleDefError Unit :=
  if manual then .error .manualAndScheduled
  else if decide (0 < s.delayMs) = s.function.isSome then .error .exactlyOneOfDelayAndFunction
  else
    match s.function with
    | none => .ok ()
    | some f =>
      if f.resultKind ≠ "Schedule" then .error (.resultKindNotSchedule f.resultKind)
      else if f.name = "" ∨ f.calculationNodesTags = "" then .error .functionNameOrTags
      else .ok ()

/-- What a static schedule arms. -/
def armStatic (s : Schedule) (armMs : Int64) : ResolvedSchedule Int64 :=
  .armed (armMs + s.delayMs) s.timeoutMs

/-- What `FireScheduledTransition` makes of the time; `late` is the grace band. -/
inductive FireGate where
  | rearmed
  | expired
  | late
  | fire
  deriving DecidableEq

def fireGate (nowMs scheduledTime : Int64) (timeoutMs : Option Int64) (expiryGraceMs : Int64) :
    FireGate :=
  if nowMs < scheduledTime then .rearmed
  else
    let lateness := nowMs - scheduledTime
    match timeoutMs with
    | none => .fire
    | some timeout =>
      if timeout + expiryGraceMs < lateness then .expired
      else if timeout < lateness then .late
      else .fire

end CyodaGo.Workflow.Millis
