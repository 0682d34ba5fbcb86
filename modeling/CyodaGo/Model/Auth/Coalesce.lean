import CyodaGo.Shared.GoMap
import CyodaGo.Shared.Run

/-! # The coalescing runner

`internal/auth/coalesce.go`. The functions passed to `Trigger` are of an arbitrary type; a run
is the time between the call of such a function and its return. -/

namespace CyodaGo.Coalesce

variable {F : Type}

structure CoalescingRunner (F : Type) where
  running : Bool
  dirty : Bool
  pending : Option F
  deriving DecidableEq

namespace CoalescingRunner

def new : CoalescingRunner F := ⟨false, false, none⟩

/-- The locked section of `Trigger`: whether a goroutine is to be started. -/
def enter (c : CoalescingRunner F) (run : F) : Bool × CoalescingRunner F :=
  if c.running then (false, { c with dirty := true, pending := some run })
  else (true, { c with running := true })

/-- The locked section after a run: the next function and whether there is one. -/
def handOver (c : CoalescingRunner F) : (Option F × Bool) × CoalescingRunner F :=
  if c.dirty then ((c.pending, true), { c with dirty := false, pending := none })
  else ((none, false), { c with running := false })

end CoalescingRunner

/-- Where the goroutine of a `Trigger` call stands. -/
inductive Goroutine (F : Type) where
  | spawning (run : F)
  | ready (next : Option F)
  | executing (job : F)
  | finished
  deriving DecidableEq

/-- The goroutines are named after the calls that start them; one that has ended is gone. -/
structure System (F : Type) where
  runner : CoalescingRunner F
  goroutines : GoMap ℕ (Goroutine F)

inductive Action (F : Type) where
  | trigger (c : ℕ) (run : F)
  | spawn (c : ℕ)
  | begin (c : ℕ)
  | finish (c : ℕ)
  | handOver (c : ℕ)

inductive Note (F : Type) where
  | triggered (run : F)
  | started (c : ℕ) (job : F)
  | returned (c : ℕ) (job : F)
  | silent

namespace System

def new : System F := ⟨.new, ∅⟩

/-- A goroutine that is left with no function to call is stuck: the call panics. -/
def step (s : System F) : Action F → Option (Note F × System F)
  | .trigger c run =>
    if (s.goroutines.get c).isNone then
      let (start, runner) := s.runner.enter run
      some (.triggered run,
        ⟨runner, if start then s.goroutines.set c (.spawning run) else s.goroutines⟩)
    else none
  | .spawn c =>
    match s.goroutines.get c with
    | some (.spawning run) =>
      some (.silent, { s with goroutines := s.goroutines.set c (.ready (some run)) })
    | _ => none
  | .begin c =>
    match s.goroutines.get c with
    | some (.ready (some job)) =>
      some (.started c job, { s with goroutines := s.goroutines.set c (.executing job) })
    | _ => none
  | .finish c =>
    match s.goroutines.get c with
    | some (.executing job) =>
      some (.returned c job, { s with goroutines := s.goroutines.set c .finished })
    | _ => none
  | .handOver c =>
    match s.goroutines.get c with
    | some .finished =>
      let ((next, again), runner) := s.runner.handOver
      some (.silent,
        ⟨runner, if again then s.goroutines.set c (.ready next) else s.goroutines.del c⟩)
    | _ => none

end System

end CyodaGo.Coalesce
