import CyodaGo.Shared.GoMap
import CyodaGo.Shared.Run

/-! # Transaction gates

The registry of exclusive gates of `internal/txgate` and the call chains that use it. A step is
one section under a mutex: of the registry, or of a gate. -/

namespace CyodaGo.TxGate

/-- A gate object and the state of its mutex. -/
structure Gate where
  locked : Bool
  refs : ℕ

/-- Where a call chain stands. Gates are named by their address; `finishing` tells the deferred
release from the one that `Suspend` makes. -/
inductive Phase where
  | waiting (g : ℕ)
  | holding (g : ℕ)
  | leaving (g : ℕ) (finishing : Bool)
  | suspended
  | finished
  deriving DecidableEq

/-- `release` is the variable that the deferred release and the held handle share: the gate that
its current function frees. `onces` has, for each resume function that was handed out, whether it
has run. -/
structure Chain where
  txID : String
  phase : Phase
  release : Option ℕ
  onces : List Bool
  deriving DecidableEq

structure State where
  gates : GoMap String ℕ
  heap : ℕ → Gate
  next : ℕ
  chains : GoMap ℕ Chain

def State.new : State := ⟨∅, fun _ => ⟨false, 0⟩, 0, ∅⟩

inductive Action where
  | acquire (c : ℕ) (txID : String)
  | lock (c : ℕ)
  | suspend (c : ℕ)
  | resume (c : ℕ) (k : ℕ)
  | release (c : ℕ)
  | unref (c : ℕ)
  deriving DecidableEq

def Action.chain : Action → ℕ
  | .acquire c _ | .lock c | .suspend c | .resume c _ | .release c | .unref c => c

/-- `fatal` is the end of the process: a mutex was unlocked that was not locked, or a nil
function called. -/
inductive Reply where
  | ok
  | fatal
  deriving DecidableEq

namespace State

variable (s : State)

def setChain (c : ℕ) (ch : Chain) : State := { s with chains := s.chains.set c ch }

def setGate (g : ℕ) (gate : Gate) : State :=
  { s with heap := Function.update s.heap g gate }

/-- The first section of `Acquire`. -/
def enter (c : ℕ) (ch : Chain) : State :=
  match s.gates.get ch.txID with
  | some g =>
    (s.setGate g { s.heap g with refs := (s.heap g).refs + 1 }).setChain c
      { ch with phase := .waiting g }
  | none =>
    let s' : State := { s with gates := s.gates.set ch.txID s.next, next := s.next + 1 }
    (s'.setGate s.next ⟨false, 1⟩).setChain c { ch with phase := .waiting s.next }

/-- `g.mu.Unlock()` of the current release function. -/
def unlock (c : ℕ) (ch : Chain) (finishing : Bool) (onces : List Bool) : Reply × State :=
  match ch.release with
  | none => (.fatal, s)
  | some g =>
    if (s.heap g).locked then
      (.ok, (s.setGate g { s.heap g with locked := false }).setChain c
        { ch with phase := .leaving g finishing, onces })
    else (.fatal, s)

/-- The last section of a release function. -/
def leave (c : ℕ) (ch : Chain) (g : ℕ) (finishing : Bool) : State :=
  let refs := (s.heap g).refs - 1
  let gates := if refs = 0 then s.gates.del ch.txID else s.gates
  ({ s with gates }.setGate g { s.heap g with refs }).setChain c
    { ch with phase := if finishing then .finished else .suspended }

/-- What a chain does while it runs: `Suspend` and a resume function that has run do nothing
where the gate is already suspended. -/
def stepChain (c : ℕ) (ch : Chain) : Action → Option (Reply × State)
  | .acquire .. => none
  | .lock _ =>
    match ch.phase with
    | .waiting g =>
      if (s.heap g).locked then none
      else some (.ok, (s.setGate g { s.heap g with locked := true }).setChain c
        { ch with phase := .holding g, release := some g })
    | _ => none
  | .suspend _ =>
    match ch.phase with
    | .holding _ => some (s.unlock c ch false (ch.onces ++ [false]))
    | .suspended => some (.ok, s)
    | _ => none
  | .resume _ k =>
    match ch.phase with
    | .holding _ | .suspended =>
      match ch.onces[k]? with
      | none => none
      | some true => some (.ok, s)
      | some false => some (.ok, s.enter c { ch with onces := ch.onces.set k true })
    | _ => none
  | .release _ =>
    match ch.phase with
    | .holding _ => some (s.unlock c ch true ch.onces)
    | _ => none
  | .unref _ =>
    match ch.phase with
    | .leaving g finishing => some (.ok, s.leave c ch g finishing)
    | _ => none

/-- The empty transaction id is never gated: `Acquire` does nothing, nor does its release. -/
def step (a : Action) : Option (Reply × State) :=
  match s.chains.get a.chain, a with
  | none, .acquire c txID =>
    some (.ok, if txID = "" then s else s.enter c ⟨txID, .suspended, none, []⟩)
  | none, _ => none
  | some ch, a => s.stepChain a.chain ch a

end State

end CyodaGo.TxGate
