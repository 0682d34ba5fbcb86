import CyodaGo.Model.Memory.Types
import CyodaGo.Model.Models.Memory
import CyodaGo.Shared.Threads

/-! # The request-scoped model store

The model store that a request gets: reads go through the descriptor cache that all requests
share, mutations go to the inner store and then invalidate. The calls are programs whose
questions are inner-store calls and sections on the cache, all on one model of one tenant and
outside any transaction. -/

namespace CyodaGo.Models

/-- Why a store call failed though the model may be there. -/
inductive Failure where
  | conflict
  | unavailable
  | other
  deriving DecidableEq, Repr

/-- What a failed store call says; `notFound` is the sentinel for an absent model. -/
inductive Fault where
  | notFound
  | failed (cause : Failure)
  deriving DecidableEq, Repr

/-- What a read answers: no descriptor and no error is possible. -/
abbrev Fetched (S A : Type) := Except Fault (Option (ModelDescriptor S A))

/-- `spi.ModelStore` on one model reference, with the capabilities that a store may have on top
of it. -/
structure Spi.ModelStore (Q : Type) (R : Q → Type) (S Δ A : Type) where
  get : Program Q R (Fetched S A)
  save : ModelDescriptor S A → Program Q R (Except Fault Unit)
  lock : Program Q R (Except Fault Unit)
  unlock : Program Q R (Except Fault Unit)
  setChangeLevel : Schema.ChangeLevel → Program Q R (Except Fault Unit)
  delete : Program Q R (Except Fault Unit)
  extendSchema : Δ → Program Q R (Except Fault Unit)
  refreshAndGet : Option (Program Q R (Fetched S A))

end CyodaGo.Models

namespace CyodaGo.ModelCache

open Models
open Memory (Time)

variable {S Δ A E : Type}

/-! ## Questions -/

inductive Question (S Δ A : Type) where
  | inner (call : Call S Δ A)
  | lookup
  | store (desc : ModelDescriptor S A)
  | evict
  | enterFlight
  | leaveFlight (n : ℕ) (result : Fetched S A)
  | awaitFlight (n : ℕ)

/-- Entering the singleflight group answers the number of the flight, and whether the caller
leads it. -/
abbrev Answer : Question S Δ A → Type
  | .inner _ | .awaitFlight _ => Fetched S A
  | .lookup => Option (ModelDescriptor S A)
  | .enterFlight => ℕ × Bool
  | .store _ | .evict | .leaveFlight .. => Unit

abbrev Code (S Δ A : Type) := Program (Question S Δ A) Answer

def ask (q : Question S Δ A) : Code S Δ A (Answer q) := .ask q .done

/-! ## The calls -/

namespace RequestScopedStore

/-- Reads the inner store; only locked models are cached. -/
def fetch : Code S Δ A (Fetched S A) := do
  match ← ask (.inner .get) with
  | .error err => return .error err
  | .ok none => return .ok none
  | .ok (some desc) =>
    if desc.state = .locked then
      ask (.store desc)
    return .ok (some desc)

def get : Code S Δ A (Fetched S A) := do
  match ← ask .lookup with
  | some desc => return .ok (some desc)
  | none => fetch

/-- Concurrent callers share one flight. -/
def refreshAndGet : Code S Δ A (Fetched S A) := do
  ask .evict
  match ← ask .enterFlight with
  | (n, true) =>
    let result ← fetch
    ask (.leaveFlight n result)
    return result
  | (n, false) => ask (.awaitFlight n)

/-- The peers and subscribers that it also tells are outside the node. -/
def invalidate : Code S Δ A Unit := ask .evict

def mutate (call : Call S Δ A) : Code S Δ A (Except Fault Unit) := do
  match ← ask (.inner call) with
  | .error err => return .error err
  | .ok _ =>
    invalidate
    return .ok ()

end RequestScopedStore

open RequestScopedStore in
def requestScopedStore : Spi.ModelStore (Question S Δ A) Answer S Δ A where
  get := get
  save desc := mutate (.save desc)
  lock := mutate .lock
  unlock := mutate .unlock
  setChangeLevel level := mutate (.setChangeLevel level)
  delete := mutate .delete
  extendSchema delta := mutate (.extendSchema (some delta))
  refreshAndGet := some refreshAndGet

/-! ## The node -/

/-- `current` is what the inner store has committed. -/
structure Node (S A : Type) where
  current : Option (ModelDescriptor S A)
  entry : Option (ModelDescriptor S A × Time)
  flight : Option ℕ
  flights : ℕ
  landed : GoMap ℕ (Fetched S A)

/-- What a step takes from outside: a failure of the store, the clock, and the end of the lease of
a new entry. -/
structure Outside where
  failure : Option Failure
  now : Time
  expiresAt : Time

namespace Node

/-- A node that holds one model state and nothing else. -/
def fresh (current : Option (ModelDescriptor S A)) : Node S A := ⟨current, none, none, 0, ∅⟩

def fault : StoreError E → Fault
  | .notFound => .notFound
  | _ => .failed .other

/-- A call of the inner store, outside any transaction. -/
def inner (apply : ApplyFunc S Δ E) (n : Node S A) (call : Call S Δ A) : Fetched S A × Node S A :=
  match (ModelStore.perform (some apply) n.current call : Models.Answer S A E × _) with
  | (.error err, _) => (.error (fault err), n)
  | (.ok desc, current) => (.ok desc, { n with current })

/-- An entry past its lease does not count. -/
def cached (n : Node S A) (now : Time) : Option (ModelDescriptor S A) :=
  match n.entry with
  | none => none
  | some (desc, expiresAt) => if expiresAt < now then none else some desc

/-- The answer to a question; `none` means that the caller has to wait. A call of the inner store
that fails leaves it as it was. -/
def serve (apply : ApplyFunc S Δ E) (x : Outside) (n : Node S A) :
    (q : Question S Δ A) → Option (Answer q × Node S A)
  | .inner call =>
    match x.failure with
    | some cause => some (.error (.failed cause), n)
    | none => some (n.inner apply call)
  | .lookup => some (n.cached x.now, n)
  | .store desc => some ((), { n with entry := some (desc, x.expiresAt) })
  | .evict => some ((), { n with entry := none })
  | .enterFlight =>
    match n.flight with
    | some k => some ((k, false), n)
    | none => some ((n.flights, true), { n with flight := some n.flights, flights := n.flights + 1 })
  | .leaveFlight k result => some ((), { n with flight := none, landed := n.landed.set k result })
  | .awaitFlight k => (n.landed.get k).map fun result => (result, n)

end Node

end CyodaGo.ModelCache
