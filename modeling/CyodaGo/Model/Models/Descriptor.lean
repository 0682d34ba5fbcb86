import CyodaGo.Model.Schema.Admit

/-! # Model descriptors -/

namespace CyodaGo.Models

open Schema (ChangeLevel)

inductive ModelState where
  | locked
  | unlocked
  deriving DecidableEq, Repr

/-- `schema` is `none` for a descriptor without schema bytes. `rest` is what the stores keep
without looking at it: the reference, the update date and the unique keys. -/
structure ModelDescriptor (S A : Type) where
  state : ModelState
  changeLevel : ChangeLevel
  schema : Option S
  rest : A
  deriving DecidableEq

/-- Replays a delta onto schema bytes. What it returns is a marshalled tree, never empty. -/
abbrev ApplyFunc (S Δ E : Type) := Option S → Δ → Except E S

/-- `missing` is the "not found" of the memory plugin's setters, which wraps no sentinel. -/
inductive StoreError (E : Type) where
  | notFound
  | missing
  | applyFuncNotWired
  | pendingDeltas
  | applyDelta (err : E)
  | payloadNull
  deriving DecidableEq

/-- One call on one model reference. An empty delta is `none`. -/
inductive Call (S Δ A : Type) where
  | save (desc : ModelDescriptor S A)
  | get
  | delete
  | lock
  | unlock
  | setChangeLevel (level : ChangeLevel)
  | extendSchema (delta : Option Δ)

/-- What a call answers; only `Get` returns a descriptor. -/
abbrev Answer (S A E : Type) := Except (StoreError E) (Option (ModelDescriptor S A))

/-- The answer of a mutation and what it leaves behind: a failed one leaves everything as it
was. -/
def settle {S A E σ : Type} (before : σ) : Except (StoreError E) σ → Answer S A E × σ
  | .error err => (.error err, before)
  | .ok after => (.ok none, after)

end CyodaGo.Models
