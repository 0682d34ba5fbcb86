import CyodaGo.Model.Models.Service

/-! # Concurrent operations on one model

Administrators change a model while its entities are created. Every store call is one atomic
step; the calls of several operations interleave in any order. -/

namespace CyodaGo.ModelAdmin

open Models Schema
open Memory (Time)

variable {T D E : Type}

/-- `model` is any call of the model store on the reference; `id` is the entity being created. -/
inductive Question (T : Type) where
  | model (call : Call (ModelNode T) (SchemaDelta T) DescriptorRest)
  | count
  | beginTx
  | execute
  | commitSegment (id : String)
  | save
  | commit (id : String)

abbrev Answer : Question T → Type
  | .model _ => Fetched (ModelNode T) DescriptorRest
  | .count | .execute => Except Fault ℕ
  | .beginTx | .commitSegment _ | .save | .commit _ => Except Fault Unit

abbrev Code (T : Type) := Program (Question T) Answer

def ask (q : Question T) : Code T (Answer q) := .ask q .done

/-- A mutating call answers nothing but success or failure. -/
def call (c : Call (ModelNode T) (SchemaDelta T) DescriptorRest) : Code T (Except Fault Unit) := do
  return (← ask (.model c)).map fun _ => ()

/-- A model store each of whose calls is one step. -/
def modelStore : ModelStoreOf (Question T) Answer T where
  get := ask (.model .get)
  save desc := call (.save desc)
  lock := call .lock
  unlock := call .unlock
  setChangeLevel level := call (.setChangeLevel level)
  delete := call .delete
  extendSchema delta := call (.extendSchema (some delta))
  refreshAndGet := none

def entityFlow (id : String) : Spi.EntityFlow (Question T) Answer where
  beginTx := ask .beginTx
  execute := ask .execute
  commitSegment := ask (.commitSegment id)
  save := ask .save
  commit := ask (.commit id)

/-! ## The stores -/

/-- The stored descriptor, and the entities of the model that are committed and live. -/
structure Stores (T : Type) where
  desc : Option (Descriptor T)
  live : List String

/-- What a step takes from outside: a failure of the store, and how many segments a cascade
has. -/
structure Outside where
  failure : Option Failure
  segments : ℕ

namespace Stores

def Locked (s : Stores T) : Prop := ∃ desc ∈ s.desc, desc.state = .locked

/-- A call of the model store; a failed one leaves everything as it was. -/
def model (apply : ApplyFunc (ModelNode T) (SchemaDelta T) E) (s : Stores T)
    (c : Call (ModelNode T) (SchemaDelta T) DescriptorRest) :
    Fetched (ModelNode T) DescriptorRest × Stores T :=
  match (ModelStore.perform (some apply) s.desc c :
      Models.Answer (ModelNode T) DescriptorRest E × _) with
  | (.error .notFound, _) => (.error .notFound, s)
  | (.error _, _) => (.error (.failed .other), s)
  | (.ok answer, desc) => (.ok answer, { s with desc })

def commit (s : Stores T) (id : String) : Stores T := { s with live := id :: s.live.erase id }

def serve (apply : ApplyFunc (ModelNode T) (SchemaDelta T) E) (x : Outside) (s : Stores T)
    (q : Question T) : Option (Answer q × Stores T) :=
  match x.failure, q with
  | some cause, .model _ => some (.error (.failed cause), s)
  | some cause, .count | some cause, .execute => some (.error (.failed cause), s)
  | some cause, .beginTx | some cause, .save => some (.error (.failed cause), s)
  | some cause, .commitSegment _ | some cause, .commit _ => some (.error (.failed cause), s)
  | none, .model c => some (s.model apply c)
  | none, .count => some (.ok s.live.length, s)
  | none, .execute => some (.ok x.segments, s)
  | none, .beginTx | none, .save => some (.ok (), s)
  | none, .commitSegment id | none, .commit id => some (.ok (), s.commit id)

end Stores

/-! ## The operations -/

/-- `id` is the identifier that a new entity gets. -/
inductive Operation where
  | importModel (input : ImportModelInput) (now : Time)
  | lockModel
  | unlockModel
  | deleteModel
  | setUniqueKeys (supported : Bool) (keys : List UniqueKey)
  | createEntity (id : String) (input : CreateEntityInput)

def Operation.body [TypeSet T] (spi : ScalarSpi D) (parsers : Parsers) :
    Operation → Code T (Except AppError Unit)
  | .importModel input now => Models.importModel spi parsers modelStore input now
  | .lockModel => Models.lockModel modelStore
  | .unlockModel => Models.unlockModel modelStore (ask .count)
  | .deleteModel => Models.deleteModel modelStore (ask .count)
  | .setUniqueKeys supported keys => Models.setUniqueKeys modelStore supported keys
  | .createEntity id input => Models.createEntity spi modelStore (entityFlow id) input

abbrev System (T : Type) := Threads (Stores T) Operation (Question T) Answer (Except AppError Unit)

def System.step [TypeSet T] (spi : ScalarSpi D) (parsers : Parsers)
    (apply : ApplyFunc (ModelNode T) (SchemaDelta T) E) (s : System T)
    (m : Move Operation Outside) : Option (Option (Exchange (Question T) Answer) × System T) :=
  Threads.step (Operation.body spi parsers) (Stores.serve apply) s m

end CyodaGo.ModelAdmin
