import CyodaGo.Model.Memory.Machine
import CyodaGo.Model.Models.Memory

/-! # A node of the memory backend

The model store of every tenant, with the descriptor cache that all requests share in front of
it, beside the entities and transactions of the plugin. A call on the model store is a sequence
of sections: one on the cache, one on the store, one more on the cache. -/

namespace CyodaGo.Models

open Memory (TenantID ModelRef TxID CallID Time)

structure Key where
  tenant : TenantID
  ref : ModelRef
  deriving DecidableEq

variable {S Δ A E : Type}

/-- Where a call is. `extension` names the transaction whose `ExtendSchema` it is. -/
inductive Pending (S A : Type) where
  | fetching (key : Key)
  | storing (key : Key) (desc : ModelDescriptor S A)
  | invalidating (key : Key) (extension : Option TxID)

structure Node (S A : Type) where
  world : Memory.World
  modelData : GoMap Key (ModelDescriptor S A)
  entries : GoMap Key (ModelDescriptor S A × Time)
  calls : GoMap CallID (Pending S A)

/-- One atomic step. Clock readings and expiry times are arbitrary; `evict` is an invalidation
that another node sent. -/
inductive Op (S Δ A : Type) where
  | memory (action : Memory.Action)
  | read (key : Key)
  | lookup (c : CallID) (key : Key) (now : Time)
  | refresh (c : CallID) (key : Key)
  | fetch (c : CallID)
  | keep (c : CallID) (expiresAt : Time)
  | mutate (c : CallID) (tx : Option TxID) (key : Key) (call : Call S Δ A)
  | invalidate (c : CallID)
  | evict (key : Key)

/-- `running` means that the call has more sections to go. -/
inductive Reply (S A E : Type) where
  | running
  | memory (r : Memory.Result)
  | answer (a : Answer S A E)

namespace Node

def init : Node S A := ⟨.init, ∅, ∅, ∅⟩

variable (n : Node S A)

/-- The plugin's step does not cut a list beyond its length. -/
def cutsWithin : Op S Δ A → Bool
  | .memory action => n.world.cutsWithin action
  | _ => true

/-- The entry of `modelData` after a section of the model store. -/
def put (key : Key) : ModelStore.Entry S A → Node S A
  | none => { n with modelData := n.modelData.del key }
  | some desc => { n with modelData := n.modelData.set key desc }

/-- `lookup`: an entry past its lease does not count. -/
def cached (key : Key) (now : Time) : Option (ModelDescriptor S A) :=
  match n.entries.get key with
  | none => none
  | some (desc, expiresAt) => if expiresAt < now then none else some desc

def pend (c : CallID) (p : Pending S A) : Node S A :=
  { n with calls := n.calls.set c p }

def finish (c : CallID) : Node S A := { n with calls := n.calls.del c }

def evict (key : Key) : Node S A := { n with entries := n.entries.del key }

def store (key : Key) (desc : ModelDescriptor S A) (expiresAt : Time) : Node S A :=
  { n with entries := n.entries.set key (desc, expiresAt) }

/-- The store's part of a `Get` that missed the cache; only locked models are cached. -/
def fetched (c : CallID) (key : Key) : Reply S A E × Node S A :=
  match ModelStore.get (n.modelData.get key) with
  | .error err => (.answer (.error err), n.finish c)
  | .ok desc =>
    if desc.state = .locked then (.running, n.pend c (.storing key desc))
    else (.answer (.ok (some desc)), n.finish c)

/-- The transaction of the context matters to no model store call. -/
def mutated (applyFunc : Option (ApplyFunc S Δ E)) (n : Node S A) (c : CallID) (tx : Option TxID)
    (key : Key) (call : Call S Δ A) : Reply S A E × Node S A :=
  let extension := match call with
    | .extendSchema _ => tx
    | _ => none
  match ModelStore.perform applyFunc (n.modelData.get key) call with
  | (.error err, _) => (.answer (.error err), n)
  | (.ok _, entry) => (.running, (n.put key entry).pend c (.invalidating key extension))

end Node

/-- `none` when the step is not enabled. -/
def stepNode (spi : Memory.Spi) (applyFunc : Option (ApplyFunc S Δ E)) (n : Node S A) :
    Op S Δ A → Option (Reply S A E × Node S A)
  | .memory action =>
    (Memory.step spi n.world action).map fun (r, world) => (.memory r, { n with world })
  | .read key =>
    some (.answer ((ModelStore.get (n.modelData.get key)).map some), n)
  | .lookup c key now =>
    if c ∈ n.calls.keys then none
    else
      match n.cached key now with
      | some desc => some (.answer (.ok (some desc)), n)
      | none => some (.running, n.pend c (.fetching key))
  | .refresh c key =>
    if c ∈ n.calls.keys then none else some (.running, (n.evict key).pend c (.fetching key))
  | .fetch c =>
    match n.calls.get c with
    | some (.fetching key) => some (n.fetched c key)
    | _ => none
  | .keep c expiresAt =>
    match n.calls.get c with
    | some (.storing key desc) =>
      some (.answer (.ok (some desc)), (n.store key desc expiresAt).finish c)
    | _ => none
  | .mutate c tx key call =>
    match call with
    | .get => none
    | call => if c ∈ n.calls.keys then none else some (n.mutated applyFunc c tx key call)
  | .invalidate c =>
    match n.calls.get c with
    | some (.invalidating key _) => some (.answer (.ok none), (n.evict key).finish c)
    | _ => none
  | .evict key => some (.answer (.ok none), n.evict key)

end CyodaGo.Models
