import CyodaGo.Model.Search.AsyncStore

/-! # Jobs of the search service

`CancelAsync` calls the store twice, and anything may happen between the two calls. The registry
holds the handles of the jobs that are queued or running on this node; each of its methods is one
section under its lock. -/

namespace CyodaGo.Search

/-! ## Cancelling -/

structure CancelResult where
  cancelled : Bool
  currentStatus : JobStatus
  deriving DecidableEq

/-- The store and its other callers, and the calls of `CancelAsync` that have read a running job. -/
structure Service where
  sys : System
  cancels : GoMap Nat JobKey

inductive ServiceAction where
  | store (a : Action)
  | getJob (call : Nat) (k : JobKey)
  | cancelJob (call : Nat) (finishTime : Int)

inductive ServiceReply where
  | store (r : Reply)
  | running
  | failed (e : StoreError)
  | answered (k : JobKey) (res : CancelResult)
  deriving DecidableEq

namespace Service

variable (x : Service)

def getJob (call : Nat) (k : JobKey) : ServiceReply × Service :=
  match x.sys.store.findEntryLocked k with
  | .error e => (.failed e, x)
  | .ok entry =>
    if entry.job.status ≠ .running then (.answered k ⟨false, entry.job.status⟩, x)
    else (.running, { x with cancels := x.cancels.set call k })

/-- `CancelRunning` stops an executor on this node and does not touch the store. -/
def cancelJob (call : Nat) (k : JobKey) (finishTime : Int) : ServiceReply × Service :=
  match x.sys.store.cancel k finishTime with
  | .error e => (.failed e, { x with cancels := x.cancels.del call })
  | .ok store =>
    (.answered k ⟨true, .cancelled⟩, ⟨{ x.sys with store := store }, x.cancels.del call⟩)

def step : ServiceAction → Option (ServiceReply × Service)
  | .store a => (x.sys.step a).map fun (r, sys) => (.store r, { x with sys := sys })
  | .getJob call k => if (x.cancels.get call).isSome then none else some (x.getJob call k)
  | .cancelJob call finishTime =>
    (x.cancels.get call).map fun k => x.cancelJob call k finishTime

end Service

/-! ## The registry -/

/-- A handle is known by its address; the tenant is that of its user context. -/
structure AsyncJobHandle where
  addr : Nat
  tenant : String
  epoch : Int
  deriving DecidableEq

/-- `next` is the address of the next handle. No cap is a `maxPerTenant` of 0. -/
structure Registry where
  registry : GoMap String AsyncJobHandle
  tenantInFlight : GoMap String Int
  maxPerTenant : Int
  next : Nat

namespace Registry

variable (s : Registry)

variable (tenant jobID : String)

def inFlight : Int := s.tenantInFlight.getD tenant 0

def newHandle (epoch : Int) : AsyncJobHandle := ⟨s.next, tenant, epoch⟩

/-- The registry with a new handle; `counted` says whether a slot of the tenant is taken. -/
def install (tenant : String) (epoch : Int) (counted : Bool) : Registry :=
  { s with
    registry := s.registry.set jobID (s.newHandle tenant epoch)
    tenantInFlight :=
      if counted then s.tenantInFlight.set tenant (s.inFlight tenant + 1) else s.tenantInFlight
    next := s.next + 1 }

def registerJob (tenant : String) (epoch : Int) : Option AsyncJobHandle × Registry :=
  if (s.registry.get jobID).isSome then (none, s)
  else if 0 < s.maxPerTenant ∧ s.maxPerTenant ≤ s.inFlight tenant then (none, s)
  else (some (s.newHandle tenant epoch), s.install jobID tenant epoch true)

/-- No cap applies, and a handle that is replaced keeps its slot. -/
def registerReclaim (tenant : String) (epoch : Int) : AsyncJobHandle × Registry :=
  (s.newHandle tenant epoch, s.install jobID tenant epoch (s.registry.get jobID).isNone)

def releaseSlot : GoMap String Int :=
  if s.inFlight tenant ≤ 1 then s.tenantInFlight.del tenant
  else s.tenantInFlight.set tenant (s.inFlight tenant - 1)

/-- Only the handle that is registered is removed. -/
def deregisterJobHandle (addr : Nat) : Registry :=
  match s.registry.get jobID with
  | none => s
  | some cur =>
    if cur.addr ≠ addr then s
    else
      { s with
        registry := s.registry.del jobID
        tenantInFlight := s.releaseSlot cur.tenant }

inductive Call where
  | registerJob (jobID tenant : String) (epoch : Int)
  | registerReclaim (jobID tenant : String) (epoch : Int)
  | deregisterJobHandle (jobID : String) (addr : Nat)

/-- The calls answer with the handle that they have installed, if any. -/
def step : Call → Option (Option AsyncJobHandle × Registry)
  | .registerJob jobID tenant epoch => some (s.registerJob jobID tenant epoch)
  | .registerReclaim jobID tenant epoch =>
    let (h, s') := s.registerReclaim jobID tenant epoch
    some (some h, s')
  | .deregisterJobHandle jobID addr => some (none, s.deregisterJobHandle jobID addr)

def empty (maxPerTenant : Int) : Registry := ⟨∅, ∅, maxPerTenant, 0⟩

end Registry

end CyodaGo.Search
