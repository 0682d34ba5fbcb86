import CyodaGo.Model.Clock
import CyodaGo.Shared.GoMap
import CyodaGo.Shared.Run

/-! # The in-memory store of asynchronous search jobs

Every method takes the store's lock once, except `SaveResults`, which takes it once for each chunk
of identifiers. -/

namespace CyodaGo.Search

inductive JobStatus where
  | running
  | successful
  | failed
  | cancelled
  deriving DecidableEq

def terminalStatuses : JobStatus → Bool
  | .successful | .failed | .cancelled => true
  | .running => false

structure SearchJob where
  createTime : Int
  status : JobStatus
  epoch : Int
  staleClaims : Int
  heartbeatTime : Option Int
  resultCount : Int
  error : String
  finishTime : Option Int
  calcTimeMs : Int
  deriving DecidableEq

/-- `released` is set by `Release` and cleared by the claim that takes the job. -/
structure SearchJobEntry where
  job : SearchJob
  entityIDs : List String
  released : Bool
  deriving DecidableEq

/-- A tenant and a job's identifier. -/
abbrev JobKey := String × String

inductive StoreError where
  | notFound
  | alreadyTerminal
  | staleClaim
  | badLimit
  deriving DecidableEq

structure AsyncSearchStore where
  data : GoMap JobKey SearchJobEntry

namespace AsyncSearchStore

variable (s : AsyncSearchStore)

variable (k : JobKey)

def put (entry : SearchJobEntry) : AsyncSearchStore := ⟨s.data.set k entry⟩

/-- The epoch is 1 whatever the caller has set. -/
def createJob (job : SearchJob) : AsyncSearchStore :=
  s.put k ⟨{ job with epoch := 1, staleClaims := 0 }, [], false⟩

def findEntryLocked : Except StoreError SearchJobEntry :=
  match s.data.get k with
  | some entry => .ok entry
  | none => .error .notFound

def guardWrite (epoch : Int) : Except StoreError SearchJobEntry := do
  let entry ← s.findEntryLocked k
  if terminalStatuses entry.job.status then .error .alreadyTerminal
  else if epoch ≠ entry.job.epoch then .error .staleClaim
  else .ok entry

/-- A finish time of `none` is the zero time. -/
def updateJobStatus (epoch : Int) (status : JobStatus) (resultCount : Int) (errMsg : String)
    (finishTime : Option Int) (calcTimeMs : Int) :
    Except StoreError AsyncSearchStore := do
  let entry ← s.guardWrite k epoch
  .ok (s.put k { entry with
    job := { entry.job with
      status := status, resultCount := resultCount, error := errMsg, finishTime := finishTime,
      calcTimeMs := calcTimeMs } })

def guardAndAppend (epoch : Int) (chunk : List String) :
    Except StoreError AsyncSearchStore := do
  let entry ← s.guardWrite k epoch
  .ok (s.put k { entry with entityIDs := entry.entityIDs ++ chunk })

/-- A job in a terminal status keeps its finish time. -/
def cancel (finishTime : Int) : Except StoreError AsyncSearchStore := do
  let entry ← s.findEntryLocked k
  if terminalStatuses entry.job.status then .ok s
  else
    .ok (s.put k { entry with
      job := { entry.job with status := .cancelled, finishTime := some finishTime } })

def heartbeat (epoch now : Int) : Except StoreError AsyncSearchStore := do
  let entry ← s.guardWrite k epoch
  .ok (s.put k { entry with job := { entry.job with heartbeatTime := some now } })

def clearResults : AsyncSearchStore :=
  match s.findEntryLocked k with
  | .error _ => s
  | .ok entry => s.put k { entry with entityIDs := [] }

def release (epoch : Int) : Except StoreError AsyncSearchStore := do
  let entry ← s.guardWrite k epoch
  .ok (s.put k { entry with released := true })

end AsyncSearchStore

/-! ## Claims -/

namespace SearchJobEntry

def claimable (entry : SearchJobEntry) (cutoff : Int) : Bool :=
  entry.job.status = .running &&
    (entry.released || entry.job.heartbeatTime.getD entry.job.createTime < cutoff)

def claim (entry : SearchJobEntry) (now : Int) : SearchJobEntry :=
  { entry with
    job := { entry.job with
      epoch := entry.job.epoch + 1
      staleClaims := entry.job.staleClaims + if entry.released then 0 else 1
      heartbeatTime := some now }
    released := false }

end SearchJobEntry

/-- The oldest job first, then by identifier. -/
def olderJob (a b : JobKey × SearchJobEntry) : Bool :=
  if a.2.job.createTime ≠ b.2.job.createTime then a.2.job.createTime < b.2.job.createTime
  else a.1.2 ≤ b.1.2

namespace AsyncSearchStore

/-- The jobs that a claim takes; `order` is the order in which the maps are walked. -/
def claimed (s : AsyncSearchStore) (cutoff limit : Int) (order : List JobKey) :
    List (JobKey × SearchJobEntry) :=
  (((s.data.inOrder order).filter fun c => c.2.claimable cutoff).insertionSort
    fun a b => olderJob a b = true).take limit.toNat

def claimStale (s : AsyncSearchStore) (now : Int) (staleAfter : Duration) (limit : Int)
    (order : List JobKey) :
    Except StoreError (List (JobKey × SearchJob) × AsyncSearchStore) :=
  if limit < 1 then .error .badLimit
  else
    let candidates := s.claimed (timeAdd now (-staleAfter)) limit order
    .ok (candidates.map fun c => (c.1, (c.2.claim now).job),
      ⟨candidates.foldl (fun m c => m.set c.1 (c.2.claim now)) s.data⟩)

end AsyncSearchStore

/-! ## SaveResults -/

def saveResultsChunkSize : Nat := 1024

/-- The chunks after the guard up front: full ones, then the rest, which may be empty. -/
def chunksFrom (buf : List String) : List String → List (List String)
  | [] => [buf]
  | id :: ids =>
    let buf := buf ++ [id]
    if saveResultsChunkSize ≤ buf.length then buf :: chunksFrom [] ids else chunksFrom buf ids

/-- What `SaveResults` appends, one locked section after the other. -/
def saveChunks (ids : List String) : List (List String) := [] :: chunksFrom [] ids

/-- A call of `SaveResults` that has not returned. -/
structure SaveCall where
  key : JobKey
  epoch : Int
  chunks : List (List String)
  deriving DecidableEq

/-! ## Callers -/

structure System where
  store : AsyncSearchStore
  saves : GoMap Nat SaveCall

/-- `clearResults` names the epoch that its caller has claimed; the store does not see it. -/
inductive Action where
  | updateJobStatus (k : JobKey) (epoch : Int) (status : JobStatus) (resultCount : Int)
      (errMsg : String) (finishTime : Option Int) (calcTimeMs : Int)
  | heartbeat (k : JobKey) (epoch now : Int)
  | release (k : JobKey) (epoch : Int)
  | cancel (k : JobKey) (finishTime : Int)
  | clearResults (k : JobKey) (claimed : Int)
  | claimStale (now : Int) (staleAfter : Duration) (limit : Int) (order : List JobKey)
  | saveResults (call : Nat) (k : JobKey) (epoch : Int) (ids : List String)
  | saveChunk (call : Nat)
  | saveCancelled (call : Nat)

inductive Reply where
  | ok
  | error (e : StoreError)
  | claimed (jobs : List (JobKey × SearchJob))
  | cancelled
  deriving DecidableEq

namespace System

variable (x : System)

def reply (r : Except StoreError AsyncSearchStore) : Reply × System :=
  match r with
  | .ok store => (.ok, { x with store := store })
  | .error e => (.error e, x)

/-- The next locked section of a call; the call returns at the first error or after the last
chunk. -/
def saveChunk (call : Nat) (c : SaveCall) : Option (Reply × System) :=
  match c.chunks with
  | [] => none
  | chunk :: chunks =>
    match x.store.guardAndAppend c.key c.epoch chunk with
    | .error e => some (.error e, { x with saves := x.saves.del call })
    | .ok store =>
      some (.ok, ⟨store, if chunks.isEmpty then x.saves.del call
        else x.saves.set call { c with chunks := chunks }⟩)

def step : Action → Option (Reply × System)
  | .updateJobStatus k epoch status resultCount errMsg finishTime calcTimeMs =>
    some (x.reply
      (x.store.updateJobStatus k epoch status resultCount errMsg finishTime calcTimeMs))
  | .heartbeat k epoch now => some (x.reply (x.store.heartbeat k epoch now))
  | .release k epoch => some (x.reply (x.store.release k epoch))
  | .cancel k finishTime => some (x.reply (x.store.cancel k finishTime))
  | .clearResults k _ => some (.ok, { x with store := x.store.clearResults k })
  | .claimStale now staleAfter limit order =>
    if ¬ order.Perm x.store.data.keys then none
    else
      match x.store.claimStale now staleAfter limit order with
      | .error e => some (.error e, x)
      | .ok (jobs, store) => some (.claimed jobs, { x with store := store })
  | .saveResults call k epoch ids =>
    if (x.saves.get call).isSome then none
    else some (.ok, { x with saves := x.saves.set call ⟨k, epoch, saveChunks ids⟩ })
  | .saveChunk call => (x.saves.get call).bind (x.saveChunk call)
  | .saveCancelled call =>
    if (x.saves.get call).isNone then none
    else some (.cancelled, { x with saves := x.saves.del call })

end System

end CyodaGo.Search
