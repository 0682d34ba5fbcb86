import CyodaGo.Shared.Threads

/-! # The registry of compute members

`MemberRegistry` of `internal/grpc/members.go`: registration, and the publication of the tags
of all members by one goroutine for each change. -/

namespace CyodaGo.Grpc

/-- A member as the registry knows it. -/
structure Connection where
  id : String
  tenantID : String
  tags : List String
  deriving DecidableEq, Repr

abbrev TagMap := GoMap String (List String)

/-- The tags of the members together with the version that they belong to. -/
structure Snapshot where
  version : ℕ
  tags : TagMap

/-- Members are numbered as they are made, so that a number is one object; `connections` holds
all that were ever made and `evicted` those whose eviction has run. `spawned` are the goroutines
that have not run yet, each with what it is to publish. -/
structure MemberRegistry where
  connections : List Connection
  members : GoMap String ℕ
  evicted : List ℕ
  onChange : Bool
  tagsVersion : ℕ
  publishedVersion : ℕ
  spawned : List Snapshot

namespace MemberRegistry

/-- A registry after `SetOnChange`. -/
def new : MemberRegistry := ⟨[], ∅, [], true, 0, 0, []⟩

def addTags (tags : TagMap) (m : Connection) : TagMap :=
  tags.set m.tenantID ((tags.getD m.tenantID [] ++ m.tags).dedup)

def computeTagsLocked (r : MemberRegistry) : TagMap :=
  (r.members.inOrder r.members.keys).foldl (fun tags p =>
    match r.connections[p.2]? with
    | some m => addTags tags m
    | none => tags) ∅

inductive Question where
  | register (m : Connection)
  | remove (m : ℕ)
  | evict (m : ℕ)
  | snapshot
  | spawn (snapshot : Snapshot)
  | publish

abbrev Answer : Question → Type
  | .register _ => ℕ × Option ℕ
  | .remove _ => Bool
  | .evict _ | .spawn _ => Unit
  | .snapshot => Option Snapshot
  | .publish => Option (Snapshot × Bool)

abbrev Code := Program Question Answer

def ask (q : Question) : Code (Answer q) := .ask q .done

def notifyChange : Code Unit := do
  match ← ask .snapshot with
  | none => return
  | some snapshot => ask (.spawn snapshot)

def register (m : Connection) : Code ℕ := do
  let (m, displaced) ← ask (.register m)
  match displaced with
  | some old => ask (.evict old)
  | none => pure ()
  notifyChange
  return m

def unregister : Option ℕ → Code Unit
  | none => return
  | some m => do
    let found ← ask (.remove m)
    ask (.evict m)
    if found then notifyChange

/-- The goroutine that `notifyChange` starts: the snapshot that it passes to the callback, if
any, and whether the callback succeeded. -/
def publish : Code Unit := do
  let _ ← ask .publish

/-! ## Interleaved calls -/

/-- Which of the goroutines runs, and what the callback answers. -/
structure Outside where
  goroutine : ℕ
  succeeds : Bool

def serve (x : Outside) (r : MemberRegistry) : (q : Question) → Option (Answer q × MemberRegistry)
  | .register m =>
    some ((r.connections.length, r.members.get m.id),
      { r with connections := r.connections ++ [m],
               members := r.members.set m.id r.connections.length,
               tagsVersion := r.tagsVersion + 1 })
  | .remove m =>
    match r.connections[m]? with
    | none => none
    | some c =>
      if r.members.get c.id = some m then
        some (true, { r with members := r.members.del c.id, tagsVersion := r.tagsVersion + 1 })
      else some (false, r)
  | .evict m => some ((), { r with evicted := m :: r.evicted })
  | .snapshot =>
    some (if r.onChange then some ⟨r.tagsVersion, r.computeTagsLocked⟩ else none, r)
  | .spawn snapshot => some ((), { r with spawned := r.spawned ++ [snapshot] })
  | .publish =>
    match r.spawned[x.goroutine]? with
    | none => none
    | some snapshot =>
      let r := { r with spawned := r.spawned.eraseIdx x.goroutine }
      if snapshot.version ≤ r.publishedVersion then some (none, r)
      else if x.succeeds then
        some (some (snapshot, true), { r with publishedVersion := snapshot.version })
      else some (some (snapshot, false), r)

inductive Request where
  | register (m : Connection)
  | unregister (m : Option ℕ)
  | publish

def Request.body : Request → Code (Option ℕ)
  | .register m => some <$> MemberRegistry.register m
  | .unregister m => do
    MemberRegistry.unregister m
    return none
  | .publish => do
    MemberRegistry.publish
    return none

abbrev System := Threads MemberRegistry Request Question Answer (Option ℕ)

def System.step (s : System) (m : Move Request Outside) :
    Option (Option (Exchange Question Answer) × System) :=
  Threads.step Request.body serve s m

end MemberRegistry

end CyodaGo.Grpc
