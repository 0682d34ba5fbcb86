import CyodaGo.Model.Memory.Types

/-! # The store factory

`store_factory.go`: the maps guarded by `entityMu` and the helpers that update them. -/

namespace CyodaGo.Memory

namespace StoreFactory

def empty : StoreFactory := ⟨∅, ∅, ∅, ∅, ∅⟩

/-- `entityData[tid]`; a nil inner map reads as the empty map. -/
def tenantData (f : StoreFactory) (tid : TenantID) : GoMap EntityID (List EntityVersion) :=
  f.entityData.getD tid ∅

/-- `entityData[tid][eid]`; an absent slice reads as the empty one. -/
def versions (f : StoreFactory) (tid : TenantID) (eid : EntityID) : List EntityVersion :=
  (f.tenantData tid).getD eid []

def setVersions (f : StoreFactory) (tid : TenantID) (eid : EntityID)
    (vs : List EntityVersion) : StoreFactory :=
  { f with entityData := f.entityData.set tid ((f.tenantData tid).set eid vs) }

def releaseClaims (f : StoreFactory) (tenantID : TenantID) (entityID : EntityID) : StoreFactory :=
  let etk : EntityTenantKey := ⟨tenantID, entityID⟩
  { f with
    uniqueClaims := (f.claimsByEntity.getD etk []).foldl GoMap.del f.uniqueClaims
    claimsByEntity := f.claimsByEntity.del etk }

def claimKey (tenant : TenantID) (model : ModelRef) (c : UniqueClaim) : ClaimKey :=
  ⟨tenant, model.entityName, model.modelVersion, c.keyID, c.signature⟩

def insertClaims (f : StoreFactory) (entityID : EntityID) (tenant : TenantID) (model : ModelRef)
    (claims : List UniqueClaim) : StoreFactory :=
  if claims = [] then f
  else
    let keys := claims.map (claimKey tenant model)
    { f with
      uniqueClaims := keys.foldl (fun m k => m.set k entityID) f.uniqueClaims
      claimsByEntity := f.claimsByEntity.set ⟨tenant, entityID⟩ keys }

/-- The empty transaction id is never indexed, and the earliest version wins. -/
def recordTxIndex (f : StoreFactory) (tid : TenantID) (entityID : EntityID) (txID : TxID)
    (version : Int) : StoreFactory :=
  if txID = "" then f
  else
    match f.txIndex.get (tid, entityID, txID) with
    | some existing =>
      if existing ≤ version then f
      else { f with txIndex := f.txIndex.set (tid, entityID, txID) version }
    | none => { f with txIndex := f.txIndex.set (tid, entityID, txID) version }

end StoreFactory

/-! ## Rows -/

def tombstone (version : Int) (txID : TxID) (submitTime : Time) (a : WriteAttribution) :
    EntityVersion where
  entity := none
  version := version
  transactionID := txID
  submitTime := submitTime
  deleted := true
  changeType := "DELETED"
  user := a.attributed.id
  changeUserKind := a.attributed.kind
  executor := a.executor

def deriveChangeType (callerChangeType : String) (hasPriorVersion : Bool) : String :=
  if !hasPriorVersion then "CREATED"
  else if callerChangeType = "" ∨ callerChangeType = "CREATED" then "UPDATED"
  else callerChangeType

/-- The backward scan of `Commit`: the newest row that is not deleted and has an
entity. -/
def lastLive (vs : List EntityVersion) : Option Entity :=
  vs.reverse.findSome? fun v => if v.deleted then none else v.entity

def applyScheduledTaskOp (dst : GoMap String ScheduledTask) :
    ScheduledTaskOp → GoMap String ScheduledTask
  | .upsert task => dst.set task.id task
  | .delete id => dst.del id

end CyodaGo.Memory
