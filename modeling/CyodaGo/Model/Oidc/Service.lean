import CyodaGo.Model.Oidc.Registry
import CyodaGo.Shared.Threads

/-! # The OIDC provider service

The provider store over the key-value store, the lifecycle operations, and the registry's
reload and resolution, as programs whose questions are store calls, discovery fetches and
sections under the registry's lock. -/

namespace CyodaGo.Oidc

/-! ## The key-value store -/

structure Owner where
  tenantID : String
  providerUUID : String
  registeredAt : Int
  deletedAt : Option Int
  deriving DecidableEq

structure UriOwnershipHistory where
  currentOwner : Option Owner
  past : List Owner
  deriving DecidableEq

/-- The keys of the namespace, under the URI instead of its digest. -/
inductive Key where
  | providerBlob (tenant : TenantID) (providerID : String)
  | uriIndex (tenant : TenantID) (uri : String)
  | history (uri : String)
  deriving DecidableEq

/-- What the bytes under a key decode to. -/
abbrev Key.Value : Key → Type
  | .providerBlob .. => OidcProvider
  | .uriIndex .. => String
  | .history _ => UriOwnershipHistory

structure KV where
  blobs : GoMap (TenantID × String) OidcProvider
  index : GoMap (TenantID × String) String
  histories : GoMap String UriOwnershipHistory

def KV.empty : KV := ⟨∅, ∅, ∅⟩

variable (kv : KV) (ref : ProviderRef)

def KV.get : (k : Key) → Option k.Value
  | .providerBlob t id => kv.blobs.get (t, id)
  | .uriIndex t uri => kv.index.get (t, uri)
  | .history uri => kv.histories.get uri

def KV.put : (k : Key) → k.Value → KV
  | .providerBlob t id, p => { kv with blobs := kv.blobs.set (t, id) p }
  | .uriIndex t uri, id => { kv with index := kv.index.set (t, uri) id }
  | .history uri, h => { kv with histories := kv.histories.set uri h }

def KV.delete : Key → KV
  | .providerBlob t id => { kv with blobs := kv.blobs.del (t, id) }
  | .uriIndex t uri => { kv with index := kv.index.del (t, uri) }
  | .history uri => { kv with histories := kv.histories.del uri }

/-! ## Errors -/

inductive OidcError where
  | providerDuplicate
  | providerNotFound
  | providerInactive
  | reloadContention
  | kvNotFound
  | kvFailed (text : String)
  | wrap (text : String) (err : OidcError)
  deriving DecidableEq

/-- `errors.Is`. -/
def OidcError.is : OidcError → OidcError → Bool
  | .wrap text err, target => .wrap text err == target || err.is target
  | err, target => err == target

/-! ## Questions -/

inductive Question where
  | kvGet (k : Key)
  | kvPut (k : Key) (v : k.Value)
  | kvDelete (k : Key)
  | kvList
  | fetch (uri : String)
  | addToProviderMap (p : OidcProvider)
  | lookupProvider (ref : ProviderRef)
  | dropSource (ref : ProviderRef)
  | installSource (ref : ProviderRef) (prov : OidcProvider) (doc : DiscoveryDoc) (syncKeys : Bool)
  | invalidateOne (ref : ProviderRef)
  | loadMapGen
  | swap (gen : Nat) (loaded : List OidcProvider)
  | lockReconcile
  | unlockReconcile
  | reconcileStale
  | hotPath (kid iss aud : String)
  | coldPath (kid iss aud : String)
  | evictKidEntry (kid : String) (ref : ProviderRef)

abbrev Answer : Question → Type
  | .kvGet k => Except OidcError k.Value
  | .kvPut .. | .kvDelete _ => Except OidcError Unit
  | .kvList => Except OidcError (List ((k : Key) × k.Value))
  | .fetch _ => Option DiscoveryDoc
  | .lookupProvider _ => Option OidcProvider
  | .loadMapGen => Nat
  | .swap .. | .reconcileStale => Bool
  | .hotPath .. | .coldPath .. => Except ResolveError KeyResolution
  | .addToProviderMap _ | .dropSource _ | .installSource .. | .invalidateOne _ => Unit
  | .lockReconcile | .unlockReconcile | .evictKidEntry .. => Unit

abbrev Code := Program Question Answer

def ask (q : Question) : Code (Answer q) := .ask q .done

/-! ## The provider store -/

namespace Store

variable (tenantID : TenantID)

def getProvider (providerID : String) : Code (Except OidcError OidcProvider) := do
  match ← ask (.kvGet (.providerBlob tenantID providerID)) with
  | .error err =>
    if err.is .kvNotFound then return .error .providerNotFound
    return .error (.wrap "oidc: get blob" err)
  | .ok p =>
    if p.ownerLegalEntityID ≠ tenantID then return .error .providerNotFound
    return .ok p

def getByURI (uri : String) : Code (Except OidcError OidcProvider) := do
  match ← ask (.kvGet (.uriIndex tenantID uri)) with
  | .error err =>
    if err.is .kvNotFound then return .error .providerNotFound
    return .error (.wrap "oidc: get index" err)
  | .ok id =>
    match ← getProvider tenantID id with
    | .error err =>
      if err.is .providerNotFound then
        -- an orphan index entry; the outcome of the cleanup is ignored
        let _ ← ask (.kvDelete (.uriIndex tenantID uri))
        return .error err
      return .error err
    | .ok p => return .ok p

def registerProvider (p : OidcProvider) : Code (Except OidcError Unit) := do
  let tenant := p.ownerLegalEntityID
  match ← ask (.kvPut (.uriIndex tenant p.wellKnownConfigURI) p.id) with
  | .error err => return .error (.wrap "oidc: put index" err)
  | .ok () =>
    match ← ask (.kvPut (.providerBlob tenant p.id) p) with
    | .error err =>
      let _ ← ask (.kvDelete (.uriIndex tenant p.wellKnownConfigURI))
      return .error (.wrap "oidc: put blob" err)
    | .ok () => return .ok ()

def updateProvider (p : OidcProvider) : Code (Except OidcError Unit) :=
  ask (.kvPut (.providerBlob p.ownerLegalEntityID p.id) p)

def deleteProvider (providerID uri : String) : Code (Except OidcError Unit) := do
  match ← ask (.kvDelete (.providerBlob tenantID providerID)) with
  | .error err => return .error (.wrap "oidc: delete blob" err)
  | .ok () =>
    match ← ask (.kvDelete (.uriIndex tenantID uri)) with
    | .error err => return .error (.wrap "oidc: delete index" err)
    | .ok () => return .ok ()

/-- Index and history entries are skipped. -/
def providerOf : (k : Key) × k.Value → Option OidcProvider
  | ⟨.providerBlob .., p⟩ => some p
  | ⟨.uriIndex .., _⟩ | ⟨.history _, _⟩ => none

def loadAll : Code (Except OidcError (List OidcProvider)) := do
  match ← ask .kvList with
  | .error err => return .error (.wrap "oidc: list" err)
  | .ok entries =>
    return .ok (entries.filterMap providerOf)

def getURIHistory (uri : String) : Code (Except OidcError (Option UriOwnershipHistory)) := do
  match ← ask (.kvGet (.history uri)) with
  | .error err =>
    if err.is .kvNotFound then return .ok none
    return .error (.wrap "oidc: get history" err)
  | .ok h => return .ok (some h)

def putURIHistory (uri : String) (h : UriOwnershipHistory) : Code (Except OidcError Unit) :=
  ask (.kvPut (.history uri) h)

/-- The id in the index, and whether it is the expected one. -/
def raceValidateIndex (uri expectedID : String) :
    Code (Except OidcError (String × Bool)) := do
  match ← ask (.kvGet (.uriIndex tenantID uri)) with
  | .error err =>
    if err.is .kvNotFound then return .error (.wrap "oidc: race-validate: index disappeared" err)
    return .error (.wrap "oidc: race-validate" err)
  | .ok winning => return .ok (winning, winning == expectedID)

end Store

/-! ## Reload -/

def reloadOneInternal (syncKeys : Bool) : Code Unit := do
  match ← ask (.fetch ref.uri) with
  | none => return ()
  | some doc =>
    match ← ask (.lookupProvider ref) with
    | none => return ()
    | some prov =>
      if prov.issuers ≠ [] ∧ ¬ prov.issuers.contains doc.issuer then
        ask (.dropSource ref)
      else
        ask (.installSource ref prov doc syncKeys)

def reloadOne : Code Unit := reloadOneInternal ref true

def reloadDiscoveryOnly : Code Unit := reloadOneInternal ref false

def maxReloadAttempts : Nat := 5

open Store

def reloadAttempts : Nat → Code (Except OidcError Unit)
  | 0 => return .error .reloadContention
  | attempts + 1 => do
    let gen ← ask .loadMapGen
    match ← loadAll with
    | .error err => return .error err
    | .ok providers =>
      if ← ask (.swap gen providers) then return .ok ()
      reloadAttempts attempts

def reloadAll : Code (Except OidcError Unit) := do
  ask .lockReconcile
  let result ← reloadAttempts maxReloadAttempts
  ask .unlockReconcile
  return result

/-! ## Resolution -/

def resolveKey (kid iss aud : String) : Code (Except ResolveError KeyResolution) := do
  if ← ask .reconcileStale then return .error .registryStale
  match ← ask (.hotPath kid iss aud) with
  | .ok res => return .ok res
  | .error err =>
    if !err.isUnknownKID then return .error err
    ask (.coldPath kid iss aud)

/-! ## Lifecycle operations

The fresh UUID and the readings of the clock are arguments. -/

structure RegisterInput where
  tenantID : TenantID
  wellKnownConfigURI : String
  issuers : List String
  expectedAudiences : List String
  rolesClaim : Option String
  ownerLegalEntityID : TenantID
  deriving DecidableEq

def RegisterInput.provider (input : RegisterInput) (id : String) (now : Int) : OidcProvider where
  id := id
  wellKnownConfigURI := input.wellKnownConfigURI
  issuers := input.issuers
  expectedAudiences := input.expectedAudiences
  rolesClaim := input.rolesClaim
  invalidatedAt := none
  createdAt := now
  ownerLegalEntityID := input.ownerLegalEntityID

def UriOwnershipHistory.addOwner (history : Option UriOwnershipHistory) (newOwner : Owner) :
    UriOwnershipHistory :=
  match history with
  | none => ⟨some newOwner, []⟩
  | some h =>
    match h.currentOwner with
    | none => ⟨some newOwner, h.past⟩
    | some owner => ⟨some newOwner, h.past ++ [owner]⟩

/-- `emitOwnershipTransitionAndUpdateHistory`; errors are only logged. -/
def updateHistory (p : OidcProvider) (tenant : TenantID) : Code Unit := do
  match ← getURIHistory p.wellKnownConfigURI with
  | .error _ => return ()
  | .ok history =>
    let newOwner : Owner := ⟨tenant, p.id, p.createdAt, none⟩
    let _ ← putURIHistory p.wellKnownConfigURI (.addOwner history newOwner)
    return ()

def markOwnershipDeletedInHistory (uri : String) (tenant : TenantID) (providerID : String)
    (now : Int) : Code Unit := do
  match ← getURIHistory uri with
  | .error _ | .ok none => return ()
  | .ok (some history) =>
    match history.currentOwner with
    | none => return ()
    | some owner =>
      if owner.tenantID ≠ tenant ∨ owner.providerUUID ≠ providerID then return ()
      let deleted := { owner with deletedAt := some now }
      let _ ← putURIHistory uri ⟨none, history.past ++ [deleted]⟩
      return ()

def register (input : RegisterInput) (id : String) (now : Int) :
    Code (Except OidcError OidcProvider) := do
  let tenant := input.tenantID
  let uri := input.wellKnownConfigURI
  match ← getByURI tenant uri with
  | .ok _ => return .error .providerDuplicate
  | .error _ =>
    -- every error of the duplicate check counts as "not registered"
    let p := input.provider id now
    match ← registerProvider p with
    | .error err => return .error (.wrap "oidc: register" err)
    | .ok () =>
      match ← raceValidateIndex tenant uri id with
      | .error err =>
        let _ ← deleteProvider tenant id uri
        return .error (.wrap "oidc: race-validate" err)
      | .ok (_, false) =>
        let _ ← deleteProvider tenant id uri
        return .error .providerDuplicate
      | .ok (_, true) =>
        updateHistory p tenant
        ask (.addToProviderMap p)
        reloadOne ⟨tenant, uri⟩
        return .ok p

/-- `none` for a field that the request leaves alone. -/
structure UpdateInput where
  tenantID : TenantID
  providerID : String
  issuers : Option (List String)
  expectedAudiences : Option (List String)
  rolesClaim : Option (Option String)
  deriving DecidableEq

def UpdateInput.apply (input : UpdateInput) (p : OidcProvider) : OidcProvider :=
  { p with
    issuers := input.issuers.getD p.issuers
    expectedAudiences := input.expectedAudiences.getD p.expectedAudiences
    rolesClaim := input.rolesClaim.getD p.rolesClaim }

/-- How every operation on an existing provider reports that it could not be read. -/
def readError (text : String) (err : OidcError) : OidcError :=
  if err.is .providerNotFound then .providerNotFound else .wrap text err

def update (input : UpdateInput) : Code (Except OidcError OidcProvider) := do
  match ← getProvider input.tenantID input.providerID with
  | .error err => return .error (readError "oidc: update" err)
  | .ok stored =>
    if !stored.active then return .error .providerInactive
    let p := input.apply stored
    match ← updateProvider p with
    | .error err => return .error (.wrap "oidc: store update" err)
    | .ok () =>
      ask (.addToProviderMap p)
      reloadOne ⟨input.tenantID, p.wellKnownConfigURI⟩
      return .ok p

def invalidate (tenant : TenantID) (providerID : String) (now : Int) :
    Code (Except OidcError Unit) := do
  match ← getProvider tenant providerID with
  | .error err => return .error (readError "oidc: invalidate" err)
  | .ok p =>
    if !p.active then return .ok ()
    match ← updateProvider { p with invalidatedAt := some now } with
    | .error err => return .error (.wrap "oidc: invalidate store" err)
    | .ok () =>
      ask (.invalidateOne ⟨tenant, p.wellKnownConfigURI⟩)
      return .ok ()

structure ReactivateInput where
  tenantID : TenantID
  providerID : String
  reactivateKeys : Bool
  deriving DecidableEq

def reactivate (input : ReactivateInput) : Code (Except OidcError OidcProvider) := do
  match ← getProvider input.tenantID input.providerID with
  | .error err => return .error (readError "oidc: reactivate" err)
  | .ok stored =>
    if stored.active then return .ok stored
    let p := { stored with invalidatedAt := none }
    match ← updateProvider p with
    | .error err => return .error (.wrap "oidc: reactivate store" err)
    | .ok () =>
      ask (.addToProviderMap p)
      let ref : ProviderRef := ⟨input.tenantID, p.wellKnownConfigURI⟩
      if input.reactivateKeys then reloadOne ref else reloadDiscoveryOnly ref
      return .ok p

def delete (tenant : TenantID) (providerID : String) (now : Int) :
    Code (Except OidcError Unit) := do
  match ← getProvider tenant providerID with
  | .error err => return .error (readError "oidc: delete" err)
  | .ok p =>
    match ← deleteProvider tenant p.id p.wellKnownConfigURI with
    | .error err => return .error (.wrap "oidc: delete store" err)
    | .ok () =>
      markOwnershipDeletedInHistory p.wellKnownConfigURI tenant p.id now
      ask (.invalidateOne ⟨tenant, p.wellKnownConfigURI⟩)
      return .ok ()

/-! ## A node -/

/-- `loads` is a history variable: what each `List` of the store returned, with the map
generation at that moment. No code reads it. -/
structure Node where
  kv : KV
  registry : Registry
  reconciling : Bool
  loads : List (Nat × List OidcProvider)

def Node.empty : Node := ⟨.empty, .empty, false, []⟩

/-- What is outside the node: whether a store call fails, in which order a listing comes,
the discovery document, the keys, and what `reflect.DeepEqual` and the staleness check say. -/
structure Outside where
  fault : Option OidcError
  order : List (TenantID × String)
  doc : Option DiscoveryDoc
  serial : Nat
  deepEqual : Bool
  stale : Bool
  keys : KeyAnswers

/-- A listing visits every entry once; only the providers matter to `loadAll`. -/
def KV.list (order : List (TenantID × String)) : List ((k : Key) × k.Value) :=
  kv.index.keys.filterMap (fun k => (kv.index.get k).map (⟨.uriIndex k.1 k.2, ·⟩)) ++
    (kv.blobs.inOrder order).map (fun e => ⟨.providerBlob e.1.1 e.1.2, e.2⟩) ++
    kv.histories.keys.filterMap (fun k => (kv.histories.get k).map (⟨.history k, ·⟩))

/-- A store call that fails has no effect. -/
def faulty {α : Type} (x : Outside) (n : Node) (answer : Except OidcError α × Node) :
    Except OidcError α × Node :=
  match x.fault with
  | none => answer
  | some err => (.error err, n)

def Node.serve (x : Outside) (n : Node) : (q : Question) → Option (Answer q × Node)
  | .kvGet k => some <| faulty x n <|
    match n.kv.get k with
    | none => (.error .kvNotFound, n)
    | some v => (.ok v, n)
  | .kvPut k v => some (faulty x n (.ok (), { n with kv := n.kv.put k v }))
  | .kvDelete k => some (faulty x n (.ok (), { n with kv := n.kv.delete k }))
  | .kvList =>
    if x.order.Perm n.kv.blobs.keys then
      some <| faulty x n (.ok (n.kv.list x.order),
        { n with loads := (n.registry.mapGen, (n.kv.blobs.inOrder x.order).map (·.2)) :: n.loads })
    else none
  | .fetch _ => some (x.doc, n)
  | .addToProviderMap p => some ((), { n with registry := n.registry.addToProviderMap p })
  | .lookupProvider ref => some (n.registry.providers.get ref, n)
  | .dropSource ref => some ((), { n with registry := n.registry.dropSource ref })
  | .installSource ref prov doc syncKeys =>
    some ((), { n with registry := n.registry.installSource ref prov doc syncKeys x.serial })
  | .invalidateOne ref => some ((), { n with registry := n.registry.invalidateOne ref })
  | .loadMapGen => some (n.registry.mapGen, n)
  | .swap gen loaded =>
    let (done, registry) := n.registry.swap gen loaded x.deepEqual
    some (done, { n with registry := registry })
  | .lockReconcile => if n.reconciling then none else some ((), { n with reconciling := true })
  | .unlockReconcile => some ((), { n with reconciling := false })
  | .reconcileStale => some (x.stale, n)
  | .hotPath kid iss aud => some (n.registry.hotPath x.keys kid iss aud, n)
  | .coldPath kid iss aud =>
    let (res, registry) := n.registry.coldPath x.keys kid iss aud
    some (res, { n with registry := registry })
  | .evictKidEntry kid ref => some ((), { n with registry := n.registry.evictKidEntry kid ref })

/-- A call, with the fresh UUID and the reading of the clock that it meets. -/
inductive Call where
  | register (input : RegisterInput) (id : String) (now : Int)
  | update (input : UpdateInput)
  | invalidate (tenant : TenantID) (providerID : String) (now : Int)
  | reactivate (input : ReactivateInput)
  | delete (tenant : TenantID) (providerID : String) (now : Int)
  | reloadAll
  | reloadOne (ref : ProviderRef)
  | resolveKey (kid iss aud : String)
  deriving DecidableEq

inductive Outcome where
  | provider (result : Except OidcError OidcProvider)
  | finished (result : Except OidcError Unit)
  | resolved (result : Except ResolveError KeyResolution)
  | reloaded
  deriving DecidableEq

def Call.body : Call → Code Outcome
  | .register input id now => .provider <$> Oidc.register input id now
  | .update input => .provider <$> Oidc.update input
  | .invalidate tenant id now => .finished <$> Oidc.invalidate tenant id now
  | .reactivate input => .provider <$> Oidc.reactivate input
  | .delete tenant id now => .finished <$> Oidc.delete tenant id now
  | .reloadAll => .finished <$> Oidc.reloadAll
  | .reloadOne ref => (fun _ => .reloaded) <$> Oidc.reloadOne ref
  | .resolveKey kid iss aud => .resolved <$> Oidc.resolveKey kid iss aud

abbrev System := Threads Node Call Question Answer Outcome

def System.step (s : System) (m : Move Call Outside) :
    Option (Option (Exchange Question Answer) × System) :=
  Threads.step Call.body Node.serve s m

/-! ## The registry on its own -/

inductive RegistryCall where
  | addToProviderMap (p : OidcProvider)
  | reloadOne (ref : ProviderRef)
  | invalidateOne (ref : ProviderRef)
  | reloadAll
  | resolveKey (kid iss aud : String)
  | evictKidEntry (kid : String) (ref : ProviderRef)
  deriving DecidableEq

def RegistryCall.code : RegistryCall → Code Outcome
  | .addToProviderMap p => (fun _ => .reloaded) <$> ask (.addToProviderMap p)
  | .reloadOne ref => (fun _ => .reloaded) <$> Oidc.reloadOne ref
  | .invalidateOne ref => (fun _ => .reloaded) <$> ask (.invalidateOne ref)
  | .reloadAll => .finished <$> Oidc.reloadAll
  | .resolveKey kid iss aud => .resolved <$> Oidc.resolveKey kid iss aud
  | .evictKidEntry kid ref => (fun _ => .reloaded) <$> ask (.evictKidEntry kid ref)

/-- A call of the registry, with what it meets outside; the store has been written meanwhile. -/
structure Request where
  call : RegistryCall
  outside : Outside
  kv : KV

/-- One call after the other, over key sources with fixed answers. -/
def Node.perform (keys : KeyAnswers) (n : Node) (req : Request) : Option (Outcome × Node) :=
  req.call.code.runWith (Node.serve { req.outside with keys := keys }) { n with kv := req.kv }

end CyodaGo.Oidc
