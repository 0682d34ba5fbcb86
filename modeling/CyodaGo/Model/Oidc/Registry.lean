import CyodaGo.Shared.GoMap
import Mathlib.Data.List.Sort

/-! # The OIDC provider registry of a node

The per-process provider cache. Every definition that changes the registry is one section
under its lock. -/

namespace CyodaGo.Oidc

abbrev TenantID := String

/-- `ownerLegalEntityID` is the text form of the UUID, which is also the tenant's id. -/
structure OidcProvider where
  id : String
  wellKnownConfigURI : String
  issuers : List String
  expectedAudiences : List String
  rolesClaim : Option String
  invalidatedAt : Option Int
  createdAt : Int
  ownerLegalEntityID : TenantID
  deriving DecidableEq

def OidcProvider.active (p : OidcProvider) : Bool := p.invalidatedAt.isNone

structure ProviderRef where
  tenant : TenantID
  uri : String
  deriving DecidableEq

/-- Where the registry keeps a provider. -/
def OidcProvider.ref (p : OidcProvider) : ProviderRef :=
  ⟨p.ownerLegalEntityID, p.wellKnownConfigURI⟩

structure DiscoveryDoc where
  issuer : String
  jwksURI : String
  deriving DecidableEq

structure PublicKey where
  n : Nat
  e : Nat
  deriving DecidableEq

inductive KeyError where
  | keyNotFound
  | transient
  deriving DecidableEq

/-- What each JWKS source, told apart by a serial number, answers for a key id. -/
abbrev KeyAnswers := Nat → String → Except KeyError PublicKey

/-- A JWKS source behind the lifecycle gate; `active` is what the provider that it was built
for says of itself. -/
structure KeySource where
  serial : Nat
  active : Bool
  deriving DecidableEq

def KeySource.getKey (keys : KeyAnswers) (s : KeySource) (kid : String) :
    Except KeyError PublicKey :=
  if s.active then keys s.serial kid else .error .keyNotFound

structure ProviderSource where
  keySource : KeySource
  discoveryDoc : Option DiscoveryDoc
  deriving DecidableEq

structure KeyResolution where
  publicKey : PublicKey
  provider : OidcProvider
  wellKnownConfigURI : String
  providerRef : ProviderRef
  deriving DecidableEq

inductive ResolveError where
  | unknownKID
  | issuerMismatch
  | jwksUnavailable
  | ambiguousProvider
  | registryStale
  deriving DecidableEq

/-- `errors.Is(err, ErrUnknownKID)`: the ambiguity error wraps it. -/
def ResolveError.isUnknownKID : ResolveError → Bool
  | .unknownKID | .ambiguousProvider => true
  | _ => false

structure Registry where
  providers : GoMap ProviderRef OidcProvider
  sources : GoMap ProviderRef ProviderSource
  kidIndex : GoMap String (List ProviderRef)
  mapGen : Nat

def Registry.empty : Registry := ⟨∅, ∅, ∅, 0⟩

/-! ## Key resolution -/

def issMatches (p : OidcProvider) (doc : DiscoveryDoc) (iss : String) : Bool :=
  if p.issuers = [] then iss == doc.issuer else p.issuers.contains iss

def audienceContains (expected : List String) (aud : String) : Bool := expected.contains aud

structure KeyEligibleEntry where
  ref : ProviderRef
  prov : OidcProvider
  pub : PublicKey
  deriving DecidableEq

def KeyEligibleEntry.resolution (e : KeyEligibleEntry) : KeyResolution :=
  ⟨e.pub, e.prov, e.ref.uri, e.ref⟩

/-- What a candidate contributes to the walk over the candidates. -/
inductive Verdict where
  | nothing
  | issRejected
  | transientErr
  | keyEligible (entry : KeyEligibleEntry)
  deriving DecidableEq

def Registry.verdict (r : Registry) (keys : KeyAnswers) (kid iss : String) (ref : ProviderRef) :
    Verdict :=
  match r.providers.get ref with
  | none => .nothing
  | some prov =>
    if !prov.active then .nothing
    else
      match (r.sources.get ref).bind fun src => src.discoveryDoc.map (src.keySource, ·) with
      | none => .nothing
      | some (keySource, doc) =>
        if !issMatches prov doc iss then .issRejected
        else
          match keySource.getKey keys kid with
          | .error .keyNotFound => .nothing
          | .error .transient => .transientErr
          | .ok pub => .keyEligible ⟨ref, prov, pub⟩

/-- The variables of the walk. -/
structure Walk where
  hadIssRejected : Bool
  lastTransientErr : Bool
  keyEligible : List KeyEligibleEntry

def Walk.visit (w : Walk) : Verdict → Walk
  | .nothing => w
  | .issRejected => { w with hadIssRejected := true }
  | .transientErr => { w with lastTransientErr := true }
  | .keyEligible e => { w with keyEligible := w.keyEligible ++ [e] }

/-- Exactly one provider must expect the audience. -/
def audMatched : List KeyEligibleEntry → Except ResolveError KeyResolution
  | [e] => .ok e.resolution
  | _ => .error .ambiguousProvider

def Walk.disposition (w : Walk) (aud : String) : Except ResolveError KeyResolution :=
  match w.keyEligible with
  | [] =>
    if w.lastTransientErr then .error .jwksUnavailable
    else if w.hadIssRejected then .error .issuerMismatch
    else .error .unknownKID
  | [e] => .ok e.resolution
  | entries => audMatched <| entries.filter fun e =>
    !e.prov.expectedAudiences.isEmpty && audienceContains e.prov.expectedAudiences aud

def Registry.disposeCandidates (r : Registry) (keys : KeyAnswers) (candidates : List ProviderRef)
    (kid iss aud : String) : Except ResolveError KeyResolution :=
  if candidates = [] then .error .unknownKID
  else
    ((candidates.map (r.verdict keys kid iss)).foldl Walk.visit ⟨false, false, []⟩).disposition aud

def Registry.collectKeyEligibleRefs (r : Registry) (keys : KeyAnswers)
    (candidates : List ProviderRef) (kid iss : String) : List ProviderRef :=
  candidates.filter fun ref =>
    match r.verdict keys kid iss ref with
    | .keyEligible _ => true
    | _ => false

def ProviderRef.before (a b : ProviderRef) : Prop :=
  if a.tenant ≠ b.tenant then a.tenant < b.tenant else a.uri ≤ b.uri

instance : DecidableRel ProviderRef.before := fun a b =>
  inferInstanceAs (Decidable (if a.tenant ≠ b.tenant then a.tenant < b.tenant else a.uri ≤ b.uri))

/-- Every registered provider, by tenant and URI. -/
def Registry.allRefs (r : Registry) : List ProviderRef :=
  r.providers.keys.insertionSort ProviderRef.before

/-- The section under the read lock. -/
def Registry.hotPath (r : Registry) (keys : KeyAnswers) (kid iss aud : String) :
    Except ResolveError KeyResolution :=
  r.disposeCandidates keys (r.kidIndex.getD kid []) kid iss aud

/-- The section under the write lock; a resolution is remembered in the kid index. -/
def Registry.coldPath (r : Registry) (keys : KeyAnswers) (kid iss aud : String) :
    Except ResolveError KeyResolution × Registry :=
  match r.disposeCandidates keys r.allRefs kid iss aud with
  | .error e => (.error e, r)
  | .ok res =>
    let existing := r.kidIndex.getD kid []
    let keyRefs := (r.collectKeyEligibleRefs keys r.allRefs kid iss).filter
      fun ref => !existing.contains ref
    (.ok res, { r with kidIndex := r.kidIndex.set kid (existing ++ keyRefs) })

/-- The list without `ref`; an entry that becomes empty is deleted. -/
def dropRef (index : GoMap String (List ProviderRef)) (kid : String) (ref : ProviderRef) :
    GoMap String (List ProviderRef) :=
  let out := (index.getD kid []).filter (· ≠ ref)
  if out = [] then index.del kid else index.set kid out

def Registry.evictKidEntry (r : Registry) (kid : String) (ref : ProviderRef) : Registry :=
  { r with kidIndex := dropRef r.kidIndex kid ref }

/-! ## Changes of the provider map -/

def Registry.addToProviderMap (r : Registry) (p : OidcProvider) : Registry :=
  { r with providers := r.providers.set p.ref p, mapGen := r.mapGen + 1 }

def Registry.invalidateOne (r : Registry) (ref : ProviderRef) : Registry :=
  { providers := r.providers.del ref
    sources := r.sources.del ref
    kidIndex := r.kidIndex.keys.foldl (fun index kid => dropRef index kid ref) r.kidIndex
    mapGen := r.mapGen + 1 }

/-- The provider map that `ReloadAll` builds; of two providers at one place the later one
stays. -/
def loadedProviders (providers : List OidcProvider) : GoMap ProviderRef OidcProvider :=
  providers.foldl (fun m p => m.set p.ref p) ∅

def sameProviders (m m' : GoMap ProviderRef OidcProvider) : Bool :=
  m.keys.all (fun ref => m'.get ref == m.get ref) &&
    m'.keys.all (fun ref => m.get ref == m'.get ref)

def Registry.pruneOrphanSources (r : Registry) : Registry :=
  { r with sources := r.sources.filter fun ref _ => (r.providers.get ref).isSome }

/-- The section that installs a loaded snapshot, unless the provider map has changed since
`gen` was read. `deepEqual` may report equal maps as different, never different maps as
equal. -/
def Registry.swap (r : Registry) (gen : Nat) (loaded : List OidcProvider) (deepEqual : Bool) :
    Bool × Registry :=
  let newProv := loadedProviders loaded
  if r.mapGen ≠ gen then (false, r)
  else if deepEqual && sameProviders newProv r.providers then (true, r.pruneOrphanSources)
  else
    (true,
      { providers := newProv
        sources := r.sources.filter fun ref _ => (newProv.get ref).isSome
        kidIndex := ∅
        mapGen := r.mapGen + 1 })

/-! ## Changes of the sources -/

def Registry.dropSource (r : Registry) (ref : ProviderRef) : Registry :=
  { r with sources := r.sources.del ref }

/-- `serial` tells a freshly built source apart; without `syncKeys` an installed one is kept. -/
def Registry.installSource (r : Registry) (ref : ProviderRef) (prov : OidcProvider)
    (doc : DiscoveryDoc) (syncKeys : Bool) (serial : Nat) : Registry :=
  let fresh : KeySource := ⟨serial, prov.active⟩
  let keySource :=
    if syncKeys then fresh
    else
      match r.sources.get ref with
      | some existing => existing.keySource
      | none => fresh
  { r with sources := r.sources.set ref ⟨keySource, some doc⟩ }

end CyodaGo.Oidc
