import CyodaGo.Model.Clock
import CyodaGo.Shared.GoMap

/-! # The trusted-key store

A cache of trusted keys by key id, written through to a key-value backend. A mutation holds the
store's mutex over its backend calls; `Reconcile` and the read-through of `Get` call the backend
without it. `P` is the type of RSA public keys. -/

namespace CyodaGo.Auth

abbrev TenantID := String

abbrev CallID := Nat

/-- The account handlers accept only key ids of letters, digits, dots, underscores and dashes. -/
structure KID where
  name : String
  plain : ':' ∉ name.toList
  deriving DecidableEq

structure TrustedKey (P : Type) where
  kid : KID
  tenantID : TenantID
  publicKey : P
  issuers : List String
  active : Bool
  validFrom : Int
  validTo : Option Int
  deriving DecidableEq

structure RotateOptions where
  invalidate : Bool
  gracePeriodSec : Int64

/-- The backend's key for a trusted key. -/
def trustedKeyKey (tenantID : TenantID) (kid : KID) : String := tenantID ++ ":" ++ kid.name

inductive KeyError where
  | keyOwnedByDifferentTenant
  | trustedKeyCapReached
  | trustedKeyNotFound (kid : KID)
  | validToRequired
  | validToNotInFuture
  | validToNotAfterValidFrom
  | reconcileContention
  deriving DecidableEq

variable {P : Type}

/-- The end of a grace period. -/
def expiry (now : Int) (gracePeriodSec : Int64) : Int := timeAdd now (gracePeriodSec * 1000000000)

/-- The zero value of `time.Time`. -/
def zeroTime : Int := -62135596800 * 1000000000

namespace TrustedKey

variable (tk : TrustedKey P)

def invalidated (validTo : Int) : TrustedKey P :=
  { tk with active := false, validTo := some validTo }

def reactivated (validFrom validTo : Int) : TrustedKey P :=
  { tk with active := true, validFrom, validTo := some validTo }

/-- Still inside its validity window at the upper end. -/
def unexpired (now : Int) : Bool := tk.validTo.all (now < ·)

end TrustedKey

/-! ## The store -/

/-- `gen` counts the commits that advance the generation. -/
structure KVTrustedKeyStore (P : Type) where
  keys : GoMap KID (TrustedKey P)
  gen : Nat
  maxPerTenant : Int

inductive Mutation (P : Type) where
  | register (tk : TrustedKey P) (opts : RotateOptions)
  | delete (tenantID : TenantID) (kid : KID)
  | invalidate (tenantID : TenantID) (kid : KID) (gracePeriodSec : Int64)
  | reactivate (tenantID : TenantID) (kid : KID) (validFrom validTo : Int)

/-- What a mutation that passed its checks writes for its own key; `none` deletes it. `rotate` is
the grace period of the siblings that it also invalidates. -/
structure Write (P : Type) where
  tenantID : TenantID
  kid : KID
  value : Option (TrustedKey P)
  rotate : Option Int64

def maxReconcileAttempts : Nat := 5

/-- The cache that a listing of the backend gives; records without a tenant are skipped. -/
def buildTrustedKeyMap (entries : GoMap String (TrustedKey P)) (order : List String) :
    GoMap KID (TrustedKey P) :=
  (entries.inOrder order).foldl (fun keys entry =>
    if ¬ entry.1.toList.contains ':' then keys
    else if entry.2.tenantID = "" then keys
    else keys.set entry.2.kid entry.2) ∅

namespace KVTrustedKeyStore

variable (s : KVTrustedKeyStore P)

/-- The other valid keys of the tenant. -/
def capCount (tk : TrustedKey P) (now : Int) : Nat :=
  (s.keys.inOrder s.keys.keys).countP fun entry =>
    entry.2.tenantID = tk.tenantID && entry.2.kid ≠ tk.kid && entry.2.active &&
      entry.2.unexpired now

def checkRegister (tk : TrustedKey P) (now : Int) : Except KeyError Unit :=
  if (s.keys.get tk.kid).any fun existing => existing.tenantID ≠ tk.tenantID then
    .error .keyOwnedByDifferentTenant
  else if s.maxPerTenant > 0 ∧ s.capCount tk now ≥ s.maxPerTenant then
    .error .trustedKeyCapReached
  else .ok ()

/-- The lookup that `Delete`, `Invalidate` and `Reactivate` begin with. -/
def owned (tenantID : TenantID) (kid : KID) : Except KeyError (TrustedKey P) :=
  match s.keys.get kid with
  | none => .error (.trustedKeyNotFound kid)
  | some tk => if tk.tenantID ≠ tenantID then .error (.trustedKeyNotFound kid) else .ok tk

/-- A mutation up to its first backend call. -/
def prepare (now : Int) : Mutation P → Except KeyError (Write P)
  | .register tk opts => do
      s.checkRegister tk now
      return ⟨tk.tenantID, tk.kid, some tk,
        if opts.invalidate then some opts.gracePeriodSec else none⟩
  | .delete tenantID kid => do
      let _ ← s.owned tenantID kid
      return ⟨tenantID, kid, none, none⟩
  | .invalidate tenantID kid gracePeriodSec => do
      let tk ← s.owned tenantID kid
      return ⟨tenantID, kid, some (tk.invalidated (expiry now gracePeriodSec)), none⟩
  | .reactivate tenantID kid validFrom validTo =>
    if validTo = zeroTime then .error .validToRequired
    else if ¬ validTo > now then .error .validToNotInFuture
    else if ¬ validTo > validFrom then .error .validToNotAfterValidFrom
    else do
      let tk ← s.owned tenantID kid
      return ⟨tenantID, kid, some (tk.reactivated validFrom validTo), none⟩

/-- The cache entry of a key. -/
def put (kid : KID) : Option (TrustedKey P) → KVTrustedKeyStore P
  | none => { s with keys := s.keys.del kid }
  | some tk => { s with keys := s.keys.set kid tk }

def advance : KVTrustedKeyStore P := { s with gen := s.gen + 1 }

/-- The active siblings that a rotation invalidates, in the order of the loop. -/
def siblings (w : Write P) (order : List KID) : List KID :=
  order.filter fun kid => (s.keys.get kid).any fun k =>
    k.tenantID = w.tenantID && k.active && k.kid ≠ w.kid

/-- A stale cache answers nothing. -/
def listForVerification (stale : Bool) (now : Int) (order : List KID) : List (TrustedKey P) :=
  if stale then []
  else (s.keys.inOrder order).filterMap fun entry =>
    if entry.2.unexpired now then some entry.2 else none

end KVTrustedKeyStore

/-! ## Calls on a node -/

/-- Where a call is. -/
inductive KeyCall (P : Type) where
  | writing (w : Write P)
  | committing (w : Write P)
  | rotating (validTo : Int) (rest : List KID)
  | rotated (validTo : Int) (kid : KID) (sibling : TrustedKey P) (rest : List KID)
  | loading (tenantID : TenantID) (kid : KID)
  | installing (tenantID : TenantID) (kid : KID) (tk : TrustedKey P)
  | rereading (tenantID : TenantID) (kid : KID)
  | reconciling (attempt : Nat)
  | listing (attempt gen : Nat)
  | swapping (attempt gen : Nat) (fresh : GoMap KID (TrustedKey P))

/-- The backend, the store, and the call that holds each of its two mutexes. -/
structure KeyNode (P : Type) where
  kv : GoMap String (TrustedKey P)
  store : KVTrustedKeyStore P
  mu : Option CallID
  reconcileMu : Option CallID
  calls : GoMap CallID (KeyCall P)

/-- One backend call or one section under the mutex. `stale` is the answer of the staleness
check. -/
inductive KeyOp (P : Type) where
  | mutate (c : CallID) (m : Mutation P) (now : Int)
  | write (c : CallID)
  | commit (c : CallID) (now : Int) (order : List KID)
  | writeSibling (c : CallID)
  | commitSibling (c : CallID)
  | get (c : CallID) (tenantID : TenantID) (kid : KID) (stale : Bool)
  | load (c : CallID)
  | install (c : CallID)
  | reread (c : CallID)
  | listForVerification (stale : Bool) (now : Int) (order : List KID)
  | reconcile (c : CallID)
  | loadGen (c : CallID)
  | list (c : CallID) (order : List String)
  | swap (c : CallID)

inductive KeyReply (P : Type) where
  | running
  | done
  | failed (err : KeyError)
  | found (tk : TrustedKey P)
  | listed (tks : List (TrustedKey P))

namespace KeyNode

/-- The store as its constructor loads it from the backend. -/
def new (maxPerTenant : Int) (kv : GoMap String (TrustedKey P)) (order : List String) : KeyNode P :=
  ⟨kv, ⟨buildTrustedKeyMap kv order, 0, maxPerTenant⟩, none, none, ∅⟩

variable (n : KeyNode P)

def pend (c : CallID) (call : KeyCall P) : KeyNode P :=
  { n with calls := n.calls.set c call }

def finish (c : CallID) : KeyNode P := { n with calls := n.calls.del c }

/-- The end of a mutation. -/
def unlock (c : CallID) : KeyNode P := { n.finish c with mu := none }

/-- The end of a reconcile. -/
def unlockReconcile (c : CallID) : KeyNode P :=
  { n.finish c with reconcileMu := none }

def kvPut (key : String) : Option (TrustedKey P) → KeyNode P
  | none => { n with kv := n.kv.del key }
  | some tk => { n with kv := n.kv.set key tk }

/-- What is left of a rotation. -/
def rotate (c : CallID) (validTo : Int) : List KID → KeyReply P × KeyNode P
  | [] => (.done, n.unlock c)
  | rest => (.running, n.pend c (.rotating validTo rest))

/-- The answer of `Get` to what the cache holds. -/
def answer (tenantID : TenantID) (kid : KID) : Option (TrustedKey P) → KeyReply P
  | none => .failed (.trustedKeyNotFound kid)
  | some tk => if tk.tenantID = tenantID then .found tk else .failed (.trustedKeyNotFound kid)

end KeyNode

/-- `none` when the step is not enabled. -/
def stepKeys (n : KeyNode P) : KeyOp P → Option (KeyReply P × KeyNode P)
  | .mutate c m now =>
    if c ∈ n.calls.keys ∨ n.mu ≠ none then none
    else
      match n.store.prepare now m with
      | .error err => some (.failed err, n)
      | .ok w => some (.running, { n.pend c (.writing w) with mu := some c })
  | .write c =>
    match n.calls.get c with
    | some (.writing w) =>
      some (.running, (n.kvPut (trustedKeyKey w.tenantID w.kid) w.value).pend c (.committing w))
    | _ => none
  | .commit c now order =>
    match n.calls.get c with
    | some (.committing w) =>
      let store := (n.store.put w.kid w.value).advance
      if ¬ order.Perm store.keys.keys then none
      else
        match w.rotate with
        | none => some (.done, { n with store }.unlock c)
        | some gracePeriodSec =>
          some ({ n with store }.rotate c (expiry now gracePeriodSec)
            (store.siblings w order))
    | _ => none
  | .writeSibling c =>
    match n.calls.get c with
    | some (.rotating validTo (kid :: rest)) =>
      match n.store.keys.get kid with
      | none => none
      | some k =>
        let sibling := k.invalidated validTo
        some (.running, (n.kvPut (trustedKeyKey k.tenantID k.kid) (some sibling)).pend c
          (.rotated validTo kid sibling rest))
    | _ => none
  | .commitSibling c =>
    match n.calls.get c with
    | some (.rotated validTo kid sibling rest) =>
      some ({ n with store := n.store.put kid (some sibling) }.rotate c validTo rest)
    | _ => none
  | .get c tenantID kid stale =>
    if c ∈ n.calls.keys then none
    else if stale then some (.running, n.pend c (.loading tenantID kid))
    else if n.mu ≠ none then none
    else
      match n.store.keys.get kid with
      | none => some (.running, n.pend c (.loading tenantID kid))
      | some tk => some (KeyNode.answer tenantID kid (some tk), n)
  | .load c =>
    match n.calls.get c with
    | some (.loading tenantID kid) =>
      match n.kv.get (trustedKeyKey tenantID kid) with
      | none => some (.failed (.trustedKeyNotFound kid), n.finish c)
      | some tk =>
        if tk.tenantID ≠ tenantID then some (.failed (.trustedKeyNotFound kid), n.finish c)
        else some (.running, n.pend c (.installing tenantID kid tk))
    | _ => none
  | .install c =>
    match n.calls.get c with
    | some (.installing tenantID kid tk) =>
      if n.mu ≠ none then none
      else some (.running, { n with store := (n.store.put kid (some tk)).advance }.pend c
        (.rereading tenantID kid))
    | _ => none
  | .reread c =>
    match n.calls.get c with
    | some (.rereading tenantID kid) =>
      if n.mu ≠ none then none
      else some (KeyNode.answer tenantID kid (n.store.keys.get kid), n.finish c)
    | _ => none
  | .listForVerification stale now order =>
    if ¬ stale ∧ n.mu ≠ none ∨ ¬ order.Perm n.store.keys.keys then none
    else some (.listed (n.store.listForVerification stale now order), n)
  | .reconcile c =>
    if c ∈ n.calls.keys ∨ n.reconcileMu ≠ none then none
    else some (.running, { n.pend c (.reconciling 0) with reconcileMu := some c })
  | .loadGen c =>
    match n.calls.get c with
    | some (.reconciling attempt) => some (.running, n.pend c (.listing attempt n.store.gen))
    | _ => none
  | .list c order =>
    match n.calls.get c with
    | some (.listing attempt gen) =>
      if ¬ order.Perm n.kv.keys then none
      else some (.running, n.pend c (.swapping attempt gen (buildTrustedKeyMap n.kv order)))
    | _ => none
  | .swap c =>
    match n.calls.get c with
    | some (.swapping attempt gen fresh) =>
      if n.mu ≠ none then none
      else if n.store.gen = gen then
        some (.done, { n with store := { n.store with keys := fresh }.advance }.unlockReconcile c)
      else if attempt + 1 < maxReconcileAttempts then
        some (.running, n.pend c (.reconciling (attempt + 1)))
      else some (.failed .reconcileContention, n.unlockReconcile c)
    | _ => none

end CyodaGo.Auth
