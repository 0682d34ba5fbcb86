import CyodaGo.Model.Clock
import CyodaGo.Shared.GoMap

/-! # Authentication of cluster peers

The AEAD envelope of a dispatch request and the cache of nonces that rejects replays. -/

namespace CyodaGo.Dispatch

abbrev Bytes := List UInt8

/-! ## Decimal numbers -/

def digit? (c : UInt8) : Option Nat := if 48 ≤ c && c ≤ 57 then some (c.toNat - 48) else none

def parseUint : Bytes → Option Nat
  | [] => none
  | cs => cs.foldlM (fun n c => (digit? c).map (n * 10 + ·)) 0

/-- `strconv.ParseInt(s, 10, 64)`: one optional sign, then digits. -/
def parseInt (s : Bytes) : Option Int64 :=
  let (neg, digits) := match s with
    | 43 :: ds => (false, ds)
    | 45 :: ds => (true, ds)
    | ds => (false, ds)
  match parseUint digits with
  | none => none
  | some n =>
    if neg then if n ≤ 2 ^ 63 then some (Int64.ofInt (-n)) else none
    else if n < 2 ^ 63 then some (Int64.ofInt n) else none

/-- `strconv.FormatInt(n, 10)`. -/
def formatInt (n : Int64) : Bytes :=
  (if n < 0 then [45] else []) ++ (Nat.toDigits 10 n.toInt.natAbs).map fun c => c.val.toUInt8

/-! ## The nonce cache -/

structure NonceCache where
  ttl : Duration
  cap : Nat
  entries : GoMap Bytes Int

namespace NonceCache

def new (ttl : Duration) (capacity : Nat) : NonceCache := ⟨ttl, capacity, ∅⟩

def evictLocked (c : NonceCache) (now : Int) : NonceCache :=
  let cutoff := timeAdd now (-c.ttl)
  { c with entries := c.entries.filter fun _ ts => !(ts < cutoff) }

/-- A full cache reports every new nonce as seen. -/
def checkAndRecord (c : NonceCache) (nonce : Bytes) (observed now : Int) : Bool × NonceCache :=
  let c := c.evictLocked now
  match c.entries.get nonce with
  | some _ => (true, c)
  | none =>
    if c.entries.keys.length ≥ c.cap then (true, c)
    else (false, { c with entries := c.entries.set nonce observed })

end NonceCache

/-! ## Envelopes -/

def newline : UInt8 := 10

/-- HTTP hands out and sends only methods that are tokens. -/
structure Method where
  name : Bytes
  token : newline ∉ name

/-- `timestamp` is the header's value, empty when there is none; `body` is `none` when reading it
fails. -/
structure Request where
  method : Method
  path : Bytes
  timestamp : Bytes
  body : Option Bytes

/-- AES-256-GCM under the key that the cluster's nodes derive from their shared secret. -/
structure Gcm where
  seals : Bytes → Bytes → Bytes → Bytes
  opens : Bytes → Bytes → Bytes → Option Bytes

def nonceSize : Nat := 12

def overhead : Nat := 16

def dispatchMaxBodySize : Nat := 10 * 1024 * 1024

def nonceCacheCapacity : Nat := 100000

inductive AuthError where
  | sharedSecretTooShort
  | missingTimestamp
  | malformedTimestamp
  | outsideSkewWindow (diff skew : Duration)
  | readBody
  | bodyTooShort
  | openFailed
  | duplicateNonce
  deriving DecidableEq

structure AEADPeerAuth where
  nonces : NonceCache
  skew : Duration

def newAEADPeerAuth (sharedSecret : Bytes) (skew : Duration) : Except AuthError AEADPeerAuth :=
  if sharedSecret.length < 32 then .error .sharedSecretTooShort
  else .ok ⟨.new (skew * 2) nonceCacheCapacity, skew⟩

def buildAD (method path ts : Bytes) : Bytes := method ++ newline :: (path ++ newline :: ts)

/-- The timestamp header and the wire bytes. -/
def sign (gcm : Gcm) (now : Int) (nonce : Bytes) (method : Method) (path body : Bytes) :
    Bytes × Bytes :=
  let ts := formatInt (unixOf now)
  (ts, nonce ++ gcm.seals nonce body (buildAD method.name path ts))

/-- The first part of `Verify`, up to the skew check. -/
def AEADPeerAuth.verifyTimestamp (a : AEADPeerAuth) (now : Int) (r : Request) :
    Except AuthError Int :=
  if r.timestamp = [] then .error .missingTimestamp
  else
    match parseInt r.timestamp with
    | none => .error .malformedTimestamp
    | some tsUnix =>
      let tsTime := timeUnix tsUnix
      let diff := timeSub now tsTime
      let diff := if diff < 0 then -diff else diff
      if diff > a.skew then .error (.outsideSkewWindow diff a.skew) else .ok tsTime

/-- The nonce and the plaintext of an envelope. -/
def openEnvelope (gcm : Gcm) (r : Request) : Except AuthError (Bytes × Bytes) :=
  match r.body with
  | none => .error .readBody
  | some body =>
    let body := body.take dispatchMaxBodySize
    if body.length < nonceSize + overhead then .error .bodyTooShort
    else
      let nonce := body.take nonceSize
      let ct := body.drop nonceSize
      match gcm.opens nonce ct (buildAD r.method.name r.path r.timestamp) with
      | none => .error .openFailed
      | some pt => .ok (nonce, pt)

/-- The rest of `Verify`. The nonce is recorded only after the envelope was opened, by a clock
reading of its own. -/
def AEADPeerAuth.verifyEnvelope (a : AEADPeerAuth) (gcm : Gcm) (r : Request) (tsTime now : Int) :
    Except AuthError (Bytes × Bytes) × AEADPeerAuth :=
  match openEnvelope gcm r with
  | .error err => (.error err, a)
  | .ok (nonce, pt) =>
    match a.nonces.checkAndRecord nonce tsTime now with
    | (true, nonces) => (.error .duplicateNonce, { a with nonces })
    | (false, nonces) => (.ok (nonce, pt), { a with nonces })

/-! ## A node and its peers -/

/-- The locals of a `Verify` call that waits for its body. -/
structure Waiting where
  request : Request
  tsTime : Int
  now : Int

structure Verifier where
  auth : AEADPeerAuth
  calls : GoMap Nat Waiting

/-- `sign` is a call on any node of the cluster. -/
inductive AuthOp where
  | sign (method : Method) (path body nonce : Bytes) (now : Int)
  | verifyTimestamp (c : Nat) (r : Request) (now : Int)
  | verifyEnvelope (c : Nat) (now : Int)

/-- An accepted call returns the plaintext; its nonce stands here for the record. -/
inductive AuthReply where
  | signed (ts wire : Bytes)
  | running
  | rejected (err : AuthError)
  | accepted (nonce plaintext : Bytes)

def Verifier.new (auth : AEADPeerAuth) : Verifier := ⟨auth, ∅⟩

/-- `none` when the step is not enabled. -/
def stepVerifier (gcm : Gcm) (v : Verifier) : AuthOp → Option (AuthReply × Verifier)
  | .sign method path body nonce now =>
    if nonce.length ≠ nonceSize then none
    else
      let (ts, wire) := sign gcm now nonce method path body
      some (.signed ts wire, v)
  | .verifyTimestamp c r now =>
    if c ∈ v.calls.keys then none
    else
      match v.auth.verifyTimestamp now r with
      | .error err => some (.rejected err, v)
      | .ok tsTime => some (.running, { v with calls := v.calls.set c ⟨r, tsTime, now⟩ })
  | .verifyEnvelope c now =>
    match v.calls.get c with
    | none => none
    | some p =>
      match v.auth.verifyEnvelope gcm p.request p.tsTime now with
      | (.error err, auth) => some (.rejected err, ⟨auth, v.calls.del c⟩)
      | (.ok (nonce, pt), auth) => some (.accepted nonce pt, ⟨auth, v.calls.del c⟩)

end CyodaGo.Dispatch
