import CyodaGo.Model.Auth.TrustedKeys

/-! # The token-exchange grant

`handleTokenExchange` with the stores it reads. `P` is the type of RSA public keys, `R` of role
claims; the subject token stands for what `Parse` makes of it. -/

namespace CyodaGo.Auth

variable {P R : Type}

/-- `none` is a claim that is absent or of another JSON type. Numeric dates are truncated to
seconds. -/
structure Claims (R : Type) where
  iss : Option String
  sub : Option String
  caasOrgID : Option String
  userRoles : Option R
  roles : Option R
  exp : Option Int64
  iat : Option Int64
  nbf : Option Int64

structure ParsedToken (R : Type) where
  alg : Option String
  kid : Option String
  claims : Claims R
  signingInput : String
  signature : String

/-- Whether the signature of an input verifies under a public key. -/
abbrev Verify (P : Type) := P → String → String → Bool

structure M2MClient where
  tenantID : TenantID
  deriving DecidableEq

/-- Status, error code and description of an error response. -/
structure TokenError where
  status : Nat
  code : String
  description : String
  deriving DecidableEq

/-- Without a description the error code stands for it. -/
def writeTokenError (status : Nat) (code description : String) : TokenError :=
  ⟨status, code, if description = "" then code else description⟩

def invalidGrant (description : String) : TokenError :=
  writeTokenError 400 "invalid_grant" description

/-- The claims of an issued token that depend on the request. -/
structure IssuedClaims (R : Type) where
  sub : String
  iss : String
  caasUserID : String
  caasOrgID : String
  userRoles : Option R
  actSub : String
  exp : Int64
  iat : Int64

def clockSkew : Duration := 30000000000

def validateClaims (claims : Claims R) (now : Int) : Except String Unit :=
  match claims.exp with
  | none => .error "missing exp claim"
  | some exp =>
    if now > timeAdd (timeUnix exp) clockSkew then .error "token expired"
    else
      match claims.iat with
      | none => .error "missing iat claim"
      | some iat =>
        if timeUnix iat > timeAdd now clockSkew then .error "iat is in the future"
        else if claims.nbf.any fun nbf => now < timeAdd (timeUnix nbf) (-clockSkew) then
          .error "token not yet valid (nbf)"
        else .ok ()

/-- Keys of every tenant are looked through. -/
def getTrustedKeyByKID (keys : List (TrustedKey P)) (kid : String) : Option (TrustedKey P) :=
  keys.find? fun tk => tk.kid.name = kid

/-- The checks on the key that the token names. -/
def checkTrustedKey (verify : Verify P) (keys : List (TrustedKey P)) (now : Int)
    (parsed : ParsedToken R) : Except TokenError (TrustedKey P) :=
  let kid := parsed.kid.getD ""
  if kid = "" then .error (invalidGrant "missing kid in subject token")
  else
    match getTrustedKeyByKID keys kid with
    | none => .error (invalidGrant "unknown trusted key")
    | some tk =>
      if ¬ tk.active then .error (invalidGrant "trusted key is inactive")
      else if now < tk.validFrom then .error (invalidGrant "trusted key not yet valid")
      else if tk.validTo.any (now > ·) then .error (invalidGrant "trusted key expired")
      else if ¬ verify tk.publicKey parsed.signingInput parsed.signature then
        .error (invalidGrant "signature verification failed")
      else if tk.issuers ≠ [] ∧ parsed.claims.iss.getD "" ∉ tk.issuers then
        .error (invalidGrant "untrusted token issuer")
      else .ok tk

/-- What the handler is configured with. `signs` tells whether an active signing key exists. -/
structure TokenHandler (P : Type) where
  verify : Verify P
  issuer : String
  expirySeconds : Int64
  signs : Bool

/-- One request; `keyCheck`, `claimCheck` and `issue` are its readings of the clock. -/
structure ExchangeRequest (R : Type) where
  clientID : String
  subjectTokenType : String
  subjectToken : Option (ParsedToken R)
  keyCheck : Int
  claimCheck : Int
  issue : Int

def handleTokenExchange (h : TokenHandler P) (keys : List (TrustedKey P))
    (clients : GoMap String M2MClient) (r : ExchangeRequest R) :
    Except TokenError (IssuedClaims R) :=
  if r.subjectTokenType ≠ "urn:ietf:params:oauth:token-type:jwt" then
    .error (invalidGrant "unsupported subject_token_type")
  else
    match r.subjectToken with
    | none => .error (invalidGrant "invalid subject token")
    | some parsed =>
      if parsed.alg ≠ some "RS256" then .error (invalidGrant "unsupported token algorithm")
      else
        match checkTrustedKey h.verify keys r.keyCheck parsed with
        | .error err => .error err
        | .ok _ =>
          match validateClaims parsed.claims r.claimCheck with
          | .error text => .error (invalidGrant text)
          | .ok _ =>
            let subjectSub := parsed.claims.sub.getD ""
            if subjectSub = "" then
              .error (invalidGrant "subject token missing sub claim")
            else
              let subOrgID := parsed.claims.caasOrgID.getD ""
              match clients.get r.clientID with
              | none => .error (writeTokenError 401 "invalid_client" "")
              | some client =>
                if client.tenantID ≠ subOrgID then
                  .error (writeTokenError 403 "access_denied" "tenant mismatch")
                else if ¬ h.signs then .error (writeTokenError 500 "server_error" "")
                else
                  .ok {
                    sub := subjectSub
                    iss := h.issuer
                    caasUserID := subjectSub
                    caasOrgID := subOrgID
                    userRoles := parsed.claims.userRoles.or parsed.claims.roles
                    actSub := r.clientID
                    exp := unixOf (timeAdd r.issue (h.expirySeconds * 1000000000))
                    iat := unixOf r.issue }

/-! ## A node that issues tokens -/

structure TokenNode (P : Type) where
  keys : KeyNode P
  clients : GoMap String M2MClient

/-- `exchange` lists the trusted keys and then answers from that list. -/
inductive TokenOp (P R : Type) where
  | keys (op : KeyOp P)
  | createClient (clientID : String) (tenantID : TenantID)
  | deleteClient (clientID : String)
  | exchange (stale : Bool) (listedAt : Int) (order : List KID) (r : ExchangeRequest R)

inductive TokenReply (P R : Type) where
  | keys (r : KeyReply P)
  | done
  | issued (claims : IssuedClaims R)
  | refused (err : TokenError)

def TokenNode.new (maxPerTenant : Int) : TokenNode P := ⟨.new maxPerTenant ∅ [], ∅⟩

/-- `none` when the step is not enabled. -/
def stepTokens (h : TokenHandler P) (n : TokenNode P) :
    TokenOp P R → Option (TokenReply P R × TokenNode P)
  | .keys op => (stepKeys n.keys op).map fun (r, keys) => (.keys r, { n with keys })
  | .createClient clientID tenantID =>
    if clientID ∈ n.clients.keys then none
    else some (.done, { n with clients := n.clients.set clientID ⟨tenantID⟩ })
  | .deleteClient clientID => some (.done, { n with clients := n.clients.del clientID })
  | .exchange stale listedAt order r =>
    if ¬ stale ∧ n.keys.mu ≠ none ∨ ¬ order.Perm n.keys.store.keys.keys then none
    else
      match handleTokenExchange h (n.keys.store.listForVerification stale listedAt order)
        n.clients r with
      | .error err => some (.refused err, n)
      | .ok claims => some (.issued claims, n)

end CyodaGo.Auth
