import CyodaGo.Model.Auth.TokenExchange
import CyodaGo.Verification.Auth.KeyCache

/-! # What a token exchange rests on

The key that verifies a subject token was registered on this node, by some tenant; only the
token's organisation claim is compared with the client's tenant. -/

namespace CyodaGo.Auth

variable {P R : Type}

/-! ## Where key material comes from -/

/-- The call has the record in hand. -/
def KeyCall.Carries (tk : TrustedKey P) : KeyCall P → Prop
  | .writing w => w.value = some tk
  | .committing w => w.value = some tk
  | .rotated _ _ sibling _ => sibling = tk
  | .installing _ _ found => found = tk
  | .swapping _ _ fresh => ∃ kid, fresh.get kid = some tk
  | _ => False

/-- The record is somewhere on the node. -/
def KeyNode.Holds (n : KeyNode P) (tk : TrustedKey P) : Prop :=
  (∃ k, n.kv.get k = some tk) ∨ (∃ kid, n.store.keys.get kid = some tk) ∨
    ∃ c call, n.calls.get c = some call ∧ call.Carries tk

section Holds

variable {n : KeyNode P} {tk : TrustedKey P}

variable {c : CallID}

theorem KeyNode.Holds.of_pend {call : KeyCall P} (h : (n.pend c call).Holds tk) :
    n.Holds tk ∨ call.Carries tk := by
  rcases h with hkv | hkeys | ⟨a, other, ha, hcarries⟩
  · exact .inl (.inl hkv)
  · exact .inl (.inr (.inl hkeys))
  · rw [KeyNode.pend, GoMap.get_set] at ha
    split at ha
    · exact .inr (Option.some.inj ha ▸ hcarries)
    · exact .inl (.inr (.inr ⟨a, other, ha, hcarries⟩))

theorem KeyNode.Holds.of_finish (h : (n.finish c).Holds tk) : n.Holds tk := by
  rcases h with hkv | hkeys | ⟨a, other, ha, hcarries⟩
  · exact .inl hkv
  · exact .inr (.inl hkeys)
  · rw [KeyNode.finish, GoMap.get_del] at ha
    split at ha
    · cases ha
    · exact .inr (.inr ⟨a, other, ha, hcarries⟩)

theorem KeyNode.Holds.of_unlock (h : (n.unlock c).Holds tk) : n.Holds tk := by
  have hfinish : (n.finish c).Holds tk := h
  exact hfinish.of_finish

theorem KeyNode.Holds.of_unlockReconcile (h : (n.unlockReconcile c).Holds tk) : n.Holds tk := by
  have hfinish : (n.finish c).Holds tk := h
  exact hfinish.of_finish

theorem KeyNode.Holds.of_kvPut {key : String} {value : Option (TrustedKey P)}
    (h : (n.kvPut key value).Holds tk) : n.Holds tk ∨ value = some tk := by
  rcases h with ⟨k, hk⟩ | hrest
  · rw [KeyNode.get_kvPut] at hk
    split at hk
    · exact .inr hk
    · exact .inl (.inl ⟨k, hk⟩)
  · refine .inl (.inr ?_)
    cases value <;> exact hrest

theorem KeyNode.Holds.of_store {s : KVTrustedKeyStore P}
    (h : KeyNode.Holds { n with store := s } tk) :
    n.Holds tk ∨ ∃ kid, s.keys.get kid = some tk := by
  rcases h with hkv | hkeys | hcalls
  · exact .inl (.inl hkv)
  · exact .inr hkeys
  · exact .inl (.inr (.inr hcalls))

theorem get_of_put {s : KVTrustedKeyStore P} {kid a : KID} {value : Option (TrustedKey P)}
    (h : (s.put kid value).keys.get a = some tk) : s.keys.get a = some tk ∨ value = some tk := by
  rw [KVTrustedKeyStore.get_put] at h
  split at h
  · exact .inr h
  · exact .inl h

theorem KeyNode.Holds.of_rotate {validTo : Int} {rest : List KID}
    (h : (n.rotate c validTo rest).2.Holds tk) : n.Holds tk := by
  cases rest with
  | nil =>
    have hunlock : (n.unlock c).Holds tk := h
    exact hunlock.of_unlock
  | cons kid rest =>
    have hpend : (n.pend c (.rotating validTo (kid :: rest))).Holds tk := h
    exact hpend.of_pend.resolve_right id

theorem get_of_build {kv : GoMap String (TrustedKey P)} {order : List String} {kid : KID}
    (h : (buildTrustedKeyMap kv order).get kid = some tk) : ∃ k, kv.get k = some tk := by
  have hfold : ∀ (entries : List (String × TrustedKey P)) (keys : GoMap KID (TrustedKey P)),
      (entries.foldl (fun keys entry =>
        if ¬ entry.1.toList.contains ':' then keys
        else if entry.2.tenantID = "" then keys
        else keys.set entry.2.kid entry.2) keys).get kid = some tk →
      keys.get kid = some tk ∨ ∃ entry ∈ entries, entry.2 = tk := by
    intro entries
    induction entries with
    | nil => exact fun keys hget => .inl hget
    | cons entry entries ih =>
      intro keys hget
      rw [List.foldl_cons] at hget
      rcases ih _ hget with hkeys | ⟨e, he, heq⟩
      · split at hkeys
        · exact .inl hkeys
        split at hkeys
        · exact .inl hkeys
        rw [GoMap.get_set] at hkeys
        split at hkeys
        · exact .inr ⟨entry, List.mem_cons_self, Option.some.inj hkeys⟩
        · exact .inl hkeys
      · exact .inr ⟨e, List.mem_cons_of_mem _ he, heq⟩
  rcases hfold _ _ h with hempty | ⟨entry, hentry, rfl⟩
  · cases hempty
  · exact ⟨entry.1, (GoMap.mem_inOrder.mp hentry).2⟩

/-- The operation is a `Register` of the record that passes its checks. -/
def Registers (n : KeyNode P) (op : KeyOp P) (tk : TrustedKey P) : Prop :=
  ∃ c opts now w, op = .mutate c (.register tk opts) now ∧
    n.store.prepare now (.register tk opts) = .ok w

/-- Every record after a step has the material of one before it, or is being registered. -/
theorem holds_step {n' : KeyNode P} {op : KeyOp P} {r : KeyReply P}
    (hs : stepKeys n op = some (r, n')) (h : n'.Holds tk) :
    (∃ tk', n.Holds tk' ∧ tk'.material = tk.material) ∨ Registers n op tk := by
  have hold : n.Holds tk → (∃ tk', n.Holds tk' ∧ tk'.material = tk.material) ∨
      Registers n op tk := fun h => .inl ⟨tk, h, rfl⟩
  cases op with
  | mutate c m now =>
    simp only [stepKeys] at hs
    split at hs
    · cases hs
    cases hok : n.store.prepare now m with
    | error err =>
      simp only [hok] at hs
      cases hs
      exact hold h
    | ok w =>
      simp only [hok] at hs
      cases hs
      have hpend : (n.pend c (.writing w)).Holds tk := h
      rcases hpend.of_pend with hbefore | hvalue
      · exact hold hbefore
      rcases prepare_cases hok with ⟨tk', opts, rfl, -, -, -, heq⟩ | ⟨tk', howned, heq⟩
      · obtain rfl : tk' = tk := Option.some.inj (heq.symm.trans hvalue)
        exact .inr ⟨c, opts, now, w, rfl, hok⟩
      refine .inl ⟨tk', .inr (.inl ⟨_, (owned_eq_ok howned).1⟩), ?_⟩
      exact (heq tk hvalue).symm
  | write c =>
    simp only [stepKeys] at hs
    split at hs
    · next w hc =>
      cases hs
      have hcarried : w.value = some tk → n.Holds tk := fun hvalue =>
        .inr (.inr ⟨c, _, hc, hvalue⟩)
      rcases h.of_pend with hput | hvalue
      · rcases hput.of_kvPut with hbefore | hvalue
        · exact hold hbefore
        · exact hold (hcarried hvalue)
      · exact hold (hcarried hvalue)
    · cases hs
  | commit c now order =>
    simp only [stepKeys] at hs
    split at hs
    · next w hc =>
      have hstored : KeyNode.Holds { n with store := (n.store.put w.kid w.value).advance } tk →
          n.Holds tk := by
        intro hstored
        rcases hstored.of_store with hbefore | ⟨kid, hget⟩
        · exact hbefore
        rcases get_of_put hget with hget | hvalue
        · exact .inr (.inl ⟨kid, hget⟩)
        · exact .inr (.inr ⟨c, _, hc, hvalue⟩)
      split at hs
      · cases hs
      split at hs
      · cases hs
        exact hold (hstored h.of_unlock)
      have hn' : n' = _ := (congrArg Prod.snd (Option.some.inj hs)).symm
      rw [hn'] at h
      exact hold (hstored h.of_rotate)
    · cases hs
  | writeSibling c =>
    simp only [stepKeys] at hs
    split at hs
    · next validTo kid rest hc =>
      split at hs
      · cases hs
      · next k hk =>
        cases hs
        have hcarried : k.invalidated validTo = tk →
            ∃ tk', n.Holds tk' ∧ tk'.material = tk.material := by
          rintro rfl
          exact ⟨k, .inr (.inl ⟨kid, hk⟩), rfl⟩
        rcases h.of_pend with hput | hsibling
        · rcases hput.of_kvPut with hbefore | hvalue
          · exact hold hbefore
          · exact .inl (hcarried (Option.some.inj hvalue))
        · exact .inl (hcarried hsibling)
    · cases hs
  | commitSibling c =>
    simp only [stepKeys] at hs
    split at hs
    · next hc =>
      have hn' : n' = _ := (congrArg Prod.snd (Option.some.inj hs)).symm
      rw [hn'] at h
      rcases h.of_rotate.of_store with hbefore | ⟨kid, hget⟩
      · exact hold hbefore
      rcases get_of_put hget with hget | hvalue
      · exact hold (.inr (.inl ⟨kid, hget⟩))
      · exact hold (.inr (.inr ⟨c, _, hc, Option.some.inj hvalue⟩))
    · cases hs
  | get c tenantID kid stale =>
    simp only [stepKeys] at hs
    split at hs
    · cases hs
    split at hs
    · cases hs
      exact hold (h.of_pend.resolve_right id)
    split at hs
    · cases hs
    split at hs
    · cases hs
      exact hold (h.of_pend.resolve_right id)
    cases hs
    exact hold h
  | load c =>
    simp only [stepKeys] at hs
    split at hs
    · split at hs
      · cases hs
        exact hold h.of_finish
      · next found hkv =>
        split at hs
        · cases hs
          exact hold h.of_finish
        cases hs
        rcases h.of_pend with hbefore | rfl
        · exact hold hbefore
        · exact hold (.inl ⟨_, hkv⟩)
    · cases hs
  | install c =>
    simp only [stepKeys] at hs
    split at hs
    · next tenantID kid found hc =>
      split at hs
      · cases hs
      cases hs
      rcases (h.of_pend.resolve_right id).of_store with hbefore | ⟨a, hget⟩
      · exact hold hbefore
      rcases get_of_put hget with hget | hvalue
      · exact hold (.inr (.inl ⟨a, hget⟩))
      · exact hold (.inr (.inr ⟨c, _, hc, Option.some.inj hvalue⟩))
    · cases hs
  | reread c =>
    simp only [stepKeys] at hs
    split at hs
    · split at hs
      · cases hs
      cases hs
      exact hold h.of_finish
    · cases hs
  | listForVerification stale now order =>
    simp only [stepKeys] at hs
    split at hs
    · cases hs
    cases hs
    exact hold h
  | reconcile c =>
    simp only [stepKeys] at hs
    split at hs
    · cases hs
    cases hs
    have hpend : (n.pend c (.reconciling 0)).Holds tk := h
    exact hold (hpend.of_pend.resolve_right id)
  | loadGen c =>
    simp only [stepKeys] at hs
    split at hs
    · cases hs
      exact hold (h.of_pend.resolve_right id)
    · cases hs
  | list c order =>
    simp only [stepKeys] at hs
    split at hs
    · split at hs
      · cases hs
      cases hs
      rcases h.of_pend with hbefore | ⟨kid, hget⟩
      · exact hold hbefore
      · exact hold (.inl (get_of_build hget))
    · cases hs
  | swap c =>
    simp only [stepKeys] at hs
    split at hs
    · next attempt gen fresh hc =>
      split at hs
      · cases hs
      split at hs
      · cases hs
        rcases h.of_unlockReconcile.of_store with hbefore | ⟨kid, hget⟩
        · exact hold hbefore
        · exact hold (.inr (.inr ⟨c, _, hc, kid, hget⟩))
      · split at hs
        · cases hs
          exact hold (h.of_pend.resolve_right id)
        cases hs
        exact hold h.of_unlockReconcile
    · cases hs

end Holds

/-! ## Runs -/

abbrev TokenEvent (P R : Type) := Event (TokenNode P) (TokenOp P R) (TokenReply P R)

/-- A `Register` call of the recorded run that passed its checks had the key's material. -/
def Registered (tr : List (TokenEvent P R)) (tk : TrustedKey P) : Prop :=
  ∃ ev ∈ tr, ∃ op registered, ev.action = .keys op ∧ Registers ev.before.keys op registered ∧
    registered.material = tk.material

theorem Registered.cons {tr : List (TokenEvent P R)} {tk : TrustedKey P} (h : Registered tr tk)
    (ev : TokenEvent P R) : Registered (ev :: tr) tk := by
  obtain ⟨reg, hreg, hrest⟩ := h
  exact ⟨reg, List.mem_cons_of_mem _ hreg, hrest⟩

variable {h : TokenHandler P}

theorem registered_of_run {maxPerTenant : Int} {tr : List (TokenEvent P R)} {n : TokenNode P}
    (hrun : Run (stepTokens h) AnyStep (.new maxPerTenant) tr n) :
    ∀ tk, n.keys.Holds tk → Registered tr tk := by
  refine hrun.inv (I := fun tr n => ∀ tk, n.keys.Holds tk → Registered tr tk) ?_ ?_
  · rintro tk (⟨k, hk⟩ | ⟨kid, hkid⟩ | ⟨c, call, hc, -⟩)
    · cases hk
    · cases hkid
    · cases hc
  · intro tr n op r n' ih _ hs tk hholds
    cases op with
    | keys op =>
      obtain ⟨⟨reply, keys⟩, hstep, heq⟩ := Option.map_eq_some_iff.mp hs
      cases heq
      rcases holds_step hstep hholds with ⟨tk', hbefore, hmaterial⟩ | hregisters
      · obtain ⟨reg, hreg, call, registered, haction, hregisters, hregistered⟩ := ih tk' hbefore
        exact ⟨reg, List.mem_cons_of_mem _ hreg, call, registered, haction, hregisters,
          hregistered.trans hmaterial⟩
      · exact ⟨_, List.mem_cons_self, op, tk, rfl, hregisters, rfl⟩
    | createClient clientID tenantID =>
      simp only [stepTokens] at hs
      split at hs
      · cases hs
      cases hs
      exact (ih tk hholds).cons _
    | deleteClient clientID =>
      cases hs
      exact (ih tk hholds).cons _
    | exchange stale listedAt order req =>
      simp only [stepTokens] at hs
      split at hs
      · cases hs
      split at hs
      · cases hs
        exact (ih tk hholds).cons _
      cases hs
      exact (ih tk hholds).cons _

/-! ## Issued tokens -/

/-- The key that verified the token: listed, active, inside its validity window and, if it names
issuers, for the token's issuer. -/
structure VerifiedWith (h : TokenHandler P) (keys : List (TrustedKey P)) (now : Int)
    (parsed : ParsedToken R) (tk : TrustedKey P) : Prop where
  listed : tk ∈ keys
  named : parsed.kid = some tk.kid.name
  active : tk.active = true
  started : tk.validFrom ≤ now
  unexpired : ∀ t, tk.validTo = some t → now ≤ t
  signed : h.verify tk.publicKey parsed.signingInput parsed.signature = true
  issuer : tk.issuers = [] ∨ parsed.claims.iss.getD "" ∈ tk.issuers

theorem verifiedWith_of_check {keys : List (TrustedKey P)} {now : Int} {parsed : ParsedToken R}
    {tk : TrustedKey P} (hok : checkTrustedKey h.verify keys now parsed = .ok tk) :
    VerifiedWith h keys now parsed tk := by
  unfold checkTrustedKey at hok
  dsimp only at hok
  split at hok
  · cases hok
  · next hkid =>
    cases hfind : getTrustedKeyByKID keys (parsed.kid.getD "") with
    | none => simp [hfind] at hok
    | some found =>
      simp only [hfind] at hok
      split at hok
      · cases hok
      · next hactive =>
        split at hok
        · cases hok
        · next hstarted =>
          split at hok
          · cases hok
          · next hexpired =>
            split at hok
            · cases hok
            · next hsigned =>
              split at hok
              · cases hok
              · next hissuer =>
                cases hok
                have hname := List.find?_some hfind
                refine ⟨List.mem_of_find?_eq_some hfind, ?_, by simpa using hactive,
                  not_lt.mp hstarted, ?_, by simpa using hsigned, ?_⟩
                · cases hopt : parsed.kid with
                  | none => simp [hopt] at hkid
                  | some kid => simpa [hopt, eq_comm] using hname
                · intro t ht
                  simpa [ht] using hexpired
                · rw [not_and_or, not_not, not_not] at hissuer
                  exact hissuer

/-- What an issued token says about its request. -/
structure IssuedFor (h : TokenHandler P) (keys : List (TrustedKey P))
    (clients : GoMap String M2MClient) (r : ExchangeRequest R) (claims : IssuedClaims R)
    (parsed : ParsedToken R) (tk : TrustedKey P) (client : M2MClient) : Prop where
  subject : r.subjectToken = some parsed
  verified : VerifiedWith h keys r.keyCheck parsed tk
  registered : clients.get r.clientID = some client
  organisation : parsed.claims.caasOrgID.getD "" = client.tenantID
  issued : claims.caasOrgID = client.tenantID

theorem issuedFor_of_ok {keys : List (TrustedKey P)} {clients : GoMap String M2MClient}
    {r : ExchangeRequest R} {claims : IssuedClaims R}
    (hok : handleTokenExchange h keys clients r = .ok claims) :
    ∃ parsed tk client, IssuedFor h keys clients r claims parsed tk client := by
  unfold handleTokenExchange at hok
  split at hok
  · cases hok
  cases hparsed : r.subjectToken with
  | none => simp [hparsed] at hok
  | some parsed =>
    simp only [hparsed] at hok
    split at hok
    · cases hok
    cases hcheck : checkTrustedKey h.verify keys r.keyCheck parsed with
    | error err => simp [hcheck] at hok
    | ok tk =>
      simp only [hcheck] at hok
      split at hok
      · cases hok
      split at hok
      · cases hok
      cases hclient : clients.get r.clientID with
      | none => simp [hclient] at hok
      | some client =>
        simp only [hclient] at hok
        split at hok
        · cases hok
        · next htenant =>
          split at hok
          · cases hok
          cases hok
          have htenant := (not_not.mp htenant).symm
          exact ⟨parsed, tk, client, hparsed, verifiedWith_of_check hcheck, hclient,
            htenant, htenant⟩

/-- A token is issued only for a subject token that verified with a key which some tenant
registered earlier, active and inside its validity window, for an issuer that the key names if it
names any, and whose organisation claim is the client's own tenant. -/
theorem token_exchange_verified (h : TokenHandler P) (maxPerTenant : Int)
    {tr : List (TokenEvent P R)} {n : TokenNode P}
    (hrun : Run (stepTokens h) AnyStep (.new maxPerTenant) tr n) {ev : TokenEvent P R}
    (hev : ev ∈ tr) {stale : Bool} {listedAt : Int} {order : List KID} {r : ExchangeRequest R}
    {claims : IssuedClaims R} (haction : ev.action = .exchange stale listedAt order r)
    (hissued : ev.result = .issued claims) :
    ∃ newer older, tr = newer ++ ev :: older ∧ ∃ parsed tk client,
      IssuedFor h (ev.before.keys.store.listForVerification stale listedAt order)
        ev.before.clients r claims parsed tk client ∧ Registered older tk := by
  obtain ⟨newer, older, htr, hrun', -, hs⟩ := hrun.split hev
  refine ⟨newer, older, htr, ?_⟩
  rw [haction, hissued] at hs
  simp only [stepTokens] at hs
  split at hs
  · cases hs
  split at hs
  · cases hs
  · next hok =>
    obtain rfl := TokenReply.issued.inj (congrArg Prod.fst (Option.some.inj hs))
    obtain ⟨parsed, tk, client, hfor⟩ := issuedFor_of_ok hok
    refine ⟨parsed, tk, client, hfor, registered_of_run hrun' tk (.inr (.inl ?_))⟩
    have hlisted := hfor.verified.listed
    unfold KVTrustedKeyStore.listForVerification at hlisted
    split at hlisted
    · cases hlisted
    obtain ⟨entry, hentry, hsome⟩ := List.mem_filterMap.mp hlisted
    split at hsome
    · cases hsome
      exact ⟨entry.1, (GoMap.mem_inOrder.mp hentry).2⟩
    · cases hsome

namespace Exchange

/-- A signature is the name of the key that made it. -/
def handler : TokenHandler String := ⟨fun key _ signature => signature = key, "cyoda", 3600, true⟩

def kid : KID := ⟨"k", by decide⟩

def key : TrustedKey String := ⟨kid, "B", "B's key", [], true, 0, none⟩

/-- A token for tenant `T`, signed with the key that `B` registered. -/
def token : ParsedToken Unit :=
  ⟨some "RS256", some "k", ⟨none, some "user", some "T", none, none, some 100, some 0, none⟩,
    "input", "B's key"⟩

def request : ExchangeRequest Unit :=
  ⟨"client", "urn:ietf:params:oauth:token-type:jwt", some token, 1, 1, 1⟩

def exchange : TokenOp String Unit := .exchange false 1 [kid] request

def actions : List (TokenOp String Unit) :=
  [.createClient "client" "T", .keys (.mutate 0 (.register key ⟨false, 0⟩) 1), .keys (.write 0),
    .keys (.commit 0 1 [kid]), exchange]

def anyOp (_ : List (TokenEvent String Unit)) (_ : TokenNode String)
    (_ : TokenOp String Unit) : Bool := true

/-- The last event issued a token for `T`. -/
def issuedLast (tr : List (TokenEvent String Unit)) (_ : TokenNode String) : Bool :=
  match tr with
  | ⟨_, _, .issued claims, _⟩ :: _ => claims.caasOrgID = "T"
  | _ => false

theorem exists_issued :
    ∃ tr n, Run (stepTokens handler) AnyStep (TokenNode.new 0) tr n ∧
      tr.map (·.action) = actions.reverse ∧ issuedLast tr n = true :=
  exists_actions_of_execute (fun tr n op (_ : anyOp tr n op = true) => trivial) actions
    (by decide +kernel)

theorem exists_issued_event :
    ∃ tr n, Run (stepTokens handler) AnyStep (TokenNode.new 0) tr n ∧
      tr.map (·.action) = actions.reverse ∧ ∃ ev ∈ tr, ∃ claims, ev.action = exchange ∧
        ev.result = .issued claims ∧ claims.caasOrgID = "T" := by
  obtain ⟨tr, n, hrun, hactions, hlast⟩ := exists_issued
  refine ⟨tr, n, hrun, hactions, ?_⟩
  match tr, hactions, hlast with
  | ⟨before, action, .issued claims, after⟩ :: rest, hactions, hlast =>
    exact ⟨_, List.mem_cons_self, claims, (List.cons.inj hactions).1, rfl,
      of_decide_eq_true hlast⟩

end Exchange

open Exchange in
theorem token_exchange_verified_foreign :
    ∃ (tr : List (TokenEvent String Unit)) (n : TokenNode String),
      Run (stepTokens handler) AnyStep (TokenNode.new 0) tr n ∧
      ∃ newer ev older, tr = newer ++ ev :: older ∧ ∃ claims parsed tk client,
        IssuedFor handler (ev.before.keys.store.listForVerification false 1 [kid])
          ev.before.clients request claims parsed tk client ∧ Registered older tk := by
  obtain ⟨tr, n, hrun, -, ev, hev, claims, haction, hissued, -⟩ := exists_issued_event
  obtain ⟨newer, older, htr, hfor⟩ := token_exchange_verified handler 0 hrun hev haction hissued
  exact ⟨tr, n, hrun, newer, ev, older, htr, claims, hfor⟩

open Exchange in
/-- A client of `T` gets a token for `T` on a node where only `B` ever registered a key. -/
theorem token_issued_on_foreign_key :
    ∃ tr n, Run (stepTokens handler) AnyStep (TokenNode.new 0) tr n ∧
      (∃ ev ∈ tr, ∃ claims, ev.action = exchange ∧ ev.result = .issued claims ∧
        claims.caasOrgID = "T") ∧
      ∀ ev ∈ tr, ∀ c tk opts now, ev.action = .keys (.mutate c (.register tk opts) now) →
        tk.tenantID = "B" := by
  obtain ⟨tr, n, hrun, hactions, hissued⟩ := exists_issued_event
  refine ⟨tr, n, hrun, hissued, ?_⟩
  intro ev hev c tk opts now haction
  have hmem : ev.action ∈ actions.reverse := hactions ▸ List.mem_map_of_mem hev
  rw [haction] at hmem
  simp only [actions, exchange, List.reverse_cons, List.reverse_nil, List.nil_append,
    List.cons_append, List.mem_cons, reduceCtorEq, TokenOp.keys.injEq, KeyOp.mutate.injEq,
    Mutation.register.injEq, List.not_mem_nil, false_or, or_false] at hmem
  rw [hmem.2.1.1, key]

end CyodaGo.Auth
