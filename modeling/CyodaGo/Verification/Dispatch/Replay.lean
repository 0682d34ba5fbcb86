import CyodaGo.Model.Dispatch.PeerAuth
import CyodaGo.Shared.Joined
import CyodaGo.Shared.Run

/-! # Replays and re-bound envelopes

A nonce that was accepted is in the cache until some eviction reads the clock more than twice the
skew after its timestamp. If that happens before the skew check of a replay, the check fails; the
replay gets through if it happens between that check and the lookup of the nonce. -/

namespace CyodaGo.Dispatch

/-! ## Associated data -/

theorem digit?_newline : digit? newline = none := by decide

theorem newline_notMem_of_digits {cs : Bytes} {n m : Nat}
    (h : cs.foldlM (fun n c => (digit? c).map (n * 10 + ·)) n = some m) : newline ∉ cs := by
  induction cs generalizing n with
  | nil => simp
  | cons c cs ih =>
    rw [List.foldlM_cons] at h
    obtain ⟨k, hk, hrest⟩ := Option.bind_eq_some_iff.mp h
    rw [List.mem_cons, not_or]
    refine ⟨?_, ih hrest⟩
    rintro rfl
    rw [digit?_newline] at hk
    cases hk

theorem newline_notMem_of_parseUint {cs : Bytes} {n : Nat} (h : parseUint cs = some n) :
    newline ∉ cs := by
  cases cs with
  | nil => cases h
  | cons c cs => exact newline_notMem_of_digits h

theorem newline_notMem_of_parseInt {s : Bytes} {n : Int64} (h : parseInt s = some n) :
    newline ∉ s := by
  unfold parseInt at h
  split at h
  rename_i neg digits hsplit
  cases hdigits : parseUint digits with
  | none => simp [hdigits] at h
  | some k =>
    have hnotMem := newline_notMem_of_parseUint hdigits
    split at hsplit <;> cases hsplit
    · simpa [newline] using hnotMem
    · simpa [newline] using hnotMem
    · exact hnotMem

theorem newline_notMem_formatInt (n : Int64) : newline ∉ formatInt n := by
  unfold formatInt
  rw [List.mem_append, not_or]
  constructor
  · split <;> decide
  · intro h
    obtain ⟨c, hc, heq⟩ := List.mem_map.mp h
    have hdigit := Nat.isDigit_of_mem_toDigits (by decide) (by decide) hc
    simp only [Char.isDigit, Bool.and_eq_true, decide_eq_true_eq, ge_iff_le,
      UInt32.le_iff_toNat_le] at hdigit
    have hbyte : c.val.toNat % 256 = 10 := by
      rw [← UInt32.toNat_toUInt8, heq]
      rfl
    have hlo : 48 ≤ c.val.toNat := hdigit.1
    have hhi : c.val.toNat ≤ 57 := hdigit.2
    omega

/-- Neither the method nor the timestamp has a newline, so the first and the last newline
separate the parts, whatever the path. -/
theorem buildAD_inj {m m' : Method} {path path' ts ts' : Bytes} (hts : newline ∉ ts)
    (hts' : newline ∉ ts') (h : buildAD m.name path ts = buildAD m'.name path' ts') :
    m.name = m'.name ∧ path = path' ∧ ts = ts' := by
  obtain ⟨hmethod, hrest⟩ := List.append_cons_inj_of_notMem_left m.token m'.token h
  obtain ⟨hpath, hstamp⟩ := List.append_cons_inj_of_notMem_right hts hts' hrest
  exact ⟨hmethod, hpath, hstamp⟩

/-! ## The skew check -/

theorem toInt_timeSub (t u : Int) :
    (timeSub t u).toInt = max (-2 ^ 63) (min (2 ^ 63 - 1) (t - u)) :=
  Int64.toInt_ofInt_of_le (by omega) (by omega)

/-- Twice the skew is a duration, and so is its negation. -/
def Moderate (skew : Duration) : Prop := -2 ^ 62 < skew.toInt ∧ skew.toInt < 2 ^ 62

theorem Moderate.toInt_neg_double {skew : Duration} (h : Moderate skew) :
    (-(skew * 2)).toInt = -(2 * skew.toInt) := by
  obtain ⟨hlo, hhi⟩ := h
  have htwo : (2 : Int64).toInt = 2 := by decide
  have hdouble : (skew * 2).toInt = 2 * skew.toInt := by
    rw [Int64.toInt_mul, htwo, Int.bmod_eq_of_le (by omega) (by omega)]
    omega
  rw [Int64.toInt_neg, hdouble, Int.bmod_eq_of_le (by omega) (by omega)]

/-- The check passes when the absolute difference, computed in 64 bits, is not above the skew. -/
theorem verifyTimestamp_ok {a : AEADPeerAuth} {now ts : Int} {r : Request}
    (h : a.verifyTimestamp now r = .ok ts) :
    (∃ n, parseInt r.timestamp = some n ∧ ts = timeUnix n) ∧
      (if timeSub now ts < 0 then -timeSub now ts else timeSub now ts).toInt ≤ a.skew.toInt := by
  unfold AEADPeerAuth.verifyTimestamp at h
  split at h
  · cases h
  cases hparse : parseInt r.timestamp with
  | none => simp [hparse] at h
  | some n =>
    simp only [hparse] at h
    generalize hdiff : (if timeSub now (timeUnix n) < 0 then -timeSub now (timeUnix n)
      else timeSub now (timeUnix n)) = diff at h
    split at h
    · cases h
    · next hle =>
      obtain rfl := Except.ok.inj h
      rw [gt_iff_lt, Int64.lt_iff_toInt_lt, Int.not_lt] at hle
      exact ⟨⟨n, rfl, rfl⟩, hdiff ▸ hle⟩

/-- A timestamp that passes the check is not older than the skew. It may be far in the future:
the negation of the smallest duration is negative. -/
theorem age_le_of_verifyTimestamp {a : AEADPeerAuth} {now ts : Int} {r : Request}
    (hskew : Moderate a.skew) (h : a.verifyTimestamp now r = .ok ts) :
    now - ts ≤ a.skew.toInt := by
  obtain ⟨hlo, hhi⟩ := hskew
  obtain ⟨-, hdiff⟩ := verifyTimestamp_ok h
  have hsub := toInt_timeSub now ts
  have hzero : (0 : Int64).toInt = 0 := by decide
  split at hdiff
  · next hneg =>
    rw [Int64.lt_iff_toInt_lt] at hneg
    rw [Int64.toInt_neg] at hdiff
    by_cases hmin : (timeSub now ts).toInt = -2 ^ 63
    · omega
    rw [Int.bmod_eq_of_le (by omega) (by omega)] at hdiff
    omega
  · omega

/-! ## The cache -/

namespace NonceCache

theorem get_evictLocked (c : NonceCache) (now : Int) (nonce : Bytes) :
    (c.evictLocked now).entries.get nonce =
      (c.entries.get nonce).filter fun ts => !(ts < timeAdd now (-c.ttl)) :=
  GoMap.get_filter _ _ _

/-- The three outcomes: already there, full, or recorded. -/
theorem checkAndRecord_seen {c c' : NonceCache} {nonce : Bytes} {observed now : Int}
    (h : c.checkAndRecord nonce observed now = (true, c')) : c' = c.evictLocked now := by
  unfold checkAndRecord at h
  dsimp only at h
  split at h
  · exact (Prod.mk.inj h).2.symm
  split at h
  · exact (Prod.mk.inj h).2.symm
  · cases h

theorem checkAndRecord_new {c c' : NonceCache} {nonce : Bytes} {observed now : Int}
    (h : c.checkAndRecord nonce observed now = (false, c')) :
    (c.evictLocked now).entries.get nonce = none ∧
      c' = { c.evictLocked now with entries := (c.evictLocked now).entries.set nonce observed } := by
  unfold checkAndRecord at h
  dsimp only at h
  split at h
  · cases h
  · next hnone =>
    split at h
    · cases h
    · exact ⟨hnone, (Prod.mk.inj h).2.symm⟩

end NonceCache

/-! ## What a step does -/

/-- A `Verify` call whose envelope opens. -/
structure Opening where
  call : Waiting
  nonce : Bytes
  plaintext : Bytes
  now : Int

def opening (gcm : Gcm) (v : Verifier) : AuthOp → Option Opening
  | .verifyEnvelope c now =>
    match v.calls.get c with
    | none => none
    | some p =>
      match openEnvelope gcm p.request with
      | .error _ => none
      | .ok (nonce, pt) => some ⟨p, nonce, pt, now⟩
  | _ => none

inductive VerifierStep (gcm : Gcm) (v : Verifier) : AuthOp → AuthReply → Verifier → Prop where
  | sign {method : Method} {path body nonce : Bytes} {now : Int} :
      VerifierStep gcm v (.sign method path body nonce now)
        (.signed (sign gcm now nonce method path body).1 (sign gcm now nonce method path body).2) v
  | early {c : Nat} {r : Request} {now : Int} {err : AuthError} :
      VerifierStep gcm v (.verifyTimestamp c r now) (.rejected err) v
  | wait {c : Nat} {r : Request} {now tsTime : Int}
      (hok : v.auth.verifyTimestamp now r = .ok tsTime) :
      VerifierStep gcm v (.verifyTimestamp c r now) .running
        { v with calls := v.calls.set c ⟨r, tsTime, now⟩ }
  | unopened {c : Nat} {now : Int} {err : AuthError}
      (hnone : opening gcm v (.verifyEnvelope c now) = none) :
      VerifierStep gcm v (.verifyEnvelope c now) (.rejected err) { v with calls := v.calls.del c }
  | seen {c : Nat} {o : Opening} (hcall : v.calls.get c = some o.call)
      (hopen : opening gcm v (.verifyEnvelope c o.now) = some o) :
      VerifierStep gcm v (.verifyEnvelope c o.now) (.rejected .duplicateNonce)
        ⟨{ v.auth with nonces := v.auth.nonces.evictLocked o.now }, v.calls.del c⟩
  | accept {c : Nat} {o : Opening} (hcall : v.calls.get c = some o.call)
      (hopen : opening gcm v (.verifyEnvelope c o.now) = some o)
      (hnew : (v.auth.nonces.evictLocked o.now).entries.get o.nonce = none) :
      VerifierStep gcm v (.verifyEnvelope c o.now) (.accepted o.nonce o.plaintext)
        ⟨{ v.auth with nonces := { v.auth.nonces.evictLocked o.now with
            entries := (v.auth.nonces.evictLocked o.now).entries.set o.nonce o.call.tsTime } },
          v.calls.del c⟩

theorem verifierStep_of_step {gcm : Gcm} {v v' : Verifier} {op : AuthOp} {r : AuthReply}
    (h : stepVerifier gcm v op = some (r, v')) : VerifierStep gcm v op r v' := by
  cases op with
  | sign method path body nonce now =>
    simp only [stepVerifier] at h
    split at h
    · cases h
    cases h
    exact .sign
  | verifyTimestamp c req now =>
    simp only [stepVerifier] at h
    split at h
    · cases h
    split at h
    · cases h
      exact .early
    · next hok =>
      cases h
      exact .wait hok
  | verifyEnvelope c now =>
    simp only [stepVerifier] at h
    cases hcall : v.calls.get c with
    | none => simp [hcall] at h
    | some p =>
      simp only [hcall, AEADPeerAuth.verifyEnvelope] at h
      cases hopen : openEnvelope gcm p.request with
      | error err =>
        simp only [hopen] at h
        cases h
        exact .unopened (by simp [opening, hcall, hopen])
      | ok opened =>
        obtain ⟨nonce, pt⟩ := opened
        have ho : opening gcm v (.verifyEnvelope c now) = some ⟨p, nonce, pt, now⟩ := by
          simp [opening, hcall, hopen]
        cases hrecord : v.auth.nonces.checkAndRecord nonce p.tsTime now with
        | mk seen nonces =>
          simp only [hopen, hrecord] at h
          cases seen with
          | true =>
            cases h
            rw [NonceCache.checkAndRecord_seen hrecord]
            exact .seen (o := ⟨p, nonce, pt, now⟩) hcall ho
          | false =>
            cases h
            obtain ⟨hnew, rfl⟩ := NonceCache.checkAndRecord_new hrecord
            exact .accept (o := ⟨p, nonce, pt, now⟩) hcall ho hnew

/-! ## The record of a run -/

abbrev AuthEvent := Event Verifier AuthOp AuthReply

structure Signature where
  method : Method
  path : Bytes
  body : Bytes
  nonce : Bytes
  ts : Bytes

def signature (ev : AuthEvent) : Option Signature :=
  match ev.action, ev.result with
  | .sign method path body nonce _, .signed ts _ => some ⟨method, path, body, nonce, ts⟩
  | _, _ => none

/-- Newest first, as are the lists below. -/
def signatures (tr : List AuthEvent) : List Signature := tr.filterMap signature

/-- The readings of the verifying node's clock. -/
def readings (tr : List AuthEvent) : List Int :=
  tr.filterMap fun ev =>
    match ev.action with
    | .sign _ _ _ _ _ => none
    | .verifyTimestamp _ _ now => some now
    | .verifyEnvelope _ now => some now

def openings (gcm : Gcm) (tr : List AuthEvent) : List Opening :=
  tr.filterMap fun ev => opening gcm ev.before ev.action

def acceptance (gcm : Gcm) (ev : AuthEvent) : Option Opening :=
  match ev.result with
  | .accepted _ _ => opening gcm ev.before ev.action
  | _ => none

def acceptances (gcm : Gcm) (tr : List AuthEvent) : List Opening := tr.filterMap (acceptance gcm)

theorem openings_cons (gcm : Gcm) (ev : AuthEvent) (tr : List AuthEvent) :
    openings gcm (ev :: tr) = (opening gcm ev.before ev.action).toList ++ openings gcm tr := by
  cases h : opening gcm ev.before ev.action <;> simp [openings, h]

theorem acceptances_cons (gcm : Gcm) (ev : AuthEvent) (tr : List AuthEvent) :
    acceptances gcm (ev :: tr) = (acceptance gcm ev).toList ++ acceptances gcm tr := by
  cases h : acceptance gcm ev <;> simp [acceptances, h]

theorem now_mem_readings {gcm : Gcm} {tr : List AuthEvent} {o : Opening}
    (h : o ∈ openings gcm tr) : o.now ∈ readings tr := by
  obtain ⟨ev, hev, hopen⟩ := List.mem_filterMap.mp h
  refine List.mem_filterMap.mpr ⟨ev, hev, ?_⟩
  cases haction : ev.action with
  | sign method path body nonce now =>
    rw [haction] at hopen
    cases hopen
  | verifyTimestamp c r now =>
    rw [haction] at hopen
    cases hopen
  | verifyEnvelope c now =>
    rw [haction] at hopen
    simp only [opening] at hopen
    split at hopen
    · cases hopen
    split at hopen
    · cases hopen
    cases hopen
    rfl

/-! ## Conditions on runs -/

/-- Nonces are drawn once, an envelope opens only if it was sealed under the same nonce and
associated data, and the clock never reads more than the skew before an earlier reading. -/
structure Assumed (gcm : Gcm) (skew : Duration) (tr : List AuthEvent) (v : Verifier)
    (op : AuthOp) : Prop where
  fresh : ∀ method path body nonce now, op = .sign method path body nonce now →
    nonce ∉ (signatures tr).map (·.nonce)
  authentic : ∀ o, opening gcm v op = some o → ∃ s ∈ signatures tr, s.nonce = o.nonce ∧
    s.body = o.plaintext ∧ buildAD s.method.name s.path s.ts =
      buildAD o.call.request.method.name o.call.request.path o.call.request.timestamp
  steady : ∀ now, (∃ c r, op = .verifyTimestamp c r now) ∨ (∃ c, op = .verifyEnvelope c now) →
    ∀ earlier ∈ readings tr, earlier - skew.toInt ≤ now

/-- When a nonce is looked up, no call has waited for longer than the skew since its skew
check. -/
def Prompt (gcm : Gcm) (skew : Duration) (v : Verifier) (op : AuthOp) : Prop :=
  ∀ o, opening gcm v op = some o → ∀ c p, v.calls.get c = some p → o.now ≤ p.now + skew.toInt

def PromptBodies (gcm : Gcm) (skew : Duration) (tr : List AuthEvent) (v : Verifier)
    (op : AuthOp) : Prop :=
  Assumed gcm skew tr v op ∧ Prompt gcm skew v op

/-! ## Every accepted request is the signed one -/

/-- `s` is the signature of the request that the envelope came with. -/
def Signature.Binds (s : Signature) (o : Opening) : Prop :=
  s.nonce = o.nonce ∧ s.body = o.plaintext ∧ s.method.name = o.call.request.method.name ∧
    s.path = o.call.request.path ∧ s.ts = o.call.request.timestamp

def Waiting.Stamped (p : Waiting) : Prop :=
  ∃ n, parseInt p.request.timestamp = some n ∧ p.tsTime = timeUnix n

structure BindingInv (gcm : Gcm) (tr : List AuthEvent) (v : Verifier) : Prop where
  signed : ∀ s ∈ signatures tr, newline ∉ s.ts
  fresh : ((signatures tr).map (·.nonce)).Nodup
  waiting : ∀ c p, v.calls.get c = some p → p.Stamped
  stamped : ∀ o ∈ acceptances gcm tr, o.call.Stamped
  bound : ∀ o ∈ acceptances gcm tr, ∃ s ∈ signatures tr, s.Binds o

section Steps

variable {gcm : Gcm} {skew : Duration} {tr : List AuthEvent} {v v' : Verifier} {op : AuthOp}
  {r : AuthReply}

theorem get_of_get_del {calls : GoMap Nat Waiting} {c a : Nat} {p : Waiting}
    (h : (calls.del c).get a = some p) : calls.get a = some p := by
  rw [GoMap.get_del] at h
  split at h
  · cases h
  · exact h

theorem acceptances_accept {c : Nat} {o : Opening}
    (hopen : opening gcm v (.verifyEnvelope c o.now) = some o) :
    acceptances gcm (⟨v, .verifyEnvelope c o.now, .accepted o.nonce o.plaintext, v'⟩ :: tr) =
      o :: acceptances gcm tr := by
  rw [acceptances_cons, acceptance, hopen]
  rfl

namespace BindingInv

theorem init (auth : AEADPeerAuth) : BindingInv gcm [] (.new auth) := by
  refine ⟨by simp [signatures], .nil, ?_, by simp [acceptances], by simp [acceptances]⟩
  intro c p hp
  cases hp

/-- The envelope of an opened request was signed for that request. -/
theorem binds (h : BindingInv gcm tr v) (hassumed : Assumed gcm skew tr v op) {c : Nat}
    {o : Opening} (hcall : v.calls.get c = some o.call) (hopen : opening gcm v op = some o) :
    ∃ s ∈ signatures tr, s.Binds o := by
  obtain ⟨s, hs, hnonce, hbody, had⟩ := hassumed.authentic o hopen
  obtain ⟨n, hn, -⟩ := h.waiting c _ hcall
  exact ⟨s, hs, hnonce, hbody, buildAD_inj (h.signed s hs) (newline_notMem_of_parseInt hn) had⟩

theorem step (h : BindingInv gcm tr v) (hassumed : Assumed gcm skew tr v op)
    (hs : VerifierStep gcm v op r v') : BindingInv gcm (⟨v, op, r, v'⟩ :: tr) v' := by
  cases hs with
  | sign =>
    refine ⟨?_, ?_, h.waiting, h.stamped, ?_⟩
    · intro s hs
      rcases List.mem_cons.mp hs with rfl | hs
      · exact newline_notMem_formatInt _
      · exact h.signed s hs
    · exact List.nodup_cons.mpr ⟨hassumed.fresh _ _ _ _ _ rfl, h.fresh⟩
    · intro o ho
      obtain ⟨s, hs, hbinds⟩ := h.bound o ho
      exact ⟨s, List.mem_cons_of_mem _ hs, hbinds⟩
  | early => exact ⟨h.signed, h.fresh, h.waiting, h.stamped, h.bound⟩
  | @wait c req now tsTime hok =>
    refine ⟨h.signed, h.fresh, ?_, h.stamped, h.bound⟩
    intro a p hp
    rw [GoMap.get_set] at hp
    split at hp
    · cases hp
      exact (verifyTimestamp_ok hok).1
    · exact h.waiting a p hp
  | unopened =>
    exact ⟨h.signed, h.fresh, fun a p hp => h.waiting a p (get_of_get_del hp), h.stamped, h.bound⟩
  | seen =>
    exact ⟨h.signed, h.fresh, fun a p hp => h.waiting a p (get_of_get_del hp), h.stamped, h.bound⟩
  | @accept c o hcall hopen hnew =>
    refine ⟨h.signed, h.fresh, fun a p hp => h.waiting a p (get_of_get_del hp), ?_, ?_⟩
    · intro o' ho'
      rw [acceptances_accept hopen] at ho'
      rcases List.mem_cons.mp ho' with rfl | ho'
      · exact h.waiting c _ hcall
      · exact h.stamped o' ho'
    · intro o' ho'
      rw [acceptances_accept hopen] at ho'
      rcases List.mem_cons.mp ho' with rfl | ho'
      · exact h.binds hassumed hcall hopen
      · exact h.bound o' ho'

theorem of_run {auth : AEADPeerAuth}
    (hrun : Run (stepVerifier gcm) (Assumed gcm skew) (.new auth) tr v) : BindingInv gcm tr v := by
  refine hrun.inv (I := BindingInv gcm) (.init auth) ?_
  intro tr v op r v' hinv hassumed hs
  exact hinv.step hassumed (verifierStep_of_step hs)

/-- Two openings under one nonce carry the same timestamp. -/
theorem tsTime_eq (h : BindingInv gcm tr v) (hassumed : Assumed gcm skew tr v op) {c : Nat}
    {o o' : Opening} (hcall : v.calls.get c = some o.call) (hopen : opening gcm v op = some o)
    (ho' : o' ∈ acceptances gcm tr) (heq : o'.nonce = o.nonce) :
    o'.call.tsTime = o.call.tsTime := by
  obtain ⟨s, hs, hnonce, -, -, -, hts⟩ := h.binds hassumed hcall hopen
  obtain ⟨s', hs', hnonce', -, -, -, hts'⟩ := h.bound o' ho'
  obtain rfl : s = s' := List.inj_on_of_nodup_map h.fresh hs hs' (by rw [hnonce, hnonce', heq])
  obtain ⟨n, hn, hstamp⟩ := h.waiting c _ hcall
  obtain ⟨n', hn', hstamp'⟩ := h.stamped o' ho'
  rw [← hts] at hn
  rw [← hts'] at hn'
  obtain rfl : n = n' := Option.some.inj (hn.symm.trans hn')
  rw [hstamp, hstamp']

end BindingInv

/-! ## No nonce is accepted twice -/

/-- Every waiting call passed the skew check, and every eviction so far read the clock at most
the skew after that check. -/
structure WaitingInv (gcm : Gcm) (skew : Duration) (tr : List AuthEvent) (v : Verifier) :
    Prop where
  config : v.auth.skew = skew ∧ v.auth.nonces.ttl = skew * 2
  age : ∀ c p, v.calls.get c = some p → p.now - p.tsTime ≤ skew.toInt
  prompt : ∀ c p, v.calls.get c = some p → ∀ o ∈ openings gcm tr, o.now ≤ p.now + skew.toInt

namespace WaitingInv

/-- The end of a call leaves the other calls waiting. -/
theorem finish (h : WaitingInv gcm skew tr v) (c : Nat) {auth : AEADPeerAuth}
    {tr' : List AuthEvent} (hconfig : auth.skew = skew ∧ auth.nonces.ttl = skew * 2)
    (hopen : ∀ e ∈ openings gcm tr', e ∈ openings gcm tr ∨
      ∀ a p, v.calls.get a = some p → e.now ≤ p.now + skew.toInt) :
    WaitingInv gcm skew tr' ⟨auth, v.calls.del c⟩ := by
  refine ⟨hconfig, fun a p hp => h.age a p (get_of_get_del hp), ?_⟩
  intro a p hp e he
  rcases hopen e he with hearlier | hnow
  · exact h.prompt a p (get_of_get_del hp) e hearlier
  · exact hnow a p (get_of_get_del hp)

theorem step (h : WaitingInv gcm skew tr v) (hskew : Moderate skew)
    (hallowed : PromptBodies gcm skew tr v op) (hs : VerifierStep gcm v op r v') :
    WaitingInv gcm skew (⟨v, op, r, v'⟩ :: tr) v' := by
  obtain ⟨hassumed, hprompt⟩ := hallowed
  cases hs with
  | sign => exact ⟨h.config, h.age, h.prompt⟩
  | early => exact ⟨h.config, h.age, h.prompt⟩
  | @wait c req now tsTime hok =>
    have hage : now - tsTime ≤ skew.toInt := by
      have hskew' : Moderate v.auth.skew := h.config.1 ▸ hskew
      have hage := age_le_of_verifyTimestamp hskew' hok
      rwa [h.config.1] at hage
    have hnew : ∀ a p, (v.calls.set c ⟨req, tsTime, now⟩).get a = some p →
        p = ⟨req, tsTime, now⟩ ∨ v.calls.get a = some p := by
      intro a p hp
      rw [GoMap.get_set] at hp
      split at hp
      · exact .inl (Option.some.inj hp).symm
      · exact .inr hp
    refine ⟨h.config, ?_, ?_⟩
    · intro a p hp
      rcases hnew a p hp with rfl | hold
      · exact hage
      · exact h.age a p hold
    · intro a p hp o ho
      rcases hnew a p hp with rfl | hold
      · have hread := hassumed.steady now (.inl ⟨c, req, rfl⟩) o.now (now_mem_readings ho)
        show o.now ≤ now + skew.toInt
        omega
      · exact h.prompt a p hold o ho
  | @unopened c now err hnone =>
    refine h.finish c h.config fun e he => .inl ?_
    rwa [openings_cons, hnone] at he
  | @seen c o hcall hopen =>
    refine h.finish c h.config fun e he => ?_
    rw [openings_cons, hopen] at he
    rcases List.mem_cons.mp he with rfl | he
    · exact .inr (hprompt e hopen)
    · exact .inl he
  | @accept c o hcall hopen hnew =>
    refine h.finish c h.config fun e he => ?_
    rw [openings_cons, hopen] at he
    rcases List.mem_cons.mp he with rfl | he
    · exact .inr (hprompt e hopen)
    · exact .inl he

end WaitingInv

/-- An accepted nonce is in the cache, or some eviction read the clock more than twice the skew
after its timestamp. -/
structure AcceptedInv (gcm : Gcm) (skew : Duration) (tr : List AuthEvent) (v : Verifier) :
    Prop where
  remembered : ∀ o ∈ acceptances gcm tr,
    v.auth.nonces.entries.get o.nonce = some o.call.tsTime ∨
      ∃ e ∈ openings gcm tr, o.call.tsTime + 2 * skew.toInt < e.now
  once : ((acceptances gcm tr).map (·.nonce)).Nodup

/-- What is no longer in the cache after an eviction has expired. -/
theorem evictLocked_remembers (hskew : Moderate skew) {c : NonceCache} (httl : c.ttl = skew * 2)
    {nonce : Bytes} {ts : Int} (now : Int) (h : c.entries.get nonce = some ts) :
    (c.evictLocked now).entries.get nonce = some ts ∨ ts + 2 * skew.toInt < now := by
  rw [NonceCache.get_evictLocked, h, httl, timeAdd, hskew.toInt_neg_double]
  by_cases hold : ts < now + -(2 * skew.toInt)
  · right
    omega
  left
  simp [Option.filter, hold]

namespace AcceptedInv

/-- A nonce that the cache does not know when it is looked up was not accepted before. -/
theorem unused (h : AcceptedInv gcm skew tr v) (hbinding : BindingInv gcm tr v)
    (hwaiting : WaitingInv gcm skew tr v) (hskew : Moderate skew)
    (hallowed : PromptBodies gcm skew tr v op) {c : Nat} {o : Opening}
    (hcall : v.calls.get c = some o.call) (hopen : opening gcm v op = some o)
    (hnew : (v.auth.nonces.evictLocked o.now).entries.get o.nonce = none) :
    o.nonce ∉ (acceptances gcm tr).map (·.nonce) := by
  intro hmem
  obtain ⟨o', ho', heq⟩ := List.mem_map.mp hmem
  have hts := hbinding.tsTime_eq hallowed.1 hcall hopen ho' heq
  have hage := hwaiting.age c _ hcall
  have hnow := hallowed.2 o hopen c _ hcall
  rcases h.remembered o' ho' with hget | ⟨e, he, hexpired⟩
  · rw [heq] at hget
    rcases evictLocked_remembers hskew hwaiting.config.2 o.now hget with hkept | hexpired
    · cases hnew.symm.trans hkept
    · omega
  · have hprompt := hwaiting.prompt c _ hcall e he
    omega

/-- Evicting keeps every accepted nonce remembered. -/
theorem remembered_evict (h : AcceptedInv gcm skew tr v) (hwaiting : WaitingInv gcm skew tr v)
    (hskew : Moderate skew) {c : Nat} {o : Opening}
    (hopen : opening gcm v (.verifyEnvelope c o.now) = some o) {r : AuthReply} :
    ∀ o' ∈ acceptances gcm tr,
      (v.auth.nonces.evictLocked o.now).entries.get o'.nonce = some o'.call.tsTime ∨
        ∃ e ∈ openings gcm (⟨v, .verifyEnvelope c o.now, r, v'⟩ :: tr),
          o'.call.tsTime + 2 * skew.toInt < e.now := by
  intro o' ho'
  rw [openings_cons, hopen]
  rcases h.remembered o' ho' with hget | ⟨e, he, hexpired⟩
  · rcases evictLocked_remembers hskew hwaiting.config.2 o.now hget with hkept | hlate
    · exact .inl hkept
    · exact .inr ⟨o, List.mem_cons_self, hlate⟩
  · exact .inr ⟨e, List.mem_cons_of_mem _ he, hexpired⟩

theorem step (h : AcceptedInv gcm skew tr v) (hbinding : BindingInv gcm tr v)
    (hwaiting : WaitingInv gcm skew tr v) (hskew : Moderate skew)
    (hallowed : PromptBodies gcm skew tr v op) (hs : VerifierStep gcm v op r v') :
    AcceptedInv gcm skew (⟨v, op, r, v'⟩ :: tr) v' := by
  cases hs with
  | sign => exact ⟨h.remembered, h.once⟩
  | early => exact ⟨h.remembered, h.once⟩
  | wait => exact ⟨h.remembered, h.once⟩
  | @unopened c now err hnone =>
    refine ⟨?_, h.once⟩
    intro o ho
    rw [openings_cons, hnone]
    exact h.remembered o ho
  | @seen c o hcall hopen => exact ⟨h.remembered_evict hwaiting hskew hopen, h.once⟩
  | @accept c o hcall hopen hnew =>
    have hunused := h.unused hbinding hwaiting hskew hallowed hcall hopen hnew
    constructor
    · intro o' ho'
      rw [acceptances_accept hopen] at ho'
      rcases List.mem_cons.mp ho' with rfl | ho'
      · exact .inl (GoMap.get_set_self _ _ _)
      rcases h.remembered_evict hwaiting hskew hopen o' ho' with hkept | hexpired
      · have hne : o'.nonce ≠ o.nonce := by
          intro heq
          exact hunused (heq ▸ List.mem_map_of_mem ho')
        exact .inl ((GoMap.get_set_of_ne _ _ hne).trans hkept)
      · exact .inr hexpired
    · rw [acceptances_accept hopen, List.map_cons]
      exact List.nodup_cons.mpr ⟨hunused, h.once⟩

theorem of_run {secret : Bytes} {auth : AEADPeerAuth} (hskew : Moderate skew)
    (hnew : newAEADPeerAuth secret skew = .ok auth)
    (hrun : Run (stepVerifier gcm) (PromptBodies gcm skew) (.new auth) tr v) :
    AcceptedInv gcm skew tr v := by
  have hauth : auth = ⟨.new (skew * 2) nonceCacheCapacity, skew⟩ := by
    unfold newAEADPeerAuth at hnew
    split at hnew
    · cases hnew
    · exact (Except.ok.inj hnew).symm
  subst hauth
  have hinv : BindingInv gcm tr v ∧ WaitingInv gcm skew tr v ∧ AcceptedInv gcm skew tr v := by
    refine hrun.inv (I := fun tr v =>
      BindingInv gcm tr v ∧ WaitingInv gcm skew tr v ∧ AcceptedInv gcm skew tr v) ?_ ?_
    · refine ⟨.init _, ⟨⟨rfl, rfl⟩, ?_, ?_⟩, ⟨?_, .nil⟩⟩
      · intro c p hp
        cases hp
      · intro c p hp
        cases hp
      · intro o ho
        cases ho
    · intro tr v op r v' hinv hallowed hs
      obtain ⟨hbinding, hwaiting, haccepted⟩ := hinv
      have hstep := verifierStep_of_step hs
      exact ⟨hbinding.step hallowed.1 hstep, hwaiting.step hskew hallowed hstep,
        haccepted.step hbinding hwaiting hskew hallowed hstep⟩
  exact hinv.2.2

end AcceptedInv

end Steps

/-- Every accepted request has the method, path, timestamp and plaintext that were signed under
its nonce, and no nonce is accepted twice as long as bodies arrive promptly. -/
theorem envelopes_accepted_once (gcm : Gcm) {skew : Duration} {secret : Bytes}
    {auth : AEADPeerAuth} (hnew : newAEADPeerAuth secret skew = .ok auth) :
    (∀ tr v, Run (stepVerifier gcm) (Assumed gcm skew) (.new auth) tr v →
      ∀ o ∈ acceptances gcm tr, ∃ s ∈ signatures tr, s.nonce = o.nonce ∧
        s.body = o.plaintext ∧ s.method.name = o.call.request.method.name ∧
        s.path = o.call.request.path ∧ s.ts = o.call.request.timestamp) ∧
    (Moderate skew →
      ∀ tr v, Run (stepVerifier gcm) (PromptBodies gcm skew) (.new auth) tr v →
        ((acceptances gcm tr).map (·.nonce)).Nodup) := by
  constructor
  · intro tr v hrun
    exact (BindingInv.of_run hrun).bound
  · intro hskew tr v hrun
    exact (AcceptedInv.of_run hskew hnew hrun).once

namespace Sample

/-- A transparent envelope: nonce and associated data in front of the plaintext. -/
def gcm : Gcm where
  seals nonce plaintext ad := nonce ++ ad ++ plaintext
  opens nonce ct ad :=
    if (nonce ++ ad).isPrefixOf ct then some (ct.drop (nonce ++ ad).length) else none

def seconds (n : Int) : Int := n * 1000000000

def skew : Duration := 30000000000

def auth : AEADPeerAuth := ⟨.new (skew * 2) nonceCacheCapacity, skew⟩

theorem auth_eq : newAEADPeerAuth (List.replicate 32 1) skew = .ok auth := rfl

def post : Method := ⟨[80, 79, 83, 84], by decide⟩

def nonce : Bytes := List.replicate 12 7

/-- A path with a newline. -/
def path : Bytes := [47, 97, 10, 98]

def request : Request where
  method := post
  path := path
  timestamp := [48]
  body := some (sign gcm 0 nonce post path [1, 2]).2

def assumed (tr : List AuthEvent) (v : Verifier) (op : AuthOp) : Bool :=
  (match op with
    | .sign _ _ _ nonce _ => nonce ∉ (signatures tr).map (·.nonce)
    | _ => true) &&
  ((opening gcm v op).all fun o => (signatures tr).any fun s =>
    s.nonce = o.nonce ∧ s.body = o.plaintext ∧ buildAD s.method.name s.path s.ts =
      buildAD o.call.request.method.name o.call.request.path o.call.request.timestamp) &&
  (match op with
    | .sign _ _ _ _ _ => true
    | .verifyTimestamp _ _ now => (readings tr).all fun earlier => earlier - skew.toInt ≤ now
    | .verifyEnvelope _ now => (readings tr).all fun earlier => earlier - skew.toInt ≤ now)

theorem assumed_of_test (tr : List AuthEvent) (v : Verifier) (op : AuthOp)
    (h : assumed tr v op = true) : Assumed gcm skew tr v op := by
  simp only [assumed, Bool.and_eq_true] at h
  obtain ⟨⟨hfresh, hauthentic⟩, hsteady⟩ := h
  refine ⟨?_, ?_, ?_⟩
  · rintro method path body nonce now rfl
    exact of_decide_eq_true hfresh
  · intro o ho
    rw [ho] at hauthentic
    obtain ⟨s, hs, hmatch⟩ := List.any_eq_true.mp hauthentic
    exact ⟨s, hs, of_decide_eq_true hmatch⟩
  · rintro now (⟨c, r, rfl⟩ | ⟨c, rfl⟩) earlier hearlier
    · exact of_decide_eq_true (List.all_eq_true.mp hsteady earlier hearlier)
    · exact of_decide_eq_true (List.all_eq_true.mp hsteady earlier hearlier)

def prompt (tr : List AuthEvent) (v : Verifier) (op : AuthOp) : Bool :=
  assumed tr v op && (opening gcm v op).all fun o => v.calls.keys.all fun c =>
    (v.calls.get c).all fun p => o.now ≤ p.now + skew.toInt

theorem prompt_of_test (tr : List AuthEvent) (v : Verifier) (op : AuthOp)
    (h : prompt tr v op = true) : PromptBodies gcm skew tr v op := by
  obtain ⟨hassumed, hprompt⟩ := Bool.and_eq_true_iff.mp h
  refine ⟨assumed_of_test tr v op hassumed, ?_⟩
  intro o ho c p hp
  rw [ho] at hprompt
  have hcall := List.all_eq_true.mp hprompt c (GoMap.mem_keys_of_get hp)
  rw [hp] at hcall
  exact of_decide_eq_true hcall

/-- One envelope is presented twice. The body of the replay arrives at `second`. -/
def presentedTwice (second : Int) : List AuthOp :=
  [.sign post path [1, 2] nonce 0,
    .verifyTimestamp 0 request (seconds 1), .verifyEnvelope 0 (seconds 1),
    .verifyTimestamp 1 request (seconds 29), .verifyEnvelope 1 (seconds second)]

end Sample

open Sample in
/-- The replay is presented in time and rejected. -/
theorem envelopes_accepted_once_prompt :
    Moderate skew ∧ ∃ tr v, Run (stepVerifier gcm) (PromptBodies gcm skew) (.new auth) tr v ∧
      (acceptances gcm tr).map (·.nonce) = [nonce] ∧
      ((acceptances gcm tr).map (·.nonce)).Nodup ∧
      ∀ o ∈ acceptances gcm tr, ∃ s ∈ signatures tr, s.nonce = o.nonce ∧
        s.body = o.plaintext ∧ s.method.name = o.call.request.method.name ∧
        s.path = o.call.request.path ∧ s.ts = o.call.request.timestamp := by
  have hskew : Moderate skew := by unfold Moderate; decide
  have hrun : ∃ tr v, Run (stepVerifier gcm) (PromptBodies gcm skew) (.new auth) tr v ∧
      decide ((acceptances gcm tr).map (·.nonce) = [nonce]) = true :=
    exists_run_of_execute prompt_of_test (presentedTwice 31) (by decide +kernel)
  obtain ⟨tr, v, hrun, hnonces⟩ := hrun
  obtain ⟨hbound, honce⟩ := envelopes_accepted_once gcm auth_eq
  exact ⟨hskew, tr, v, hrun, of_decide_eq_true hnonces, honce hskew tr v hrun,
    hbound tr v (hrun.mono fun _ _ _ hallowed => hallowed.1)⟩

open Sample in
/-- The replay passes the skew check at second 29. Its body arrives at second 61, when the lookup
first evicts the nonce that it is about to look for. -/
theorem slow_replay_accepted :
    ∃ tr v, Run (stepVerifier gcm) (Assumed gcm skew) (.new auth) tr v ∧
      (acceptances gcm tr).map (·.nonce) = [nonce, nonce] := by
  have hrun : ∃ tr v, Run (stepVerifier gcm) (Assumed gcm skew) (.new auth) tr v ∧
      decide ((acceptances gcm tr).map (·.nonce) = [nonce, nonce]) = true :=
    exists_run_of_execute assumed_of_test (presentedTwice 61) (by decide +kernel)
  obtain ⟨tr, v, hrun, hnonces⟩ := hrun
  exact ⟨tr, v, hrun, of_decide_eq_true hnonces⟩

end CyodaGo.Dispatch
