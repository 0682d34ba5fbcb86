import CyodaGo.Verification.Oidc.Node

/-! # Concurrent registrations of one URI

Any number of `Register` calls for one tenant and URI, over a store that does not fail.
`orphan` is the index entry that the run starts with, if there is one. -/

namespace CyodaGo.Oidc

/-- The provider that a call is about. -/
def Call.providerID : Call → Option String
  | .register _ id _ | .invalidate _ id _ | .delete _ id _ => some id
  | .update input => some input.providerID
  | .reactivate input => some input.providerID
  | .reloadAll | .reloadOne _ | .resolveKey .. => none

section Registration

variable (t : TenantID) (uri : String) (orphan : Option String)

def Node.indexed (n : Node) : Option String := n.kv.index.get (t, uri)

/-! ## What the calls do to each other -/

/-- What the other calls do, seen by the call that registers `id`: an index entry that a call
has written stays, and so does its provider. -/
structure Spares (id : String) (x y : Node) : Prop where
  claim : ∀ i, orphan ≠ some i → x.indexed t uri = some i → y.indexed t uri = some i
  settled : ∀ i p, orphan ≠ some i → x.indexed t uri = some i → x.kv.blobs.get (t, i) = some p →
    y.kv.blobs.get (t, i) = some p
  unindexed : y.indexed t uri = some id → x.indexed t uri = some id
  own : y.kv.blobs.get (t, id) = x.kv.blobs.get (t, id)
  orphaned : ∀ i, orphan = some i → y.kv.blobs.get (t, i) = x.kv.blobs.get (t, i)

/-- What the call that registers `id` does. -/
structure Writes (id : String) (x y : Node) : Prop where
  claim : ∀ i, orphan ≠ some i → x.indexed t uri = some i → y.indexed t uri = some i
  settled : ∀ i p, orphan ≠ some i → x.indexed t uri = some i → x.kv.blobs.get (t, i) = some p →
    y.kv.blobs.get (t, i) = some p
  index : ∀ i, i ≠ id → y.indexed t uri = some i → x.indexed t uri = some i
  blob : ∀ i, i ≠ id → y.kv.blobs.get (t, i) = x.kv.blobs.get (t, i)

variable {t uri orphan} {id : String} {x y z : Node}

theorem Spares.refl : Spares t uri orphan id x x :=
  ⟨fun _ _ h => h, fun _ _ _ _ h => h, fun h => h, rfl, fun _ _ => rfl⟩

theorem Spares.trans (h : Spares t uri orphan id x y) (h' : Spares t uri orphan id y z) :
    Spares t uri orphan id x z where
  claim i hi hx := h'.claim i hi (h.claim i hi hx)
  settled i p hi hx hp := h'.settled i p hi (h.claim i hi hx) (h.settled i p hi hx hp)
  unindexed hz := h.unindexed (h'.unindexed hz)
  own := h'.own.trans h.own
  orphaned i hi := (h'.orphaned i hi).trans (h.orphaned i hi)

theorem Writes.of_eq (hindex : y.kv.index = x.kv.index) (hblobs : y.kv.blobs = x.kv.blobs) :
    Writes t uri orphan id x y := by
  have hindexed : y.indexed t uri = x.indexed t uri := by rw [Node.indexed, hindex, Node.indexed]
  refine ⟨?_, ?_, ?_, ?_⟩
  · exact fun i _ hx => hindexed.trans hx
  · exact fun i p _ _ hp => hblobs ▸ hp
  · exact fun i _ hy => hindexed.symm.trans hy
  · exact fun i _ => by rw [hblobs]

theorem Writes.spares {id' : String} (h : Writes t uri orphan id x y) (hne : id' ≠ id)
    (horphan : orphan ≠ some id) : Spares t uri orphan id' x y where
  claim := h.claim
  settled := h.settled
  unindexed := h.index id' hne
  own := h.blob id' hne
  orphaned i hi := h.blob i fun heq => horphan (heq ▸ hi)

/-! ## One registration -/

/-- The call has written nothing yet, and the orphan entry names no provider. -/
structure Unclaimed (t : TenantID) (uri : String) (orphan : Option String) (id : String)
    (n : Node) : Prop where
  unindexed : n.indexed t uri ≠ some id
  absent : n.kv.blobs.get (t, id) = none
  orphaned : ∀ i, orphan = some i → n.kv.blobs.get (t, i) = none

/-- The index names a registered provider. -/
def Registered (t : TenantID) (uri : String) (orphan : Option String) (n : Node) : Prop :=
  ∃ i p, orphan ≠ some i ∧ n.indexed t uri = some i ∧ n.kv.blobs.get (t, i) = some p

/-- The index names `p`, which is stored. -/
def Holds (t : TenantID) (uri : String) (p : OidcProvider) (n : Node) : Prop :=
  n.indexed t uri = some p.id ∧ n.kv.blobs.get (t, p.id) = some p

theorem Unclaimed.spares (h : Unclaimed t uri orphan id x) (hxy : Spares t uri orphan id x y) :
    Unclaimed t uri orphan id y where
  unindexed hy := h.unindexed (hxy.unindexed hy)
  absent := hxy.own.trans h.absent
  orphaned i hi := (hxy.orphaned i hi).trans (h.orphaned i hi)

theorem Registered.spares (h : Registered t uri orphan x) (hxy : Spares t uri orphan id x y) :
    Registered t uri orphan y := by
  obtain ⟨i, p, hi, hx, hp⟩ := h
  exact ⟨i, p, hi, hxy.claim i hi hx, hxy.settled i p hi hx hp⟩

variable {p : OidcProvider} {input : RegisterInput} {now : Int} {n : Node} {c : ℕ}
  {e : Option (Exchange Question Answer)}

theorem Holds.spares (horphan : orphan ≠ some p.id) (h : Holds t uri p x)
    (hxy : Spares t uri orphan id x y) : Holds t uri p y :=
  ⟨hxy.claim p.id horphan h.1, hxy.settled p.id p horphan h.1 h.2⟩

/-- How a `Register` call may return. -/
inductive Settled (t : TenantID) (uri : String) (orphan : Option String) (p : OidcProvider) :
    Outcome → Node → Prop where
  | won {n : Node} : Holds t uri p n → Settled t uri orphan p (.provider (.ok p)) n
  | lost {n : Node} : Unclaimed t uri orphan p.id n → Registered t uri orphan n →
      Settled t uri orphan p (.provider (.error .providerDuplicate)) n

theorem Settled.spares {a : Outcome} (horphan : orphan ≠ some p.id) (h : Settled t uri orphan p a x)
    (hxy : Spares t uri orphan p.id x y) :
    Settled t uri orphan p a y := by
  cases h with
  | won h => exact .won (h.spares horphan hxy)
  | lost h h' => exact .lost (h.spares hxy) (h'.spares hxy)

/-- The condition on the steps: the index is written only where it has no entry, and only an
entry left over from before the run is deleted. -/
def Exclusive (t : TenantID) (uri : String) (orphan : Option String) (n : Node) : Question → Prop
  | .kvPut (.uriIndex t' uri') _ => t' = t → uri' = uri → n.indexed t uri = none
  | .kvDelete (.uriIndex t' uri') => t' = t → uri' = uri → ∀ i ∈ n.indexed t uri, orphan = some i
  | _ => True

/-- The surroundings of the call that registers `id`. -/
def registering (t : TenantID) (uri : String) (orphan : Option String) (id : String) :
    Surroundings Question Answer Node where
  interference := Spares t uri orphan id
  exchange n q a n' :=
    (∃ x : Outside, x.fault = none ∧ n.serve x q = some (a, n')) ∧ Exclusive t uri orphan n q

theorem registering_honest : Honest (registering t uri orphan id) := fun _ _ _ _ h => h.1

variable {s : Node}

theorem getByURI_ensures (h : Unclaimed t uri orphan id s) :
    (Store.getByURI t uri).Ensures (registering t uri orphan id) (Writes t uri orphan id)
      (fun res n => Unclaimed t uri orphan id n ∧ ∀ p, res = .ok p → Registered t uri orphan n)
      s := by
  refine Program.ensures_bind (ensures_kvGet registering_honest fun n hn _ => ?_)
  have hu := h.spares hn
  refine ⟨.of_eq rfl rfl, ?_⟩
  rw [KV.answer, KV.get]
  cases hindex : n.kv.index.get (t, uri) with
  | none => exact ⟨hu, by simp⟩
  | some i =>
    refine Program.ensures_bind (getProvider_ensures registering_honest fun m hm _ => ?_)
    have hu' := hu.spares hm
    refine ⟨.of_eq rfl rfl, ?_, ?_⟩
    · intro p hp
      obtain ⟨hget, -⟩ := Option.filter_eq_some_iff.mp hp
      have hi : orphan ≠ some i := fun hi => by simp [hu'.orphaned i hi] at hget
      exact ⟨hu', fun _ _ => ⟨i, p, hi, hm.claim i hi hindex, hget⟩⟩
    · intro _
      refine Program.ensures_bind (ensures_kvDelete registering_honest fun k hk hex => ?_)
      have hu'' := hu'.spares hk
      have hgone : ∀ i, k.indexed t uri = some i → orphan = some i := hex.2 rfl rfl
      have hnone : Node.indexed t uri { k with kv := k.kv.delete (.uriIndex t uri) } = none := by
        simp [Node.indexed]
      refine ⟨⟨?_, ?_, ?_, ?_⟩, ⟨?_, hu''.absent, hu''.orphaned⟩, by simp⟩
      · exact fun i hi hx => absurd (hgone i hx) hi
      · exact fun i p hi hx _ => absurd (hgone i hx) hi
      · exact fun i _ hy => by rw [hnone] at hy; cases hy
      · exact fun i _ => rfl
      · simp [hnone]

theorem registerProvider_ensures (howner : p.ownerLegalEntityID = t)
    (huri : p.wellKnownConfigURI = uri) (horphan : orphan ≠ some p.id)
    (h : Unclaimed t uri orphan p.id s) :
    (Store.registerProvider p).Ensures (registering t uri orphan p.id) (Writes t uri orphan p.id)
      (fun res n => res = .ok () ∧ Holds t uri p n) s := by
  subst howner huri
  refine Program.ensures_bind (ensures_kvPut registering_honest fun n hn hex => ?_)
  have hu := h.spares hn
  have hfree := hex.2 rfl rfl
  generalize hm : ({ n with kv := n.kv.put (.uriIndex p.ownerLegalEntityID p.wellKnownConfigURI) p.id } :
    Node) = m
  have hindexed : m.indexed p.ownerLegalEntityID p.wellKnownConfigURI = some p.id := by
    simp [← hm, Node.indexed]
  have hblobs : m.kv.blobs = n.kv.blobs := by rw [← hm]; rfl
  refine ⟨⟨?_, ?_, ?_, ?_⟩, ?_⟩
  · exact fun i _ hx => by rw [hfree] at hx; cases hx
  · exact fun i q _ hx _ => by rw [hfree] at hx; cases hx
  · exact fun i hne hy => absurd (Option.some.inj (hy.symm.trans hindexed)) hne
  · exact fun i _ => by rw [hblobs]
  refine Program.ensures_bind (ensures_kvPut registering_honest fun k hk _ => ?_)
  have hclaimed := hk.claim p.id horphan hindexed
  have habsent : k.kv.blobs.get (p.ownerLegalEntityID, p.id) = none := by
    rw [hk.own, hblobs]
    exact hu.absent
  refine ⟨⟨?_, ?_, ?_, ?_⟩, rfl, hclaimed, ?_⟩
  · exact fun i _ hx => hx
  · intro i q _ _ hq
    have hne : i ≠ p.id := fun heq => by rw [heq, habsent] at hq; cases hq
    rw [blobs_put_blob, GoMap.get_set_of_ne _ _ (by simpa using hne)]
    exact hq
  · exact fun i _ hy => hy
  · exact fun i hne => by rw [blobs_put_blob, GoMap.get_set_of_ne _ _ (by simpa using hne)]
  · simp

theorem raceValidateIndex_ensures (horphan : orphan ≠ some p.id) (h : Holds t uri p s) :
    (Store.raceValidateIndex t uri p.id).Ensures (registering t uri orphan p.id)
      (Writes t uri orphan p.id) (fun res n => res = .ok (p.id, true) ∧ Holds t uri p n) s := by
  refine Program.ensures_bind (ensures_kvGet registering_honest fun n hn _ => ?_)
  have hholds := h.spares horphan hn
  have hindex : n.kv.index.get (t, uri) = some p.id := hholds.1
  refine ⟨.of_eq rfl rfl, ?_⟩
  rw [KV.answer, KV.get, hindex]
  exact ⟨by simp, hholds⟩

theorem Holds.ensures_within {α : Type} (h : Holds t uri p s) (horphan : orphan ≠ some p.id)
    (code : Code α) (hcode : code.Within Question.SparesStore) :
    code.Ensures (registering t uri orphan p.id) (Writes t uri orphan p.id)
      (fun _ n => Holds t uri p n) s := by
  refine hcode.ensures (fun x y hxy hx => hx.spares horphan hxy) ?_ h
  intro x q a y hq hx hex
  obtain ⟨⟨e, he, hserve⟩, -⟩ := hex
  obtain ⟨hblobs, hindex⟩ := serve_sparesStore hq he hserve
  refine ⟨.of_eq hindex hblobs, ?_, ?_⟩
  · rw [Node.indexed, hindex]
    exact hx.1
  · rw [hblobs]
    exact hx.2

/-- Under the condition a `Register` call wins and holds the URI, or loses against a
registered provider and leaves nothing behind. -/
theorem register_ensures (htenant : input.tenantID = t) (howner : input.ownerLegalEntityID = t)
    (huri : input.wellKnownConfigURI = uri) (horphan : orphan ≠ some id)
    (h : Unclaimed t uri orphan id s) :
    (Call.register input id now).body.Ensures (registering t uri orphan id)
      (Writes t uri orphan id) (Settled t uri orphan (input.provider id now)) s := by
  subst htenant huri
  refine Program.ensures_map (Program.ensures_bind ((getByURI_ensures h).mono ?_))
  rintro (err | existing) n ⟨hu, hreg⟩
  · refine Program.ensures_bind
      ((registerProvider_ensures (p := input.provider id now) howner rfl horphan hu).mono ?_)
    rintro _ m ⟨rfl, hholds⟩
    refine Program.ensures_bind
      ((raceValidateIndex_ensures (p := input.provider id now) horphan hholds).mono ?_)
    rintro _ m ⟨rfl, hholds⟩
    have hhistory := hholds.ensures_within horphan _
      ((updateHistory_within (input.provider id now) input.tenantID).mono fun _ h => h.sparesStore)
    refine Program.ensures_bind (hhistory.mono fun _ m hm => ?_)
    have hadd := hm.ensures_within horphan (ask (.addToProviderMap (input.provider id now)))
      ⟨trivial, fun _ => trivial⟩
    refine Program.ensures_bind (hadd.mono fun _ m hm => ?_)
    have hreload := hm.ensures_within horphan _
      ((reloadOneInternal_within ⟨input.tenantID, input.wellKnownConfigURI⟩ true).mono
        fun _ h => h.sparesStore)
    exact Program.ensures_bind (hreload.mono fun _ m hm => .won hm)
  · exact .lost hu (hreg existing rfl)

/-! ## All registrations -/

/-- `Register` for the tenant and the URI, as the adapter calls it. -/
structure Registers (t : TenantID) (uri : String) (input : RegisterInput) : Prop where
  tenant : input.tenantID = t
  owner : input.ownerLegalEntityID = t
  uri : input.wellKnownConfigURI = uri

def contract (t : TenantID) (uri : String) (orphan : Option String) :
    Threads.Contract Node Call Question Answer Outcome where
  rely r x y := ∀ id, r.providerID = some id → Spares t uri orphan id x y
  exchange _ n q a n' :=
    (∃ x : Outside, x.fault = none ∧ n.serve x q = some (a, n')) ∧ Exclusive t uri orphan n q
  kept r x y := ∀ id, r.providerID = some id → Writes t uri orphan id x y
  post r a n := ∀ input id now, r = .register input id now →
    Settled t uri orphan (input.provider id now) a n
  rely_trans _ _ _ _ hxy hyz id hid := (hxy id hid).trans (hyz id hid)

theorem contract_register (hin : Registers t uri input) (horphan : orphan ≠ some id)
    (h : Unclaimed t uri orphan id s) :
    (contract t uri orphan).Holds (.register input id now) (Call.register input id now).body s := by
  refine (register_ensures hin.tenant hin.owner hin.uri horphan h).weaken ?_ ?_ ?_ ?_
  · exact fun x y hxy => hxy id rfl
  · exact fun x q r y hex => hex
  · rintro x y hxy _ ⟨⟩
    exact hxy
  · rintro a n hsettled _ _ _ ⟨⟩
    exact hsettled

/-- No provider of the tenant has the URI, and an index entry for it names no provider. -/
structure Unregistered (t : TenantID) (uri : String) (n : Node) : Prop where
  absent : ∀ id p, n.kv.blobs.get (t, id) = some p → p.wellKnownConfigURI ≠ uri
  orphaned : ∀ i, n.indexed t uri = some i → n.kv.blobs.get (t, i) = none

/-- A new UUID is in use nowhere. -/
structure FreshID (t : TenantID) (uri : String) (start : Node) (s : System) (id : String) :
    Prop where
  uncalled : ∀ c ∈ s.calls.keys, ∀ th ∈ s.calls.get c, th.role.providerID ≠ some id
  absent : s.shared.kv.blobs.get (t, id) = none
  unindexed : s.shared.indexed t uri ≠ some id
  orphan : start.indexed t uri ≠ some id

/-- The runs of `Register` calls for the tenant and the URI, without store errors. -/
def Registrations (t : TenantID) (uri : String) (start : Node)
    (_ : List (Event System (Move Call Outside) (Option (Exchange Question Answer))))
    (s : System) : Move Call Outside → Prop
  | .start _ (.register input id _) => Registers t uri input ∧ FreshID t uri start s id
  | .start .. => False
  | .advance _ x => x.fault = none

/-- The question that the step answers meets the condition. -/
def InTurn (t : TenantID) (uri : String) (start : Node) (s : System) : Move Call Outside → Prop
  | .start .. => True
  | .advance c _ => ∀ q ∈ s.asked c, Exclusive t uri (start.indexed t uri) s.shared q

structure Orderly (t : TenantID) (uri : String) (orphan : Option String) (s : System) : Prop where
  meets : s.Meets (contract t uri orphan)
  settled : ∀ c r a, s.Returned c r a → (contract t uri orphan).post r a s.shared
  roles : ∀ c th, s.calls.get c = some th → ∃ input id now, th.role = .register input id now ∧
    Registers t uri input ∧ orphan ≠ some id
  distinct : ∀ c c' th th', s.calls.get c = some th → s.calls.get c' = some th' →
    th.role.providerID = th'.role.providerID → c = c'
  indexed : ∀ i, orphan ≠ some i → s.shared.indexed t uri = some i →
    ∃ c th, s.calls.get c = some th ∧ th.role.providerID = some i
  stored : ∀ i p, s.shared.kv.blobs.get (t, i) = some p → p.wellKnownConfigURI = uri →
    ∃ c th, s.calls.get c = some th ∧ th.role.providerID = some i
  orphaned : ∀ i, orphan = some i → s.shared.kv.blobs.get (t, i) = none

theorem Orderly.init (hn : Unregistered t uri n) :
    Orderly t uri (n.indexed t uri) (⟨n, ∅⟩ : System) where
  meets c r q next h := by simp at h
  settled c r a h := by simp [Threads.Returned] at h
  roles c th h := by simp at h
  distinct c c' th th' h := by simp at h
  indexed i hi hindexed := absurd hindexed hi
  stored i p hp huri := absurd huri (hn.absent i p hp)
  orphaned := hn.orphaned

theorem Orderly.start {s s' : System} (h : Orderly t uri (n.indexed t uri) s)
    (hin : Registers t uri input) (hfresh : FreshID t uri n s id)
    (hstep : s.step (.start c (.register input id now)) = some (e, s')) :
    Orderly t uri (n.indexed t uri) s' := by
  have hmeets := h.meets.start (contract_register hin hfresh.orphan
    ⟨hfresh.unindexed, hfresh.absent, h.orphaned⟩) hstep
  obtain ⟨hfree, rfl⟩ := Threads.start_cases hstep
  have hget := fun c' => s.calls.get_set c c' ⟨.register input id now, (Call.register input id now).body⟩
  refine ⟨hmeets, ?_, ?_, ?_, ?_, ?_, h.orphaned⟩
  · intro c' r a hreturned
    rw [Threads.Returned, hget] at hreturned
    split at hreturned
    · cases hreturned
    · exact h.settled c' r a hreturned
  · intro c' th hth
    rw [hget] at hth
    split at hth
    · cases hth
      exact ⟨input, id, now, rfl, hin, hfresh.orphan⟩
    · exact h.roles c' th hth
  · intro c1 c2 th1 th2 h1 h2 heq
    rw [hget] at h1 h2
    split at h1
    · next hc1 =>
      split at h2
      · next hc2 => exact hc1.trans hc2.symm
      cases h1
      exact absurd heq.symm (hfresh.uncalled c2 (GoMap.mem_keys_of_get h2) th2 h2)
    · split at h2
      · cases h2
        exact absurd heq (hfresh.uncalled c1 (GoMap.mem_keys_of_get h1) th1 h1)
      · exact h.distinct c1 c2 th1 th2 h1 h2 heq
  · intro i hi hindexed
    obtain ⟨c', th, hth, hrole⟩ := h.indexed i hi hindexed
    exact ⟨c', th, by rw [hget, if_neg (fun heq => by simp [heq, hfree] at hth)]; exact hth, hrole⟩
  · intro i p hp huri
    obtain ⟨c', th, hth, hrole⟩ := h.stored i p hp huri
    exact ⟨c', th, by rw [hget, if_neg (fun heq => by simp [heq, hfree] at hth)]; exact hth, hrole⟩

theorem Orderly.advance {s s' : System} {x : Outside} (h : Orderly t uri (n.indexed t uri) s)
    (hx : x.fault = none) (hturn : InTurn t uri n s (.advance c x))
    (hstep : s.step (.advance c x) = some (e, s')) :
    Orderly t uri (n.indexed t uri) s' := by
  obtain ⟨r, q, next, a, hadv, -⟩ := Threads.advance_cases hstep
  obtain ⟨input, id, now, rfl, hin, horphan⟩ := h.roles c _ hadv.asked
  have hothers : (contract t uri (n.indexed t uri)).kept (.register input id now) s.shared s'.shared →
      ∀ c' th, c' ≠ c → s.calls.get c' = some th →
        (contract t uri (n.indexed t uri)).rely th.role s.shared s'.shared := by
    intro hkept c' th hne hth id' hid'
    refine (hkept id rfl).spares (fun heq => hne ?_) horphan
    exact h.distinct c' c th _ hth hadv.asked (by rw [hid', heq]; rfl)
  obtain ⟨hkept, hnext, hmeets⟩ := h.meets.advance hadv (fun _ _ => .refl)
    ⟨⟨x, hx, hadv.served⟩, hturn q hadv.asked_eq⟩
    fun hkept c' r' hne ⟨q', next', hget⟩ => hothers hkept c' _ hne hget
  have hwrites : Writes t uri (n.indexed t uri) id s.shared s'.shared := hkept id rfl
  have hget := fun c' => s.calls.get_set c c' ⟨.register input id now, next a⟩
  have hmem : ∀ i, (∃ c th, s.calls.get c = some th ∧ th.role.providerID = some i) →
      ∃ c th, s'.calls.get c = some th ∧ th.role.providerID = some i := by
    rintro i ⟨c', th, hth, hrole⟩
    by_cases hc : c' = c
    · subst hc
      cases hadv.asked.symm.trans hth
      exact ⟨c', ⟨_, next a⟩, by rw [hadv.goesOn, hget, if_pos rfl], hrole⟩
    · exact ⟨c', th, by rw [hadv.goesOn, hget, if_neg hc]; exact hth, hrole⟩
  have hself := hmem id ⟨c, _, hadv.asked, rfl⟩
  refine ⟨hmeets, ?_, ?_, ?_, ?_, ?_, ?_⟩
  · intro c' r' a' hreturned
    rw [Threads.Returned, hadv.goesOn, hget] at hreturned
    split at hreturned
    · obtain ⟨rfl, hdone⟩ := Thread.mk.inj (Option.some.inj hreturned)
      rw [hdone] at hnext
      exact hnext
    · next hne =>
      obtain ⟨input', id', now', hrole, -, horphan'⟩ := h.roles c' _ hreturned
      obtain rfl : r' = _ := hrole
      rintro _ _ _ ⟨⟩
      have hsettled := h.settled c' _ a' hreturned _ _ _ rfl
      exact hsettled.spares horphan' (hothers hkept c' _ hne hreturned id' rfl)
  · intro c' th hth
    rw [hadv.goesOn, hget] at hth
    split at hth
    · cases hth
      exact ⟨input, id, now, rfl, hin, horphan⟩
    · exact h.roles c' th hth
  · intro c1 c2 th1 th2 h1 h2 heq
    rw [hadv.goesOn, hget] at h1 h2
    split at h1
    · next hc1 =>
      split at h2
      · next hc2 => exact hc1.trans hc2.symm
      cases h1
      exact hc1.trans (h.distinct c c2 _ th2 hadv.asked h2 heq)
    · split at h2
      · next hc2 =>
        cases h2
        exact (h.distinct c1 c th1 _ h1 hadv.asked heq).trans hc2.symm
      · exact h.distinct c1 c2 th1 th2 h1 h2 heq
  · intro i hi hindexed
    by_cases hid : i = id
    · exact hid ▸ hself
    · exact hmem i (h.indexed i hi (hwrites.index i hid hindexed))
  · intro i p hp huri
    by_cases hid : i = id
    · exact hid ▸ hself
    rw [hwrites.blob i hid] at hp
    exact hmem i (h.stored i p hp huri)
  · intro i hi
    rw [hwrites.blob i (fun heq => horphan (heq ▸ hi))]
    exact h.orphaned i hi

theorem orderly_of_run {s : System}
    {tr : List (Event System (Move Call Outside) (Option (Exchange Question Answer)))}
    (hn : Unregistered t uri n)
    (hrun : Run System.step (fun tr s m => Registrations t uri n tr s m ∧ InTurn t uri n s m)
      ⟨n, ∅⟩ tr s) : Orderly t uri (n.indexed t uri) s := by
  refine hrun.inv (I := fun _ s => Orderly t uri (n.indexed t uri) s) (.init hn) ?_
  rintro tr s (⟨c, r⟩ | ⟨c, x⟩) e s' h ⟨hruns, hturn⟩ hstep
  · cases r with
    | register input id now => exact h.start hruns.1 hruns.2 hstep
    | _ => exact hruns.elim
  · exact h.advance hruns hturn hstep

theorem Orderly.settled_of_returned {s : System} {th : Thread Call Question Answer Outcome}
    (h : Orderly t uri orphan s) (hreturned : ∀ c r, ¬ s.Running c r)
    (hth : s.calls.get c = some th) :
    ∃ p a, th.role.providerID = some p.id ∧ s.Returned c th.role a ∧
      Settled t uri orphan p a s.shared := by
  obtain ⟨r, program⟩ := th
  obtain ⟨input, id, now, rfl, -⟩ := h.roles c _ hth
  cases program with
  | done a => exact ⟨input.provider id now, a, rfl, hth, h.settled c _ a hth _ _ _ rfl⟩
  | ask q next => exact absurd ⟨q, next, hth⟩ (hreturned c _)

/-- When all calls have returned, one of them holds the URI. -/
theorem Orderly.exists_winner {s : System} (h : Orderly t uri orphan s)
    (hcalled : ∃ c th, s.calls.get c = some th) (hreturned : ∀ c r, ¬ s.Running c r) :
    ∃ c r p, r.providerID = some p.id ∧ s.Returned c r (.provider (.ok p)) ∧
      Holds t uri p s.shared := by
  obtain ⟨c, th, hth⟩ := hcalled
  obtain ⟨p, a, hid, hdone, hsettled⟩ := h.settled_of_returned hreturned hth
  cases hsettled with
  | won hholds => exact ⟨c, th.role, p, hid, hdone, hholds⟩
  | lost _ hregistered =>
    -- the provider in whose favour the call lost belongs to a call that has returned too
    obtain ⟨i, -, horphan, hindexed, -⟩ := hregistered
    obtain ⟨c', th', hth', hid'⟩ := h.indexed i horphan hindexed
    obtain ⟨p', a', hid'', hdone', hsettled'⟩ := h.settled_of_returned hreturned hth'
    obtain rfl : i = p'.id := Option.some.inj (hid'.symm.trans hid'')
    cases hsettled' with
    | won hholds => exact ⟨c', th'.role, p', hid'', hdone', hholds⟩
    | lost hunclaimed _ => exact absurd hindexed hunclaimed.unindexed

theorem Orderly.duplicate {s : System} {c' : ℕ} {r r' : Call} {a : Outcome}
    (h : Orderly t uri orphan s) (hid : r.providerID = some p.id)
    (hwon : s.Returned c r (.provider (.ok p))) (hne : c' ≠ c) (ha : s.Returned c' r' a) :
    a = .provider (.error .providerDuplicate) := by
  obtain ⟨input, id, now, hr, -⟩ := h.roles c _ hwon
  obtain ⟨input', id', now', hr', -⟩ := h.roles c' _ ha
  obtain rfl : r = .register input id now := hr
  obtain rfl : r' = .register input' id' now' := hr'
  have hsettled := h.settled c _ _ hwon input id now rfl
  cases h.settled c' _ a ha input' id' now' rfl with
  | lost => rfl
  | won hholds' =>
    generalize hp : input.provider id now = p' at hsettled
    cases hsettled with
    | won hholds =>
      have heq : p.id = id' := Option.some.inj (hholds.1.symm.trans hholds'.1)
      exact absurd (h.distinct c' c _ _ ha hwon (by rw [hid, heq]; rfl)) hne

/-- In every run of `Register` calls for one tenant and a URI that is not registered, whose
steps all meet the condition, when all calls have returned exactly one has succeeded, its
provider is the one that the store holds for the URI and that the index names, and every
other call, also one that starts afterwards, reports a duplicate. -/
theorem register_one_winner {n : Node} {s : System}
    {tr : List (Event System (Move Call Outside) (Option (Exchange Question Answer)))}
    (hn : Unregistered t uri n)
    (hrun : Run System.step (fun tr s m => Registrations t uri n tr s m ∧ InTurn t uri n s m)
      ⟨n, ∅⟩ tr s)
    (hcalled : ∃ c th, s.calls.get c = some th) (hreturned : ∀ c r, ¬ s.Running c r) :
    ∃ c r p, s.Returned c r (.provider (.ok p)) ∧ Holds t uri p s.shared ∧
      (∀ i q, s.shared.kv.blobs.get (t, i) = some q → q.wellKnownConfigURI = uri → q = p) ∧
      ∀ newer s', Run System.step
          (fun tr s m => Registrations t uri n tr s m ∧ InTurn t uri n s m) ⟨n, ∅⟩ (newer ++ tr) s' →
        ∀ c' r' a, c' ≠ c → s'.Returned c' r' a → a = .provider (.error .providerDuplicate) := by
  have h := orderly_of_run hn hrun
  obtain ⟨c, r, p, hid, hwon, hholds⟩ := h.exists_winner hcalled hreturned
  refine ⟨c, r, p, hwon, hholds, ?_, ?_⟩
  · intro i q hq huri
    obtain ⟨c', th, hth, hid'⟩ := h.stored i q hq huri
    obtain ⟨p', a, hid'', -, hsettled⟩ := h.settled_of_returned hreturned hth
    obtain rfl : i = p'.id := Option.some.inj (hid'.symm.trans hid'')
    cases hsettled with
    | won hholds' =>
      have heq : p.id = p'.id := Option.some.inj (hholds.1.symm.trans hholds'.1)
      have hp : s.shared.kv.blobs.get (t, p'.id) = some p := heq ▸ hholds.2
      exact Option.some.inj (hq.symm.trans hp)
    | lost hunclaimed _ => exact nomatch hq.symm.trans hunclaimed.absent
  · intro newer s' hrun' c' r' a hne ha
    have hwon' : s'.Returned c r (.provider (.ok p)) :=
      hrun.stable_of_append (P := fun s => s.Returned c r (.provider (.ok p)))
        (fun _ _ _ _ h hstep => h.step hstep) hwon hrun'
    exact (orderly_of_run hn hrun').duplicate hid hwon' hne ha

end Registration

/-! ## Runs that can be executed -/

section Executable

variable (t : TenantID) (uri : String)

instance (orphan : Option String) (n : Node) : DecidablePred (Exclusive t uri orphan n)
  | .kvPut (.uriIndex t' uri') _ =>
    inferInstanceAs (Decidable (t' = t → uri' = uri → n.indexed t uri = none))
  | .kvDelete (.uriIndex t' uri') =>
    inferInstanceAs (Decidable (t' = t → uri' = uri → ∀ i ∈ n.indexed t uri, orphan = some i))
  | .kvPut (.providerBlob ..) _ | .kvPut (.history _) _ => isTrue trivial
  | .kvDelete (.providerBlob ..) | .kvDelete (.history _) => isTrue trivial
  | .kvGet _ | .kvList | .fetch _ | .addToProviderMap _ | .lookupProvider _ => isTrue trivial
  | .dropSource _ | .installSource .. | .invalidateOne _ | .loadMapGen => isTrue trivial
  | .swap .. | .lockReconcile | .unlockReconcile | .reconcileStale => isTrue trivial
  | .hotPath .. | .coldPath .. | .evictKidEntry .. => isTrue trivial

instance (input : RegisterInput) : Decidable (Registers t uri input) :=
  decidable_of_iff (input.tenantID = t ∧ input.ownerLegalEntityID = t ∧
    input.wellKnownConfigURI = uri) ⟨fun h => ⟨h.1, h.2.1, h.2.2⟩, fun h => ⟨h.1, h.2, h.3⟩⟩

instance (start : Node) (s : System) (id : String) : Decidable (FreshID t uri start s id) :=
  decidable_of_iff ((∀ c ∈ s.calls.keys, ∀ th ∈ s.calls.get c, th.role.providerID ≠ some id) ∧
      s.shared.kv.blobs.get (t, id) = none ∧ s.shared.indexed t uri ≠ some id ∧
      start.indexed t uri ≠ some id)
    ⟨fun h => ⟨h.1, h.2.1, h.2.2.1, h.2.2.2⟩, fun h => ⟨h.1, h.2, h.3, h.4⟩⟩

instance (start : Node)
    (tr : List (Event System (Move Call Outside) (Option (Exchange Question Answer))))
    (s : System) : DecidablePred (Registrations t uri start tr s)
  | .start _ (.register input id _) =>
    inferInstanceAs (Decidable (Registers t uri input ∧ FreshID t uri start s id))
  | .start _ (.update _) | .start _ (.invalidate ..) | .start _ (.reactivate _) => isFalse id
  | .start _ (.delete ..) | .start _ .reloadAll | .start _ (.reloadOne _) => isFalse id
  | .start _ (.resolveKey ..) => isFalse id
  | .advance _ x => inferInstanceAs (Decidable (x.fault = none))

instance (start : Node) (s : System) : DecidablePred (InTurn t uri start s)
  | .start .. => isTrue trivial
  | .advance c _ => inferInstanceAs
    (Decidable (∀ q ∈ s.asked c, Exclusive t uri (start.indexed t uri) s.shared q))

end Executable

namespace Sample

/-- No store error, and the provider's endpoint cannot be reached. -/
def offline : Outside := ⟨none, [], none, 0, false, false, fun _ _ => .error .transient⟩

def registration (issuer : String) : RegisterInput := ⟨"t", "u", [issuer], [], none, "t"⟩

def registers (c : ℕ) (id : String) : Move Call Outside :=
  .start c (.register (registration "i") id 0)

def steps (c n : ℕ) : List (Move Call Outside) := List.replicate n (.advance c offline)

/-- Two calls both find no entry; each writes the index and finds itself there. -/
def race : List (Move Call Outside) :=
  [registers 0 "p", registers 1 "q"] ++ steps 0 1 ++ steps 1 1 ++ steps 0 3 ++ steps 1 3 ++
    steps 0 4 ++ steps 1 4

/-- The second call starts while the first is under way, after its provider is stored. -/
def inTurn : List (Move Call Outside) :=
  [registers 0 "p"] ++ steps 0 3 ++ [registers 1 "q"] ++ steps 1 2 ++ steps 0 5

end Sample

theorem register_one_winner_of_two :
    ∃ (s : System) (c : ℕ) (r : Call) (p : OidcProvider), s.calls.keys.length = 2 ∧
      s.Returned c r (.provider (.ok p)) ∧ Holds "t" "u" p s.shared := by
  have hexecuted : ∃ tr s, Run System.step
      (fun tr s m => Registrations "t" "u" .empty tr s m ∧ InTurn "t" "u" .empty s m)
      ⟨.empty, ∅⟩ tr s ∧ (s.allReturned && decide (s.calls.keys.length = 2)) = true :=
    exists_run_of_execute (fun _ _ _ h => of_decide_eq_true h) Sample.inTurn (by decide +kernel)
  obtain ⟨tr, s, hrun, hcheck⟩ := hexecuted
  obtain ⟨hreturned, hlength⟩ := Bool.and_eq_true_iff.mp hcheck
  have hlength := of_decide_eq_true hlength
  have hcalled : ∃ c th, s.calls.get c = some th := by
    obtain ⟨c, hc⟩ := List.exists_mem_of_length_pos (hlength ▸ Nat.two_pos)
    exact ⟨c, (s.calls.mem_keys c).mp hc⟩
  obtain ⟨c, r, p, hwon, hholds, -⟩ := register_one_winner
    ⟨fun _ _ h => by simp [Node.empty, KV.empty] at h, fun _ h => by simp [Node.indexed, Node.empty, KV.empty] at h⟩
    hrun hcalled fun c r => Threads.not_running_of_allReturned hreturned r
  exact ⟨s, c, r, p, hlength, hwon, hholds⟩

/-- Both calls succeed, each with a provider of its own. -/
theorem register_two_winners :
    ∃ tr s, Run System.step (Registrations "t" "u" .empty) ⟨.empty, ∅⟩ tr s ∧
      (∀ c r, ¬ s.Running c r) ∧
      (∃ r, s.Returned 0 r (.provider (.ok ((Sample.registration "i").provider "p" 0)))) ∧
      ∃ r, s.Returned 1 r (.provider (.ok ((Sample.registration "i").provider "q" 0))) := by
  have hexecuted : ∃ tr s, Run System.step (Registrations "t" "u" .empty) ⟨.empty, ∅⟩ tr s ∧
      (s.allReturned &&
        decide (s.result 0 = some (.provider (.ok ((Sample.registration "i").provider "p" 0)))) &&
        decide (s.result 1 = some (.provider (.ok ((Sample.registration "i").provider "q" 0))))) =
          true :=
    exists_run_of_execute (fun _ _ _ h => of_decide_eq_true h) Sample.race (by decide +kernel)
  obtain ⟨tr, s, hrun, hcheck⟩ := hexecuted
  simp only [Bool.and_eq_true, decide_eq_true_eq] at hcheck
  obtain ⟨⟨hreturned, hfirst⟩, hsecond⟩ := hcheck
  exact ⟨tr, s, hrun, fun c r => Threads.not_running_of_allReturned hreturned r,
    Threads.exists_returned_of_result hfirst, Threads.exists_returned_of_result hsecond⟩

end CyodaGo.Oidc
