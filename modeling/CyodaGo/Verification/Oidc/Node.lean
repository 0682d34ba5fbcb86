import CyodaGo.Model.Oidc.Service

/-! # Rules for the store calls of the OIDC provider service

What a store call answers and changes when the store does not fail. -/

namespace CyodaGo.Oidc

/-! ## The store -/

section Kv

variable (kv : KV) (t t' : TenantID) (id id' uri uri' : String) (p : OidcProvider)

@[simp] theorem blobs_put_index : (kv.put (.uriIndex t uri) id).blobs = kv.blobs := rfl

@[simp] theorem index_put_blob : (kv.put (.providerBlob t id) p).index = kv.index := rfl

@[simp] theorem blobs_delete_index : (kv.delete (.uriIndex t uri)).blobs = kv.blobs := rfl

@[simp] theorem index_delete_blob : (kv.delete (.providerBlob t id)).index = kv.index := rfl

@[simp] theorem index_put_index :
    (kv.put (.uriIndex t uri) id).index = kv.index.set (t, uri) id := rfl

@[simp] theorem blobs_put_blob :
    (kv.put (.providerBlob t id) p).blobs = kv.blobs.set (t, id) p := rfl

@[simp] theorem index_delete_index :
    (kv.delete (.uriIndex t uri)).index = kv.index.del (t, uri) := rfl

end Kv

/-- What a lookup answers. -/
def KV.answer (kv : KV) (k : Key) : Except OidcError k.Value :=
  match kv.get k with
  | none => .error .kvNotFound
  | some v => .ok v

/-! ## Store calls -/

variable {α : Type} {w : Surroundings Question Answer Node} {kept : Node → Node → Prop} {s : Node}

/-- Answers come from the node, and its store does not fail. -/
def Honest (w : Surroundings Question Answer Node) : Prop :=
  ∀ n q a n', w.exchange n q a n' → ∃ x : Outside, x.fault = none ∧ n.serve x q = some (a, n')

variable {n n' : Node} {x : Outside} {k : Key} {post : Except OidcError Unit → Node → Prop}

theorem faulty_registry {α : Type} {answer : Except OidcError α × Node} (x : Outside)
    (h : answer.2.registry = n.registry) : (faulty x n answer).2.registry = n.registry := by
  unfold faulty
  split
  · exact h
  · rfl

theorem serve_kvGet {a : Except OidcError k.Value} (hx : x.fault = none)
    (h : n.serve x (.kvGet k) = some (a, n')) :
    a = n.kv.answer k ∧ n' = n := by
  rw [Node.serve, faulty, hx] at h
  rw [KV.answer]
  cases hk : n.kv.get k with
  | none =>
    rw [hk] at h
    cases h
    exact ⟨rfl, rfl⟩
  | some v =>
    rw [hk] at h
    cases h
    exact ⟨rfl, rfl⟩

theorem serve_kvPut {v : k.Value} {a : Except OidcError Unit} (hx : x.fault = none)
    (h : n.serve x (.kvPut k v) = some (a, n')) :
    a = .ok () ∧ n' = { n with kv := n.kv.put k v } := by
  rw [Node.serve, faulty, hx] at h
  cases h
  exact ⟨rfl, rfl⟩

theorem serve_kvDelete {a : Except OidcError Unit} (hx : x.fault = none)
    (h : n.serve x (.kvDelete k) = some (a, n')) :
    a = .ok () ∧ n' = { n with kv := n.kv.delete k } := by
  rw [Node.serve, faulty, hx] at h
  cases h
  exact ⟨rfl, rfl⟩

theorem ensures_kvGet (hw : Honest w) {post : Except OidcError k.Value → Node → Prop}
    (h : ∀ n, w.interference s n → w.exchange n (.kvGet k) (n.kv.answer k) n →
      kept n n ∧ post (n.kv.answer k) n) :
    (ask (.kvGet k)).Ensures w kept post s := by
  intro n hn a n' hex
  obtain ⟨x, hx, hserve⟩ := hw n _ a n' hex
  obtain ⟨rfl, rfl⟩ := serve_kvGet hx hserve
  exact h _ hn hex

theorem ensures_kvPut (hw : Honest w) {v : k.Value}
    (h : ∀ n, w.interference s n →
      w.exchange n (.kvPut k v) (.ok ()) { n with kv := n.kv.put k v } →
      kept n { n with kv := n.kv.put k v } ∧ post (.ok ()) { n with kv := n.kv.put k v }) :
    (ask (.kvPut k v)).Ensures w kept post s := by
  intro n hn a n' hex
  obtain ⟨x, hx, hserve⟩ := hw n _ a n' hex
  obtain ⟨rfl, rfl⟩ := serve_kvPut hx hserve
  exact h n hn hex

theorem ensures_kvDelete (hw : Honest w)
    (h : ∀ n, w.interference s n →
      w.exchange n (.kvDelete k) (.ok ()) { n with kv := n.kv.delete k } →
      kept n { n with kv := n.kv.delete k } ∧ post (.ok ()) { n with kv := n.kv.delete k }) :
    (ask (.kvDelete k)).Ensures w kept post s := by
  intro n hn a n' hex
  obtain ⟨x, hx, hserve⟩ := hw n _ a n' hex
  obtain ⟨rfl, rfl⟩ := serve_kvDelete hx hserve
  exact h n hn hex

/-- The provider that `store.Get` returns. -/
def Node.provider (n : Node) (t : TenantID) (id : String) : Option OidcProvider :=
  (n.kv.blobs.get (t, id)).filter (·.ownerLegalEntityID = t)

theorem getProvider_ensures (hw : Honest w) {t : TenantID} {id : String}
    {post : Except OidcError OidcProvider → Node → Prop}
    (h : ∀ n, w.interference s n →
      w.exchange n (.kvGet (.providerBlob t id)) (n.kv.answer (.providerBlob t id)) n → kept n n ∧
        (∀ p, n.provider t id = some p → post (.ok p) n) ∧
        (n.provider t id = none → post (.error .providerNotFound) n)) :
    (Store.getProvider t id).Ensures w kept post s := by
  refine Program.ensures_bind (ensures_kvGet hw fun n hn hex => ?_)
  obtain ⟨hkept, hfound, hnone⟩ := h n hn hex
  refine ⟨hkept, ?_⟩
  rw [Node.provider] at hfound hnone
  rw [KV.answer, KV.get]
  cases hget : n.kv.blobs.get (t, id) with
  | none =>
    rw [hget] at hnone
    exact hnone rfl
  | some p =>
    rw [hget, Option.filter_some] at hfound hnone
    by_cases howner : p.ownerLegalEntityID = t
    · simp only [howner, decide_true, if_true] at hfound
      simpa [howner, Program.Ensures] using hfound p rfl
    simp only [howner, decide_false, Bool.false_eq_true, if_false] at hnone
    simpa [howner, Program.Ensures] using hnone trivial

/-! ## Code that leaves the providers alone -/

/-- The question changes neither a provider blob nor the URI index. -/
def Question.SparesStore : Question → Prop
  | .kvPut (.history _) _ | .kvDelete (.history _) => True
  | .kvPut .. | .kvDelete _ => False
  | _ => True

theorem serve_sparesStore {q : Question} {a : Answer q} (hq : q.SparesStore) (hx : x.fault = none)
    (h : n.serve x q = some (a, n')) :
    n'.kv.blobs = n.kv.blobs ∧ n'.kv.index = n.kv.index := by
  cases q with
  | kvGet k => exact (serve_kvGet hx h).2 ▸ ⟨rfl, rfl⟩
  | kvPut k v =>
    cases k with
    | history uri => exact (serve_kvPut hx h).2 ▸ ⟨rfl, rfl⟩
    | providerBlob | uriIndex => exact hq.elim
  | kvDelete k =>
    cases k with
    | history uri => exact (serve_kvDelete hx h).2 ▸ ⟨rfl, rfl⟩
    | providerBlob | uriIndex => exact hq.elim
  | kvList =>
    obtain ⟨-, h⟩ := Option.ite_none_right_eq_some.mp h
    rw [faulty, hx] at h
    exact (Prod.mk.inj (Option.some.inj h)).2 ▸ ⟨rfl, rfl⟩
  | lockReconcile =>
    obtain ⟨-, h⟩ := Option.ite_none_left_eq_some.mp h
    exact (Prod.mk.inj (Option.some.inj h)).2 ▸ ⟨rfl, rfl⟩
  | _ => exact (Prod.mk.inj (Option.some.inj h)).2 ▸ ⟨rfl, rfl⟩

/-- Lookups, the ownership history and the key sources. -/
def Question.Harmless : Question → Prop
  | .kvGet _ | .kvPut (.history _) _ | .fetch _ | .lookupProvider _ => True
  | .dropSource _ | .installSource .. => True
  | _ => False

theorem Question.Harmless.sparesStore {q : Question} (h : q.Harmless) : q.SparesStore := by
  cases q with
  | kvPut k v =>
    cases k with
    | history uri => trivial
    | providerBlob | uriIndex => exact h.elim
  | kvDelete k => exact h.elim
  | _ => trivial

theorem getURIHistory_within (uri : String) :
    (Store.getURIHistory uri).Within Question.Harmless := by
  refine Program.within_bind ⟨trivial, fun _ => trivial⟩ fun a => ?_
  cases a with
  | error err => dsimp only; split <;> trivial
  | ok h => trivial

theorem updateHistory_within (p : OidcProvider) (tenant : TenantID) :
    (updateHistory p tenant).Within Question.Harmless := by
  refine Program.within_bind (getURIHistory_within _) fun a => ?_
  cases a with
  | error err => trivial
  | ok history => exact Program.within_bind ⟨trivial, fun _ => trivial⟩ fun _ => trivial

theorem reloadOneInternal_within (ref : ProviderRef) (syncKeys : Bool) :
    (reloadOneInternal ref syncKeys).Within Question.Harmless := by
  refine Program.within_bind ⟨trivial, fun _ => trivial⟩ fun doc => ?_
  cases doc with
  | none => trivial
  | some doc =>
    refine Program.within_bind ⟨trivial, fun _ => trivial⟩ fun prov => ?_
    cases prov with
    | none => trivial
    | some prov =>
      dsimp only
      split
      · exact ⟨trivial, fun _ => trivial⟩
      · exact ⟨trivial, fun _ => trivial⟩

end CyodaGo.Oidc
