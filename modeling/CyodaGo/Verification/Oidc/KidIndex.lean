import CyodaGo.Verification.Oidc.Resolution
import CyodaGo.Verification.Oidc.Node

/-! # The learned kid index

The hot path of `ResolveKey` looks only at the providers that the kid index names; the cold
path looks at all of them. -/

namespace CyodaGo.Oidc

/-! ## Index entries without repetition -/

/-- No index entry names a provider twice. -/
def IndexNodup (index : GoMap String (List ProviderRef)) : Prop := ∀ kid, (index.getD kid []).Nodup

variable {index : GoMap String (List ProviderRef)}

theorem IndexNodup.set {kid : String} {refs : List ProviderRef} (h : IndexNodup index)
    (hrefs : refs.Nodup) :
    IndexNodup (index.set kid refs) := by
  intro kid'
  rw [GoMap.getD_set]
  split
  · exact hrefs
  · exact h kid'

theorem IndexNodup.dropRef (h : IndexNodup index) (kid : String) (ref : ProviderRef) :
    IndexNodup (dropRef index kid ref) := by
  unfold Oidc.dropRef
  dsimp only
  split
  · intro kid'
    rw [GoMap.getD_del]
    split
    · exact List.nodup_nil
    · exact h kid'
  · exact h.set ((h kid).filter _)

theorem IndexNodup.foldl_dropRef (h : IndexNodup index) (kids : List String) (ref : ProviderRef) :
    IndexNodup (kids.foldl (fun index kid => Oidc.dropRef index kid ref) index) := by
  induction kids generalizing index with
  | nil => exact h
  | cons kid kids ih => exact ih (h.dropRef kid ref)

theorem mem_allRefs {r : Registry} {ref : ProviderRef} :
    ref ∈ r.allRefs ↔ ∃ p, r.providers.get ref = some p := by
  rw [Registry.allRefs, List.mem_insertionSort, GoMap.mem_keys]

theorem allRefs_nodup (r : Registry) : r.allRefs.Nodup :=
  (List.perm_insertionSort _ _).nodup_iff.mpr r.providers.keys_nodup

theorem IndexNodup.coldPath {r : Registry} (h : IndexNodup r.kidIndex) (keys : KeyAnswers)
    (kid iss aud : String) : IndexNodup (r.coldPath keys kid iss aud).2.kidIndex := by
  unfold Registry.coldPath
  split
  · exact h
  refine h.set (List.nodup_append.mpr ⟨h kid, ((allRefs_nodup r).filter _).filter _, ?_⟩)
  intro ref hold ref' hnew
  rintro rfl
  simp [hold] at hnew

theorem IndexNodup.serve {n n' : Node} {x : Outside} {q : Question} {a : Answer q}
    (h : IndexNodup n.registry.kidIndex) (hserve : n.serve x q = some (a, n')) :
    IndexNodup n'.registry.kidIndex := by
  have hstore : n'.registry = n.registry → IndexNodup n'.registry.kidIndex := fun heq => heq ▸ h
  have hn' : ∀ {r}, some r = some (a, n') → r.2 = n' := fun h => congrArg Prod.snd (Option.some.inj h)
  cases q with
  | kvGet k =>
    refine hstore ?_
    rw [← hn' hserve]
    exact faulty_registry x (by split <;> rfl)
  | kvPut k v =>
    refine hstore ?_
    rw [← hn' hserve]
    exact faulty_registry x rfl
  | kvDelete k =>
    refine hstore ?_
    rw [← hn' hserve]
    exact faulty_registry x rfl
  | kvList =>
    obtain ⟨-, hanswer⟩ := Option.ite_none_right_eq_some.mp hserve
    refine hstore ?_
    rw [← hn' hanswer]
    exact faulty_registry x rfl
  | lockReconcile =>
    obtain ⟨-, hanswer⟩ := Option.ite_none_left_eq_some.mp hserve
    rw [← hn' hanswer]
    exact h
  | invalidateOne ref =>
    rw [← hn' hserve]
    exact h.foldl_dropRef _ ref
  | swap gen loaded =>
    rw [← hn' hserve]
    change IndexNodup (n.registry.swap gen loaded x.deepEqual).2.kidIndex
    unfold Registry.swap
    dsimp only
    split
    · exact h
    split
    · exact h
    · exact fun _ => List.nodup_nil
  | coldPath kid iss aud =>
    rw [← hn' hserve]
    exact h.coldPath x.keys kid iss aud
  | evictKidEntry kid ref =>
    rw [← hn' hserve]
    exact h.dropRef kid ref
  | _ =>
    rw [← hn' hserve]
    exact h

theorem indexNodup_of_run {allowed : List (Event Node Request Outcome) → Node → Request → Prop}
    {keys : KeyAnswers} {start n : Node} {tr : List (Event Node Request Outcome)}
    (hstart : start.registry = .empty) (hrun : Run (Node.perform keys) allowed start tr n) :
    IndexNodup n.registry.kidIndex := by
  refine hrun.inv (I := fun _ n => IndexNodup n.registry.kidIndex) ?_ ?_
  · rw [hstart]
    exact fun _ => List.nodup_nil
  · intro tr n req a n' h _ hperform
    have hserve : ∀ (n : Node) (q : Question) (a : Answer q) (n' : Node), IndexNodup n.registry.kidIndex →
        n.serve { req.outside with keys := keys } q = some (a, n') → IndexNodup n'.registry.kidIndex :=
      fun _ _ _ _ hn hserve => hn.serve hserve
    exact Program.runWith_inv hserve hperform h

/-! ## Agreement with the walk over all providers -/

section Agreement

variable {r : Registry} {keys : KeyAnswers} {kid iss aud : String}

/-- The condition on the index entry of a kid, when there is one: it names every registered
provider that has the key for this issuer; and where none has it and a named provider rejects
the issuer, it also names one whose key set cannot be read, if there is such a provider. -/
structure Covers (r : Registry) (keys : KeyAnswers) (kid iss : String) : Prop where
  eligible : ∀ ref e, r.verdict keys kid iss ref = .keyEligible e →
    ref ∈ r.kidIndex.getD kid []
  transient : (∀ ref e, r.verdict keys kid iss ref ≠ .keyEligible e) →
    (∃ ref ∈ r.kidIndex.getD kid [], r.verdict keys kid iss ref = .issRejected) →
    (∃ ref, r.verdict keys kid iss ref = .transientErr) →
    ∃ ref ∈ r.kidIndex.getD kid [], r.verdict keys kid iss ref = .transientErr

theorem mem_allRefs_of_verdict {ref : ProviderRef} {v : Verdict}
    (h : r.verdict keys kid iss ref = v) (hv : v ≠ .nothing) : ref ∈ r.allRefs := by
  rw [mem_allRefs, ← Option.isSome_iff_exists, Option.isSome_iff_ne_none]
  exact fun hnone => hv (h.symm.trans (verdict_of_unregistered hnone))

/-- The condition only concerns registered providers. -/
theorem covers_iff : Covers r keys kid iss ↔
    (∀ ref ∈ r.allRefs, (r.verdict keys kid iss ref).entry.isSome →
      ref ∈ r.kidIndex.getD kid []) ∧
    ((∀ ref ∈ r.allRefs, (r.verdict keys kid iss ref).entry = none) →
      (∃ ref ∈ r.kidIndex.getD kid [], r.verdict keys kid iss ref = .issRejected) →
      (∃ ref ∈ r.allRefs, r.verdict keys kid iss ref = .transientErr) →
      ∃ ref ∈ r.kidIndex.getD kid [], r.verdict keys kid iss ref = .transientErr) := by
  have hentry : ∀ ref e, r.verdict keys kid iss ref = .keyEligible e ↔
      (r.verdict keys kid iss ref).entry = some e := fun _ _ => Verdict.entry_eq_some.symm
  constructor
  · rintro ⟨heligible, htransient⟩
    refine ⟨fun ref _ hsome => ?_, fun hnone hrejected ⟨ref, _, hverdict⟩ => ?_⟩
    · obtain ⟨e, he⟩ := Option.isSome_iff_exists.mp hsome
      exact heligible ref e ((hentry ref e).mpr he)
    · refine htransient (fun ref e he => ?_) hrejected ⟨ref, hverdict⟩
      have hmem := hnone ref (mem_allRefs_of_verdict he nofun)
      rw [(hentry ref e).mp he] at hmem
      cases hmem
  · rintro ⟨heligible, htransient⟩
    refine ⟨fun ref e he => ?_, fun hnone hrejected ⟨ref, hverdict⟩ => ?_⟩
    · exact heligible ref (mem_allRefs_of_verdict he nofun) (by rw [(hentry ref e).mp he]; rfl)
    · refine htransient (fun ref _ => ?_) hrejected ⟨ref, mem_allRefs_of_verdict hverdict nofun, hverdict⟩
      cases he : (r.verdict keys kid iss ref).entry with
      | none => rfl
      | some e => exact absurd ((hentry ref e).mpr he) (hnone ref e)

instance : Decidable (Covers r keys kid iss) := decidable_of_iff _ covers_iff.symm

theorem keyEligible_nodup {candidates : List ProviderRef} (h : candidates.Nodup) :
    (r.found keys kid iss candidates).keyEligible.Nodup := by
  refine h.filterMap ?_
  intro ref ref' e he he'
  have hentry := Verdict.entry_eq_some.mp he
  have hentry' := Verdict.entry_eq_some.mp he'
  exact (keyEligible_of_verdict hentry).1.symm.trans (keyEligible_of_verdict hentry').1

theorem keyEligible_perm (hnodup : IndexNodup r.kidIndex) (hcovers : Covers r keys kid iss) :
    (r.found keys kid iss (r.kidIndex.getD kid [])).keyEligible.Perm
      (r.found keys kid iss r.allRefs).keyEligible := by
  refine (List.perm_ext_iff_of_nodup (keyEligible_nodup (hnodup kid))
    (keyEligible_nodup (allRefs_nodup r))).mpr fun e => ?_
  rw [mem_keyEligible, mem_keyEligible]
  constructor
  · rintro ⟨ref, -, he⟩
    exact ⟨ref, mem_allRefs_of_verdict he nofun, he⟩
  · rintro ⟨ref, -, he⟩
    exact ⟨ref, hcovers.eligible ref e he, he⟩

/-- An answer of the hot path that is final is the answer for all providers. -/
theorem hotPath_agrees (hnodup : IndexNodup r.kidIndex) (hcovers : Covers r keys kid iss)
    (hfinal : ∀ err, r.hotPath keys kid iss aud = .error err → err.isUnknownKID = false) :
    r.hotPath keys kid iss aud = r.disposeCandidates keys r.allRefs kid iss aud := by
  have hperm := keyEligible_perm hnodup hcovers
  rw [Registry.hotPath, disposeCandidates_eq] at hfinal ⊢
  rw [disposeCandidates_eq]
  refine disposition_congr aud hperm fun hempty => ?_
  have hempty' : (r.found keys kid iss r.allRefs).keyEligible = [] := (hempty ▸ hperm).nil_eq.symm
  have hnone : ∀ ref e, r.verdict keys kid iss ref ≠ .keyEligible e := by
    intro ref e he
    have hmem := mem_keyEligible.mpr ⟨ref, mem_allRefs_of_verdict he (by simp), he⟩
    rw [hempty'] at hmem
    cases hmem
  rw [Walk.disposition, hempty] at hfinal ⊢
  rw [Walk.disposition, hempty']
  by_cases htransient : ∃ ref ∈ r.kidIndex.getD kid [], r.verdict keys kid iss ref = .transientErr
  · have hall : ∃ ref ∈ r.allRefs, r.verdict keys kid iss ref = .transientErr := by
      obtain ⟨ref, -, hverdict⟩ := htransient
      exact ⟨ref, mem_allRefs_of_verdict hverdict (by simp), hverdict⟩
    simp only [Registry.found, htransient, hall, decide_true, if_true]
  · by_cases hrejected : ∃ ref ∈ r.kidIndex.getD kid [], r.verdict keys kid iss ref = .issRejected
    · have hnot : ¬ ∃ ref ∈ r.allRefs, r.verdict keys kid iss ref = .transientErr := by
        rintro ⟨ref, -, hverdict⟩
        exact htransient (hcovers.transient hnone hrejected ⟨ref, hverdict⟩)
      have hall : ∃ ref ∈ r.allRefs, r.verdict keys kid iss ref = .issRejected := by
        obtain ⟨ref, -, hverdict⟩ := hrejected
        exact ⟨ref, mem_allRefs_of_verdict hverdict (by simp), hverdict⟩
      simp only [Registry.found, htransient, hnot, hrejected, hall, decide_true, decide_false, if_true]
    · simp [Registry.found, htransient, hrejected, ResolveError.isUnknownKID] at hfinal

theorem coldPath_answer (r : Registry) (keys : KeyAnswers) (kid iss aud : String) :
    (r.coldPath keys kid iss aud).1 = r.disposeCandidates keys r.allRefs kid iss aud := by
  unfold Registry.coldPath
  split
  · next heq => exact heq.symm
  · next heq => exact heq.symm

end Agreement

/-- What `ResolveKey` answers when it runs on its own. -/
theorem perform_resolveKey (keys : KeyAnswers) (n : Node) (x : Outside) (kv : KV)
    (kid iss aud : String) (hstale : x.stale = false) :
    ∃ n', n.perform keys ⟨.resolveKey kid iss aud, x, kv⟩ = some (.resolved
      (match n.registry.hotPath keys kid iss aud with
        | .ok res => .ok res
        | .error err =>
          if !err.isUnknownKID then .error err
          else n.registry.disposeCandidates keys n.registry.allRefs kid iss aud), n') := by
  simp only [Node.perform, RegistryCall.code, resolveKey, Functor.map, Program.bind, bind, pure, ask,
    Program.runWith, Node.serve, hstale, Option.bind_some, Bool.false_eq_true, if_false]
  cases n.registry.hotPath keys kid iss aud with
  | ok res => exact ⟨_, rfl⟩
  | error err =>
    cases hunknown : err.isUnknownKID with
    | false =>
      refine ⟨{ n with kv := kv }, ?_⟩
      simp [hunknown, Program.bind, Program.runWith]
    | true =>
      refine ⟨{ n with kv := kv, registry := (n.registry.coldPath keys kid iss aud).2 }, ?_⟩
      simp [hunknown, Program.bind, Program.runWith, Node.serve, coldPath_answer]

/-- In every sequence of registry calls over key sources that answer as a fixed function of the
kid, `ResolveKey` answers as the walk over all registered providers does, whenever the learned
index entry of the kid meets the condition. -/
theorem kidIndex_transparent {keys : KeyAnswers} {start n : Node}
    {tr : List (Event Node Request Outcome)} (hstart : start.registry = .empty)
    (hrun : Run (Node.perform keys) AnyStep start tr n) {kid iss : String}
    (hcovers : n.registry.kidIndex.getD kid [] ≠ [] → Covers n.registry keys kid iss)
    (aud : String) {x : Outside} (hstale : x.stale = false) (kv : KV) :
    ∃ n', n.perform keys ⟨.resolveKey kid iss aud, x, kv⟩ = some
      (.resolved (n.registry.disposeCandidates keys n.registry.allRefs kid iss aud), n') := by
  obtain ⟨n', hperform⟩ := perform_resolveKey keys n x kv kid iss aud hstale
  refine ⟨n', hperform.trans ?_⟩
  congr 3
  by_cases hindex : n.registry.kidIndex.getD kid [] = []
  · rw [Registry.hotPath, hindex]
    rfl
  have hagrees : (∀ err, n.registry.hotPath keys kid iss aud = .error err →
      err.isUnknownKID = false) → _ :=
    hotPath_agrees (indexNodup_of_run hstart hrun) (hcovers hindex)
  split
  · next res hhot => exact hhot.symm.trans (hagrees fun _ h => nomatch hhot.symm.trans h)
  · next err hhot =>
    split
    · next hfinal =>
      refine hhot.symm.trans (hagrees fun err' h => ?_)
      cases hhot.symm.trans h
      simpa using hfinal
    · rfl

namespace Sample

def keySet : KeyAnswers := fun _ _ => .ok ⟨3, 1⟩

/-- The issuer's endpoint answers. -/
def issuer : Outside := ⟨none, [], some ⟨"i", "j"⟩, 0, false, false, keySet⟩

def shared (tenant : TenantID) : OidcProvider := ⟨"p", "u", [], [], none, none, 0, tenant⟩

def request (call : RegistryCall) : Request := ⟨call, issuer, .empty⟩

/-- A tenant registers the issuer, and its keys are fetched. -/
def joins (tenant : TenantID) : List Request :=
  [request (.addToProviderMap (shared tenant)), request (.reloadOne ⟨tenant, "u"⟩)]

/-- Another tenant registers another issuer. -/
def otherJoins : List Request :=
  [request (.addToProviderMap { shared "b" with wellKnownConfigURI := "v" }),
    ⟨.reloadOne ⟨"b", "v"⟩, { issuer with doc := some ⟨"o", "j"⟩ }, .empty⟩]

def token : Request := request (.resolveKey "k" "i" "")

end Sample

open Sample

/-- The index has learned the one provider that has the key for the issuer; the other one that is
registered publishes for another issuer. -/
theorem kidIndex_transparent_when_learned :
    ∃ n n' : Node, n.registry.kidIndex.getD "k" [] = [⟨"a", "u"⟩] ∧
      n.registry.allRefs.Perm [⟨"a", "u"⟩, ⟨"b", "v"⟩] ∧
      n.perform keySet token = some
        (.resolved (n.registry.disposeCandidates keySet n.registry.allRefs "k" "i" ""), n') := by
  have hexecuted : ∃ tr n, Run (Node.perform keySet) AnyStep .empty tr n ∧
      decide (n.registry.kidIndex.getD "k" [] = [⟨"a", "u"⟩] ∧
        n.registry.allRefs.Perm [⟨"a", "u"⟩, ⟨"b", "v"⟩] ∧
        Covers n.registry keySet "k" "i") = true :=
    exists_any_of_execute (joins "a" ++ otherJoins ++ [token]) (by decide +kernel)
  obtain ⟨tr, n, hrun, hcheck⟩ := hexecuted
  obtain ⟨hindex, hrefs, hcovers⟩ := of_decide_eq_true hcheck
  obtain ⟨n', hperform⟩ := kidIndex_transparent rfl hrun (fun _ => hcovers) ""
    (x := issuer) rfl .empty
  exact ⟨n, n', hindex, hrefs, hperform⟩

/-- A second tenant registers the issuer of the first, whose token has been seen before: tokens
still go to the first tenant, though they are ambiguous. -/
theorem kidIndex_routes_ambiguous_token :
    ∃ tr n, Run (Node.perform keySet) AnyStep .empty tr n ∧
      (n.perform keySet token).map (·.1) =
        some (.resolved (.ok ⟨⟨3, 1⟩, shared "a", "u", ⟨"a", "u"⟩⟩)) ∧
      n.registry.disposeCandidates keySet n.registry.allRefs "k" "i" "" =
        .error .ambiguousProvider := by
  have hexecuted : ∃ tr n, Run (Node.perform keySet) AnyStep .empty tr n ∧
      decide ((n.perform keySet token).map (·.1) =
        some (.resolved (.ok ⟨⟨3, 1⟩, shared "a", "u", ⟨"a", "u"⟩⟩)) ∧
      n.registry.disposeCandidates keySet n.registry.allRefs "k" "i" "" =
        .error .ambiguousProvider) = true :=
    exists_any_of_execute (joins "a" ++ [token] ++ joins "b")
      (by decide +kernel)
  obtain ⟨tr, n, hrun, hcheck⟩ := hexecuted
  exact ⟨tr, n, hrun, of_decide_eq_true hcheck⟩

end CyodaGo.Oidc
