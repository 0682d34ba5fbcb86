import CyodaGo.Model.Oidc.Registry

/-! # The walk over candidate providers

`disposeCandidates` depends only on which verdicts occur, not on where. -/

namespace CyodaGo.Oidc

def Verdict.entry : Verdict → Option KeyEligibleEntry
  | .keyEligible e => some e
  | _ => none

theorem Verdict.entry_eq_some {v : Verdict} {e : KeyEligibleEntry} :
    v.entry = some e ↔ v = .keyEligible e := by
  cases v <;> simp [Verdict.entry]

section Registry

variable {r : Registry} {keys : KeyAnswers} {kid iss aud : String} {ref : ProviderRef}

theorem keyEligible_of_verdict {e : KeyEligibleEntry}
    (h : r.verdict keys kid iss ref = .keyEligible e) :
    e.ref = ref ∧ r.providers.get ref = some e.prov ∧ e.prov.active = true := by
  rw [Registry.verdict] at h
  split at h
  · cases h
  · next prov hget =>
    split at h
    · cases h
    · next hactive =>
      split at h
      · cases h
      split at h
      · cases h
      split at h
      · cases h
      · cases h
      · cases h
        exact ⟨rfl, hget, by simpa using hactive⟩

theorem verdict_of_unregistered (h : r.providers.get ref = none) :
    r.verdict keys kid iss ref = .nothing := by
  rw [Registry.verdict, h]

theorem walk_foldl (verdicts : List Verdict) (w : Walk) :
    verdicts.foldl Walk.visit w =
      ⟨w.hadIssRejected || decide (.issRejected ∈ verdicts),
        w.lastTransientErr || decide (.transientErr ∈ verdicts),
        w.keyEligible ++ verdicts.filterMap Verdict.entry⟩ := by
  induction verdicts generalizing w with
  | nil => simp
  | cons v verdicts ih =>
    rw [List.foldl_cons, ih]
    cases v <;> simp [Walk.visit, Verdict.entry, List.filterMap_cons]

/-- What the walk over `candidates` has found at its end. -/
def Registry.found (r : Registry) (keys : KeyAnswers) (kid iss : String)
    (candidates : List ProviderRef) : Walk where
  hadIssRejected := decide (∃ ref ∈ candidates, r.verdict keys kid iss ref = .issRejected)
  lastTransientErr := decide (∃ ref ∈ candidates, r.verdict keys kid iss ref = .transientErr)
  keyEligible := candidates.filterMap fun ref => (r.verdict keys kid iss ref).entry

theorem disposeCandidates_eq (candidates : List ProviderRef) :
    r.disposeCandidates keys candidates kid iss aud =
      (r.found keys kid iss candidates).disposition aud := by
  rw [Registry.disposeCandidates]
  split
  · next h => simp [h, Registry.found, Walk.disposition]
  rw [walk_foldl, Registry.found, List.filterMap_map]
  simp [List.mem_map]

theorem mem_keyEligible {candidates : List ProviderRef} {e : KeyEligibleEntry} :
    e ∈ (r.found keys kid iss candidates).keyEligible ↔
      ∃ ref ∈ candidates, r.verdict keys kid iss ref = .keyEligible e := by
  simp [Registry.found, List.mem_filterMap, Verdict.entry_eq_some]

end Registry

/-! ## The disposition -/

theorem audMatched_perm {es es' : List KeyEligibleEntry} (h : es.Perm es') :
    audMatched es = audMatched es' := by
  match es, es', h with
  | [e], es', h => rw [List.perm_singleton.mp h.symm]
  | es, [e], h => rw [List.perm_singleton.mp h]
  | [], [], _ => rfl
  | [], _ :: _ :: _, _ => rfl
  | _ :: _ :: _, [], _ => rfl
  | _ :: _ :: _, _ :: _ :: _, _ => rfl

/-- The entries count without their order, and the errors only when there is no entry. -/
theorem disposition_congr {w w' : Walk} (aud : String)
    (hperm : w.keyEligible.Perm w'.keyEligible)
    (herrors : w.keyEligible = [] → w.disposition aud = w'.disposition aud) :
    w.disposition aud = w'.disposition aud := by
  match hw : w.keyEligible with
  | [] => exact herrors hw
  | [e] =>
    have hw' : w'.keyEligible = [e] := by
      rw [hw] at hperm
      exact List.perm_singleton.mp hperm.symm
    rw [Walk.disposition, Walk.disposition, hw, hw']
  | e₁ :: e₂ :: rest =>
    rw [hw] at hperm
    match hw' : w'.keyEligible with
    | [] | [_] =>
      rw [hw'] at hperm
      simpa using hperm.length_eq
    | e₁' :: e₂' :: rest' =>
      rw [hw'] at hperm
      rw [Walk.disposition, Walk.disposition, hw, hw']
      exact audMatched_perm (hperm.filter _)

end CyodaGo.Oidc
