import CyodaGo.Shared.Run
import Mathlib.Data.List.Forall2

/-! # Unwinding

Removing the hidden steps of a run leaves a run whose steps answer alike, if some
relation between the states of the two runs is kept by a hidden step on one side and by
a visible step on both. -/

variable {σ α ω : Type*}

/-- `hide` tells which steps are removed, `reduce` what a remaining action becomes, `allowed'`
what holds of it, and `same` when a remaining event and its counterpart count as the same. The
relation may look at the record of the run that keeps its hidden steps. -/
structure TracedUnwinding (step : σ → α → Option (ω × σ))
    (allowed allowed' : List (Event σ α ω) → σ → α → Prop) (start : σ) (hide : σ → α → Bool)
    (reduce : σ → α → α) (same : Event σ α ω → Event σ α ω → Prop)
    (R : List (Event σ α ω) → σ → σ → Prop) : Prop where
  initially : R [] start start
  hidden : ∀ tr s s' a r s1, R tr s s' → allowed tr s a → step s a = some (r, s1) →
    hide s a = true → R (⟨s, a, r, s1⟩ :: tr) s1 s'
  visible : ∀ tr s tr' s' a r s1, R tr s s' → allowed tr s a → step s a = some (r, s1) →
    hide s a = false → allowed' tr' s' (reduce s a) ∧
      ∃ r' s1', step s' (reduce s a) = some (r', s1') ∧ R (⟨s, a, r, s1⟩ :: tr) s1 s1' ∧
        same ⟨s, a, r, s1⟩ ⟨s', reduce s a, r', s1'⟩

theorem TracedUnwinding.run {step : σ → α → Option (ω × σ)}
    {allowed allowed' : List (Event σ α ω) → σ → α → Prop} {start s : σ} {hide : σ → α → Bool}
    {reduce : σ → α → α} {same : Event σ α ω → Event σ α ω → Prop}
    {R : List (Event σ α ω) → σ → σ → Prop} {tr : List (Event σ α ω)}
    (h : TracedUnwinding step allowed allowed' start hide reduce same R)
    (hrun : Run step allowed start tr s) :
    ∃ tr' s', Run step allowed' start tr' s' ∧ R tr s s' ∧
      List.Forall₂ same (tr.filter fun ev => !hide ev.before ev.action) tr' := by
  induction hrun with
  | nil => exact ⟨[], start, .nil, h.initially, .nil⟩
  | @cons tr s s1 r a hrun ha hs ih =>
    obtain ⟨tr', s', hrun', hR, hsame⟩ := ih
    cases hhide : hide s a with
    | true =>
      refine ⟨tr', s', hrun', h.hidden _ _ _ a r s1 hR ha hs hhide, ?_⟩
      rw [List.filter_cons_of_neg (by simp [hhide])]
      exact hsame
    | false =>
      obtain ⟨ha', r', s1', hs', hR', hev⟩ := h.visible _ _ tr' _ a r s1 hR ha hs hhide
      refine ⟨_, s1', .cons _ hrun' ha' hs', hR', ?_⟩
      rw [List.filter_cons_of_pos (by simp [hhide])]
      exact .cons hev hsame

