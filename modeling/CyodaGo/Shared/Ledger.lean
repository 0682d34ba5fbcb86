import CyodaGo.Shared.Threads
import Mathlib.Data.Finsupp.Basic
import Mathlib.Algebra.Order.BigOperators.Group.Finset
import Mathlib.Algebra.Order.Group.Multiset

/-! # What interleaved calls owe

A call is given tokens when it starts, takes more with the answers to some of its questions
and hands them on with other questions; when it returns it has handed on all of them. No token
is lost or doubled between the shared state and the calls. -/

/-- The tokens that a call in a role is given, those that it hands on with a question, those
that it may keep meanwhile, and those that come with the answer. -/
structure Dues (ρ Q : Type) (A : Q → Type) (R : Type) where
  given : ρ → Multiset R
  pays : ρ → Q → Multiset R
  keeps : ρ → Q → Multiset R → Prop
  takes : ρ → (q : Q) → A q → Multiset R

variable {σ ρ Q X ω R : Type} {A : Q → Type}

/-- With the tokens `own` the program can pay for all its questions, and `post` holds of what
it returns with. -/
def Dues.Settles {α : Type} (d : Dues ρ Q A R) (r : ρ) :
    Program Q A α → (α → Multiset R → Prop) → Multiset R → Prop
  | .done a, post, own => post a own
  | .ask q next, post, own => ∃ rest, own = rest + d.pays r q ∧ d.keeps r q rest ∧
      ∀ a, Settles d r (next a) post (rest + d.takes r q a)

namespace Dues

variable {α β : Type} {d : Dues ρ Q A R} {r : ρ} {own : Multiset R}

theorem settles_bind {p : Program Q A α} {f : α → Program Q A β}
    {post : β → Multiset R → Prop}
    (h : d.Settles r p (fun a own => d.Settles r (f a) post own) own) :
    d.Settles r (p >>= f) post own := by
  induction p generalizing own with
  | done a => exact h
  | ask q next ih =>
    obtain ⟨rest, hown, hkeeps, hnext⟩ := h
    exact ⟨rest, hown, hkeeps, fun a => ih a (hnext a)⟩

theorem Settles.mono {p : Program Q A α} {post post' : α → Multiset R → Prop}
    (h : d.Settles r p post own) (hpost : ∀ a own, post a own → post' a own) :
    d.Settles r p post' own := by
  induction p generalizing own with
  | done a => exact hpost a own h
  | ask q next ih =>
    obtain ⟨rest, hown, hkeeps, hnext⟩ := h
    exact ⟨rest, hown, hkeeps, fun a => ih a (hnext a)⟩

theorem settles_ask {q : Q} {post : A q → Multiset R → Prop} (rest : Multiset R)
    (hown : own = rest + d.pays r q) (hkeeps : d.keeps r q rest)
    (hpost : ∀ a, post a (rest + d.takes r q a)) : d.Settles r (.ask q .done) post own :=
  ⟨rest, hown, hkeeps, hpost⟩

end Dues

namespace Threads

variable {d : Dues ρ Q A R} {body : ρ → Program Q A ω}
  {serve : X → σ → (q : Q) → Option (A q × σ)} {s s' : Threads σ ρ Q A ω}
  {own : ℕ →₀ Multiset R} {c : ℕ} {e : Option (Exchange Q A)}

/-- `own` says what every call has taken and not yet handed on. -/
structure Ledger (d : Dues ρ Q A R) (s : Threads σ ρ Q A ω) (own : ℕ →₀ Multiset R) : Prop where
  settles : ∀ c r p, s.calls.get c = some ⟨r, p⟩ → d.Settles r p (fun _ rest => rest = 0) (own c)
  unused : ∀ c, s.calls.get c = none → own c = 0

/-- All tokens that calls own. -/
noncomputable def owned (own : ℕ →₀ Multiset R) : Multiset R := own.sum fun _ m => m

theorem owned_update (own : ℕ →₀ Multiset R) (c : ℕ) (m : Multiset R) :
    owned (own.update c m) + own c = owned own + m :=
  Finsupp.sum_update_add own c m (fun _ m => m) (fun _ => rfl) (fun _ _ _ => rfl)

theorem Ledger.start {r : ρ} (h : Ledger d s own)
    (hbody : d.Settles r (body r) (fun _ rest => rest = 0) (d.given r))
    (hstep : step body serve s (.start c r) = some (e, s')) :
    own c = 0 ∧ Ledger d s' (own.update c (d.given r)) := by
  obtain ⟨hfree, rfl⟩ := start_cases hstep
  refine ⟨h.unused c hfree, ?_, ?_⟩
  · intro c' r' p hget
    rw [GoMap.get_set] at hget
    rw [Finsupp.coe_update, Function.update_apply]
    split at hget
    · next heq =>
      cases hget
      rw [if_pos heq]
      exact hbody
    · next hne =>
      rw [if_neg hne]
      exact h.settles c' r' p hget
  · intro c' hget
    rw [GoMap.get_set] at hget
    split at hget
    · cases hget
    · next hne =>
      rw [Finsupp.coe_update, Function.update_apply, if_neg hne]
      exact h.unused c' hget

theorem owned_start (m : Multiset R) (hown : own c = 0) :
    owned (own.update c m) = owned own + m := by
  have h := owned_update own c m
  rwa [hown, add_zero] at h

/-- An answered question moves tokens between the call that asked it and the rest. -/
theorem Ledger.advance {x : X} {r : ρ} {q : Q} {next : A q → Program Q A ω} {a : A q}
    (h : Ledger d s own) (hadv : Advances serve s s' c x r q next a) :
    ∃ rest, own c = rest + d.pays r q ∧ d.keeps r q rest ∧
      Ledger d s' (own.update c (rest + d.takes r q a)) := by
  obtain ⟨rest, hown, hkeeps, hnext⟩ := h.settles c r _ hadv.asked
  refine ⟨rest, hown, hkeeps, ?_, ?_⟩
  · intro c' r' p hget
    rw [hadv.goesOn, GoMap.get_set] at hget
    rw [Finsupp.coe_update, Function.update_apply]
    split at hget
    · next heq =>
      cases hget
      rw [if_pos heq]
      exact hnext a
    · next hne =>
      rw [if_neg hne]
      exact h.settles c' r' p hget
  · intro c' hget
    rw [hadv.goesOn, GoMap.get_set] at hget
    split at hget
    · cases hget
    · next hne =>
      rw [Finsupp.coe_update, Function.update_apply, if_neg hne]
      exact h.unused c' hget

/-- What is owned after an answer, with what was paid. -/
theorem owned_advance {r : ρ} {q : Q} {a : A q} {rest : Multiset R}
    (hown : own c = rest + d.pays r q) :
    owned (own.update c (rest + d.takes r q a)) + d.pays r q = owned own + d.takes r q a := by
  have h := owned_update own c (rest + d.takes r q a)
  rw [hown, add_left_comm, add_left_comm (owned own)] at h
  exact add_left_cancel h

theorem Ledger.returned {r : ρ} {a : ω} (h : Ledger d s own) (hreturned : s.Returned c r a) :
    own c = 0 :=
  h.settles c r _ hreturned

/-- When every call has returned nothing is owed. -/
theorem Ledger.owned_eq_zero (h : Ledger d s own) (hreturned : ∀ c r, ¬ s.Running c r) :
    owned own = 0 := by
  have hnone : own = 0 := by
    ext1 c
    cases hget : s.calls.get c with
    | none => exact h.unused c hget
    | some th =>
      obtain ⟨r, p⟩ := th
      cases p with
      | done a => exact h.returned hget
      | ask q next => exact absurd ⟨q, next, hget⟩ (hreturned c r)
  rw [hnone]
  rfl

end Threads
