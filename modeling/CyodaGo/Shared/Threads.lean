import CyodaGo.Shared.Program
import CyodaGo.Shared.Run
import CyodaGo.Shared.GoMap

/-! # Interleaved programs

Any number of calls run at once over one shared state. A call plays a role, which fixes its
program; the questions of the calls are answered one at a time, in any order. Each role is
verified alone, against what it relies on; the rules below put the roles together. -/

structure Thread (ρ Q : Type) (A : Q → Type) (ω : Type) where
  role : ρ
  program : Program Q A ω

/-- The shared state, and every call made so far, returned ones included. -/
structure Threads (σ ρ Q : Type) (A : Q → Type) (ω : Type) where
  shared : σ
  calls : GoMap ℕ (Thread ρ Q A ω)

/-- `x` is what the surroundings contribute to the answer. -/
inductive Move (ρ X : Type) where
  | start (c : ℕ) (role : ρ)
  | advance (c : ℕ) (x : X)

namespace Threads

variable {σ ρ Q X ω : Type} {A : Q → Type}

/-- `serve` answers one question in one atomic step; `none` means that it has to wait. -/
def step (body : ρ → Program Q A ω) (serve : X → σ → (q : Q) → Option (A q × σ))
    (s : Threads σ ρ Q A ω) : Move ρ X → Option (Option (Exchange Q A) × Threads σ ρ Q A ω)
  | .start c r =>
    if s.calls.get c = none then some (none, ⟨s.shared, s.calls.set c ⟨r, body r⟩⟩) else none
  | .advance c x =>
    match s.calls.get c with
    | some ⟨r, .ask q next⟩ =>
      (serve x s.shared q).map fun p => (some ⟨q, p.1⟩, ⟨p.2, s.calls.set c ⟨r, next p.1⟩⟩)
    | _ => none

/-- The call has been made and has not returned. -/
def Running (s : Threads σ ρ Q A ω) (c : ℕ) (r : ρ) : Prop :=
  ∃ q next, s.calls.get c = some ⟨r, .ask q next⟩

/-- The question that the call waits to have answered. -/
def asked (s : Threads σ ρ Q A ω) (c : ℕ) : Option Q :=
  match s.calls.get c with
  | some ⟨_, .ask q _⟩ => some q
  | _ => none

def Returned (s : Threads σ ρ Q A ω) (c : ℕ) (r : ρ) (a : ω) : Prop :=
  s.calls.get c = some ⟨r, .done a⟩

variable {body : ρ → Program Q A ω} {serve : X → σ → (q : Q) → Option (A q × σ)}
  {s s' : Threads σ ρ Q A ω} {c : ℕ} {e : Option (Exchange Q A)}

variable {r r' : ρ} {x : X}

theorem start_cases (h : step body serve s (.start c r) = some (e, s')) :
    s.calls.get c = none ∧ s' = ⟨s.shared, s.calls.set c ⟨r, body r⟩⟩ := by
  obtain ⟨hfree, heq⟩ := Option.ite_none_right_eq_some.mp h
  exact ⟨hfree, (Prod.mk.inj (Option.some.inj heq)).2.symm⟩

/-- The call `c` in the role `r` asks `q`, is answered `a`, and goes on with `next a`. -/
structure Advances (serve : X → σ → (q : Q) → Option (A q × σ)) (s s' : Threads σ ρ Q A ω)
    (c : ℕ) (x : X) (r : ρ) (q : Q) (next : A q → Program Q A ω) (a : A q) : Prop where
  asked : s.calls.get c = some ⟨r, .ask q next⟩
  served : serve x s.shared q = some (a, s'.shared)
  goesOn : s'.calls = s.calls.set c ⟨r, next a⟩

theorem Advances.asked_eq {q : Q} {next : A q → Program Q A ω} {a : A q}
    (h : Advances serve s s' c x r q next a) : s.asked c = some q := by
  rw [Threads.asked, h.asked]

theorem advance_cases (h : step body serve s (.advance c x) = some (e, s')) :
    ∃ r q next a, Advances serve s s' c x r q next a ∧ e = some ⟨q, a⟩ := by
  rw [step] at h
  split at h
  · next r q next hget =>
    obtain ⟨⟨a, y⟩, hserve, heq⟩ := Option.map_eq_some_iff.mp h
    cases heq
    exact ⟨r, q, next, a, ⟨hget, hserve, rfl⟩, rfl⟩
  · cases h

theorem Returned.step {m : Move ρ X} {a : ω} (h : s.Returned c r a)
    (hstep : step body serve s m = some (e, s')) : s'.Returned c r a := by
  cases m with
  | start c' r' =>
    obtain ⟨hfree, rfl⟩ := start_cases hstep
    have hne : c ≠ c' := by
      rintro rfl
      exact nomatch h.symm.trans hfree
    exact (GoMap.get_set_of_ne _ _ hne).trans h
  | advance c' x =>
    obtain ⟨r', q, next, b, hadv, -⟩ := advance_cases hstep
    have hne : c ≠ c' := by
      rintro rfl
      exact nomatch h.symm.trans hadv.asked
    rw [Returned, hadv.goesOn, GoMap.get_set_of_ne _ _ hne]
    exact h

/-- What the call has returned. -/
def result (s : Threads σ ρ Q A ω) (c : ℕ) : Option ω :=
  match s.calls.get c with
  | some ⟨_, .done a⟩ => some a
  | _ => none

theorem exists_returned_of_result {a : ω} (h : s.result c = some a) : ∃ r, s.Returned c r a := by
  rw [result] at h
  split at h
  · next r a' hget => exact ⟨r, Option.some.inj h ▸ hget⟩
  · cases h

theorem forall_running_iff {P : ℕ → ρ → Prop} :
    (∀ c r, s.Running c r → P c r) ↔
      ∀ c ∈ s.calls.keys, ∀ th ∈ s.calls.get c, (s.asked c).isSome → P c th.role := by
  constructor
  · rintro h c - ⟨r, program⟩ hth hasked
    cases program with
    | done a => simp [asked, Option.mem_def.mp hth] at hasked
    | ask q next => exact h c r ⟨q, next, hth⟩
  · rintro h c r ⟨q, next, hget⟩
    exact h c (GoMap.mem_keys_of_get hget) _ hget (by simp [asked, hget])

instance {P : ℕ → ρ → Prop} [∀ c r, Decidable (P c r)] : Decidable (∀ c r, s.Running c r → P c r) :=
  decidable_of_iff _ forall_running_iff.symm

def allReturned (s : Threads σ ρ Q A ω) : Bool :=
  s.calls.keys.all fun c =>
    match s.calls.get c with
    | some ⟨_, .ask ..⟩ => false
    | _ => true

theorem not_running_of_allReturned (h : s.allReturned = true) (r : ρ) : ¬ s.Running c r := by
  rintro ⟨q, next, hget⟩
  have hc := List.all_eq_true.mp h c (GoMap.mem_keys_of_get hget)
  simp [hget] at hc

/-! ## Contracts -/

/-- `rely r` bounds what the others do between two questions of a call in the role `r`, and
`kept r` what each of its own questions does; `post r` holds when it returns. -/
structure Contract (σ ρ Q : Type) (A : Q → Type) (ω : Type) where
  rely : ρ → σ → σ → Prop
  exchange : ρ → σ → (q : Q) → A q → σ → Prop
  kept : ρ → σ → σ → Prop
  post : ρ → ω → σ → Prop
  rely_trans : ∀ r x y z, rely r x y → rely r y z → rely r x z

variable {k : Contract σ ρ Q A ω}

def Contract.around (k : Contract σ ρ Q A ω) (r : ρ) : Surroundings Q A σ :=
  ⟨k.rely r, k.exchange r⟩

def Contract.Holds (k : Contract σ ρ Q A ω) (r : ρ) (p : Program Q A ω) (x : σ) : Prop :=
  p.Ensures (k.around r) (k.kept r) (k.post r) x

/-- What is left of every running call meets the contract of its role. -/
def Meets (k : Contract σ ρ Q A ω) (s : Threads σ ρ Q A ω) : Prop :=
  ∀ c r q next, s.calls.get c = some ⟨r, .ask q next⟩ → k.Holds r (.ask q next) s.shared

theorem Meets.start (h : s.Meets k) (hbody : k.Holds r (body r) s.shared)
    (hstep : step body serve s (.start c r) = some (e, s')) : s'.Meets k := by
  obtain ⟨-, rfl⟩ := start_cases hstep
  intro c' r' q next hget
  rw [GoMap.get_set] at hget
  split at hget
  · obtain ⟨rfl, hprogram⟩ := Thread.mk.inj (Option.some.inj hget)
    rw [hprogram] at hbody
    exact hbody
  · exact h c' r' q next hget

/-- A running call keeps its guarantee; when that is within what every other running call
relies on, all calls go on meeting their contracts. -/
theorem Meets.advance {q : Q} {next : A q → Program Q A ω} {a : A q} (h : s.Meets k)
    (hadv : Advances serve s s' c x r q next a) (hrefl : k.rely r s.shared s.shared)
    (hexchange : k.exchange r s.shared q a s'.shared)
    (hothers : k.kept r s.shared s'.shared → ∀ c' r', c' ≠ c → s.Running c' r' →
      k.rely r' s.shared s'.shared) :
    k.kept r s.shared s'.shared ∧ k.Holds r (next a) s'.shared ∧ s'.Meets k := by
  obtain ⟨hkept, hnext⟩ := h c r q next hadv.asked s.shared hrefl a s'.shared hexchange
  refine ⟨hkept, hnext, ?_⟩
  intro c' r' q' next' hget
  rw [hadv.goesOn, GoMap.get_set] at hget
  split at hget
  · obtain ⟨rfl, hprogram⟩ := Thread.mk.inj (Option.some.inj hget)
    rw [hprogram] at hnext
    exact hnext
  · next hne =>
    have hrely := hothers hkept c' r' hne ⟨q', next', hget⟩
    exact fun s1 h1 => h c' r' q' next' hget s1 (k.rely_trans r' _ _ _ hrely h1)

/-! ## Which calls run -/

theorem running_start {c' : ℕ} (hstep : step body serve s (.start c r) = some (e, s'))
    (h : s'.Running c' r') : c' = c ∧ r' = r ∨ s.Running c' r' := by
  obtain ⟨-, rfl⟩ := start_cases hstep
  obtain ⟨q, next, hget⟩ := h
  rw [GoMap.get_set] at hget
  split at hget
  · next heq => exact .inl ⟨heq, (Thread.mk.inj (Option.some.inj hget)).1.symm⟩
  · exact .inr ⟨q, next, hget⟩

theorem Advances.running {q : Q} {next : A q → Program Q A ω} {a : A q}
    (hadv : Advances serve s s' c x r q next a) : s.Running c r :=
  ⟨q, next, hadv.asked⟩

theorem Advances.running_of {q : Q} {next : A q → Program Q A ω} {a : A q} {c' : ℕ}
    (hadv : Advances serve s s' c x r q next a) (h : s'.Running c' r') :
    s.Running c' r' := by
  obtain ⟨q', next', hget⟩ := h
  rw [hadv.goesOn, GoMap.get_set] at hget
  split at hget
  · next heq =>
    obtain ⟨rfl, -⟩ := Thread.mk.inj (Option.some.inj hget)
    exact heq ▸ hadv.running
  · exact ⟨q', next', hget⟩

theorem Advances.returned {q : Q} {next : A q → Program Q A ω} {a : A q} {b : ω}
    (hadv : Advances serve s s' c x r q next a) (h : s'.Returned c r' b) :
    r' = r ∧ next a = .done b := by
  rw [Returned, hadv.goesOn, GoMap.get_set_self] at h
  obtain ⟨hrole, hprogram⟩ := Thread.mk.inj (Option.some.inj h)
  exact ⟨hrole.symm, hprogram⟩

end Threads
