import Mathlib.Logic.Basic

/-! # Computations that may be refused

When a sequence of checks written in `Except` succeeds. -/

namespace Checked

universe u v

variable {ε : Type u} {α β σ : Type v}

theorem bind_eq_ok {x : Except ε α} {f : α → Except ε β} {b : β} :
    (x >>= f) = .ok b ↔ ∃ a, x = .ok a ∧ f a = .ok b := by
  cases x with
  | error e => simp [bind, Except.bind]
  | ok a => simp [bind, Except.bind]

theorem map_eq_ok {x : Except ε α} {f : α → β} {b : β} :
    f <$> x = .ok b ↔ ∃ a, x = .ok a ∧ f a = b := by
  cases x with
  | error e => simp [Functor.map, Except.map]
  | ok a => simp [Functor.map, Except.map]

theorem throw_ne_ok {e : ε} {a : α} : (throw e : Except ε α) ≠ .ok a := nofun

theorem pure_eq_ok {a b : α} : (pure a : Except ε α) = .ok b ↔ a = b :=
  ⟨Except.ok.inj, fun h => h ▸ rfl⟩

theorem foldlM_cons_eq_ok {f : σ → α → Except ε σ} {x : α} {xs : List α} {s t : σ} :
    (x :: xs).foldlM f s = .ok t ↔ ∃ s', f s x = .ok s' ∧ xs.foldlM f s' = .ok t := by
  rw [List.foldlM_cons, bind_eq_ok]

end Checked
