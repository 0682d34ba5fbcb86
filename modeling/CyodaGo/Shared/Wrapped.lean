import Mathlib.Tactic.Common
import Mathlib.Algebra.Group.Int.Defs
import Mathlib.Algebra.Group.Nat.Defs

/-! # Integers in 64 bits

What the arithmetic of machine integers makes of a mathematical integer. -/

namespace Wrapped

/-- The integer has a representation of its own. -/
def Fits (n : Int) : Prop := -2 ^ 63 ≤ n ∧ n < 2 ^ 63

instance (n : Int) : Decidable (Fits n) := inferInstanceAs (Decidable (_ ∧ _))

/-- The integer that is represented instead. -/
def wrap (n : Int) : Int := n.bmod (2 ^ 64)

theorem fits_toInt (x : Int64) : Fits x.toInt := ⟨x.le_toInt, x.toInt_lt⟩

theorem exists_wrap (n : Int) : ∃ k : Int, wrap n = n - 2 ^ 64 * k ∧ Fits (wrap n) := by
  refine ⟨(n - wrap n) / 2 ^ 64, ?_, ?_, ?_⟩
  all_goals
    simp only [wrap, Int.bmod_def]
    omega

theorem wrap_eq_iff {n : Int} : wrap n = n ↔ Fits n := by
  obtain ⟨k, hk, hfits⟩ := exists_wrap n
  simp only [Fits] at hfits ⊢
  omega

theorem wrap_wrap_add (m n : Int) : wrap (wrap m + n) = wrap (m + n) := Int.bmod_add_bmod ..

theorem toInt_add (a b : Int64) : (a + b).toInt = wrap (a.toInt + b.toInt) := Int64.toInt_add a b

theorem toInt_sub (a b : Int64) : (a - b).toInt = wrap (a.toInt - b.toInt) := Int64.toInt_sub a b

/-- A distance between two represented times is exact if the times and the distance are. -/
theorem sub_exact_iff {a b : Int} (h : a < b) :
    (wrap a < wrap b ∧ wrap a = a ∧ wrap (wrap b - wrap a) = b - a) ↔
      Fits a ∧ Fits b ∧ Fits (b - a) := by
  obtain ⟨k, hk, ha⟩ := exists_wrap a
  obtain ⟨l, hl, hb⟩ := exists_wrap b
  obtain ⟨m, hm, hd⟩ := exists_wrap (wrap b - wrap a)
  simp only [Fits] at ha hb hd ⊢
  omega

/-- Wrapping around keeps the order of two integers that are not a whole range apart. -/
theorem wrap_le_wrap_iff {a b : Int} (h : a ≤ b) (hnear : Fits a ∨ b - a ≤ 2 ^ 63)
    (hb : -2 ^ 64 ≤ b ∧ b < 2 ^ 64) :
    wrap a ≤ wrap b ↔ Fits a ∧ Fits b ∨ 2 ^ 63 ≤ a ∨ b < -2 ^ 63 ∨ a + 2 ^ 64 ≤ b := by
  obtain ⟨k, hk, hka⟩ := exists_wrap a
  obtain ⟨l, hl, hlb⟩ := exists_wrap b
  simp only [Fits] at hka hlb hnear ⊢
  omega

end Wrapped
