import Mathlib.Algebra.Order.Floor.Ring
import Mathlib.Data.Int.Log
import Mathlib.Data.Rat.Floor
import Mathlib.Tactic.Linarith
import Mathlib.Tactic.Positivity
import Mathlib.Tactic.FieldSimp

/-! # Rounding to binary64

The nearest IEEE 754 double of a rational number, ties to even, with gradual underflow. -/

namespace Binary64

/-! ## Nearest integers -/

/-- The nearest integer, the even one of two. -/
def roundEven (x : ℚ) : ℤ :=
  if x - ⌊x⌋ < 1 / 2 then ⌊x⌋
  else if 1 / 2 < x - ⌊x⌋ then ⌊x⌋ + 1
  else ⌊x⌋ + ⌊x⌋ % 2

@[simp] theorem roundEven_intCast (k : ℤ) : roundEven k = k := by
  simp [roundEven]

theorem floor_le_roundEven (x : ℚ) : ⌊x⌋ ≤ roundEven x := by
  unfold roundEven
  split_ifs <;> omega

theorem roundEven_le_floor (x : ℚ) : roundEven x ≤ ⌊x⌋ + 1 := by
  unfold roundEven
  split_ifs <;> omega

variable {x y : ℚ} {e k : ℤ}

theorem roundEven_mono (h : x ≤ y) : roundEven x ≤ roundEven y := by
  rcases (Int.floor_mono h).lt_or_eq with hlt | heq
  · calc roundEven x ≤ ⌊x⌋ + 1 := roundEven_le_floor x
      _ ≤ ⌊y⌋ := hlt
      _ ≤ roundEven y := floor_le_roundEven y
  · -- With one floor the fractional parts decide.
    unfold roundEven
    rw [heq]
    split_ifs <;> first | omega | linarith

theorem roundEven_neg (x : ℚ) : roundEven (-x) = -roundEven x := by
  have hlo := Int.floor_le x
  have hhi := Int.lt_floor_add_one x
  rcases hlo.eq_or_lt with heq | hlt
  · rw [← heq, ← Int.cast_neg, roundEven_intCast, roundEven_intCast]
  have hfloor : ⌊-x⌋ = -⌊x⌋ - 1 := by
    rw [Int.floor_eq_iff]
    push_cast
    constructor <;> linarith
  unfold roundEven
  rw [hfloor]
  push_cast
  split_ifs <;> first | omega | linarith

/-! ## Nearest doubles -/

/-- The binary exponent, not below that of the subnormal numbers. -/
def exponent (x : ℚ) : ℤ := max (Int.log 2 |x|) (-1022)

/-- The distance between neighbouring doubles around `x`. -/
def ulp (x : ℚ) : ℚ := 2 ^ (exponent x - 52)

/-- The nearest double, with no largest one. -/
def nearest (x : ℚ) : ℚ := roundEven (x / ulp x) * ulp x

theorem ulp_pos (x : ℚ) : 0 < ulp x := zpow_pos (by norm_num) _

theorem ulp_neg (x : ℚ) : ulp (-x) = ulp x := by
  rw [ulp, ulp, exponent, exponent, abs_neg]

theorem nearest_neg (x : ℚ) : nearest (-x) = -nearest x := by
  rw [nearest, nearest, ulp_neg, neg_div, roundEven_neg, Int.cast_neg, neg_mul]

@[simp] theorem nearest_zero : nearest 0 = 0 := by
  simp [nearest, roundEven]

theorem nearest_of_int (h : x = k * ulp x) : nearest x = x := by
  have hdiv : x / ulp x = k := by
    rw [div_eq_iff (ulp_pos x).ne']
    exact h
  rw [nearest, hdiv, roundEven_intCast]
  exact h.symm

theorem le_nearest (h : k * ulp x ≤ x) : k * ulp x ≤ nearest x := by
  have hk : k ≤ roundEven (x / ulp x) := by
    rw [← roundEven_intCast k]
    exact roundEven_mono ((le_div_iff₀ (ulp_pos x)).mpr h)
  exact mul_le_mul_of_nonneg_right (Int.cast_le.mpr hk) (ulp_pos x).le

theorem nearest_le (h : x ≤ k * ulp x) : nearest x ≤ k * ulp x := by
  have hk : roundEven (x / ulp x) ≤ k := by
    rw [← roundEven_intCast k]
    exact roundEven_mono ((div_le_iff₀ (ulp_pos x)).mpr h)
  exact mul_le_mul_of_nonneg_right (Int.cast_le.mpr hk) (ulp_pos x).le

theorem nearest_nonneg (h : 0 ≤ x) : 0 ≤ nearest x := by
  have := le_nearest (x := x) (k := 0) (by simpa using h)
  simpa using this

private theorem mul_ulp (n : ℕ) (x : ℚ) : ((2 ^ n : ℤ) : ℚ) * ulp x = 2 ^ (exponent x - 52 + n) := by
  rw [ulp, zpow_add₀ (by norm_num), mul_comm]
  norm_num

theorem lt_two_zpow_exponent (h : 0 < x) : x < 2 ^ (exponent x + 1) := by
  calc x < 2 ^ (Int.log 2 x + 1) := by
        simpa using Int.lt_zpow_succ_log_self (b := 2) (by norm_num) x
    _ ≤ 2 ^ (exponent x + 1) := by
        apply zpow_le_zpow_right₀ (by norm_num)
        rw [exponent, abs_of_pos h]
        omega

theorem two_zpow_exponent_le (h : 0 < x) (he : -1022 < exponent x) : 2 ^ exponent x ≤ x := by
  have hlog : exponent x = Int.log 2 x := by
    rw [exponent, abs_of_pos h] at he ⊢
    omega
  rw [hlog]
  simpa using Int.zpow_log_le_self (b := 2) (by norm_num) h

theorem exponent_mono (hx : 0 < x) (h : x ≤ y) : exponent x ≤ exponent y := by
  rw [exponent, exponent, abs_of_pos hx, abs_of_pos (hx.trans_le h)]
  have := Int.log_mono_right (b := 2) hx h
  omega

private theorem nearest_mono_of_pos (hx : 0 < x) (h : x ≤ y) : nearest x ≤ nearest y := by
  rcases (exponent_mono hx h).lt_or_eq with hlt | heq
  · -- A power of two separates the two results.
    have hlow : -1022 ≤ exponent x := le_max_right _ _
    have hx' : nearest x ≤ ((2 ^ 53 : ℤ) : ℚ) * ulp x := by
      apply nearest_le
      rw [mul_ulp]
      exact (lt_two_zpow_exponent hx).le.trans_eq (by congr 1; push_cast; ring)
    have hy' : ((2 ^ 52 : ℤ) : ℚ) * ulp y ≤ nearest y := by
      apply le_nearest
      rw [mul_ulp]
      refine le_trans (le_of_eq ?_) (two_zpow_exponent_le (hx.trans_le h) (by omega))
      congr 1
      push_cast
      ring
    rw [mul_ulp] at hx' hy'
    refine hx'.trans (le_trans ?_ hy')
    apply zpow_le_zpow_right₀ (by norm_num)
    push_cast
    omega
  · have hulp : ulp x = ulp y := by rw [ulp, ulp, heq]
    unfold nearest
    rw [hulp]
    have hround := roundEven_mono (div_le_div_of_nonneg_right h (ulp_pos y).le)
    exact mul_le_mul_of_nonneg_right (Int.cast_le.mpr hround) (ulp_pos y).le

theorem nearest_mono (h : x ≤ y) : nearest x ≤ nearest y := by
  rcases lt_or_ge 0 x with hx | hx
  · exact nearest_mono_of_pos hx h
  have hx' : nearest x ≤ 0 := by
    have := nearest_nonneg (neg_nonneg.mpr hx)
    rw [nearest_neg] at this
    linarith
  rcases lt_or_ge y 0 with hy | hy
  · have := nearest_mono_of_pos (neg_pos.mpr hy) (neg_le_neg h)
    rw [nearest_neg, nearest_neg] at this
    linarith
  · exact hx'.trans (nearest_nonneg hy)

theorem exponent_le (hx : 0 < x) (he : -1022 ≤ e) (h : x < 2 ^ (e + 1)) : exponent x ≤ e := by
  by_contra hlt
  have hle := two_zpow_exponent_le hx (he.trans_lt (not_le.mp hlt))
  have hpow : (2 : ℚ) ^ (e + 1) ≤ 2 ^ exponent x := zpow_le_zpow_right₀ (by norm_num) (by omega)
  linarith

private theorem nearest_natCast_mul {n : ℕ} (he : -1022 ≤ e) (h : n ≤ 2 ^ 53) :
    nearest (n * 2 ^ (e - 52)) = n * 2 ^ (e - 52) := by
  rcases n.eq_zero_or_pos with rfl | hpos
  · simp
  have hscale : (0 : ℚ) < 2 ^ (e - 52) := zpow_pos (by norm_num) _
  have hpos' : (0 : ℚ) < n * 2 ^ (e - 52) := mul_pos (Nat.cast_pos.mpr hpos) hscale
  have htop : ((2 ^ 53 : ℕ) : ℚ) * 2 ^ (e - 52) = 2 ^ (e + 1) := by
    rw [Nat.cast_pow, Nat.cast_ofNat, ← zpow_natCast, ← zpow_add₀ (by norm_num)]
    congr 1
    push_cast
    ring
  rcases h.lt_or_eq with hlt | rfl
  · have hexponent : exponent (n * 2 ^ (e - 52)) ≤ e := by
      apply exponent_le hpos' he
      rw [← htop]
      exact mul_lt_mul_of_pos_right (Nat.cast_lt.mpr hlt) hscale
    apply nearest_of_int (k := n * 2 ^ (e - exponent (n * 2 ^ (e - 52))).toNat)
    rw [ulp]
    push_cast
    rw [mul_assoc, ← zpow_natCast, ← zpow_add₀ (by norm_num), Int.toNat_of_nonneg (by omega)]
    congr 2
    ring
  · have hexponent : exponent ((2 : ℚ) ^ (e + 1)) = e + 1 := by
      rw [exponent, abs_of_pos (zpow_pos (by norm_num) _)]
      have hlog := Int.log_zpow (R := ℚ) (b := 2) (by norm_num) (e + 1)
      rw [Nat.cast_ofNat] at hlog
      rw [hlog]
      omega
    rw [htop]
    apply nearest_of_int (k := 2 ^ 52)
    rw [mul_ulp, hexponent]
    congr 1
    push_cast
    ring

/-- A mantissa of up to 53 bits is kept. -/
theorem nearest_mantissa (he : -1022 ≤ e) (h : |k| ≤ 2 ^ 53) :
    nearest (k * 2 ^ (e - 52)) = k * 2 ^ (e - 52) := by
  obtain ⟨n, rfl | rfl⟩ := k.eq_nat_or_neg
  · exact nearest_natCast_mul he (by simpa using h)
  · rw [Int.cast_neg, neg_mul, nearest_neg, Int.cast_natCast,
      nearest_natCast_mul he (by simpa using h)]

/-- Integers of up to 53 bits are doubles. -/
theorem nearest_intCast (h : |k| ≤ 2 ^ 53) : nearest (k : ℚ) = k := by
  simpa using nearest_mantissa (e := 52) (by norm_num) h

theorem abs_le_two_zpow_exponent (x : ℚ) : |x| ≤ 2 ^ (exponent x + 1) := by
  rcases eq_or_ne x 0 with rfl | hne
  · simpa using (zpow_pos (by norm_num : (0 : ℚ) < 2) _).le
  have hexponent : exponent |x| = exponent x := by rw [exponent, exponent, abs_abs]
  exact hexponent ▸ (lt_two_zpow_exponent (abs_pos.mpr hne)).le

theorem nearest_idem (x : ℚ) : nearest (nearest x) = nearest x := by
  refine nearest_mantissa (le_max_right _ _) ?_
  have hbound : |x / ulp x| ≤ ((2 ^ 53 : ℤ) : ℚ) := by
    rw [abs_div, abs_of_pos (ulp_pos x), div_le_iff₀ (ulp_pos x), mul_ulp]
    refine (abs_le_two_zpow_exponent x).trans_eq ?_
    congr 1
    push_cast
    ring
  obtain ⟨hlo, hhi⟩ := abs_le.mp hbound
  rw [← Int.cast_neg] at hlo
  have hlo' := roundEven_mono hlo
  have hhi' := roundEven_mono hhi
  rw [roundEven_intCast] at hlo' hhi'
  exact abs_le.mpr ⟨hlo', hhi'⟩

/-! ## Rounding on one side of a number -/

/-- A value that is kept. -/
def IsDouble (x : ℚ) : Prop := nearest x = x

/-- A double lies between `x` and `y`, or `x` is not rounded up. -/
def StaysBelow (x y : ℚ) : Prop := (∃ d, IsDouble d ∧ x ≤ d ∧ d ≤ y) ∨ nearest x ≤ x

/-- A double lies between `y` and `x`, or `x` is not rounded down. -/
def StaysAbove (x y : ℚ) : Prop := (∃ d, IsDouble d ∧ y ≤ d ∧ d ≤ x) ∨ x ≤ nearest x

theorem nearest_le_iff (h : x ≤ y) : nearest x ≤ y ↔ StaysBelow x y := by
  constructor
  · intro hle
    rcases le_total x (nearest x) with hup | hdown
    · exact .inl ⟨nearest x, nearest_idem x, hup, hle⟩
    · exact .inr hdown
  · rintro (⟨d, hd, hxd, hdy⟩ | hdown)
    · exact ((nearest_mono hxd).trans_eq hd).trans hdy
    · exact hdown.trans h

theorem le_nearest_iff (h : y ≤ x) : y ≤ nearest x ↔ StaysAbove x y := by
  constructor
  · intro hle
    rcases le_total x (nearest x) with hup | hdown
    · exact .inr hup
    · exact .inl ⟨nearest x, nearest_idem x, hle, hdown⟩
  · rintro (⟨d, hd, hyd, hdx⟩ | hup)
    · exact hyd.trans (hd.symm.trans_le (nearest_mono hdx))
    · exact h.trans hup

/-! ## Overflow -/

/-- Rounded values from here on are infinite. -/
def limit : ℚ := 2 ^ 1024

/-- Rounding does not overflow. -/
def Finite (x : ℚ) : Prop := |nearest x| < limit

instance (x : ℚ) : Decidable (Finite x) := inferInstanceAs (Decidable (_ < _))

/-- The value of the nearest finite double. -/
def ofRat (x : ℚ) : Option ℚ := if Finite x then some (nearest x) else none

/-- The nearest double, with infinities. -/
def extended (x : ℚ) : WithBot (WithTop ℚ) :=
  if nearest x ≤ -limit then ⊥
  else if limit ≤ nearest x then ((⊤ : WithTop ℚ) : WithBot (WithTop ℚ))
  else ((nearest x : WithTop ℚ) : WithBot (WithTop ℚ))

theorem extended_of_finite (h : Finite x) :
    extended x = ((nearest x : WithTop ℚ) : WithBot (WithTop ℚ)) := by
  have hbounds := abs_lt.mp h
  rw [extended, if_neg (not_le.mpr hbounds.1), if_neg (not_le.mpr hbounds.2)]

theorem extended_mono (h : x ≤ y) : extended x ≤ extended y := by
  have hmono := nearest_mono h
  unfold extended
  split_ifs with hx hy hy' hx' hy hy' hy hy'
  · exact le_rfl
  · exact bot_le
  · exact bot_le
  · exact absurd (hmono.trans hy) hx
  · exact le_rfl
  · exact absurd (hx'.trans hmono) hy'
  · exact absurd (hmono.trans hy) hx
  · exact WithBot.coe_le_coe.mpr le_top
  · exact WithBot.coe_le_coe.mpr (WithTop.coe_le_coe.mpr hmono)

theorem coe_le_extended_iff (h : |y| < limit) :
    ((y : WithTop ℚ) : WithBot (WithTop ℚ)) ≤ extended x ↔ y ≤ nearest x := by
  obtain ⟨hlo, hhi⟩ := abs_lt.mp h
  unfold extended
  split_ifs with hbot htop
  · simpa using hbot.trans_lt hlo
  · simpa using hhi.le.trans htop
  · rw [WithBot.coe_le_coe, WithTop.coe_le_coe]

theorem extended_le_coe_iff (h : |y| < limit) :
    extended x ≤ ((y : WithTop ℚ) : WithBot (WithTop ℚ)) ↔ nearest x ≤ y := by
  obtain ⟨hlo, hhi⟩ := abs_lt.mp h
  unfold extended
  split_ifs with hbot htop
  · simpa using hbot.trans hlo.le
  · simpa using hhi.trans_le htop
  · rw [WithBot.coe_le_coe, WithTop.coe_le_coe]

end Binary64
