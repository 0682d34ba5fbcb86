import Mathlib.Data.BitVec

/-! # Unsigned varints

Seven bits a byte, lowest first; every byte but the last has its high bit set. A reader takes
at most ten bytes, which together hold no more than 64 bits. -/

namespace Uvarint

def maxLen : ℕ := 10

def put (x : BitVec 64) : List UInt8 :=
  if x < 0x80 then [⟨x.setWidth 8⟩] else ⟨x.setWidth 8 ||| 0x80⟩ :: put (x >>> 7)
termination_by x.toNat
decreasing_by
  have hx : ¬ x.toNat < 128 := by simpa [BitVec.lt_def] using ‹¬ x < 0x80›
  rw [BitVec.toNat_ushiftRight, Nat.shiftRight_eq_div_pow]
  omega

/-- The value at the front and the number of bytes that it takes. That number is `0` when the
bytes end too early, and negative when the value is too large. -/
def readFrom (x : BitVec 64) (i : ℕ) : List UInt8 → BitVec 64 × ℤ
  | [] => (0, 0)
  | b :: bs =>
    if i = maxLen then (0, -(i + 1))
    else if b < 0x80 then
      if i = maxLen - 1 ∧ b > 1 then (0, -(i + 1))
      else (x ||| b.toBitVec.setWidth 64 <<< (7 * i), i + 1)
    else readFrom (x ||| (b &&& 0x7f).toBitVec.setWidth 64 <<< (7 * i)) (i + 1) bs

def read (bs : List UInt8) : BitVec 64 × ℤ := readFrom 0 0 bs

variable (x : BitVec 64) (bs : List UInt8)

theorem readFrom_le_length (i : ℕ) (bs : List UInt8) : (readFrom x i bs).2 ≤ i + bs.length := by
  induction bs generalizing x i with
  | nil =>
    simp only [readFrom, List.length_nil]
    omega
  | cons b bs ih =>
    rw [readFrom, List.length_cons]
    split
    · omega
    split
    · split <;> simp only <;> omega
    have h := ih (x ||| (b &&& 0x7f).toBitVec.setWidth 64 <<< (7 * i)) (i + 1)
    omega

theorem readFrom_le_maxLen {i : ℕ} (hi : i ≤ maxLen) (bs : List UInt8) :
    (readFrom x i bs).2 ≤ maxLen := by
  induction bs generalizing x i with
  | nil => simp [readFrom]
  | cons b bs ih =>
    rw [readFrom]
    split
    · omega
    split
    · split <;> simp only <;> omega
    · exact ih _ (by omega)

theorem read_le_length : (read bs).2 ≤ bs.length := by
  have h := readFrom_le_length 0 0 bs
  rw [read]
  omega

theorem read_le_maxLen : (read bs).2 ≤ maxLen := readFrom_le_maxLen 0 (by omega) bs

theorem put_length_pos : 0 < (put x).length := by
  rw [put]
  split <;> simp

theorem getLsbD_low (j : ℕ) : (0x7f : BitVec 8).getLsbD j = decide (j < 7) := by
  have hbyte : ∀ j : Fin 8, (0x7f : BitVec 8).getLsbD j = decide (j.val < 7) := by decide
  rcases Nat.lt_or_ge j 8 with hj | hj
  · exact hbyte ⟨j, hj⟩
  rw [BitVec.getLsbD_of_ge _ _ hj, eq_comm, decide_eq_false_iff_not]
  omega

/-- The seven low bits of a byte, and what is left after them. -/
theorem or_shiftLeft_low_high (s : ℕ) :
    (x.setWidth 8 &&& 0x7f).setWidth 64 <<< s ||| (x >>> 7) <<< (s + 7) = x <<< s := by
  apply BitVec.eq_of_getLsbD_eq
  intro k hk
  simp only [BitVec.getLsbD_or, BitVec.getLsbD_shiftLeft, BitVec.getLsbD_setWidth,
    BitVec.getLsbD_and, BitVec.getLsbD_ushiftRight, getLsbD_low, hk, decide_true, Bool.true_and]
  rcases Nat.lt_or_ge k s with hlt | hge
  · have hlt' : k < s + 7 := by omega
    simp [hlt, hlt']
  rcases Nat.lt_or_ge k (s + 7) with hlow | hhigh
  · simp [hge.not_gt, hlow, show k - s < 7 by omega, show k - s < 8 by omega,
      show k - s < 64 by omega]
  simp [hge.not_gt, hhigh.not_gt, show ¬ k - s < 7 by omega,
    show 7 + (k - (s + 7)) = k - s by omega]

theorem low_of_continued (y : BitVec 8) : (y ||| 0x80) &&& 0x7f = y &&& 0x7f := by
  apply BitVec.eq_of_getLsbD_eq
  intro k hk
  have hhigh : (0x80 : BitVec 8).getLsbD k = decide (k = 7) := by
    have hbyte : ∀ j : Fin 8, (0x80 : BitVec 8).getLsbD j = decide (j.val = 7) := by decide
    exact hbyte ⟨k, hk⟩
  rw [BitVec.getLsbD_and, BitVec.getLsbD_or, BitVec.getLsbD_and, getLsbD_low, hhigh]
  by_cases h : k < 7
  · simp [h, h.ne]
  · simp [h]

theorem readFrom_put_append (a x : BitVec 64) {i : ℕ} (hi : i < maxLen)
    (hx : x.toNat * 2 ^ (7 * i) < 2 ^ 64) (rest : List UInt8) :
    readFrom a i (put x ++ rest) = (a ||| x <<< (7 * i), (i : ℤ) + (put x).length) := by
  fun_induction put x generalizing a i with
  | case1 x hlow =>
    have hlow : x.toNat < 128 := by simpa [BitVec.lt_def] using hlow
    have hbyte : (x.setWidth 8).setWidth 64 = x := by
      apply BitVec.eq_of_toNat_eq
      simp only [BitVec.toNat_setWidth]
      omega
    have hfirst : (⟨x.setWidth 8⟩ : UInt8) < 0x80 := by
      rw [UInt8.lt_iff_toNat_lt]
      simpa using by omega
    have hlast : ¬ (i = maxLen - 1 ∧ (⟨x.setWidth 8⟩ : UInt8) > 1) := by
      rintro ⟨rfl, hgt⟩
      have hgt : 1 < x.toNat % 256 := by simpa [UInt8.lt_iff_toNat_lt] using hgt
      simp only [maxLen] at hx
      omega
    simp [readFrom, hi.ne, hfirst, hlast, hbyte]
  | case2 x hhigh ih =>
    have hhigh : 128 ≤ x.toNat := by simpa [BitVec.lt_def] using hhigh
    have hnext : (x >>> 7).toNat * 2 ^ (7 * (i + 1)) < 2 ^ 64 := by
      rw [BitVec.toNat_ushiftRight, Nat.shiftRight_eq_div_pow, Nat.mul_add, Nat.add_comm,
        Nat.pow_add, ← Nat.mul_assoc]
      exact (Nat.mul_le_mul_right _ (Nat.div_mul_le_self _ _)).trans_lt hx
    have hmore : i + 1 < maxLen := by
      have hpow : 2 ^ 7 * 2 ^ (7 * i) < 2 ^ 64 := (Nat.mul_le_mul_right _ hhigh).trans_lt hx
      rw [← Nat.pow_add, Nat.pow_lt_pow_iff_right (by decide)] at hpow
      simp only [maxLen]
      omega
    have hbyte : ¬ (⟨x.setWidth 8 ||| 0x80⟩ : UInt8) < 0x80 := by
      rw [UInt8.lt_iff_toNat_lt, Nat.not_lt]
      exact Nat.right_le_or
    have hlow : ((⟨x.setWidth 8 ||| 0x80⟩ : UInt8) &&& 0x7f).toBitVec = x.setWidth 8 &&& 0x7f :=
      low_of_continued _
    rw [List.cons_append, readFrom, if_neg hi.ne, if_neg hbyte, ih _ hmore hnext, hlow,
      BitVec.or_assoc, Nat.mul_add, or_shiftLeft_low_high, List.length_cons]
    push_cast
    rw [add_assoc, add_comm (1 : ℤ)]

/-- What was written is read back, whatever follows. -/
theorem read_put_append (rest : List UInt8) : read (put x ++ rest) = (x, ((put x).length : ℤ)) := by
  have hx : x.toNat * 2 ^ (7 * 0) < 2 ^ 64 := by simpa using x.isLt
  simpa [read] using readFrom_put_append 0 x (by decide) hx rest

end Uvarint
