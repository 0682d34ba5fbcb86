import CyodaGo.Verification.Dispatch.Replay
import CyodaGo.Shared.Wrapped
import Mathlib.Algebra.Order.Group.Unbundled.Abs
import Mathlib.Algebra.Order.Group.Int

/-! # How exact the skew check is

The absolute difference is computed from a saturated duration. A timestamp more than 292 years
ahead saturates at the smallest duration, which is its own negation: the difference stays
negative, and the check passes. -/

namespace CyodaGo.Dispatch

open Wrapped (wrap Fits)

/-- Readings of a clock whose nanoseconds since 1970 are 64 bits wide: up to the year 2262. -/
def PresentEra (now : Int) : Prop := 0 ≤ now ∧ now < 2 ^ 63

/-- The mathematical time that a header value stands for. -/
def stamped (tsUnix : Int64) : Int := tsUnix.toInt * 1000000000

/-- The seconds wrap only at the end of the range, and then lie before every year. -/
theorem timeUnix_cases (tsUnix : Int64) :
    timeUnix tsUnix = stamped tsUnix ∨
      timeUnix tsUnix < -2 ^ 64 ∧ 2 ^ 65 < stamped tsUnix := by
  have hyear : (62135596800 : Int64).toInt = 62135596800 := by decide
  have hsum := Wrapped.toInt_add tsUnix 62135596800
  have hfits := Wrapped.fits_toInt tsUnix
  obtain ⟨k, hk, hwrap⟩ := Wrapped.exists_wrap (tsUnix.toInt + (62135596800 : Int64).toInt)
  simp only [timeUnix, stamped, hsum, Fits, hyear] at hfits hk hwrap ⊢
  omega

/-- The difference as the check computes it. -/
theorem toInt_absDiff (t u : Int) :
    (if timeSub t u < 0 then -timeSub t u else timeSub t u).toInt =
      if t - u ≤ -2 ^ 63 then -2 ^ 63 else min (2 ^ 63 - 1) |t - u| := by
  rw [abs_eq_max_neg]
  have hsub := toInt_timeSub t u
  have hzero : (0 : Int64).toInt = 0 := by decide
  by_cases hneg : timeSub t u < 0
  · rw [if_pos hneg]
    rw [Int64.lt_iff_toInt_lt, hzero] at hneg
    obtain ⟨k, hk, hfits⟩ := Wrapped.exists_wrap (-(timeSub t u).toInt)
    have hnegated : (-timeSub t u).toInt = wrap (-(timeSub t u).toInt) := Int64.toInt_neg _
    rw [hnegated]
    simp only [Fits] at hfits
    split <;> omega
  · rw [if_neg hneg]
    rw [Int64.lt_iff_toInt_lt, hzero] at hneg
    split <;> omega

theorem verifyTimestamp_passes {a : AEADPeerAuth} {now : Int} {r : Request} {tsUnix : Int64}
    (hparse : parseInt r.timestamp = some tsUnix) :
    (∃ ts, a.verifyTimestamp now r = .ok ts) ↔
      (if timeSub now (timeUnix tsUnix) < 0 then -timeSub now (timeUnix tsUnix)
        else timeSub now (timeUnix tsUnix)).toInt ≤ a.skew.toInt := by
  have hpresent : r.timestamp ≠ [] := by
    intro h
    simp [h, parseInt, parseUint] at hparse
  simp only [AEADPeerAuth.verifyTimestamp, hpresent, if_false, hparse, gt_iff_lt]
  generalize (if timeSub now (timeUnix tsUnix) < 0 then -timeSub now (timeUnix tsUnix)
    else timeSub now (timeUnix tsUnix)) = diff
  rw [← Int.not_lt, ← Int64.lt_iff_toInt_lt]
  by_cases h : a.skew < diff <;> simp [h]

/-- The check agrees with the mathematical distance exactly when this distance is a duration, or
the timestamp, as `time.Unix` reads it, lies in the past and the skew is not the largest
duration. -/
theorem skew_check_exact_iff (a : AEADPeerAuth) (now : Int) (r : Request) (tsUnix : Int64)
    (hnow : PresentEra now) (hparse : parseInt r.timestamp = some tsUnix) :
    ((∃ ts, a.verifyTimestamp now r = .ok ts) ↔ |now - stamped tsUnix| ≤ a.skew.toInt) ↔
      |now - stamped tsUnix| < 2 ^ 63 ∨
        (timeUnix tsUnix < now ∧ a.skew.toInt < 2 ^ 63 - 1) := by
  obtain ⟨hpast, hfuture⟩ := hnow
  have hmax := Wrapped.fits_toInt a.skew
  rw [verifyTimestamp_passes hparse, toInt_absDiff]
  simp only [abs_eq_max_neg]
  simp only [Fits] at hmax
  rcases timeUnix_cases tsUnix with h | h
  · rw [h]
    split <;> omega
  · split <;> omega

namespace Sample

/-- Noon of a day in 2023. -/
def noon : Int := seconds 1700000000

def stampedRequest (timestamp : Bytes) : Request := { request with timestamp }

/-- "1700000010", ten seconds ahead of `noon`. -/
def ahead : Bytes := [49, 55, 48, 48, 48, 48, 48, 48, 49, 48]

/-- "99999999999", in the year 5138. -/
def farAhead : Bytes := [57, 57, 57, 57, 57, 57, 57, 57, 57, 57, 57]

end Sample

open Sample in
theorem skew_check_exact_ahead :
    (∃ ts, auth.verifyTimestamp noon (stampedRequest ahead) = .ok ts) ↔
      |noon - stamped 1700000010| ≤ auth.skew.toInt :=
  (skew_check_exact_iff auth noon (stampedRequest ahead) 1700000010 (by unfold PresentEra; decide)
    (by decide)).mpr (.inl (by decide))

open Sample in
/-- With a skew of thirty seconds, a timestamp three thousand years ahead passes. -/
theorem far_future_passes :
    PresentEra noon ∧ parseInt farAhead = some 99999999999 ∧
      auth.verifyTimestamp noon (stampedRequest farAhead) = .ok (stamped 99999999999) ∧
      auth.skew.toInt = seconds 30 ∧ seconds 30 < |noon - stamped 99999999999| := by
  refine ⟨by unfold PresentEra; decide, by decide, by decide +kernel, by decide, by decide⟩

end CyodaGo.Dispatch
