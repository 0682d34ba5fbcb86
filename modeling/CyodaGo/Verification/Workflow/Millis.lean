import CyodaGo.Model.Workflow.Millis
import CyodaGo.Shared.Wrapped

/-! # Schedules that the milliseconds can hold

Where the sums and differences of a schedule leave the range of `int64` they wrap around, so that a
far future becomes the past. -/

namespace CyodaGo.Workflow

open Wrapped

/-! ## What the result of a function means -/

def ResolvedSchedule.map {T U : Type} (f : T → U) : ResolvedSchedule T → ResolvedSchedule U
  | .armed scheduledTime timeoutMs => .armed (f scheduledTime) (timeoutMs.map f)
  | .bornExpired => .bornExpired

namespace ScheduleValue

section Generic

variable {T U : Type}

def map (f : T → U) (s : ScheduleValue T) : ScheduleValue U :=
  ⟨s.fireAt.map f, s.fireAfterMs.map f, s.expireAt.map f, s.expireAfterMs.map f⟩

def wellFormed (s : ScheduleValue T) : Bool :=
  s.fireAt.isNone ≠ s.fireAfterMs.isNone ∧ ¬ (s.expireAt.isSome ∧ s.expireAfterMs.isSome)

variable [Add T] [Sub T] [LE T] [DecidableLE T]

/-- What a fire time and an expiry come to. -/
def settled (sched : T) : Option T → ResolvedSchedule T
  | none => .armed sched none
  | some e => if e ≤ sched then .bornExpired else .armed sched (some (e - sched))

theorem resolveSchedule_of_wellFormed {s : ScheduleValue T} (h : s.wellFormed = true) {armMs sched : T}
    (hsched : (s.fireAt.or (s.fireAfterMs.map (armMs + ·))).getD armMs = sched) :
    resolveSchedule (some s) armMs =
      .ok (settled sched (s.expireAt.or (s.expireAfterMs.map (sched + ·)))) := by
  simp only [wellFormed, ne_eq, not_and, decide_eq_true_eq] at h
  subst hsched
  rw [resolveSchedule, if_neg h.1, if_neg (by simpa using h.2)]
  dsimp only
  split
  · next hnone => rw [hnone, settled]
  · next e hsome =>
    rw [hsome, settled]
    split <;> rfl

theorem error_of_not_wellFormed {s : ScheduleValue T} (h : ¬ s.wellFormed = true) (armMs : T)
    (r : ResolvedSchedule T) : resolveSchedule (some s) armMs ≠ .ok r := by
  intro hr
  unfold resolveSchedule at hr
  dsimp only at hr
  split at hr
  · cases hr
  split at hr
  · cases hr
  · simp_all [wellFormed]

end Generic

variable (s : ScheduleValue Int64) (armMs : Int64)

def fire : Int := (s.fireAt.map Int64.toInt).getD (armMs.toInt + (s.fireAfterMs.map Int64.toInt).getD 0)

def expiry : Option Int :=
  (s.expireAt.map Int64.toInt).or (s.expireAfterMs.map fun x => s.fire armMs + x.toInt)

/-- The resolved schedule has the mathematical times. -/
def Exact : ResolvedSchedule Int64 → Prop
  | .bornExpired => ∃ e, s.expiry armMs = some e ∧ e ≤ s.fire armMs
  | .armed scheduledTime timeoutMs =>
    scheduledTime.toInt = s.fire armMs ∧
    timeoutMs.map Int64.toInt = (s.expiry armMs).map (· - s.fire armMs) ∧
    ∀ e, s.expiry armMs = some e → s.fire armMs < e

/-- The ranges that the times must lie in. An expiry that is not after the fire time may lie
outside if both do on the same side, or if they are a whole range apart. -/
def Representable : Prop :=
  match s.expiry armMs with
  | none => Fits (s.fire armMs)
  | some e =>
    if e ≤ s.fire armMs then
      Fits e ∧ Fits (s.fire armMs) ∨ 2 ^ 63 ≤ e ∨ s.fire armMs < -2 ^ 63 ∨
        e + 2 ^ 64 ≤ s.fire armMs
    else Fits (s.fire armMs) ∧ Fits e ∧ Fits (e - s.fire armMs)

variable {s armMs}

theorem toInt_sched :
    ((s.fireAt.or (s.fireAfterMs.map (armMs + ·))).getD armMs).toInt = wrap (s.fire armMs) := by
  cases hfire : s.fireAt with
  | some t => simp [fire, hfire, wrap_eq_iff.mpr (fits_toInt t)]
  | none =>
    cases hafter : s.fireAfterMs with
    | none => simp [fire, hfire, hafter, wrap_eq_iff.mpr (fits_toInt armMs)]
    | some x =>
      simp only [fire, hfire, hafter, Option.none_or, Option.getD_none, Option.getD_some,
        Option.map_none, Option.map_some, toInt_add]

theorem toInt_expiry {sched : Int64} (hsched : sched.toInt = wrap (s.fire armMs)) :
    (s.expireAt.or (s.expireAfterMs.map (sched + ·))).map Int64.toInt =
      (s.expiry armMs).map wrap := by
  cases hat : s.expireAt with
  | some t => simp [expiry, hat, wrap_eq_iff.mpr (fits_toInt t)]
  | none =>
    cases hafter : s.expireAfterMs with
    | none => simp [expiry, hat, hafter]
    | some x =>
      simp only [expiry, hat, hafter, Option.none_or, Option.map_none, Option.map_some,
        toInt_add, hsched, wrap_wrap_add]

/-- What two sums of `int64` values can come to. -/
theorem fire_range : -2 ^ 64 ≤ s.fire armMs ∧ s.fire armMs < 2 ^ 64 := by
  have harm := fits_toInt armMs
  cases hfire : s.fireAt with
  | some t =>
    have ht := fits_toInt t
    simp only [fire, hfire, Option.map_some, Option.getD_some, Fits] at ht ⊢
    omega
  | none =>
    cases hafter : s.fireAfterMs with
    | none =>
      simp only [fire, hfire, hafter, Option.map_none, Option.getD_none, Fits] at harm ⊢
      omega
    | some x =>
      have hx := fits_toInt x
      simp only [fire, hfire, hafter, Option.map_none, Option.map_some, Option.getD_none,
        Option.getD_some, Fits] at harm hx ⊢
      omega

theorem expiry_near {e : Int} (h : s.expiry armMs = some e) :
    Fits e ∨ s.fire armMs - e ≤ 2 ^ 63 := by
  cases hat : s.expireAt with
  | some t =>
    simp only [expiry, hat, Option.map_some, Option.some_or, Option.some.injEq] at h
    exact .inl (h ▸ fits_toInt t)
  | none =>
    cases hafter : s.expireAfterMs with
    | none => simp [expiry, hat, hafter] at h
    | some x =>
      simp only [expiry, hat, hafter, Option.map_none, Option.map_some, Option.none_or,
        Option.some.injEq] at h
      have hx := (fits_toInt x).1
      omega

theorem resolve_exact_iff :
    (∀ r, resolveSchedule (some s) armMs = .ok r → s.Exact armMs r) ↔
      (s.wellFormed = true → s.Representable armMs) := by
  by_cases hwell : s.wellFormed = true
  · obtain ⟨sched, heq⟩ : ∃ t, (s.fireAt.or (s.fireAfterMs.map (armMs + ·))).getD armMs = t := ⟨_, rfl⟩
    have hsched : sched.toInt = wrap (s.fire armMs) := heq ▸ toInt_sched
    have hexpiry := toInt_expiry hsched
    have hresolve := resolveSchedule_of_wellFormed hwell heq
    generalize s.expireAt.or (s.expireAfterMs.map (sched + ·)) = expiry at hexpiry hresolve
    simp only [hresolve, settled, Except.ok.injEq, forall_eq', hwell, true_imp_iff]
    unfold Representable
    cases hmath : s.expiry armMs with
    | none =>
      obtain rfl : expiry = none := by simpa [hmath] using hexpiry
      simp [Exact, hmath, hsched, wrap_eq_iff]
    | some e =>
      obtain ⟨e', rfl, he'⟩ : ∃ e', expiry = some e' ∧ e'.toInt = wrap e := by
        simpa [hmath, Option.map_eq_some_iff] using hexpiry
      simp only [Int64.le_iff_toInt_le, he', hsched]
      by_cases hborn : e ≤ s.fire armMs
      · simp only [if_pos hborn, ← wrap_le_wrap_iff hborn (expiry_near hmath) fire_range]
        by_cases hwrap : wrap e ≤ wrap (s.fire armMs)
        · simp [hwrap, hborn, Exact, hmath]
        · simp [hwrap, hborn, Exact, hmath]
      · have hexact := sub_exact_iff (not_le.mp hborn)
        by_cases hwrap : wrap e ≤ wrap (s.fire armMs)
        · simp [hwrap, hborn, Exact, hmath, ← hexact, not_lt.mpr hwrap]
        have hgap : (e' - sched).toInt = wrap (wrap e - wrap (s.fire armMs)) := by
          rw [toInt_sub, he', hsched]
        simp [hwrap, hborn, Exact, hmath, ← hexact, hgap, hsched, not_le.mp hborn,
          not_le.mp hwrap, -Int64.toInt_sub]
  · simp [hwell, error_of_not_wellFormed hwell armMs]

/-- The model of the engine, which resolves with integers, gives the mathematical times. -/
theorem exact_iff_resolveSchedule (h : s.wellFormed = true) (r : ResolvedSchedule Int64) :
    s.Exact armMs r ↔
      resolveSchedule (some (s.map Int64.toInt)) armMs.toInt = .ok (r.map Int64.toInt) := by
  have hmap : (s.map Int64.toInt).wellFormed = true := by simpa [wellFormed, map] using h
  have hfire : ((s.map Int64.toInt).fireAt.or
      ((s.map Int64.toInt).fireAfterMs.map (armMs.toInt + ·))).getD armMs.toInt = s.fire armMs := by
    cases hat : s.fireAt <;> cases hafter : s.fireAfterMs <;> simp [map, fire, hat, hafter]
  have hexpiry : (s.map Int64.toInt).expireAt.or
      ((s.map Int64.toInt).expireAfterMs.map (s.fire armMs + ·)) = s.expiry armMs := by
    simp [map, expiry, Function.comp_def]
  rw [resolveSchedule_of_wellFormed hmap hfire, hexpiry, Except.ok.injEq]
  cases hmath : s.expiry armMs with
  | none => cases r <;> simp [Exact, hmath, settled, ResolvedSchedule.map, eq_comm]
  | some e =>
    by_cases hborn : e ≤ s.fire armMs
    · cases r <;> simp [Exact, hmath, settled, hborn, ResolvedSchedule.map]
    · cases r <;> simp [Exact, hmath, settled, hborn, ResolvedSchedule.map, not_le.mp hborn, eq_comm]

end ScheduleValue

namespace Millis

/-! ## The fire path -/

theorem fireGate_expired_iff (nowMs scheduledTime timeout graceMs : Int64) :
    fireGate nowMs scheduledTime (some timeout) graceMs = .expired ↔
      scheduledTime.toInt ≤ nowMs.toInt ∧
        wrap (timeout.toInt + graceMs.toInt) < wrap (nowMs.toInt - scheduledTime.toInt) := by
  unfold fireGate
  simp only [Int64.lt_iff_toInt_lt, toInt_add, toInt_sub]
  split
  · simp; omega
  split
  · simp [*]; omega
  · split <;> simp [*]

/-- The ranges in which the gate tells expired tasks from others as the mathematical times do.
For a task that is due, the lateness and the limit both fit, or both lie above, or one of them
lies outside and the lateness is more than a whole range above the limit. -/
def GateExact (nowMs scheduledTime timeout graceMs : Int64) : Prop :=
  let lateness := nowMs.toInt - scheduledTime.toInt
  let limit := timeout.toInt + graceMs.toInt
  if nowMs < scheduledTime then lateness ≤ limit
  else
    Fits limit ∧ Fits lateness ∨ 2 ^ 63 ≤ limit ∧ 2 ^ 63 ≤ lateness ∨
      limit + 2 ^ 64 < lateness ∧ (limit < -2 ^ 63 ↔ lateness < 2 ^ 63)

/-- A delay accepted at import arms the mathematical time exactly when it fits; a result of a
function is resolved exactly, if at all, when its times are representable; and the fire path
expires a task exactly when it is mathematically too late, where lateness and limit lie in ranges
that keep them in order. -/
theorem schedule_exact_iff (armMs : Int64) (sch : Schedule)
    (haccepted : validateSchedule false sch = .ok ()) (hstatic : sch.function = none)
    (s : ScheduleValue Int64) (nowMs scheduledTime timeout graceMs : Int64) :
    ((∃ t, armStatic sch armMs = .armed t sch.timeoutMs ∧ t.toInt = armMs.toInt + sch.delayMs.toInt) ↔
      armMs.toInt + sch.delayMs.toInt < 2 ^ 63) ∧
    ((∀ r, resolveSchedule (some s) armMs = .ok r → s.Exact armMs r) ↔
      (s.wellFormed = true → s.Representable armMs)) ∧
    ((fireGate nowMs scheduledTime (some timeout) graceMs = .expired ↔
      timeout.toInt + graceMs.toInt < nowMs.toInt - scheduledTime.toInt) ↔
      GateExact nowMs scheduledTime timeout graceMs) := by
  refine ⟨?_, ScheduleValue.resolve_exact_iff, ?_⟩
  · have hdelay : 0 < sch.delayMs.toInt := by
      by_contra hneg
      simp [validateSchedule, hstatic, Int64.lt_iff_toInt_lt, hneg] at haccepted
    have harm := armMs.le_toInt
    simp only [armStatic, ResolvedSchedule.armed.injEq, and_true, exists_eq_left', toInt_add,
      wrap_eq_iff, Fits]
    omega
  · rw [fireGate_expired_iff, GateExact]
    split
    · next hfuture =>
      rw [Int64.lt_iff_toInt_lt] at hfuture
      omega
    · next hdue =>
      rw [Int64.lt_iff_toInt_lt] at hdue
      obtain ⟨k, hk, hlimit⟩ := exists_wrap (timeout.toInt + graceMs.toInt)
      obtain ⟨l, hl, hlateness⟩ := exists_wrap (nowMs.toInt - scheduledTime.toInt)
      have := fits_toInt nowMs
      have := fits_toInt scheduledTime
      have := fits_toInt timeout
      have := fits_toInt graceMs
      simp only [Fits] at *
      omega

namespace Sample

/-- The time of arming. -/
def noon : Int64 := 1700000000000

def relative : ScheduleValue Int64 := ⟨none, some 1000, none, some 500⟩

end Sample

open Sample in
theorem schedule_exact_sample :
    (∃ t, armStatic ⟨60000, some 5000, none⟩ noon = .armed t (some 5000) ∧
      t.toInt = noon.toInt + 60000) ∧
    (∀ r, resolveSchedule (some relative) noon = .ok r → relative.Exact noon r) ∧
    (fireGate (noon + 7000) noon (some 1000) 5000 = .expired ↔ (1000 : Int) + 5000 < 7000) := by
  obtain ⟨harm, hresolve, hgate⟩ := schedule_exact_iff noon ⟨60000, some 5000, none⟩
    (by decide) rfl relative (noon + 7000) noon 1000 5000
  refine ⟨harm.mpr (by decide), hresolve.mpr fun _ => ?_, hgate.mpr ?_⟩
  · change Fits _ ∧ Fits _ ∧ Fits _
    decide +kernel
  · change Fits _ ∧ Fits _ ∨ _
    decide +kernel

open Sample in
/-- The longest delay that is accepted fires in the past, as the longest `fireAfterMs` does; a
distant expiry counts as expired at birth; and a task with the longest timeout expires when it is
due. -/
theorem schedule_wraps_around :
    (validateSchedule false ⟨9223372036854775807, none, none⟩ = .ok () ∧
      armStatic ⟨9223372036854775807, none, none⟩ noon = .armed (-9223370336854775809) none) ∧
    resolveSchedule (some ⟨none, some 9223372036854775807, none, none⟩) noon =
      .ok (.armed (-9223370336854775809) none) ∧
    resolveSchedule (some ⟨none, some 1000, none, some 9223372036854775807⟩) noon =
      .ok .bornExpired ∧
    fireGate noon noon (some 9223372036854775807) 5000 = .expired := by
  decide +kernel

end Millis

end CyodaGo.Workflow
