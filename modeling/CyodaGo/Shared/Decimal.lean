import Mathlib.Algebra.Order.Field.Rat
import Mathlib.Data.Fin.Basic
import Mathlib.Data.Nat.Log
import Mathlib.Tactic.Linarith
import Mathlib.Tactic.Ring
import Mathlib.Tactic.FieldSimp

/-! # Decimal literals

Numbers as they are spelled: an optional minus, digits, an optional fraction and an optional
exponent. -/

namespace Decimal

abbrev Digit := Fin 10

def char (d : Digit) : Char := Nat.digitChar d

def digit? (c : Char) : Option Digit := (List.finRange 10).find? fun d => char d = c

@[simp] theorem digit?_char (d : Digit) : digit? (char d) = some d := by
  revert d
  decide

/-- At least one digit, the most significant one first. -/
structure Digits where
  head : Digit
  tail : List Digit
  deriving DecidableEq

namespace Digits

def toList (ds : Digits) : List Digit := ds.head :: ds.tail

def text (ds : Digits) : List Char := ds.toList.map char

end Digits

variable (ds : List Digit) (cs : List Char) (n : ℕ)

def natOf : ℕ := ds.foldl (fun n d => 10 * n + d.val) 0

/-- `sign` is `some true` for a minus and `some false` for a plus. -/
structure Exponent where
  upper : Bool
  sign : Option Bool
  digits : Digits
  deriving DecidableEq

namespace Exponent

def toInt (e : Exponent) : ℤ :=
  if e.sign = some true then -natOf e.digits.toList else natOf e.digits.toList

def signText : Option Bool → List Char
  | none => []
  | some true => ['-']
  | some false => ['+']

def text (e : Exponent) : List Char :=
  (if e.upper then 'E' else 'e') :: (signText e.sign ++ e.digits.text)

end Exponent

structure Literal where
  negative : Bool
  whole : Digits
  fraction : Option Digits
  exponent : Option Exponent
  deriving DecidableEq

namespace Literal

variable (l : Literal)

def fractionDigits : List Digit := (l.fraction.map Digits.toList).getD []

def mantissa : ℕ := natOf (l.whole.toList ++ l.fractionDigits)

/-- The power of ten of the last digit. -/
def scale : ℤ := (l.exponent.map Exponent.toInt).getD 0 - l.fractionDigits.length

def value : ℚ := (if l.negative then -1 else 1) * (l.mantissa * 10 ^ l.scale)

def text : List Char :=
  (if l.negative then ['-'] else []) ++
    (l.whole.text ++
      ((l.fraction.map fun ds => '.' :: ds.text).getD [] ++
        (l.exponent.map Exponent.text).getD []))

/-- The integer, if the literal is spelled as one. -/
def int? : Option ℤ :=
  if l.fraction = none ∧ l.exponent = none then
    some (if l.negative then -l.mantissa else l.mantissa)
  else none

theorem value_of_int? {l : Literal} {k : ℤ} (h : l.int? = some k) : l.value = k := by
  unfold int? at h
  split at h
  · next hplain =>
    cases h
    have hscale : l.scale = 0 := by simp [scale, fractionDigits, hplain.1, hplain.2]
    rw [value, hscale]
    cases l.negative <;> simp
  · cases h

end Literal

/-! ## Reading -/

def spanDigits : List Char → List Digit × List Char
  | [] => ([], [])
  | c :: cs =>
    match digit? c with
    | some d => (d :: (spanDigits cs).1, (spanDigits cs).2)
    | none => ([], c :: cs)

def takeDigits : Option (Digits × List Char) :=
  match spanDigits cs with
  | ([], _) => none
  | (d :: ds, rest) => some (⟨d, ds⟩, rest)

def takeMinus : List Char → Bool × List Char
  | '-' :: cs => (true, cs)
  | cs => (false, cs)

def takeSign : List Char → Option Bool × List Char
  | '-' :: cs => (some true, cs)
  | '+' :: cs => (some false, cs)
  | cs => (none, cs)

def takeFraction : List Char → Option (Option Digits × List Char)
  | '.' :: cs => (takeDigits cs).map fun p => (some p.1, p.2)
  | cs => some (none, cs)

def takeExponent : List Char → Option (Option Exponent × List Char)
  | [] => some (none, [])
  | c :: cs =>
    if c = 'e' ∨ c = 'E' then
      (takeDigits (takeSign cs).2).map fun p =>
        (some ⟨decide (c = 'E'), (takeSign cs).1, p.1⟩, p.2)
    else some (none, c :: cs)

/-- `-?[0-9]+(\.[0-9]+)?([eE][-+]?[0-9]+)?`, from the first character to the last. -/
def parse : Option Literal := do
  let (whole, rest) ← takeDigits (takeMinus cs).2
  let (fraction, rest) ← takeFraction rest
  let (exponent, rest) ← takeExponent rest
  if rest = [] then some ⟨(takeMinus cs).1, whole, fraction, exponent⟩ else none

/-- The text does not go on with a digit. -/
def Stops : Prop := ∀ c ∈ cs.head?, digit? c = none

theorem spanDigits_append {rest : List Char} (h : Stops rest) :
    spanDigits (ds.map char ++ rest) = (ds, rest) := by
  induction ds with
  | nil =>
    cases rest with
    | nil => rfl
    | cons c cs =>
      have hc := h c rfl
      simp [spanDigits, hc]
  | cons d ds ih => simp [spanDigits, ih]

theorem takeDigits_append (ds : Digits) {rest : List Char} (h : Stops rest) :
    takeDigits (ds.text ++ rest) = some (ds, rest) := by
  rw [takeDigits, Digits.text, spanDigits_append _ h]
  rfl

theorem char_ne {d : Digit} {c : Char} (h : digit? c = none) : char d ≠ c := by
  rintro rfl
  simp at h

theorem takeMinus_text (negative : Bool) (ds : Digits) (rest : List Char) :
    takeMinus ((if negative then ['-'] else []) ++ (ds.text ++ rest)) =
      (negative, ds.text ++ rest) := by
  cases negative with
  | true => rfl
  | false =>
    have hne := char_ne (d := ds.head) (c := '-') (by decide)
    simp only [Bool.false_eq_true, if_false, List.nil_append, Digits.text, Digits.toList,
      List.map_cons, List.cons_append]
    unfold takeMinus
    split
    · next heq => exact absurd (List.cons.inj heq).1 hne
    · rfl

theorem takeSign_text (sign : Option Bool) (ds : Digits) (rest : List Char) :
    takeSign (Exponent.signText sign ++ (ds.text ++ rest)) = (sign, ds.text ++ rest) := by
  cases sign with
  | some minus => cases minus <;> rfl
  | none =>
    have hminus := char_ne (d := ds.head) (c := '-') (by decide)
    have hplus := char_ne (d := ds.head) (c := '+') (by decide)
    simp only [Exponent.signText, List.nil_append, Digits.text, Digits.toList, List.map_cons,
      List.cons_append]
    unfold takeSign
    split
    · next heq => exact absurd (List.cons.inj heq).1 hminus
    · next heq => exact absurd (List.cons.inj heq).1 hplus
    · rfl

theorem takeExponent_text (exponent : Option Exponent) :
    takeExponent ((exponent.map Exponent.text).getD []) = some (exponent, []) := by
  cases exponent with
  | none => rfl
  | some e =>
    have hletter : (if e.upper then 'E' else 'e') = 'e' ∨ (if e.upper then 'E' else 'e') = 'E' := by
      cases e.upper <;> simp
    have hsign := takeSign_text e.sign e.digits []
    rw [List.append_nil] at hsign
    have hdigits : takeDigits (e.digits.text ++ []) = some (e.digits, []) :=
      takeDigits_append e.digits (by simp [Stops])
    rw [List.append_nil] at hdigits
    simp only [Option.map_some, Option.getD_some, Exponent.text, takeExponent, if_pos hletter,
      hsign, hdigits]
    obtain ⟨upper, sign, digits⟩ := e
    cases upper <;> simp

theorem stops_exponent (exponent : Option Exponent) :
    Stops ((exponent.map Exponent.text).getD []) := by
  cases exponent with
  | none => simp [Stops]
  | some e =>
    intro c hc
    simp only [Option.map_some, Option.getD_some, Exponent.text, List.head?_cons,
      Option.mem_some_iff] at hc
    subst hc
    cases e.upper <;> decide

theorem takeFraction_text (fraction : Option Digits) (exponent : Option Exponent) :
    takeFraction ((fraction.map fun ds => '.' :: ds.text).getD [] ++
      (exponent.map Exponent.text).getD []) =
        some (fraction, (exponent.map Exponent.text).getD []) := by
  cases fraction with
  | some ds =>
    simp only [Option.map_some, Option.getD_some, List.cons_append, takeFraction]
    rw [takeDigits_append ds (stops_exponent exponent)]
    rfl
  | none =>
    cases exponent with
    | none => rfl
    | some e =>
      simp only [Option.map_none, Option.getD_none, List.nil_append, Option.map_some,
        Option.getD_some, Exponent.text]
      cases e.upper <;> rfl

/-- A literal is read back from its text. -/
theorem parse_text (l : Literal) : parse l.text = some l := by
  obtain ⟨negative, whole, fraction, exponent⟩ := l
  have hstops : Stops ((fraction.map fun ds => '.' :: ds.text).getD [] ++
      (exponent.map Exponent.text).getD []) := by
    cases fraction with
    | none => exact stops_exponent exponent
    | some ds =>
      intro c hc
      simp only [Option.map_some, Option.getD_some, List.cons_append, List.head?_cons,
        Option.mem_some_iff] at hc
      subst hc
      decide
  unfold parse Literal.text
  simp only [takeMinus_text, takeDigits_append whole hstops, Option.bind_eq_bind,
    Option.bind_some, takeFraction_text, takeExponent_text, if_true]

/-! ## Without an exponent -/

theorem natOf_append (es : List Digit) :
    natOf (ds ++ es) = natOf ds * 10 ^ es.length + natOf es := by
  have hfold : ∀ (es : List Digit) (n : ℕ),
      es.foldl (fun n d => 10 * n + d.val) n = n * 10 ^ es.length + natOf es := by
    intro es
    induction es with
    | nil => simp [natOf]
    | cons e es ih =>
      intro n
      rw [natOf, List.foldl_cons, List.foldl_cons, ih, ih, List.length_cons]
      ring
  rw [natOf, List.foldl_append, hfold, ← natOf]

/-- The last `width` digits. -/
def fixed : ℕ → ℕ → List Digit
  | 0, _ => []
  | width + 1, n => fixed width (n / 10) ++ [Fin.ofNat 10 n]

@[simp] theorem length_fixed (width n : ℕ) : (fixed width n).length = width := by
  induction width generalizing n with
  | zero => rfl
  | succ width ih => simp [fixed, ih]

theorem natOf_fixed (width n : ℕ) : natOf (fixed width n) = n % 10 ^ width := by
  induction width generalizing n with
  | zero => simp [fixed, natOf, Nat.mod_one]
  | succ width ih =>
    rw [fixed, natOf_append, ih, pow_succ', Nat.mod_mul]
    simp [natOf, Fin.ofNat]
    ring

def digitsOf : Digits :=
  match ds with
  | [] => ⟨0, []⟩
  | d :: ds => ⟨d, ds⟩

@[simp] theorem toList_digitsOf {ds : List Digit} (h : ds ≠ []) : (digitsOf ds).toList = ds := by
  cases ds with
  | nil => exact absurd rfl h
  | cons d ds => rfl

/-- The digits of a number, without leading zeros. -/
def decimal : Digits := digitsOf (fixed (Nat.log 10 n + 1) n)

theorem natOf_decimal : natOf (decimal n).toList = n := by
  have hne : fixed (Nat.log 10 n + 1) n ≠ [] := by
    intro hnil
    simpa [hnil] using (length_fixed (Nat.log 10 n + 1) n)
  rw [decimal, toList_digitsOf hne, natOf_fixed,
    Nat.mod_eq_of_lt (Nat.lt_pow_succ_log_self (by norm_num) n)]

namespace Literal

/-- The same number without an exponent. -/
def plain (l : Literal) : Literal :=
  let negative := l.negative && l.mantissa != 0
  if 0 ≤ l.scale then ⟨negative, decimal (l.mantissa * 10 ^ l.scale.toNat), none, none⟩
  else
    let width := (-l.scale).toNat
    ⟨negative, decimal (l.mantissa / 10 ^ width), some (digitsOf (fixed width l.mantissa)), none⟩

theorem value_eq_of {l l' : Literal} (hneg : l'.negative = (l.negative && l.mantissa != 0))
    (h : (l'.mantissa * 10 ^ l'.scale : ℚ) = l.mantissa * 10 ^ l.scale) : l'.value = l.value := by
  rw [value, value, h, hneg]
  by_cases hzero : l.mantissa = 0
  · simp [hzero]
  · simp [hzero]

theorem plain_value (l : Literal) : l.plain.value = l.value := by
  unfold plain
  dsimp only
  split
  · next hscale =>
    refine value_eq_of rfl ?_
    have hzero : (⟨l.negative && l.mantissa != 0, decimal (l.mantissa * 10 ^ l.scale.toNat), none,
        none⟩ : Literal).scale = 0 := rfl
    have hmantissa : (⟨l.negative && l.mantissa != 0, decimal (l.mantissa * 10 ^ l.scale.toNat),
        none, none⟩ : Literal).mantissa = l.mantissa * 10 ^ l.scale.toNat := by
      rw [mantissa]
      simp [fractionDigits, natOf_decimal]
    obtain ⟨n, hn⟩ := Int.eq_ofNat_of_zero_le hscale
    rw [hzero, hmantissa, hn]
    simp
  · next hscale =>
    refine value_eq_of rfl ?_
    have hwidth : ((-l.scale).toNat : ℤ) = -l.scale := Int.toNat_of_nonneg (by omega)
    generalize (-l.scale).toNat = width at hwidth
    have hne : fixed width l.mantissa ≠ [] := by
      intro hnil
      have hlength := length_fixed width l.mantissa
      rw [hnil, List.length_nil] at hlength
      omega
    rw [scale, mantissa]
    simp only [fractionDigits, Option.map_some, Option.getD_some, toList_digitsOf hne,
      length_fixed, natOf_append, natOf_decimal, natOf_fixed, Option.map_none, Option.getD_none]
    rw [Nat.div_add_mod', show l.scale = 0 - (width : ℤ) by omega]

end Literal

end Decimal
