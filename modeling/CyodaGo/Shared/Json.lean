import Mathlib.Algebra.Field.Rat
import Mathlib.Data.Nat.Digits.Defs

/-! # JSON numbers

How a number is written, in bytes, and what it denotes. -/

namespace CyodaGo.Json

def byte (c : Char) : UInt8 := c.toUInt8

/-! ## Numbers -/

abbrev Digit := Fin 10

def Digit.byte (d : Digit) : UInt8 := UInt8.ofNat (48 + d)

/-- At least one digit. -/
abbrev Digits := { ds : List Digit // ds ≠ [] }

/-- The number the digits write, most significant first. -/
def natOf (ds : List Digit) : ℕ := Nat.ofDigits 10 (ds.reverse.map Fin.val)

structure Exponent where
  upper : Bool
  /-- The sign, if one is written; `true` is a minus. -/
  sign : Option Bool
  digits : Digits

namespace Exponent

def signBytes : Option Bool → List UInt8
  | none => []
  | some true => [Json.byte '-']
  | some false => [Json.byte '+']

def bytes (e : Exponent) : List UInt8 :=
  Json.byte (if e.upper then 'E' else 'e') :: (signBytes e.sign ++ e.digits.1.map Digit.byte)

def value (e : Exponent) : ℤ :=
  if e.sign = some true then -(natOf e.digits.1 : ℤ) else natOf e.digits.1

end Exponent

structure Number where
  negative : Bool
  int : Digits
  /-- A leading zero stands alone. -/
  canonical : int.1.head? = some 0 → int.1 = [0]
  frac : Option Digits
  exp : Option Exponent

namespace Number

variable (n : Number)

def fraction : List Digit := (n.frac.map Subtype.val).getD []

def bytes : List UInt8 :=
  (if n.negative then [Json.byte '-'] else []) ++ n.int.1.map Digit.byte ++
    (n.frac.elim [] fun ds => Json.byte '.' :: ds.1.map Digit.byte) ++
    n.exp.elim [] Exponent.bytes

def exponent : ℤ := n.exp.elim 0 Exponent.value

/-- The digits before and after the point, read as one natural number. -/
def coefficient : ℕ := natOf (n.int.1 ++ n.fraction)

def value : ℚ :=
  (if n.negative then -1 else 1) * n.coefficient * 10 ^ (n.exponent - n.fraction.length)

end Number

end CyodaGo.Json
