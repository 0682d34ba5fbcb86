import CyodaGo.Model.Planner.Kernel
import CyodaGo.Model.Planner.Postgres
import Mathlib.Data.String.Basic

/-! # Values and functions of Postgres

Every stored scalar is read as text; numbers are compared as `float8`. -/

namespace CyodaGo.Planner.Postgres

open Sql

inductive Value where
  | null
  | int (i : Int)
  | float8 (x : ℚ)
  | text (s : String)

/-- Texts compare by their bytes. -/
def Value.rel (r : Rel) : Value → Value → Truth
  | .int i, .int j => some (r.holds i j)
  | .float8 x, .float8 y => some (r.holds x y)
  | .text s, .text t => some (r.holds s t)
  | _, _ => none

/-! ## Functions -/

/-- The cast of a numeral to `float8` fails on overflow and on underflow to zero. -/
def InRange (x : ℚ) : Prop := Binary64.Finite x ∧ (x = 0 ∨ Binary64.nearest x ≠ 0)

instance (x : ℚ) : Decidable (InRange x) := inferInstanceAs (Decidable (_ ∧ _))

/-- `cyoda_try_float8` -/
def cyodaTryFloat8 (t : String) : Value :=
  match Decimal.parse t.toList with
  | some n => if InRange n.value then .float8 (Binary64.nearest n.value) else .null
  | none => .null

/-- What the development leaves open: the functions on texts and times and the `LIKE` operator. -/
structure Library where
  call : Fn → List Value → Value
  like : Value → Value → Truth

def Library.app (lib : Library) : Fn → List Value → Value
  | .tryFloat8, [.text t] => cyodaTryFloat8 t
  | .tryFloat8, _ => .null
  | .castFloat8, [.float8 x] => .float8 x
  | .castFloat8, _ => .null
  | .collateC, [x] => x
  | f, xs => lib.call f xs

def Library.dialect (lib : Library) : Dialect Fn Value where
  int := .int
  app := lib.app
  isNull := fun
    | .null => true
    | _ => false
  rel := Value.rel
  like := lib.like

/-! ## Rows and arguments -/

/-- `->>`: a number is written without an exponent. -/
def jsonbText : Scalar → String
  | .number n => String.ofList n.plain.text
  | .string s => s
  | .bool b => if b then "true" else "false"

/-- A text argument with U+0000 is refused. -/
def bindText (s : String) : Value := if '\x00' ∈ s.toList then .null else .text s

def bindValue : Arg → Value
  | .nil => .null
  | .string s => bindText s
  | .number n => bindText (String.ofList n.text)
  | .bool b => bindText (if b then "true" else "false")
  | .int64 i => .int i.toInt
  | .float64 x => .float8 x

end CyodaGo.Planner.Postgres
