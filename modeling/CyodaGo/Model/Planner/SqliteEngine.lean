import CyodaGo.Model.Planner.Kernel
import CyodaGo.Model.Planner.Sqlite
import Mathlib.Data.Sum.Order
import Mathlib.Order.WithBot

/-! # Values and functions of SQLite

The storage classes, their order, and the functions that the planner uses, as SQLite documents
them. -/

namespace CyodaGo.Planner.Sqlite

open Sql

/-- A `real` may be infinite. -/
inductive Value where
  | null
  | integer (i : Int)
  | real (x : WithBot (WithTop ℚ))
  | text (s : String)

/-- Every number stands before every text; integers and reals compare by exact value. -/
def Value.key : Value → Option (WithBot (WithTop ℚ) ⊕ₗ String)
  | .null => none
  | .integer i => some (toLex (.inl (((i : ℚ) : WithTop ℚ) : WithBot (WithTop ℚ))))
  | .real x => some (toLex (.inl x))
  | .text s => some (toLex (.inr s))

/-- A comparison with `NULL` is unknown. -/
def Value.rel (r : Rel) (a b : Value) : Truth :=
  match a.key, b.key with
  | some x, some y => some (r.holds x y)
  | _, _ => none

/-! ## Functions -/

/-- The position of the first occurrence, counted from 1, or 0. -/
def instr (t : List Char) : List Char → Nat
  | [] => if t <+: [] then 1 else 0
  | c :: s =>
    if t <+: c :: s then 1
    else
      match instr t s with
      | 0 => 0
      | k + 1 => k + 2

/-- The characters before the first U+0000, which ends a text for `length` and `substr`, but not
for `instr` and `=`. -/
def beforeNul (s : List Char) : List Char := s.takeWhile (· ≠ '\x00')

/-- Characters from the `y`-th on, a negative `y` counted from the right. -/
def substrFrom (s : List Char) (y : Int) : List Char :=
  if 0 < y then (beforeNul s).drop (y.toNat - 1)
  else if y < 0 then (beforeNul s).drop ((beforeNul s).length - (-y).toNat)
  else beforeNul s

/-- `z` characters from the `y`-th on, for a positive `y` and `z` not negative. -/
def substr (s : List Char) (y z : Int) : List Char := (substrFrom s y).take z.toNat

def length (s : List Char) : Nat := (beforeNul s).length

/-- What the development leaves open: the text form of a real and the `LIKE` operator. -/
structure Library where
  realText : WithBot (WithTop ℚ) → String
  like : Value → Value → Truth

def Library.toText (lib : Library) : Value → Option String
  | .null => none
  | .integer i => some (toString i)
  | .real x => some (lib.realText x)
  | .text s => some s

def Library.app (lib : Library) : Fn → List Value → Value
  | .instr, [x, y] =>
    match lib.toText x, lib.toText y with
    | some s, some t => .integer (instr t.toList s.toList)
    | _, _ => .null
  | .substr, [x, .integer y] =>
    match lib.toText x with
    | some s => .text (String.ofList (substrFrom s.toList y))
    | none => .null
  | .substr, [x, .integer y, .integer z] =>
    match lib.toText x with
    | some s => .text (String.ofList (substr s.toList y z))
    | none => .null
  | .length, [x] =>
    match lib.toText x with
    | some s => .integer (length s.toList)
    | none => .null
  | .neg, [.integer i] => .integer (-i)
  | .divThousand, [.integer i] => .integer (i.tdiv 1000)
  | _, _ => .null

def Library.dialect (lib : Library) : Dialect Fn Value where
  int := .integer
  app := lib.app
  isNull := fun v => v.key.isNone
  rel := Value.rel
  like := lib.like

/-! ## Rows and arguments -/

/-- `json_extract`: an integer literal that fits 64 bits is an `INTEGER`, every other number a
`REAL`. -/
def jsonExtractScalar : Scalar → Value
  | .number n =>
    match int64? n with
    | some i => .integer i.toInt
    | none => .real (Binary64.extended n.value)
  | .string s => .text s
  | .bool b => .integer (if b then 1 else 0)

/-- The driver binds a `json.Number` as text and a `bool` as 1 or 0. -/
def bindValue : Arg → Value
  | .nil => .null
  | .string s => .text s
  | .number n => .text (String.ofList n.text)
  | .bool b => .integer (if b then 1 else 0)
  | .int64 i => .integer i.toInt
  | .float64 x => .real ((x : WithTop ℚ) : WithBot (WithTop ℚ))

end CyodaGo.Planner.Sqlite
