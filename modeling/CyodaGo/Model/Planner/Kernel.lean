import CyodaGo.Model.Planner.Filter
import Mathlib.Data.String.Basic
import Mathlib.Data.List.Infix
import Mathlib.Order.BooleanAlgebra.Defs

/-! # Leaves on stored scalars

How the kernel decides a comparison or a text operator on a stored JSON scalar: the kind of the
stored value says how the operand is read. -/

namespace CyodaGo.Planner

open Schema (DataType)

/-- A stored JSON scalar; a number keeps its spelling. -/
inductive Scalar where
  | number (n : Decimal.Literal)
  | string (s : String)
  | bool (b : Bool)
  deriving DecidableEq

def isNumericType : DataType → Bool
  | .integer | .long | .bigInteger | .unboundInteger | .double | .bigDecimal | .unboundDecimal =>
    true
  | _ => false

def isTextType : DataType → Bool
  | .string | .character | .uuid | .timeUUID | .byteArray => true
  | _ => false

/-- The JSON kind in which values of the type are stored; temporal types are left out. -/
def Scalar.isOf (v : Scalar) (dt : DataType) : Bool :=
  match v with
  | .number _ => isNumericType dt
  | .string _ => isTextType dt
  | .bool _ => dt = .boolean

namespace Operand

/-- `spi.OperandString` -/
def text : Operand → String
  | .nil => ""
  | .string s => s
  | .number n => String.ofList n.text
  | .bool b => if b then "true" else "false"

/-- A numeric-looking text counts as the number. -/
def number? (o : Operand) : Option ℚ := (Decimal.parse o.text.toList).map (·.value)

def bool? (o : Operand) : Option Bool :=
  if o.text = "true" then some true else if o.text = "false" then some false else none

end Operand

/-- The six comparisons. -/
def FilterOp.compares {α : Type*} [LinearOrder α] : FilterOp → α → α → Bool
  | .eq, a, b => a = b
  | .ne, a, b => a ≠ b
  | .gt, a, b => b < a
  | .lt, a, b => a < b
  | .gte, a, b => b ≤ a
  | .lte, a, b => a ≤ b
  | _, _, _ => false

/-- Numbers compare by their exact value, texts by their bytes. -/
def Scalar.compare (v : Scalar) (op : FilterOp) (o : Operand) : Bool :=
  match v with
  | .number n => o.number?.any fun q => op.compares n.value q
  | .string s => op.compares s o.text
  | .bool b => o.bool?.any fun b' => op.compares b b'

/-- Text operators apply to stored texts and take the operand's text form. -/
def Scalar.textMatch (v : Scalar) (op : FilterOp) (o : Operand) : Bool :=
  match v with
  | .string s =>
    match op with
    | .contains => o.text.toList <:+: s.toList
    | .startsWith => o.text.toList <+: s.toList
    | .endsWith => o.text.toList <:+ s.toList
    | _ => false
  | _ => false

/-- The kernel on the operators that the planners push. -/
def Leaf.matchScalar (l : Leaf) (v : Scalar) : Bool :=
  match l.op with
  | .isNull => false
  | .notNull => true
  | .contains | .startsWith | .endsWith => v.textMatch l.op l.value
  | .between =>
    match l.values with
    | [lo, hi] => v.compare .gt lo && v.compare .lt hi
    | _ => false
  | .betweenInclusive =>
    match l.values with
    | [lo, hi] => v.compare .gte lo && v.compare .lte hi
    | _ => false
  | op => v.compare op l.value

end CyodaGo.Planner
