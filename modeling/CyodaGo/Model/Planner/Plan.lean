import CyodaGo.Model.Planner.Filter
import CyodaGo.Shared.Sql

/-! # Translating filter leaves into search conditions

What the planners of the two SQL backends have in common. -/

namespace CyodaGo.Planner

open Sql

/-- A value bound to a placeholder. A `float64` stands for its finite value. -/
inductive Arg where
  | nil
  | string (s : String)
  | number (n : Decimal.Literal)
  | bool (b : Bool)
  | int64 (i : Int64)
  | float64 (x : ℚ)

namespace Operand

def arg : Operand → Arg
  | .nil => .nil
  | .string s => .string s
  | .number n => .number n
  | .bool b => .bool b

/-- `fmt.Sprint` -/
def sprint : Operand → String
  | .nil => "<nil>"
  | .string s => s
  | .number n => String.ofList n.text
  | .bool b => if b then "true" else "false"

end Operand

/-- `json.Number.Int64` -/
def int64? (n : Decimal.Literal) : Option Int64 :=
  n.int?.bind fun k => if -2 ^ 63 ≤ k ∧ k < 2 ^ 63 then some (Int64.ofInt k) else none

/-- `json.Number.Float64`, which fails on overflow. -/
def float64? (n : Decimal.Literal) : Option ℚ := Binary64.ofRat n.value

/-! ## Leaves -/

def isPushable : FilterOp → Bool
  | .eq | .gt | .lt | .gte | .lte | .contains | .startsWith | .endsWith | .isNull | .notNull
  | .between | .betweenInclusive => true
  | _ => false

def isComparisonOp : FilterOp → Bool
  | .eq | .ne | .gt | .lt | .gte | .lte | .between | .betweenInclusive => true
  | _ => false

/-- A path that does not parse counts as one with a wildcard. -/
def pathHasWildcard (spi : Spi) (path : String) : Bool :=
  match spi.parseFilterPath path with
  | none => true
  | some hops => hops.any fun hop => hop.subs.any (·.wildcard)

/-- Backslashes first, so that the escapes are not escaped again. -/
def escapeLike (s : String) : String :=
  ((s.replace "\\" "\\\\").replace "%" "\\%").replace "_" "\\_"

end CyodaGo.Planner
