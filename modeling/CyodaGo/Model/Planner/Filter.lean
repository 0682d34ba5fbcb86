import CyodaGo.Model.Schema.Node
import CyodaGo.Shared.Binary64
import CyodaGo.Shared.Decimal

/-! # Filter leaves and the kernel that decides them -/

namespace CyodaGo.Planner

open Schema (DataType)

/-- `unset` is the empty operator of a zero filter. -/
inductive FilterOp where
  | unset
  | eq | ne | gt | lt | gte | lte | between | betweenInclusive
  | isNull | notNull
  | contains | notContains | startsWith | notStartsWith | endsWith | notEndsWith
  | like | matchesRegex
  | ieq | ine | icontains | inotContains | istartsWith | inotStartsWith | iendsWith | inotEndsWith
  deriving DecidableEq

inductive FilterSource where
  | sourceData
  | sourceMeta
  deriving DecidableEq

inductive FilterCoercion where
  | coerceNone
  | coerceTemporal
  deriving DecidableEq

/-- The kinds of operand that the predicate parser produces; numbers keep their spelling. -/
inductive Operand where
  | nil
  | string (s : String)
  | number (n : Decimal.Literal)
  | bool (b : Bool)
  deriving DecidableEq

structure Leaf where
  op : FilterOp
  source : FilterSource
  path : String
  value : Operand
  values : List Operand
  declared : List DataType
  coercion : FilterCoercion
  deriving DecidableEq

structure PathSub where
  index : Int
  wildcard : Bool

structure PathHop where
  name : String
  subs : List PathSub

/-- What the planners use of the SPI. -/
structure Spi where
  parseFilterPath : String → Option (List PathHop)
  parseTemporalMillis : String → Option Int64

end CyodaGo.Planner
