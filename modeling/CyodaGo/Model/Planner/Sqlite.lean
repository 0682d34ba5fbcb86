import CyodaGo.Model.Planner.Plan

/-! # The SQLite planner

`json_extract` keeps the storage class of a stored scalar, so the class of a bound operand
matters. Placeholders are `?`. -/

namespace CyodaGo.Planner.Sqlite

open Schema (DataType)
open Sql

/-- `divThousand` is integer division by 1000. -/
inductive Fn where
  | instr
  | substr
  | length
  | neg
  | divThousand
  deriving DecidableEq

/-! ## Fields -/

def directMetaColumns : List String :=
  ["entity_id", "tenant_id", "model_name", "model_version", "version", "deleted", "created_at",
    "updated_at"]

def metaBlobKey : String → Option String
  | "state" => some "state"
  | "creationDate" => some "creation_date"
  | "lastUpdateTime" => some "last_modified_date"
  | "transitionForLatestSave" => some "transition_for_latest_save"
  | "transactionId" => some "transaction_id"
  | _ => none

def jsonExtract (col key : String) : String := "json_extract(json(" ++ col ++ "), '$." ++ key ++ "')"

def fieldExpr (l : Leaf) : String :=
  match l.source with
  | .sourceMeta =>
    if l.path = "id" then "entity_id"
    else
      match metaBlobKey l.path with
      | some key => jsonExtract "meta" key
      | none =>
        if l.path ∈ directMetaColumns then l.path
        else "json_extract(json(meta), '$." ++ l.path ++ "')"
  | .sourceData => "json_extract(data, '$." ++ l.path ++ "')"

/-! ## Operands -/

def isTextStorageClass : DataType → Bool
  | .string | .character | .uuid | .timeUUID | .byteArray => true
  | _ => false

def operandText : Operand → String
  | .nil => ""
  | v => v.sprint

/-- Numbers are bound natively: as an integer if spelled as one, else as the nearest double. -/
def bindArg : Operand → Arg
  | .number n =>
    match int64? n with
    | some i => .int64 i
    | none =>
      match float64? n with
      | some x => .float64 x
      | none => .nil
  | v => v.arg

def comparisonBind (l : Leaf) (v : Operand) : Arg :=
  match l.declared with
  | [dt] => if isTextStorageClass dt then .string (operandText v) else bindArg v
  | _ => bindArg v

/-! ## Leaves -/

variable (spi : Spi) (col : Expr String Fn Unit)

def isLeafPushable (l : Leaf) : Bool :=
  if !isPushable l.op then false
  else if pathHasWildcard spi l.path then false
  else if l.coercion = .coerceTemporal then
    !(l.source = .sourceData ∧ isComparisonOp l.op)
  else !(isComparisonOp l.op && l.declared.length > 1)

/-- `(col IS NOT NULL AND col r ?)` -/
def guarded (r : Rel) : Pred String Fn Unit := .both (.isNotNull col) (.rel r col (.param ()))

/-- `(col IS NOT NULL AND col BETWEEN ? AND ?)` -/
def guardedBetween : Pred String Fn Unit :=
  .both (.isNotNull col) (.between col (.param ()) (.param ()))

/-- `(col IS NULL OR col != ?)` -/
def nullOrNe : Pred String Fn Unit := .either (.isNull col) (.rel .ne col (.param ()))

def sqlOpForTemporal : FilterOp → Option Rel
  | .eq => some .eq
  | .gt => some .ge
  | .lt => some .le
  | .gte => some .ge
  | .lte => some .le
  | _ => none

/-- A failed parse counts as 0. -/
def millis (v : Operand) : Arg := .int64 ((spi.parseTemporalMillis v.sprint).getD 0)

def temporalLeafToSQL (l : Leaf) : Pred String Fn Unit × List Arg :=
  let col := .app1 .divThousand (.col (fieldExpr l))
  match l.op with
  | .between | .betweenInclusive =>
    match l.values with
    | lo :: hi :: _ => (guardedBetween col, [millis spi lo, millis spi hi])
    | _ => (.const false, [])
  | .ne => (nullOrNe col, [millis spi l.value])
  | op =>
    match sqlOpForTemporal op with
    | none => (.const true, [])
    | some r => (guarded col r, [millis spi l.value])

/-- Strict comparisons are relaxed: stored values may collide with the operand once rounded. -/
def leafToSQL (l : Leaf) : Pred String Fn Unit × List Arg :=
  let col := .col (fieldExpr l)
  match l.op with
  | .isNull => (.isNull col, [])
  | .notNull => (.isNotNull col, [])
  | op =>
    if l.coercion = .coerceTemporal then temporalLeafToSQL spi l
    else
      match op with
      | .eq => (guarded col .eq, [comparisonBind l l.value])
      | .ne => (nullOrNe col, [comparisonBind l l.value])
      | .gt => (guarded col .ge, [comparisonBind l l.value])
      | .lt => (guarded col .le, [comparisonBind l l.value])
      | .gte => (guarded col .ge, [comparisonBind l l.value])
      | .lte => (guarded col .le, [comparisonBind l l.value])
      | .contains => (.rel .gt (.app2 .instr col (.param ())) (.int 0), [l.value.arg])
      | .startsWith =>
        (.rel .eq (.app3 .substr col (.int 1) (.app1 .length (.param ()))) (.param ()),
          [l.value.arg, l.value.arg])
      | .endsWith =>
        (.rel .eq (.app2 .substr col (.app1 .neg (.app1 .length (.param ())))) (.param ()),
          [l.value.arg, l.value.arg])
      | .like => (.like col (.param ()), [.string (escapeLike l.value.sprint)])
      | .between | .betweenInclusive =>
        match l.values with
        | lo :: hi :: _ => (guardedBetween col, [comparisonBind l lo, comparisonBind l hi])
        | _ => (.const false, [])
      | _ => (.const true, [])

end CyodaGo.Planner.Sqlite
