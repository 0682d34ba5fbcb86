import CyodaGo.Model.Planner.Plan

/-! # The Postgres planner

`->>` turns every stored scalar into text. Placeholders are numbered `$1`, `$2`, … over the whole
condition. -/

namespace CyodaGo.Planner.Postgres

open Sql

/-- `castFloat8` is `::float8` and `collateC` is `COLLATE "C"`. -/
inductive Fn where
  | tryFloat8
  | epochMillis
  | castFloat8
  | collateC
  | strpos
  | substr
  | length
  | right
  | charLength
  deriving DecidableEq

/-! ## Fields -/

def directMetaColumns : List String :=
  ["entity_id", "tenant_id", "model_name", "model_version", "version", "deleted"]

def metaJSONKey : String → Option String
  | "state" => some "state"
  | "creationDate" => some "creation_date"
  | "lastUpdateTime" => some "last_modified_date"
  | "transitionForLatestSave" => some "transition"
  | "transactionId" => some "transaction_id"
  | _ => none

/-- A wildcard has no accessor and discards the whole path. -/
def pathAccessors (hops : List PathHop) : List String :=
  if hops.any fun hop => hop.subs.any (·.wildcard) then []
  else
    hops.flatMap fun hop =>
      ("'" ++ hop.name ++ "'") :: hop.subs.map fun sub => toString sub.index

/-- All accessors but the last use `->`. -/
def accessors (root : String) : List String → String
  | [] => root
  | [last] => root ++ "->>" ++ last
  | step :: steps => accessors (root ++ "->" ++ step) steps

variable (spi : Spi)

def jsonbExtractText (root path : String) : String :=
  match (spi.parseFilterPath path).map pathAccessors with
  | none => root ++ "->>''"
  | some [] => root ++ "->>''"
  | some steps => accessors root steps

def fieldExpr (l : Leaf) : String :=
  match l.source with
  | .sourceMeta =>
    if l.path = "id" then "entity_id"
    else
      match metaJSONKey l.path with
      | some key => jsonbExtractText spi "doc->'_meta'" key
      | none =>
        if l.path ∈ directMetaColumns then l.path
        else jsonbExtractText spi "doc->'_meta'" l.path
  | .sourceData => jsonbExtractText spi "doc" l.path

/-! ## Operands -/

def isNumericValue : Operand → Bool
  | .number _ => true
  | _ => false

def numericArg : Operand → Arg
  | .number n =>
    match float64? n with
    | some x => .float64 x
    | none => .nil
  | v => v.arg

def textArg : Operand → Arg
  | .bool b => .string (if b then "true" else "false")
  | v => v.arg

/-! ## Leaves -/

def isLeafPushable (l : Leaf) : Bool :=
  if !isPushable l.op then false
  else if pathHasWildcard spi l.path then false
  else
    !(l.coercion = .coerceTemporal ∧ l.source = .sourceData ∧ isComparisonOp l.op)

def orderExpr (l : Leaf) (numeric : Bool) : Expr String Fn Nat :=
  if numeric then .app1 .tryFloat8 (.col (fieldExpr spi l)) else .col (fieldExpr spi l)

/-- A leaf's SQL, its arguments and the placeholder counter after it. -/
abbrev LeafSql := (Pred String Fn Nat × List Arg) × Nat

/-- `(col IS NOT NULL AND lhs r rhs)` -/
def guarded (col lhs : Expr String Fn Nat) (r : Rel) (rhs : Expr String Fn Nat) :
    Pred String Fn Nat :=
  .both (.isNotNull col) (.rel r lhs rhs)

def orderingOp (l : Leaf) (r : Rel) (counter : Nat) : LeafSql :=
  let numeric := isNumericValue l.value
  let col := orderExpr spi l numeric
  let p := .param (counter + 1)
  if numeric then ((guarded col col r (.app1 .castFloat8 p), [numericArg l.value]), counter + 1)
  else ((guarded col (.app1 .collateC col) r p, [textArg l.value]), counter + 1)

def sqlOpForTemporal : FilterOp → Rel
  | .gt => .ge
  | .lt => .le
  | .gte => .ge
  | .lte => .le
  | _ => .eq

/-- A failed parse counts as 0. -/
def millis (v : Operand) : Arg := .int64 ((spi.parseTemporalMillis v.sprint).getD 0)

def temporalLeafToSQL (l : Leaf) (counter : Nat) : LeafSql :=
  let col := .app1 .epochMillis (.col (fieldExpr spi l))
  match l.op with
  | .between | .betweenInclusive =>
    match l.values with
    | lo :: hi :: _ =>
      ((.both (.isNotNull col) (.between col (.param (counter + 1)) (.param (counter + 2))),
        [millis spi lo, millis spi hi]), counter + 2)
    | _ => ((.const false, []), counter)
  | .ne =>
    ((.either (.isNull col) (.rel .ne col (.param (counter + 1))), [millis spi l.value]),
      counter + 1)
  | op =>
    ((guarded col col (sqlOpForTemporal op) (.param (counter + 1)), [millis spi l.value]),
      counter + 1)

def eqOp (l : Leaf) (counter : Nat) : LeafSql :=
  let numeric := isNumericValue l.value
  let col := orderExpr spi l numeric
  let p := .param (counter + 1)
  if numeric then
    ((guarded col col .eq (.app1 .castFloat8 p), [numericArg l.value]), counter + 1)
  else ((guarded col col .eq p, [textArg l.value]), counter + 1)

def neOp (l : Leaf) (counter : Nat) : LeafSql :=
  let numeric := isNumericValue l.value
  let col := orderExpr spi l numeric
  let p := .param (counter + 1)
  if numeric then
    ((.either (.isNull col) (.rel .ne col (.app1 .castFloat8 p)), [numericArg l.value]),
      counter + 1)
  else ((.either (.isNull col) (.rel .ne col p), [textArg l.value]), counter + 1)

def betweenOp (l : Leaf) (counter : Nat) : LeafSql :=
  match l.values with
  | lo :: hi :: _ =>
    let numeric := isNumericValue lo && isNumericValue hi
    let col := orderExpr spi l numeric
    let p1 := .param (counter + 1)
    let p2 := .param (counter + 2)
    if numeric then
      ((.both (.isNotNull col) (.between col (.app1 .castFloat8 p1) (.app1 .castFloat8 p2)),
        [numericArg lo, numericArg hi]), counter + 2)
    else
      ((.both (.isNotNull col) (.between (.app1 .collateC col) p1 p2), [textArg lo, textArg hi]),
        counter + 2)
  | _ => ((.const false, []), counter)

/-- Strict comparisons are relaxed: stored values may collide with the operand once rounded. -/
def leafToSQL (l : Leaf) (counter : Nat) : LeafSql :=
  let col := .col (fieldExpr spi l)
  let p1 := .param (counter + 1)
  let p2 := .param (counter + 2)
  let sv := Arg.string l.value.sprint
  match l.op with
  | .isNull => ((.isNull col, []), counter)
  | .notNull => ((.isNotNull col, []), counter)
  | op =>
    if l.coercion = .coerceTemporal then temporalLeafToSQL spi l counter
    else
      match op with
      | .eq => eqOp spi l counter
      | .ne => neOp spi l counter
      | .gt => orderingOp spi l .ge counter
      | .lt => orderingOp spi l .le counter
      | .gte => orderingOp spi l .ge counter
      | .lte => orderingOp spi l .le counter
      | .contains => ((.rel .gt (.app2 .strpos col p1) (.int 0), [sv]), counter + 1)
      | .startsWith =>
        ((.rel .eq (.app3 .substr col (.int 1) (.app1 .length p1)) p2, [sv, sv]), counter + 2)
      | .endsWith =>
        ((.rel .eq (.app2 .right col (.app1 .charLength p1)) p2, [sv, sv]), counter + 2)
      | .like => ((.like col p1, [.string (escapeLike l.value.sprint)]), counter + 1)
      | .between | .betweenInclusive => betweenOp spi l counter
      | _ => ((.const true, []), counter)

end CyodaGo.Planner.Postgres
