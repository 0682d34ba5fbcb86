import CyodaGo.Model.Planner.Postgres
import CyodaGo.Model.Planner.Sqlite

/-! # Database engines

When the SQL of a leaf with its arguments is true on a row. -/

namespace CyodaGo.Planner

open Sql

variable {Row F : Type}

/-- A database engine: its functions and comparisons, what a column expression reads from a row,
and the value of a bound argument. -/
structure Engine (F Row : Type) where
  Value : Type
  dialect : Dialect F Value
  column : Row → String → Value
  bind : Arg → Value

namespace Engine

variable (e : Engine F Row)

/-- The first argument is bound to the placeholder 1. -/
def truth (args : List Arg) (row : Row) (q : Pred String F Nat) : Truth :=
  q.eval e.dialect (e.column row) fun n => e.bind (args.getD (n - 1) .nil)

def leafHolds (sql : Leaf → Pred String F Nat × List Arg) (l : Leaf) (row : Row) : Bool :=
  e.truth (sql l).2 row (sql l).1 = some true

end Engine

/-- The SQL of a leaf with its placeholders numbered. -/
def Sqlite.numberedLeaf (spi : Spi) (l : Leaf) : Pred String Sqlite.Fn Nat × List Arg :=
  ((Sqlite.leafToSQL spi l).1.number 0, (Sqlite.leafToSQL spi l).2)

end CyodaGo.Planner
