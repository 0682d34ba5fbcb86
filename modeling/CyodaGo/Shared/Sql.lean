import Mathlib.Data.List.Basic
import Mathlib.Data.List.Range
import Mathlib.Logic.Basic
import Mathlib.Order.Defs.LinearOrder
import Mathlib.Order.Lattice

/-! # Search conditions of SQL

Comparisons over columns and parameters, and their three-valued truth. The engine's values and
functions are parameters. -/

namespace Sql

/-! ## Three-valued truth -/

/-- `none` is unknown. -/
abbrev Truth := Option Bool

def Truth.and : Truth → Truth → Truth
  | some true, q => q
  | some false, _ => some false
  | none, some false => some false
  | none, _ => none

def Truth.or : Truth → Truth → Truth
  | some false, q => q
  | some true, _ => some true
  | none, some true => some true
  | none, _ => none

@[simp] theorem Truth.and_eq_true {p q : Truth} :
    p.and q = some true ↔ p = some true ∧ q = some true := by
  rcases p with _ | _ | _ <;> rcases q with _ | _ | _ <;> decide

/-! ## Expressions and comparisons -/

/-- Columns `C`, functions `F` and placeholders `P`. -/
inductive Expr (C F P : Type) where
  | col (c : C)
  | param (p : P)
  | int (n : Int)
  | app1 (f : F) (a : Expr C F P)
  | app2 (f : F) (a b : Expr C F P)
  | app3 (f : F) (a b c : Expr C F P)

inductive Rel where
  | eq | ne | gt | ge | le
  deriving DecidableEq

def Rel.holds {α : Type*} [LinearOrder α] : Rel → α → α → Bool
  | .eq, a, b => a = b
  | .ne, a, b => a ≠ b
  | .gt, a, b => b < a
  | .ge, a, b => b ≤ a
  | .le, a, b => a ≤ b

inductive Pred (C F P : Type) where
  | isNull (a : Expr C F P)
  | isNotNull (a : Expr C F P)
  | rel (r : Rel) (a b : Expr C F P)
  | between (a lo hi : Expr C F P)
  | like (a pattern : Expr C F P)
  | both (p q : Pred C F P)
  | either (p q : Pred C F P)
  | const (b : Bool)

/-- What an engine makes of its functions and comparisons. -/
structure Dialect (F V : Type) where
  int : Int → V
  app : F → List V → V
  isNull : V → Bool
  rel : Rel → V → V → Truth
  like : V → V → Truth

variable {C F P Q V : Type}

namespace Expr

@[simp] def eval (D : Dialect F V) (column : C → V) (value : P → V) : Expr C F P → V
  | .col c => column c
  | .param p => value p
  | .int n => D.int n
  | .app1 f a => D.app f [a.eval D column value]
  | .app2 f a b => D.app f [a.eval D column value, b.eval D column value]
  | .app3 f a b c =>
    D.app f [a.eval D column value, b.eval D column value, c.eval D column value]

/-- The placeholders, in the order of the text. -/
@[simp] def params : Expr C F P → List P
  | .col _ => []
  | .param p => [p]
  | .int _ => []
  | .app1 _ a => a.params
  | .app2 _ a b => a.params ++ b.params
  | .app3 _ a b c => a.params ++ (b.params ++ c.params)

/-- Anonymous placeholders get the numbers after `k`, from left to right. -/
@[simp] def number (k : Nat) : Expr C F Unit → Expr C F Nat
  | .col c => .col c
  | .param _ => .param (k + 1)
  | .int n => .int n
  | .app1 f a => .app1 f (a.number k)
  | .app2 f a b => .app2 f (a.number k) (b.number (k + a.params.length))
  | .app3 f a b c =>
    .app3 f (a.number k) (b.number (k + a.params.length))
      (c.number (k + a.params.length + b.params.length))

end Expr

namespace Pred

/-- `a BETWEEN lo AND hi` is `a >= lo AND a <= hi`. -/
@[simp] def eval (D : Dialect F V) (column : C → V) (value : P → V) : Pred C F P → Truth
  | .isNull a => some (D.isNull (a.eval D column value))
  | .isNotNull a => some (!D.isNull (a.eval D column value))
  | .rel r a b => D.rel r (a.eval D column value) (b.eval D column value)
  | .between a lo hi =>
    (D.rel .ge (a.eval D column value) (lo.eval D column value)).and
      (D.rel .le (a.eval D column value) (hi.eval D column value))
  | .like a pattern => D.like (a.eval D column value) (pattern.eval D column value)
  | .both p q => (p.eval D column value).and (q.eval D column value)
  | .either p q => (p.eval D column value).or (q.eval D column value)
  | .const b => some b

def params : Pred C F P → List P
  | .isNull a => a.params
  | .isNotNull a => a.params
  | .rel _ a b => a.params ++ b.params
  | .between a lo hi => a.params ++ (lo.params ++ hi.params)
  | .like a pattern => a.params ++ pattern.params
  | .both p q => p.params ++ q.params
  | .either p q => p.params ++ q.params
  | .const _ => []

@[simp] def number (k : Nat) : Pred C F Unit → Pred C F Nat
  | .isNull a => .isNull (a.number k)
  | .isNotNull a => .isNotNull (a.number k)
  | .rel r a b => .rel r (a.number k) (b.number (k + a.params.length))
  | .between a lo hi =>
    .between (a.number k) (lo.number (k + a.params.length))
      (hi.number (k + a.params.length + lo.params.length))
  | .like a pattern => .like (a.number k) (pattern.number (k + a.params.length))
  | .both p q => .both (p.number k) (q.number (k + p.params.length))
  | .either p q => .either (p.number k) (q.number (k + p.params.length))
  | .const b => .const b

end Pred

end Sql
