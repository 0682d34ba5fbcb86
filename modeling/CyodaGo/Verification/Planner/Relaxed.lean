import CyodaGo.Model.Planner.Kernel
import CyodaGo.Model.Planner.Plan

/-! # The comparisons of a pushed leaf

A pushed comparison is made on images of the stored value and the operand, and strict comparisons
are relaxed. What the kernel matches is related by each of the comparisons that are made. -/

namespace CyodaGo.Planner

open Sql

/-- The SQL comparison that a pushed operator becomes. -/
def relaxed : FilterOp → Option Rel
  | .eq => some .eq
  | .gt => some .ge
  | .lt => some .le
  | .gte => some .ge
  | .lte => some .le
  | _ => none

/-- `a r b`, for the comparisons that are pushed. -/
inductive Ordered {α : Type*} [LinearOrder α] : Rel → α → α → Prop
  | eq (a : α) : Ordered .eq a a
  | ge {a b : α} (h : b ≤ a) : Ordered .ge a b
  | le {a b : α} (h : a ≤ b) : Ordered .le a b

section Ordered

variable {α β : Type*} [LinearOrder α] [LinearOrder β] {r : Rel} {a b : α}

theorem Ordered.holds (h : Ordered r a b) : r.holds a b = true := by
  cases h with
  | eq => exact decide_eq_true rfl
  | ge h => exact decide_eq_true h
  | le h => exact decide_eq_true h

theorem Ordered.map {f : α → β} (hf : Monotone f) (h : Ordered r a b) : Ordered r (f a) (f b) := by
  cases h with
  | eq => exact .eq _
  | ge h => exact .ge (hf h)
  | le h => exact .le (hf h)

theorem ordered_of_compares {op : FilterOp} (hr : relaxed op = some r)
    (h : op.compares a b = true) : Ordered r a b := by
  cases op with
  | eq =>
    cases hr
    exact of_decide_eq_true h ▸ .eq a
  | gt =>
    cases hr
    exact .ge (of_decide_eq_true h : b < a).le
  | lt =>
    cases hr
    exact .le (of_decide_eq_true h : a < b).le
  | gte =>
    cases hr
    exact .ge (of_decide_eq_true h)
  | lte =>
    cases hr
    exact .le (of_decide_eq_true h)
  | _ => cases hr

end Ordered

/-! ## Operands -/

namespace Operand

@[simp] theorem number?_number (n : Decimal.Literal) : (number n).number? = some n.value := by
  rw [number?, text, String.toList_ofList, Decimal.parse_text]
  rfl

@[simp] theorem bool?_bool (b : Bool) : (bool b).bool? = some b := by
  cases b <;> simp [bool?, text]

theorem number?_bool (b : Bool) : (bool b).number? = none := by
  cases b <;> rfl

theorem bool?_number (n : Decimal.Literal) : (number n).bool? = none := by
  have hne : ∀ t : String, Decimal.parse t.toList = none → String.ofList n.text ≠ t := by
    rintro t ht rfl
    rw [String.toList_ofList, Decimal.parse_text] at ht
    cases ht
  rw [bool?, text, if_neg (hne _ rfl), if_neg (hne _ rfl)]

end Operand

/-- The stored value as the kernel relates it to an operand. -/
def Scalar.Related (v : Scalar) (r : Rel) (o : Operand) : Prop :=
  match v with
  | .number n => ∃ q, o.number? = some q ∧ Ordered r n.value q
  | .string s => Ordered r s o.text
  | .bool b => ∃ b', o.bool? = some b' ∧ Ordered r b b'

variable {v : Scalar} {l : Leaf}

theorem Scalar.related_of_compare {op : FilterOp} {r : Rel} {o : Operand} (hr : relaxed op = some r)
    (h : v.compare op o = true) : v.Related r o := by
  cases v with
  | number n =>
    obtain ⟨q, hq, hcompares⟩ := (Option.any_eq_true _ _).mp h
    exact ⟨q, hq, ordered_of_compares hr hcompares⟩
  | string s => exact ordered_of_compares hr h
  | bool b =>
    obtain ⟨b', hb', hcompares⟩ := (Option.any_eq_true _ _).mp h
    exact ⟨b', hb', ordered_of_compares hr hcompares⟩

/-! ## Leaves -/

/-- The comparisons that are made, with their operands. -/
def Leaf.comparisons (l : Leaf) : List (Rel × Operand) :=
  match l.op with
  | .between | .betweenInclusive =>
    match l.values with
    | [lo, hi] => [(.ge, lo), (.le, hi)]
    | _ => []
  | op => ((relaxed op).map fun r => (r, l.value)).toList

def Leaf.operands (l : Leaf) : List Operand := l.comparisons.map (·.2)

theorem Leaf.comparisons_of_relaxed {r : Rel} (h : relaxed l.op = some r) :
    l.comparisons = [(r, l.value)] := by
  cases hop : l.op <;> simp [hop, relaxed] at h <;> simp [comparisons, hop, relaxed, h]

theorem Leaf.comparisons_range (h : l.op = .between ∨ l.op = .betweenInclusive) {lo hi : Operand}
    (hvalues : l.values = [lo, hi]) :
    l.comparisons = [(.ge, lo), (.le, hi)] := by
  rcases h with hop | hop <;> simp [comparisons, hop, hvalues]

theorem Leaf.values_of_range (h : l.op = .between ∨ l.op = .betweenInclusive)
    (hmatch : l.matchScalar v = true) : ∃ lo hi, l.values = [lo, hi] := by
  rcases h with hop | hop
  all_goals
    simp only [matchScalar, hop] at hmatch
    split at hmatch
    · next lo hi hvalues => exact ⟨lo, hi, hvalues⟩
    · cases hmatch

theorem relaxed_or_range {op : FilterOp} (hpush : isPushable op = true)
    (hcomparison : isComparisonOp op = true) :
    (∃ r, relaxed op = some r) ∨ op = .between ∨ op = .betweenInclusive := by
  cases op <;> simp [isPushable, isComparisonOp, relaxed] at hpush hcomparison ⊢

/-- Every comparison that is made relates the stored value to its operand. -/
theorem Leaf.related (hmatch : l.matchScalar v = true) {c : Rel × Operand} (hc : c ∈ l.comparisons)
    : v.Related c.1 c.2 := by
  cases hr : relaxed l.op with
  | some r =>
    rw [comparisons_of_relaxed hr, List.mem_singleton] at hc
    subst hc
    refine Scalar.related_of_compare hr ?_
    cases hop : l.op <;> simp [hop, relaxed] at hr <;> simpa [matchScalar, hop] using hmatch
  | none =>
    have hrange : l.op = .between ∨ l.op = .betweenInclusive := by
      cases hop : l.op <;> simp [hop, relaxed] at hr <;>
        simp [comparisons, hop, relaxed] at hc ⊢
    obtain ⟨lo, hi, hvalues⟩ := values_of_range hrange hmatch
    rw [comparisons_range hrange hvalues] at hc
    have hboth : v.Related .ge lo ∧ v.Related .le hi := by
      rcases hrange with hop | hop
      · have hmatch' : v.compare .gt lo = true ∧ v.compare .lt hi = true := by
          simpa [matchScalar, hop, hvalues] using hmatch
        exact ⟨Scalar.related_of_compare rfl hmatch'.1, Scalar.related_of_compare rfl hmatch'.2⟩
      · have hmatch' : v.compare .gte lo = true ∧ v.compare .lte hi = true := by
          simpa [matchScalar, hop, hvalues] using hmatch
        exact ⟨Scalar.related_of_compare rfl hmatch'.1, Scalar.related_of_compare rfl hmatch'.2⟩
    rcases List.mem_pair.mp hc with rfl | rfl
    · exact hboth.1
    · exact hboth.2

namespace LeafSample

def spi : Spi := ⟨fun _ => some [], fun _ => none⟩

def leaf (op : FilterOp) (o : Operand) (declared : List Schema.DataType) : Leaf :=
  ⟨op, .sourceData, "a", o, [], declared, .coerceNone⟩

def range (lo hi : Operand) (declared : List Schema.DataType) : Leaf :=
  ⟨.between, .sourceData, "a", .nil, [lo, hi], declared, .coerceNone⟩

def natural (n : ℕ) : Decimal.Literal := ⟨false, Decimal.decimal n, none, none⟩

/-- 1e400 -/
def huge : Decimal.Literal :=
  ⟨false, Decimal.decimal 1, none, some ⟨false, none, Decimal.decimal 400⟩⟩

end LeafSample

end CyodaGo.Planner
