import CyodaGo.Model.Planner.PostgresEngine
import CyodaGo.Verification.Planner.Relaxed
import CyodaGo.Verification.Planner.Engine

/-! # Pushed comparisons on Postgres

The form of the SQL follows the operands: numbers are compared as `float8`, everything else as
text. On a stored value that the kernel matches, the comparison holds exactly if this form orders
the stored value as its own kind would be. -/

namespace CyodaGo.Planner.Postgres

open Sql

/-- A row gives the stored scalar under each column expression. -/
def engine (lib : Library) : Engine Fn (String → Option Scalar) where
  Value := Value
  dialect := lib.dialect
  column := fun row c => ((row c).map fun v => .text (jsonbText v)).getD .null
  bind := bindValue

/-! ## Numbers -/

/-- The comparison of a stored value with an operand as `float8`. -/
def relFloat8 (r : Rel) (v : Scalar) (o : Operand) : Truth :=
  Value.rel r (cyodaTryFloat8 (jsonbText v)) (bindValue (numericArg o))

open Binary64

theorem bindValue_numericArg (n : Decimal.Literal) :
    bindValue (numericArg (.number n)) =
      if Binary64.Finite n.value then .float8 (nearest n.value) else .null := by
  -- the equation lemmas of the definition are slow to make
  delta numericArg
  dsimp only
  rw [float64?, ofRat]
  split_ifs <;> rfl

variable {r : Rel} {v : Scalar} {n : Decimal.Literal} {o : Operand}

theorem relFloat8_iff :
    relFloat8 r v (.number n) = some true ↔
      ∃ k, Decimal.parse (jsonbText v).toList = some k ∧ InRange k.value ∧
        Binary64.Finite n.value ∧
        r.holds (nearest k.value) (nearest n.value) = true := by
  rw [relFloat8, bindValue_numericArg, cyodaTryFloat8]
  cases Decimal.parse (jsonbText v).toList with
  | none => simp [Value.rel]
  | some k =>
    by_cases hk : InRange k.value <;> by_cases hn : Binary64.Finite n.value <;>
      simp [hk, hn, Value.rel]

/-- A stored number is compared with a number unless one of the two is beyond `float8`. -/
theorem relFloat8_number {m : Decimal.Literal} (h : Ordered r m.value n.value) :
    relFloat8 r (.number m) (.number n) = some true ↔
      InRange m.value ∧ Binary64.Finite n.value := by
  have hparse : Decimal.parse (jsonbText (.number m)).toList = some m.plain := by
    rw [jsonbText, String.toList_ofList, Decimal.parse_text]
  have hholds := (h.map fun _ _ => nearest_mono).holds
  rw [relFloat8_iff, hparse]
  simp [m.plain_value, hholds]

/-- After rounding, a comparison may also hold by a tie. -/
theorem holds_nearest_iff {α : Type*} [LinearOrder α] {a b : α} (h : Ordered r a b) {x y : ℚ} :
    r.holds (nearest x) (nearest y) = true ↔
      r.holds x y = true ∨ nearest x = nearest y := by
  cases h with
  | eq =>
    simp only [Rel.holds, decide_eq_true_eq, or_iff_right_of_imp (congrArg _)]
  | ge =>
    simp only [Rel.holds, decide_eq_true_eq]
    refine ⟨fun hle => ?_, fun hor => hor.elim nearest_mono Eq.ge⟩
    exact (le_total y x).imp id fun hxy => le_antisymm (nearest_mono hxy) hle
  | le =>
    simp only [Rel.holds, decide_eq_true_eq]
    refine ⟨fun hle => ?_, fun hor => hor.elim nearest_mono Eq.le⟩
    exact (le_total x y).imp id fun hyx => le_antisymm hle (nearest_mono hyx)

/-! ## Texts -/

/-- The comparison of a stored value with an operand as texts. -/
def relText (r : Rel) (v : Scalar) (o : Operand) : Truth :=
  Value.rel r (.text (jsonbText v)) (bindValue (textArg o))

theorem relText_iff (hnil : o ≠ .nil) :
    relText r v o = some true ↔
      '\x00' ∉ o.text.toList ∧ r.holds (jsonbText v) o.text = true := by
  have hbind : bindValue (textArg o) = bindText o.text := by
    cases o with
    | nil => exact absurd rfl hnil
    | _ => rfl
  rw [relText, hbind, bindText]
  split <;> simp_all [Value.rel]

def boolText (b : Bool) : String := if b then "true" else "false"

theorem boolText_mono : Monotone boolText := by
  intro a b hab
  cases a <;> cases b
  · exact le_rfl
  · exact (by decide : "false" ≤ "true")
  · exact absurd hab (by decide)
  · exact le_rfl

theorem text_of_bool? {b : Bool} (h : o.bool? = some b) : o.text = boolText b := by
  rw [Operand.bool?] at h
  split at h
  · next htext =>
    cases h
    exact htext
  · split at h
    · next htext =>
      cases h
      exact htext
    · cases h

theorem relText_bool {b : Bool} (h : (Scalar.bool b).Related r o) :
    relText r (.bool b) o = some true := by
  obtain ⟨b', hb', hordered⟩ := h
  have htext := text_of_bool? hb'
  have hnil : o ≠ .nil := by
    rintro rfl
    simp [Operand.bool?, Operand.text] at hb'
  rw [relText_iff hnil, htext]
  refine ⟨?_, (hordered.map boolText_mono).holds⟩
  cases b' <;> decide

/-! ## Leaves -/

/-- Every operand is a number, so the comparisons are those of `float8`. -/
def numeric (l : Leaf) : Bool := l.operands.all isNumericValue

/-- What keeps the comparison of a stored value with an operand. As `float8`, the operand does not
overflow, and the stored value is in range: a number, or a text that is a numeral, which then
stands on the right side of the operand or rounds to the same double. As text, the operand has no
U+0000, and the plain spelling of a stored number stands on the right side of it in the order of
bytes. -/
def SafeComparison (float8 : Bool) (r : Rel) (o : Operand) : Scalar → Prop
  | .number m =>
    if float8 then InRange m.value ∧ ∀ q ∈ o.number?, Binary64.Finite q
    else '\x00' ∉ o.text.toList ∧ r.holds (String.ofList m.plain.text) o.text = true
  | .string s =>
    if float8 then
      ∃ k, Decimal.parse s.toList = some k ∧ InRange k.value ∧ ∀ q ∈ o.number?,
        Binary64.Finite q ∧
          (r.holds k.value q = true ∨ nearest k.value = nearest q)
    else '\x00' ∉ o.text.toList
  | .bool _ => True

def Safe (l : Leaf) (v : Scalar) : Prop := ∀ c ∈ l.comparisons, SafeComparison (numeric l) c.1 c.2 v

theorem relFloat8_iff_safe (hnumber : isNumericValue o = true) (h : v.Related r o) :
    relFloat8 r v o = some true ↔ SafeComparison true r o v := by
  cases o with
  | number n =>
    cases v with
    | number m =>
      obtain ⟨q, hq, hordered⟩ := h
      rw [Operand.number?_number] at hq
      cases hq
      simp [relFloat8_number hordered, SafeComparison]
    | string s =>
      simp [relFloat8_iff, SafeComparison, jsonbText, holds_nearest_iff h]
    | bool b =>
      obtain ⟨b', hb', -⟩ := h
      rw [Operand.bool?_number] at hb'
      cases hb'
  | _ => cases hnumber

theorem relText_iff_safe (hnil : o ≠ .nil) (h : v.Related r o) :
    relText r v o = some true ↔ SafeComparison false r o v := by
  cases v with
  | number m =>
    rw [relText_iff hnil]
    rfl
  | string s =>
    rw [relText_iff hnil]
    exact and_iff_left h.holds
  | bool b => exact iff_of_true (relText_bool h) trivial

section Leaves

variable {lib : Library} {spi : Spi} {l : Leaf} {v : Scalar} {row : String → Option Scalar}

/-- The truth of a leaf's SQL, from the values it reads. -/
theorem leafHolds_iff :
    (engine lib).leafHolds (fun l => (leafToSQL spi l 0).1) l row = true ↔
      (leafToSQL spi l 0).1.1.eval lib.dialect
        (fun c => ((row c).map fun v => .text (jsonbText v)).getD .null)
        (fun n => bindValue ((leafToSQL spi l 0).1.2.getD (n - 1) .nil)) = some true := by
  rw [Engine.leafHolds, decide_eq_true_eq]
  rfl

variable {r : Rel}

/-- A value that compares is not null. -/
theorem isNull_of_rel {a b : Value} (h : Value.rel r a b = some true) :
    lib.dialect.isNull a = false := by
  cases a with
  | null => cases h
  | _ => rfl

/-- The cast of a placeholder for a number changes nothing. -/
theorem castFloat8_numericArg (lib : Library) {o : Operand} (h : isNumericValue o = true) :
    lib.dialect.app .castFloat8 [bindValue (numericArg o)] = bindValue (numericArg o) := by
  cases o with
  | number n =>
    rw [bindValue_numericArg]
    split <;> rfl
  | _ => cases h

theorem leafToSQL_comparison (spi : Spi) (hcoercion : l.coercion = .coerceNone)
    (hr : relaxed l.op = some r) :
    leafToSQL spi l 0 = eqOp spi l 0 ∧ r = .eq ∨ leafToSQL spi l 0 = orderingOp spi l r 0 := by
  cases hop : l.op <;> simp [hop, relaxed] at hr <;> simp [leafToSQL, hop, hcoercion, hr]

variable (hcoercion : l.coercion = .coerceNone)

include hcoercion

theorem leafToSQL_range (hop : l.op = .between ∨ l.op = .betweenInclusive) :
    leafToSQL spi l 0 = betweenOp spi l 0 := by
  rcases hop with hop | hop <;> simp [leafToSQL, hop, hcoercion]

theorem leafHolds_float8 (hr : relaxed l.op = some r)
    (hnumeric : isNumericValue l.value = true) (hrow : row (fieldExpr spi l) = some v) :
    (engine lib).leafHolds (fun l => (leafToSQL spi l 0).1) l row = true ↔
      relFloat8 r v l.value = some true := by
  have hsql : (leafToSQL spi l 0).1 =
      (guarded (.app1 .tryFloat8 (.col (fieldExpr spi l)))
        (.app1 .tryFloat8 (.col (fieldExpr spi l))) r (.app1 .castFloat8 (.param 1)),
        [numericArg l.value]) := by
    rcases leafToSQL_comparison spi hcoercion hr with ⟨hsql, rfl⟩ | hsql
    · simp [hsql, eqOp, orderExpr, hnumeric]
    · simp [hsql, orderingOp, orderExpr, hnumeric]
  rw [leafHolds_iff, hsql]
  simp only [guarded, Pred.eval, Expr.eval, hrow, Option.map_some, Option.getD_some,
    Truth.and_eq_true]
  have hcast := castFloat8_numericArg lib hnumeric
  refine ⟨fun h => (congrArg _ hcast).symm.trans h.2, fun hrel => ?_⟩
  exact ⟨congrArg (fun b => some !b) (isNull_of_rel hrel), (congrArg _ hcast).trans hrel⟩

theorem leafHolds_text (hr : relaxed l.op = some r)
    (hnumeric : isNumericValue l.value = false) (hrow : row (fieldExpr spi l) = some v) :
    (engine lib).leafHolds (fun l => (leafToSQL spi l 0).1) l row = true ↔
      relText r v l.value = some true := by
  let col : Expr String Fn Nat := .col (fieldExpr spi l)
  have hsql : ∃ lhs, (lhs = col ∨ lhs = .app1 .collateC col) ∧
      (leafToSQL spi l 0).1 = (guarded col lhs r (.param 1), [textArg l.value]) := by
    rcases leafToSQL_comparison spi hcoercion hr with ⟨hsql, rfl⟩ | hsql
    · exact ⟨col, .inl rfl, by simp [hsql, eqOp, orderExpr, hnumeric, col]⟩
    · exact ⟨_, .inr rfl, by simp [hsql, orderingOp, orderExpr, hnumeric, col]⟩
  obtain ⟨lhs, hlhs, hsql⟩ := hsql
  rw [leafHolds_iff, hsql]
  rcases hlhs with rfl | rfl
  all_goals
    simp only [guarded, col, Pred.eval, Expr.eval, hrow, Option.map_some, Option.getD_some,
      Truth.and_eq_true]
    exact and_iff_right rfl

theorem leafHolds_between_float8 (hop : l.op = .between ∨ l.op = .betweenInclusive) {lo hi : Operand}
    (hvalues : l.values = [lo, hi]) (hlo : isNumericValue lo = true)
    (hhi : isNumericValue hi = true) (hrow : row (fieldExpr spi l) = some v) :
    (engine lib).leafHolds (fun l => (leafToSQL spi l 0).1) l row = true ↔
      relFloat8 .ge v lo = some true ∧ relFloat8 .le v hi = some true := by
  let col : Expr String Fn Nat := .app1 .tryFloat8 (.col (fieldExpr spi l))
  have hsql : (leafToSQL spi l 0).1 =
      (.both (.isNotNull col)
        (.between col (.app1 .castFloat8 (.param 1)) (.app1 .castFloat8 (.param 2))),
        [numericArg lo, numericArg hi]) := by
    simp [leafToSQL_range hcoercion hop, betweenOp, orderExpr, hvalues, hlo, hhi, col]
  rw [leafHolds_iff, hsql]
  simp only [col, Pred.eval, Expr.eval, hrow, Option.map_some, Option.getD_some,
    Truth.and_eq_true]
  have hlo' := castFloat8_numericArg lib hlo
  have hhi' := castFloat8_numericArg lib hhi
  constructor
  · rintro ⟨-, hge, hle⟩
    exact ⟨(congrArg _ hlo').symm.trans hge, (congrArg _ hhi').symm.trans hle⟩
  · rintro ⟨hge, hle⟩
    exact ⟨congrArg (fun b => some !b) (isNull_of_rel hge), (congrArg _ hlo').trans hge,
      (congrArg _ hhi').trans hle⟩

theorem leafHolds_between_text (hop : l.op = .between ∨ l.op = .betweenInclusive) {lo hi : Operand}
    (hvalues : l.values = [lo, hi]) (hnumeric : (isNumericValue lo && isNumericValue hi) = false)
    (hrow : row (fieldExpr spi l) = some v) :
    (engine lib).leafHolds (fun l => (leafToSQL spi l 0).1) l row = true ↔
      relText .ge v lo = some true ∧ relText .le v hi = some true := by
  let col : Expr String Fn Nat := .col (fieldExpr spi l)
  have hsql : (leafToSQL spi l 0).1 =
      (.both (.isNotNull col) (.between (.app1 .collateC col) (.param 1) (.param 2)),
        [textArg lo, textArg hi]) := by
    simp [leafToSQL_range hcoercion hop, betweenOp, orderExpr, hvalues, hnumeric, col]
  rw [leafHolds_iff, hsql]
  simp only [col, Pred.eval, Expr.eval, hrow, Option.map_some, Option.getD_some,
    Truth.and_eq_true]
  exact and_iff_right rfl

/-- A comparison leaf makes its comparisons as `float8` or as texts. -/
theorem leafHolds_comparisons (hop : (∃ r, relaxed l.op = some r) ∨ l.op = .between ∨ l.op = .betweenInclusive)
    (hrow : row (fieldExpr spi l) = some v) (hmatch : l.matchScalar v = true) :
    (engine lib).leafHolds (fun l => (leafToSQL spi l 0).1) l row = true ↔
      ∀ c ∈ l.comparisons,
        (if numeric l then relFloat8 c.1 v c.2 else relText c.1 v c.2) = some true := by
  rcases hop with ⟨r, hr⟩ | hrange
  · have hcomparisons := Leaf.comparisons_of_relaxed hr
    have hnumeric : numeric l = isNumericValue l.value := by
      simp [numeric, Leaf.operands, hcomparisons]
    rw [hcomparisons, List.forall_mem_singleton, hnumeric]
    cases hvalue : isNumericValue l.value with
    | true => exact leafHolds_float8 hcoercion hr hvalue hrow
    | false => exact leafHolds_text hcoercion hr hvalue hrow
  · obtain ⟨lo, hi, hvalues⟩ := Leaf.values_of_range hrange hmatch
    have hcomparisons := Leaf.comparisons_range hrange hvalues
    have hnumeric : numeric l = (isNumericValue lo && isNumericValue hi) := by
      simp [numeric, Leaf.operands, hcomparisons]
    rw [hcomparisons, List.forall_mem_cons, List.forall_mem_singleton, hnumeric]
    cases hboth : (isNumericValue lo && isNumericValue hi) with
    | true =>
      obtain ⟨hlo, hhi⟩ := Bool.and_eq_true_iff.mp hboth
      exact leafHolds_between_float8 hcoercion hrange hvalues hlo hhi hrow
    | false => exact leafHolds_between_text hcoercion hrange hvalues hboth hrow

end Leaves

/-- On a stored scalar that the kernel matches, a pushed comparison that is not temporal holds
exactly in the cases of `Safe`. -/
theorem postgres_leaf_superset (lib : Library) (spi : Spi) {l : Leaf} {v : Scalar}
    {row : String → Option Scalar} (hpush : isLeafPushable spi l = true)
    (hcomparison : isComparisonOp l.op = true) (hcoercion : l.coercion = .coerceNone)
    (hnil : ∀ o ∈ l.operands, o ≠ .nil) (hrow : row (fieldExpr spi l) = some v)
    (hmatch : l.matchScalar v = true) :
    (engine lib).leafHolds (fun l => (leafToSQL spi l 0).1) l row = true ↔ Safe l v := by
  have hpushable : isPushable l.op = true := by
    by_contra hnot
    simp [isLeafPushable, hnot] at hpush
  rw [leafHolds_comparisons hcoercion (relaxed_or_range hpushable hcomparison) hrow hmatch]
  refine forall₂_congr fun c hc => ?_
  have hoperand : c.2 ∈ l.operands := List.mem_map_of_mem hc
  have hrelated := Leaf.related hmatch hc
  cases hnumeric : numeric l with
  | true => exact relFloat8_iff_safe (List.all_eq_true.mp hnumeric _ hoperand) hrelated
  | false => exact relText_iff_safe (hnil _ hoperand) hrelated

namespace Sample

open LeafSample

def library : Library := ⟨fun _ _ => .null, fun _ _ => none⟩

/-- 1e-400 -/
def tiny : Decimal.Literal :=
  ⟨false, Decimal.decimal 1, none, some ⟨false, some true, Decimal.decimal 400⟩⟩

/-- The kernel matches a pushed comparison on a scalar of one of its types. -/
def matched (l : Leaf) (v : Scalar) : Bool :=
  isLeafPushable spi l && isComparisonOp l.op && l.coercion = .coerceNone &&
    l.declared.any v.isOf && l.matchScalar v

/-- The kernel matches and the SQL does not hold. -/
def misses (l : Leaf) (v : Scalar) : Bool :=
  matched l v && !(engine library).leafHolds (fun l => (leafToSQL spi l 0).1) l fun _ => some v

end Sample

open Sample LeafSample in
/-- A stored text that is a numeral is matched by a comparison with a number. -/
theorem postgres_leaf_superset_sample :
    (engine library).leafHolds (fun l => (leafToSQL spi l 0).1)
      (leaf .gt (.number (natural 4)) [.integer, .string]) (fun _ => some (.string "5")) = true := by
  have hsafe : Safe (leaf .gt (.number (natural 4)) [.integer, .string]) (.string "5") := by
    intro c hc
    obtain rfl : c = (.ge, .number (natural 4)) := by
      simpa [Leaf.comparisons, leaf, relaxed] using hc
    refine ⟨natural 5, by decide +kernel, by decide +kernel, fun q hq => ?_⟩
    obtain rfl : (natural 4).value = q := by simpa using hq
    exact ⟨by decide +kernel, .inl (by decide +kernel)⟩
  exact (postgres_leaf_superset library spi rfl rfl rfl (by decide) rfl (by decide +kernel)).mpr
    hsafe

open Sample LeafSample in
theorem misses_of_not_inRange {l : Leaf} {m : Decimal.Literal} (hr : relaxed l.op = some r)
    (hn : l.value = .number n) (hrange : ¬ InRange m.value) (h : matched l (.number m) = true) :
    misses l (.number m) = true := by
  have hcoercion : l.coercion = .coerceNone := by
    simp only [matched, Bool.and_eq_true, decide_eq_true_eq] at h
    exact h.1.1.2
  have hmatch : l.matchScalar (.number m) = true := (Bool.and_eq_true_iff.mp h).2
  have hrelated : (Scalar.number m).Related r l.value :=
    Leaf.related hmatch (c := (r, l.value)) (by simp [Leaf.comparisons_of_relaxed hr])
  have hnot : ¬ (engine library).leafHolds (fun l => (leafToSQL spi l 0).1) l
      (fun _ => some (.number m)) = true := by
    rw [leafHolds_float8 hcoercion hr (by rw [hn]; rfl) rfl,
      relFloat8_iff_safe (by rw [hn]; rfl) hrelated]
    exact fun hsafe => hrange hsafe.1
  rw [misses, h, Bool.true_and, Bool.not_eq_true']
  exact Bool.eq_false_iff.mpr hnot

open Sample LeafSample in
/-- A numeric text against a number, alone and in a range; a number against a text; an operand and
stored numbers beyond the range of `float8`, the last one too small. -/
theorem postgres_leaf_misses :
    (misses (leaf .eq (.string "30.0") [.integer]) (.number (natural 30)) = true ∧
      misses (leaf .lt (.string "30") [.integer]) (.number (natural 4)) = true ∧
      misses (range (.number (natural 4)) (.string "100") [.integer])
        (.number (natural 30)) = true ∧
      misses (leaf .gt (.number (natural 30)) [.string, .integer]) (.string "abc") = true ∧
      misses (leaf .lt (.number huge) [.unboundDecimal]) (.number (natural 30)) = true) ∧
    misses (leaf .gt (.number (natural 30)) [.unboundDecimal]) (.number huge) = true ∧
    misses (leaf .lt (.number (natural 30)) [.unboundDecimal]) (.number tiny) = true := by
  refine ⟨by decide +kernel, ?_, ?_⟩
  · exact misses_of_not_inRange rfl rfl (by decide +kernel) (by decide +kernel)
  · exact misses_of_not_inRange rfl rfl (by decide +kernel) (by decide +kernel)

end CyodaGo.Planner.Postgres
