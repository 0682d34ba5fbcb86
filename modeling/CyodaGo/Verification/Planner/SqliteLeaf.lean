import CyodaGo.Model.Planner.SqliteEngine
import CyodaGo.Verification.Planner.Relaxed
import CyodaGo.Verification.Planner.Engine
import Mathlib.Data.List.TakeWhile

/-! # Pushed leaves on SQLite

On a stored scalar that the kernel matches, a pushed leaf holds exactly if the storage classes of
operand and stored value, the rounding of the one that is a double, and U+0000 in the texts do not
spoil the comparison. -/

namespace CyodaGo.Planner.Sqlite

open Sql

/-- A row gives the stored scalar under each column expression. -/
def engine (lib : Library) : Engine Fn (String → Option Scalar) where
  Value := Value
  dialect := lib.dialect
  column := fun row c => ((row c).map jsonExtractScalar).getD .null
  bind := bindValue

/-! ## Numbers -/

open Binary64

/-- A number as SQLite compares it. -/
def numberKey (n : Decimal.Literal) : WithBot (WithTop ℚ) :=
  match int64? n with
  | some i => (((i.toInt : ℚ) : WithTop ℚ) : WithBot (WithTop ℚ))
  | none => extended n.value

theorem key_jsonExtractScalar_number (n : Decimal.Literal) :
    (jsonExtractScalar (.number n)).key = some (toLex (.inl (numberKey n))) := by
  cases hn : int64? n <;> simp [jsonExtractScalar, numberKey, hn, Value.key]

variable {n : Decimal.Literal} {i : Int64} {r : Rel} {s t : List Char}

theorem toInt_of_int64? (h : int64? n = some i) : n.value = (i.toInt : ℚ) := by
  obtain ⟨k, hk, hrange⟩ := Option.bind_eq_some_iff.mp h
  split at hrange
  · next hbounds =>
    cases hrange
    rw [Int64.toInt_ofInt_of_le hbounds.1 hbounds.2]
    exact Decimal.Literal.value_of_int? hk
  · cases hrange

theorem numberKey_of_int64? (h : int64? n = some i) :
    numberKey n = ((n.value : WithTop ℚ) : WithBot (WithTop ℚ)) := by
  rw [numberKey, h, toInt_of_int64? h]

theorem numberKey_of_none (h : int64? n = none) : numberKey n = extended n.value := by
  rw [numberKey, h]

theorem abs_lt_limit (h : int64? n = some i) :
    |n.value| < limit := by
  have hlo := i.le_toInt
  have hhi := i.toInt_lt
  have hbound : |i.toInt| ≤ 2 ^ 63 := abs_le.mpr ⟨by omega, by omega⟩
  have hcast : ((|i.toInt| : ℤ) : ℚ) ≤ 2 ^ 63 := by exact_mod_cast hbound
  rw [toInt_of_int64? h, ← Int.cast_abs, limit]
  exact hcast.trans_lt (pow_lt_pow_right₀ (by norm_num) (by norm_num))

/-- An operand beyond the doubles is bound as `NULL`, every other one as it would be stored. -/
theorem bindValue_bindArg (n : Decimal.Literal) :
    (bindValue (bindArg (.number n))).key =
      if int64? n = none ∧ ¬ Binary64.Finite n.value then none
      else some (toLex (.inl (numberKey n))) := by
  cases hn : int64? n with
  | some i => simp [bindArg, hn, bindValue, Value.key, numberKey]
  | none =>
    by_cases hfinite : Binary64.Finite n.value
    · have hfloat : float64? n = some (nearest n.value) := if_pos hfinite
      simp [bindArg, hn, hfloat, bindValue, Value.key, numberKey, hfinite,
        extended_of_finite hfinite]
    · have hfloat : float64? n = none := if_neg hfinite
      simp [bindArg, hn, hfloat, bindValue, Value.key, hfinite]

/-- The comparison `x r y` survives the rounding of `x`. -/
def KeepsSide : Rel → ℚ → ℚ → Prop
  | .ge, x, y => Binary64.StaysAbove x y
  | .le, x, y => Binary64.StaysBelow x y
  | _, x, _ => Binary64.IsDouble x

def swap : Rel → Rel
  | .ge => .le
  | .le => .ge
  | r => r

/-- The two numbers have one storage class and the operand does not overflow, or rounding the
one that is not an integer keeps it on its side of the other. -/
def Comparable (r : Rel) (m n : Decimal.Literal) : Prop :=
  match int64? m, int64? n with
  | some _, some _ => True
  | none, none => Binary64.Finite n.value
  | some _, none => Binary64.Finite n.value ∧ KeepsSide (swap r) n.value m.value
  | none, some _ => KeepsSide r m.value n.value

theorem holds_extended_iff {x y : ℚ} (h : Ordered r x y) (hy : |y| < limit) :
    r.holds (extended x) ((y : WithTop ℚ) : WithBot (WithTop ℚ)) = true ↔
      KeepsSide r x y := by
  cases h with
  | eq =>
    rw [Rel.holds, decide_eq_true_eq, le_antisymm_iff, extended_le_coe_iff hy,
      coe_le_extended_iff hy, ← le_antisymm_iff]
    rfl
  | ge h =>
    rw [Rel.holds, decide_eq_true_eq, coe_le_extended_iff hy]
    exact le_nearest_iff h
  | le h =>
    rw [Rel.holds, decide_eq_true_eq, extended_le_coe_iff hy]
    exact nearest_le_iff h

theorem coe_holds_iff {x y : ℚ} (h : Ordered r y x) (hy : |y| < limit) :
    r.holds ((y : WithTop ℚ) : WithBot (WithTop ℚ)) (extended x) = true ↔
      KeepsSide (swap r) x y := by
  cases h with
  | eq =>
    rw [Rel.holds, decide_eq_true_eq, le_antisymm_iff, coe_le_extended_iff hy,
      extended_le_coe_iff hy, and_comm, ← le_antisymm_iff]
    rfl
  | ge h =>
    rw [Rel.holds, decide_eq_true_eq, extended_le_coe_iff hy]
    exact nearest_le_iff h
  | le h =>
    rw [Rel.holds, decide_eq_true_eq, coe_le_extended_iff hy]
    exact le_nearest_iff h

theorem holds_numberKey_iff {m : Decimal.Literal} (h : Ordered r m.value n.value)
    (hfinite : int64? n = none → Binary64.Finite n.value) :
    r.holds (numberKey m) (numberKey n) = true ↔ Comparable r m n := by
  cases hm : int64? m with
  | none =>
    cases hn : int64? n with
    | none =>
      rw [Comparable, hm, hn, numberKey_of_none hm, numberKey_of_none hn]
      exact iff_of_true (h.map fun _ _ => extended_mono).holds (hfinite hn)
    | some j =>
      rw [Comparable, hm, hn, numberKey_of_none hm, numberKey_of_int64? hn]
      exact holds_extended_iff h (abs_lt_limit hn)
  | some i =>
    cases hn : int64? n with
    | none =>
      rw [Comparable, hm, hn, numberKey_of_int64? hm, numberKey_of_none hn,
        coe_holds_iff h (abs_lt_limit hm)]
      exact (and_iff_right (hfinite hn)).symm
    | some j =>
      rw [Comparable, hm, hn, numberKey_of_int64? hm, numberKey_of_int64? hn]
      have hcoe : Monotone fun q : ℚ => ((q : WithTop ℚ) : WithBot (WithTop ℚ)) :=
        WithBot.coe_mono.comp WithTop.coe_mono
      exact iff_of_true (h.map hcoe).holds trivial

/-! ## Comparisons -/

theorem holds_inl (x y : WithBot (WithTop ℚ)) :
    r.holds (toLex (.inl x) : WithBot (WithTop ℚ) ⊕ₗ String) (toLex (.inl y)) = r.holds x y := by
  cases r <;> simp [Rel.holds]

theorem rel_of_key {a b : Value} {x : WithBot (WithTop ℚ) ⊕ₗ String} (ha : a.key = some x) :
    Value.rel r a b = some true ↔ ∃ y, b.key = some y ∧ r.holds x y = true := by
  cases hb : b.key <;> simp [Value.rel, ha, hb]

theorem rel_number_iff {m : Decimal.Literal} (h : Ordered r m.value n.value) :
    Value.rel r (jsonExtractScalar (.number m)) (bindValue (bindArg (.number n))) = some true ↔
      Comparable r m n := by
  rw [rel_of_key (key_jsonExtractScalar_number m), bindValue_bindArg]
  by_cases hnull : int64? n = none ∧ ¬ Binary64.Finite n.value
  · have hnot : ¬ Comparable r m n := by
      rw [Comparable, hnull.1]
      cases int64? m with
      | none => exact hnull.2
      | some i => exact fun hcomparable => hnull.2 hcomparable.1
    simp [hnull, hnot]
  · have hfinite : int64? n = none → Binary64.Finite n.value := fun hn =>
      not_not.mp fun hf => hnull ⟨hn, hf⟩
    rw [if_neg hnull, ← holds_numberKey_iff h hfinite]
    simp [holds_inl]

/-- A number stands before every text. -/
theorem rel_text_iff {α : Type*} [LinearOrder α] {x y : α} (h : Ordered r x y) {a : Value}
    {z : WithBot (WithTop ℚ)} (ha : a.key = some (toLex (.inl z))) (t : String) :
    Value.rel r a (.text t) = some true ↔ r = .le := by
  rw [rel_of_key ha]
  cases h <;> simp [Value.key, Rel.holds]

/-- What keeps the comparison of a stored value with an operand. -/
def SafeComparison (r : Rel) : Scalar → Operand → Prop
  | .string _, _ => True
  | .number m, .number n => Comparable r m n
  | .bool _, .bool _ => True
  | _, _ => r = .le

theorem rel_iff {l : Leaf} {dt : Schema.DataType} (hdeclared : l.declared = [dt]) {v : Scalar}
    (hof : v.isOf dt = true) {o : Operand} (h : v.Related r o) :
    Value.rel r (jsonExtractScalar v) (bindValue (comparisonBind l o)) = some true ↔
      SafeComparison r v o := by
  cases v with
  | number m =>
    obtain ⟨q, hq, hordered⟩ := h
    have htext : isTextStorageClass dt = false := by
      cases dt <;> first | rfl | simp [Scalar.isOf, isNumericType] at hof
    rw [comparisonBind, hdeclared]
    simp only [htext, Bool.false_eq_true, if_false]
    cases o with
    | nil => cases hq
    | bool b => rw [Operand.number?_bool] at hq; cases hq
    | string t => exact rel_text_iff hordered (key_jsonExtractScalar_number m) t
    | number n =>
      rw [Operand.number?_number] at hq
      cases hq
      exact rel_number_iff hordered
  | string s =>
    have htext : isTextStorageClass dt = true := by
      cases dt <;> first | rfl | simp [Scalar.isOf, isTextType] at hof
    have hbind : bindValue (comparisonBind l o) = .text o.text := by
      rw [comparisonBind, hdeclared]
      simp only [htext, if_true]
      cases o <;> rfl
    rw [hbind, rel_of_key (x := toLex (.inr s)) rfl]
    have hmono : Monotone fun t : String =>
        (toLex (.inr t) : WithBot (WithTop ℚ) ⊕ₗ String) :=
      fun _ _ => Sum.Lex.inr_le_inr_iff.mpr
    exact iff_of_true ⟨_, rfl, (h.map hmono).holds⟩ trivial
  | bool b =>
    obtain ⟨b', hb', hordered⟩ := h
    have htext : isTextStorageClass dt = false := by
      cases dt <;> first | rfl | simp [Scalar.isOf] at hof
    rw [comparisonBind, hdeclared]
    simp only [htext, Bool.false_eq_true, if_false]
    cases o with
    | nil => cases hb'
    | number n => rw [Operand.bool?_number] at hb'; cases hb'
    | string t => exact rel_text_iff hordered rfl t
    | bool b'' =>
      rw [Operand.bool?_bool] at hb'
      cases hb'
      rw [rel_of_key rfl]
      refine iff_of_true ⟨_, rfl, ?_⟩ trivial
      rw [holds_inl]
      have hmono : Monotone fun b : Bool =>
          ((((if b then 1 else 0 : ℤ) : ℚ) : WithTop ℚ) : WithBot (WithTop ℚ)) := by
        refine (WithBot.coe_mono.comp WithTop.coe_mono).comp (Int.cast_mono.comp ?_)
        decide
      exact (hordered.map hmono).holds

/-! ## Text operators -/

theorem instr_pos_iff : 0 < instr t s ↔ t <:+: s := by
  induction s with
  | nil =>
    rw [instr, List.infix_nil]
    split <;> simp_all
  | cons c s ih =>
    rw [instr, List.infix_cons_iff, ← ih]
    split
    · next hstart => simp [hstart]
    · next hstart =>
      cases instr t s <;> simp [hstart]

theorem not_mem_beforeNul (s : List Char) : '\x00' ∉ beforeNul s := by
  intro hmem
  simpa using List.mem_takeWhile_imp hmem

theorem beforeNul_append (h : '\x00' ∉ t) (u : List Char) :
    beforeNul (t ++ u) = t ++ beforeNul u := by
  refine List.takeWhile_append_of_pos fun c hc => ?_
  have hne : c ≠ '\x00' := fun heq => h (heq ▸ hc)
  simpa using hne

theorem beforeNul_of_plain (h : '\x00' ∉ t) : beforeNul t = t := by
  simpa [beforeNul] using beforeNul_append h []

theorem substr_eq_iff (h : t <+: s) : substr s 1 (length t) = t ↔ '\x00' ∉ t := by
  have hsubstr : substr s 1 (length t) = (beforeNul s).take (length t) := by
    simp [substr, substrFrom]
  rw [hsubstr]
  constructor
  · intro heq hmem
    rw [← heq] at hmem
    exact not_mem_beforeNul s (List.mem_of_mem_take hmem)
  · intro hplain
    obtain ⟨u, rfl⟩ := h
    rw [length, beforeNul_of_plain hplain, beforeNul_append hplain, List.take_left]

theorem substrFrom_isSuffix (s : List Char) (y : Int) : substrFrom s y <:+ beforeNul s := by
  rw [substrFrom]
  split
  · exact List.drop_suffix _ _
  split
  · exact List.drop_suffix _ _
  · exact List.suffix_rfl

theorem substrFrom_eq_iff :
    substrFrom s (-length t) = t ↔
      t <:+ beforeNul s ∧ (t = [] → beforeNul s = []) := by
  constructor
  · intro heq
    refine ⟨heq ▸ substrFrom_isSuffix s _, ?_⟩
    rintro rfl
    exact heq
  · rintro ⟨hend, hempty⟩
    have hplain : '\x00' ∉ t := fun hmem => not_mem_beforeNul s (hend.subset hmem)
    rw [length, beforeNul_of_plain hplain, substrFrom, if_neg (by omega)]
    split
    · rw [Int.neg_neg, Int.toNat_natCast]
      exact (List.suffix_iff_eq_drop.mp hend).symm
    · next hzero =>
      obtain rfl : t = [] := List.eq_nil_of_length_eq_zero (by omega)
      exact hempty rfl

/-! ## Leaves -/

/-- Bound as text. -/
def IsText : Operand → Prop
  | .string _ => True
  | .number _ => True
  | _ => False

/-- `CONTAINS` looks for 1 or 0 in place of a boolean. -/
def SafeContains (s : List Char) : Operand → Prop
  | .bool b => (if b then '1' else '0') ∈ s
  | o => IsText o

/-- The operand of `STARTS_WITH` has no U+0000. -/
def SafeStartsWith (o : Operand) : Prop := IsText o ∧ '\x00' ∉ o.text.toList

/-- The operand of `ENDS_WITH` stands before the first U+0000 of the stored text, and is empty only
if nothing stands there. -/
def SafeEndsWith (s : List Char) (o : Operand) : Prop :=
  IsText o ∧ o.text.toList <:+ beforeNul s ∧ (o.text.toList = [] → beforeNul s = [])

def Safe (l : Leaf) (v : Scalar) : Prop :=
  match l.op, v with
  | .contains, .string s => SafeContains s.toList l.value
  | .startsWith, _ => SafeStartsWith l.value
  | .endsWith, .string s => SafeEndsWith s.toList l.value
  | _, v => ∀ c ∈ l.comparisons, SafeComparison c.1 v c.2

section Leaves

variable {lib : Library} {spi : Spi} {l : Leaf} {v : Scalar} {row : String → Option Scalar}

/-- The truth of a leaf's SQL, from the values it reads. -/
theorem leafHolds_iff :
    (engine lib).leafHolds (numberedLeaf spi) l row = true ↔
      ((leafToSQL spi l).1.number 0).eval lib.dialect
        (fun c => ((row c).map jsonExtractScalar).getD .null)
        (fun n => bindValue ((leafToSQL spi l).2.getD (n - 1) .nil)) = some true := by
  rw [Engine.leafHolds, decide_eq_true_eq]
  rfl

theorem isNull_jsonExtractScalar (v : Scalar) :
    lib.dialect.isNull (jsonExtractScalar v) = false := by
  cases v with
  | number n =>
    have hkey := key_jsonExtractScalar_number n
    simp [Library.dialect, hkey]
  | string s => rfl
  | bool b => rfl

theorem leafToSQL_of_relaxed (hcoercion : l.coercion = .coerceNone) {r : Rel}
    (h : relaxed l.op = some r) :
    leafToSQL spi l = (guarded (.col (fieldExpr l)) r, [comparisonBind l l.value]) := by
  cases hop : l.op <;> simp [hop, relaxed] at h <;> simp [leafToSQL, hop, hcoercion, h]

theorem leafToSQL_range (hcoercion : l.coercion = .coerceNone)
    (h : l.op = .between ∨ l.op = .betweenInclusive) {lo hi : Operand}
    (hvalues : l.values = [lo, hi]) :
    leafToSQL spi l =
      (guardedBetween (.col (fieldExpr l)), [comparisonBind l lo, comparisonBind l hi]) := by
  rcases h with hop | hop <;> simp [leafToSQL, hop, hcoercion, hvalues]

/-- A comparison leaf holds if each of its comparisons does. -/
theorem leafHolds_comparisons (hcoercion : l.coercion = .coerceNone)
    (hop : (∃ r, relaxed l.op = some r) ∨ l.op = .between ∨ l.op = .betweenInclusive)
    (hrow : row (fieldExpr l) = some v) (hmatch : l.matchScalar v = true) :
    (engine lib).leafHolds (numberedLeaf spi) l row = true ↔
      ∀ c ∈ l.comparisons,
        Value.rel c.1 (jsonExtractScalar v) (bindValue (comparisonBind l c.2)) = some true := by
  rw [leafHolds_iff]
  rcases hop with ⟨r, hr⟩ | hrange
  · rw [leafToSQL_of_relaxed hcoercion hr, Leaf.comparisons_of_relaxed hr, List.forall_mem_singleton]
    simp only [guarded, Pred.number, Expr.number, Pred.eval, Expr.eval, Expr.params, hrow,
      Option.map_some, Option.getD_some, isNull_jsonExtractScalar, Truth.and_eq_true]
    exact and_iff_right rfl
  · obtain ⟨lo, hi, hvalues⟩ := Leaf.values_of_range hrange hmatch
    rw [leafToSQL_range hcoercion hrange hvalues, Leaf.comparisons_range hrange hvalues,
      List.forall_mem_cons, List.forall_mem_singleton]
    simp only [guardedBetween, Pred.number, Expr.number, Pred.eval, Expr.eval, Expr.params, hrow,
      Option.map_some, Option.getD_some, isNull_jsonExtractScalar, Truth.and_eq_true]
    exact and_iff_right rfl

variable {o : Operand}

theorem textMatch_string {op : FilterOp} (h : v.textMatch op o = true) : ∃ s, v = .string s := by
  cases v with
  | string s => exact ⟨s, rfl⟩
  | _ => cases h

/-! ### Text operators -/

theorem bindValue_arg (h : IsText o) : bindValue o.arg = .text o.text := by
  cases o with
  | string s => rfl
  | number n => rfl
  | _ => exact h.elim

theorem Library.app_substr_text (lib : Library) (xs : List Value) :
    lib.app .substr xs = .null ∨ ∃ t, lib.app .substr xs = .text t := by
  unfold Library.app
  split <;> first | contradiction | (split <;> simp) | simp

/-- Only an operand that is bound as text can equal a part of a text. -/
theorem isText_of_rel {xs : List Value}
    (h : Value.rel .eq (lib.app .substr xs) (bindValue o.arg) = some true) : IsText o := by
  cases o with
  | string s => trivial
  | number n => trivial
  | _ =>
    rcases lib.app_substr_text xs with hnull | ⟨t, ht⟩
    · simp [hnull, Value.rel, Value.key] at h
    · simp [ht, Operand.arg, bindValue, Value.rel, Value.key, Rel.holds] at h

theorem rel_text_eq (cs : List Char) (t : String) :
    Value.rel .eq (.text (String.ofList cs)) (.text t) = some true ↔ cs = t.toList := by
  simp [Value.rel, Value.key, Rel.holds, String.ofList_eq]

theorem leafHolds_contains (hcoercion : l.coercion = .coerceNone) (hop : l.op = .contains)
    (hrow : row (fieldExpr l) = some v) (hmatch : v.textMatch .contains l.value = true) :
    (engine lib).leafHolds (numberedLeaf spi) l row = true ↔ Safe l v := by
  obtain ⟨s, rfl⟩ := textMatch_string hmatch
  have hsafe : Safe l (.string s) ↔ SafeContains s.toList l.value := by simp [Safe, hop]
  have hpos : ∀ t : List Char,
      Value.rel .gt (.integer (instr t s.toList)) (.integer 0) = some true ↔ t <:+: s.toList := by
    intro t
    rw [← instr_pos_iff]
    simp [Value.rel, Value.key, Rel.holds]
  have hsql : (engine lib).leafHolds (numberedLeaf spi) l row = true ↔
      Value.rel .gt (lib.app .instr [.text s, bindValue l.value.arg]) (.integer 0) = some true := by
    rw [leafHolds_iff]
    simp [leafToSQL, hop, hcoercion, hrow, jsonExtractScalar, Library.dialect]
  rw [hsafe, hsql]
  have hinfix : l.value.text.toList <:+: s.toList := by simpa [Scalar.textMatch] using hmatch
  cases hvalue : l.value with
  | nil => exact iff_of_false nofun id
  | string t =>
    rw [hvalue] at hinfix
    exact iff_of_true ((hpos _).mpr hinfix) trivial
  | number n =>
    rw [hvalue] at hinfix
    exact iff_of_true ((hpos _).mpr hinfix) trivial
  | bool b => cases b <;> exact (hpos _).trans (List.singleton_infix_iff _ _)

theorem leafHolds_startsWith (hcoercion : l.coercion = .coerceNone) (hop : l.op = .startsWith)
    (hrow : row (fieldExpr l) = some v) (hmatch : v.textMatch .startsWith l.value = true) :
    (engine lib).leafHolds (numberedLeaf spi) l row = true ↔ Safe l v := by
  obtain ⟨s, rfl⟩ := textMatch_string hmatch
  have hsafe : Safe l (.string s) ↔ SafeStartsWith l.value := by simp [Safe, hop]
  have hsql : (engine lib).leafHolds (numberedLeaf spi) l row = true ↔
      Value.rel .eq
        (lib.app .substr [.text s, .integer 1, lib.app .length [bindValue l.value.arg]])
        (bindValue l.value.arg) = some true := by
    rw [leafHolds_iff]
    simp [leafToSQL, hop, hcoercion, hrow, jsonExtractScalar, Library.dialect]
  rw [hsafe, hsql]
  by_cases htext : IsText l.value
  · have hstart : l.value.text.toList <+: s.toList := by simpa [Scalar.textMatch] using hmatch
    rw [bindValue_arg htext, SafeStartsWith, and_iff_right htext, ← substr_eq_iff hstart]
    exact rel_text_eq _ _
  · exact iff_of_false (fun h => htext (isText_of_rel h)) (fun h => htext h.1)

theorem leafHolds_endsWith (hcoercion : l.coercion = .coerceNone) (hop : l.op = .endsWith)
    (hrow : row (fieldExpr l) = some v) (hmatch : v.textMatch .endsWith l.value = true) :
    (engine lib).leafHolds (numberedLeaf spi) l row = true ↔ Safe l v := by
  obtain ⟨s, rfl⟩ := textMatch_string hmatch
  have hsafe : Safe l (.string s) ↔ SafeEndsWith s.toList l.value := by simp [Safe, hop]
  have hsql : (engine lib).leafHolds (numberedLeaf spi) l row = true ↔
      Value.rel .eq
        (lib.app .substr [.text s, lib.app .neg [lib.app .length [bindValue l.value.arg]]])
        (bindValue l.value.arg) = some true := by
    rw [leafHolds_iff]
    simp [leafToSQL, hop, hcoercion, hrow, jsonExtractScalar, Library.dialect]
  rw [hsafe, hsql]
  by_cases htext : IsText l.value
  · rw [bindValue_arg htext, SafeEndsWith, and_iff_right htext, ← substrFrom_eq_iff]
    exact rel_text_eq _ _
  · exact iff_of_false (fun h => htext (isText_of_rel h)) (fun h => htext h.1)

end Leaves

/-- On a stored scalar of the declared type that the kernel matches, a pushed leaf that is not
temporal, with at most one declared type, holds exactly in the cases of `Safe`. -/
theorem sqlite_leaf_superset (lib : Library) (spi : Spi) {l : Leaf} {v : Scalar}
    {row : String → Option Scalar} (hpush : isLeafPushable spi l = true)
    (hcoercion : l.coercion = .coerceNone) (hdeclared : l.declared.length ≤ 1)
    (htyped : isComparisonOp l.op = true → l.declared ≠ [])
    (hof : ∀ dt ∈ l.declared, v.isOf dt = true) (hrow : row (fieldExpr l) = some v)
    (hmatch : l.matchScalar v = true) :
    (engine lib).leafHolds (numberedLeaf spi) l row = true ↔ Safe l v := by
  have hpushable : isPushable l.op = true := by
    by_contra hnot
    simp [isLeafPushable, hnot] at hpush
  by_cases hcomparison : isComparisonOp l.op = true
  · obtain ⟨dt, hdt⟩ : ∃ dt, l.declared = [dt] :=
      List.length_eq_one_iff.mp
        (le_antisymm hdeclared (List.length_pos_iff.mpr (htyped hcomparison)))
    have hsafe : Safe l v ↔ ∀ c ∈ l.comparisons, SafeComparison c.1 v c.2 := by
      cases hop : l.op <;> simp [hop, isComparisonOp] at hcomparison <;> simp [Safe, hop]
    rw [leafHolds_comparisons hcoercion (relaxed_or_range hpushable hcomparison) hrow hmatch, hsafe]
    exact forall₂_congr fun c hc => rel_iff hdt (hof dt (by simp [hdt])) (Leaf.related hmatch hc)
  · cases hop : l.op with
    | isNull => simp [Leaf.matchScalar, hop] at hmatch
    | notNull =>
      rw [leafHolds_iff]
      simp [leafToSQL, hop, hrow, isNull_jsonExtractScalar, Safe, Leaf.comparisons, relaxed]
    | contains =>
      exact leafHolds_contains hcoercion hop hrow (by simpa [Leaf.matchScalar, hop] using hmatch)
    | startsWith =>
      exact leafHolds_startsWith hcoercion hop hrow (by simpa [Leaf.matchScalar, hop] using hmatch)
    | endsWith =>
      exact leafHolds_endsWith hcoercion hop hrow (by simpa [Leaf.matchScalar, hop] using hmatch)
    | eq | ne | gt | lt | gte | lte | between | betweenInclusive =>
      simp [hop, isComparisonOp] at hcomparison
    | _ => simp [hop, isPushable] at hpushable

namespace Sample

open LeafSample

def library : Library := ⟨fun _ => "", fun _ _ => none⟩

/-- 9007199254740993, which is not a double. -/
def large : Decimal.Literal := natural 9007199254740993

/-- 9007199254740993.0 -/
def largePoint : Decimal.Literal := { large with fraction := some (Decimal.decimal 0) }

/-- 1.5 -/
def oneAndHalf : Decimal.Literal := { natural 1 with fraction := some (Decimal.decimal 5) }

/-- The kernel matches a pushed leaf on a scalar of its only type, and the leaf's SQL does not
hold. -/
def misses (l : Leaf) (v : Scalar) : Bool :=
  isLeafPushable spi l && l.coercion = .coerceNone && l.declared.length = 1 &&
    l.declared.all v.isOf && l.matchScalar v &&
    !(engine library).leafHolds (numberedLeaf spi) l fun _ => some v

end Sample

open Sample LeafSample in
/-- A double stands between 1.5 and 9007199254740993, so the row is found although one side is an
`INTEGER` and the other a `REAL`. -/
theorem sqlite_leaf_superset_sample :
    (engine library).leafHolds (numberedLeaf spi) (leaf .gt (.number oneAndHalf) [.long])
      (fun _ => some (.number large)) = true := by
  have hof : ∀ dt ∈ (leaf .gt (.number oneAndHalf) [.long]).declared,
      (Scalar.number large).isOf dt = true := by decide
  have hsafe : Safe (leaf .gt (.number oneAndHalf) [.long]) (.number large) := by
    intro c hc
    obtain rfl : c = (.ge, .number oneAndHalf) := by simpa [Leaf.comparisons, leaf, relaxed] using hc
    have hinteger : int64? large = some 9007199254740993 := by decide +kernel
    have hreal : int64? oneAndHalf = none := by decide +kernel
    rw [SafeComparison, Comparable, hinteger, hreal]
    exact ⟨by decide +kernel, .inl ⟨2, nearest_intCast (k := 2) (by norm_num),
      by decide +kernel, by decide +kernel⟩⟩
  exact (sqlite_leaf_superset library spi rfl rfl le_rfl (fun _ => List.cons_ne_nil _ _) hof rfl
    (by decide +kernel)).mpr hsafe

open Sample LeafSample in
/-- An integer against the same integer written with a fraction, and the other way round; an
operand beyond the range of doubles; a number against a numeric text; a boolean against its text;
an empty suffix; a suffix behind U+0000; a boolean operand of a text operator; and U+0000 in the
operand of `STARTS_WITH`. -/
theorem sqlite_leaf_misses :
    misses (leaf .eq (.number largePoint) [.long]) (.number large) = true ∧
    misses (leaf .eq (.number large) [.unboundDecimal]) (.number largePoint) = true ∧
    misses (leaf .lt (.number huge) [.unboundDecimal]) (.number (natural 30)) = true ∧
    misses (leaf .eq (.string "30") [.integer]) (.number (natural 30)) = true ∧
    misses (leaf .eq (.string "true") [.boolean]) (.bool true) = true ∧
    misses (leaf .endsWith (.string "") [.string]) (.string "a") = true ∧
    misses (leaf .endsWith (.string "abc") [.string]) (.string "x\x00abc") = true ∧
    misses (leaf .contains (.bool true) [.string]) (.string "true") = true ∧
    misses (leaf .startsWith (.string "a\x00") [.string]) (.string "a\x00b") = true := by
  decide +kernel

end CyodaGo.Planner.Sqlite
