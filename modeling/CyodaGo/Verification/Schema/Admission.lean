import CyodaGo.Model.Schema.Admit
import CyodaGo.Verification.Schema.Regular

/-! # What a model admits

`Validate` reports nothing exactly when every value of the document is held at its place. Being
held only depends on what is declared there, so it survives everything that adds declarations. -/

namespace CyodaGo.Schema

open ModelNode

variable {T D : Type} [TypeSet T] (spi : ScalarSpi D)

/-- The model holds every value of the document, with `left` levels of nesting to go. -/
def Admits : Nat → ModelNode T → Doc → Prop
  | 0, _, _ => False
  | left + 1, n, d =>
    match d with
    | .null => n.leaf ≠ .absent
    | .object fields =>
      n.object.isSome ∧ ∀ f ∈ fields, ∃ c, n.child f.1 = some c ∧ Admits left c f.2
    | .array items => ∃ e, n.element = some e ∧ ∀ item ∈ items, Admits left e item
    | .float64 => False
    | .other _ => False
    | v => ∃ s, n.leaf = .scalar s ∧ holdsScalar spi (TypeSet.types s) v = true

/-- Uniting type sets only enlarges what they hold. -/
def UnionEnlarges (T : Type) [TypeSet T] : Prop :=
  ∀ (s t : T) (v : Doc), holdsScalar spi (TypeSet.types s) v = true →
    holdsScalar spi (TypeSet.types (s ⊔ t)) v = true

/-! ## Clean traversals -/

section Loops

variable {α : Type} {combine : Option (ModelNode T) → α → ModelNode T → ModelNode T}
  {finding : α → Except AdmitError (Finding T)}

omit [TypeSet T] in
theorem collect_eq_ok {acc r : Finding T} {part : α} :
    collect combine finding acc part = .ok r ↔ ∃ o changes, finding part = .ok (o, changes) ∧
      r = (o.elim acc.1 fun overlay => some (combine acc.1 part overlay), acc.2 ++ changes) := by
  rw [collect, Checked.bind_eq_ok]
  constructor
  · rintro ⟨⟨o, changes⟩, hf, hr⟩
    refine ⟨o, changes, hf, ?_⟩
    cases o <;> exact (Checked.pure_eq_ok.mp hr).symm
  · rintro ⟨o, changes, hf, rfl⟩
    refine ⟨(o, changes), hf, ?_⟩
    cases o <;> rfl

omit [TypeSet T] in
/-- A loop records nothing exactly when no part needs a change. -/
theorem foldlM_collect_clean {parts : List α} {acc : Finding T} :
    (∃ o, parts.foldlM (collect combine finding) acc = .ok (o, [])) ↔
      acc.2 = [] ∧ ∀ part ∈ parts, ∃ o, finding part = .ok (o, []) := by
  induction parts generalizing acc with
  | nil =>
    simp [pure, Except.pure, Prod.ext_iff]
  | cons part rest ih =>
    simp only [Checked.foldlM_cons_eq_ok, List.forall_mem_cons]
    constructor
    · rintro ⟨o, mid, hmid, hrest⟩
      obtain ⟨o', changes, hf, rfl⟩ := collect_eq_ok.mp hmid
      obtain ⟨hclean, hparts⟩ := ih.mp ⟨o, hrest⟩
      obtain ⟨hacc, rfl⟩ := List.append_eq_nil_iff.mp hclean
      exact ⟨hacc, ⟨o', hf⟩, hparts⟩
    · rintro ⟨hacc, ⟨o', hf⟩, hparts⟩
      let mid : Finding T :=
        (o'.elim acc.1 fun overlay => some (combine acc.1 part overlay), acc.2 ++ [])
      have hmid : mid.2 = [] := (List.append_nil acc.2).trans hacc
      obtain ⟨o, hrest⟩ := ih.mpr ⟨hmid, hparts⟩
      exact ⟨o, mid, collect_eq_ok.mpr ⟨o', [], hf, rfl⟩, hrest⟩

omit [TypeSet T] in
theorem forall_mem_zipIdx {l : List α} {P : α → Prop} : (∀ x ∈ l.zipIdx, P x.1) ↔ ∀ v ∈ l, P v := by
  have hmap : l.zipIdx.map Prod.fst = l := List.zipIdx_map_fst 0 l
  conv_rhs => rw [← hmap]
  exact List.forall_mem_map.symm

end Loops

section Traversal

variable {spi} {deeper : Deeper T} {b : Bool} {model : ModelNode T} {path docPath : String}
  {level : ChangeLevel} {left : Nat}

omit [TypeSet T] in
theorem fieldFinding_of_some {field : String × Doc} {c : ModelNode T}
    (h : model.child field.1 = some c) :
    fieldFinding deeper b model path docPath field =
      deeper.node c field.2 (path ++ "." ++ field.1) (docPath ++ "." ++ field.1) .type := by
  simp only [fieldFinding, h]

omit [TypeSet T] in
/-- A field the model does not declare never goes without a change. -/
theorem fieldFinding_of_none {field : String × Doc} (h : model.child field.1 = none)
    (o : Option (ModelNode T)) :
    fieldFinding deeper b model path docPath field ≠ .ok (o, []) := by
  simp only [fieldFinding, h, Ne]
  by_cases hname : isSegmentName field.1
  · simp only [hname, if_true, Checked.bind_eq_ok]
    rintro ⟨⟨derived, inner⟩, _, heq⟩
    cases heq
  · cases b <;> simp [hname, throw, throwThe, MonadExceptOf.throw, pure, Except.pure]

theorem wrongKind_not_clean {data : Doc} (o : Option (ModelNode T)) :
    nodeBody.wrongKind spi deeper b model data path docPath level ≠ .ok (o, []) := by
  rw [nodeBody.wrongKind, Ne, Checked.bind_eq_ok]
  rintro ⟨⟨derived, inner⟩, _, h⟩
  cases h

/-- The change `array` records when the element has never been observed. -/
def learnChange (model : ModelNode T) (items : List Doc) (path docPath : String) : Change :=
  { path, docPath, reason := .arrayElement, required := .arrayElements, observed := none
    declared := [], declaredKinds := model.declaredKindNames, value := .array items }

def wrapElement (r : Finding T) : Finding T := (r.1.map fun elem => newArrayNode (some elem), r.2)

theorem array_of_some {items : List Doc} {e : ModelNode T} (h : model.element = some e) :
    array deeper model items path docPath =
      wrapElement <$> items.zipIdx.foldlM (collect mergeItem (judgeItem deeper e path docPath))
        (none, []) := by
  simp only [array, h, map_eq_pure_bind]
  rfl

theorem array_of_none {items : List Doc} (h : model.element = none) :
    array deeper model items path docPath = wrapElement <$>
      if items.isEmpty then
        .ok (some (newLeafNode .null), [learnChange model items path docPath])
      else items.zipIdx.foldlM (collect mergeItem (learnItem deeper path docPath))
        (none, [learnChange model items path docPath]) := by
  simp only [array, h, map_eq_pure_bind]
  split <;> rfl

theorem array_clean {items : List Doc} :
    (∃ o, array deeper model items path docPath = .ok (o, [])) ↔
      ∃ e, model.element = some e ∧ ∀ item ∈ items.zipIdx, ∃ o,
        judgeItem deeper e path docPath item = .ok (o, []) := by
  cases helem : model.element with
  | none =>
    simp only [array_of_none helem, Checked.map_eq_ok, reduceCtorEq, false_and, exists_false,
      iff_false, not_exists, not_and]
    rintro o ⟨o', changes⟩ h heq
    cases heq
    by_cases hitems : items.isEmpty
    · simp [hitems] at h
    rw [if_neg hitems] at h
    exact absurd (foldlM_collect_clean.mp ⟨o', h⟩).1 (by simp)
  | some e =>
    simp only [array_of_some helem, Checked.map_eq_ok, Option.some.injEq, exists_eq_left']
    constructor
    · rintro ⟨o, ⟨o', changes⟩, h, heq⟩
      cases heq
      exact (foldlM_collect_clean.mp ⟨o', h⟩).2
    · intro h
      let start : Finding T := (none, [])
      obtain ⟨o, ho⟩ := foldlM_collect_clean.mpr ⟨(rfl : start.2 = []), h⟩
      exact ⟨_, _, ho, rfl⟩

theorem null_clean : (∃ o, null model path docPath level = (o, [])) ↔ model.leaf ≠ .absent := by
  cases hleaf : model.leaf <;> simp [null, nullable, ModelNode.scalar, hleaf]

theorem scalar_clean {data : Doc} :
    (∃ o, scalar spi model data path docPath level = (o, [])) ↔
      ∃ s, model.leaf = .scalar s ∧ holdsScalar spi (TypeSet.types s) data = true := by
  cases hleaf : model.leaf with
  | scalar s =>
    by_cases hholds : holdsScalar spi (TypeSet.types s) data <;>
      simp [scalar, ModelNode.scalar, hleaf, hholds]
  | _ => simp [scalar, ModelNode.scalar, hleaf]

/-- A traversal is clean exactly when the model admits the document. -/
theorem walk_clean (b : Bool) (data : Doc) (path docPath : String) (level : ChangeLevel) :
    (∃ o, (walk spi b left).node model data path docPath level = .ok (o, [])) ↔
      Admits spi left model data := by
  induction left generalizing model data path docPath level with
  | zero => simp [walk, Admits, throw, throwThe, MonadExceptOf.throw]
  | succ left ih =>
    rw [walk]
    cases data with
    | object fields =>
      simp only [nodeBody, Admits]
      cases hobj : model.object with
      | none => simpa [hobj] using fun o => wrongKind_not_clean o
      | some cs =>
        simp only [Option.isNone_some, Bool.false_eq_true, if_false, Option.isSome_some,
          true_and, object]
        rw [foldlM_collect_clean]
        simp only [true_and]
        refine forall₂_congr fun field _ => ?_
        cases hchild : model.child field.1 with
        | none => simpa [hchild] using fun o => fieldFinding_of_none hchild o
        | some c => simp [fieldFinding_of_some hchild, ih]
    | array items =>
      simp only [nodeBody, Admits]
      cases harr : model.array with
      | none => simpa [harr, element] using fun o => wrongKind_not_clean o
      | some elem =>
        simp only [Option.isNone_some, Bool.false_eq_true, if_false]
        rw [array_clean]
        refine exists_congr fun e => and_congr_right fun _ => ?_
        simp only [judgeItem, ih]
        exact forall_mem_zipIdx
    | null => simpa [nodeBody, nodeValue, Admits, pure, Except.pure] using null_clean
    | float64 => simp [nodeBody, nodeValue, Admits, throw, throwThe, MonadExceptOf.throw]
    | other t => simp [nodeBody, nodeValue, Admits, throw, throwThe, MonadExceptOf.throw]
    | bool v => simpa [nodeBody, nodeValue, Admits, pure, Except.pure] using scalar_clean
    | number v => simpa [nodeBody, nodeValue, Admits, pure, Except.pure] using scalar_clean
    | string v => simpa [nodeBody, nodeValue, Admits, pure, Except.pure] using scalar_clean

end Traversal

section Validate

variable {spi} {n m : ModelNode T} {d : Doc}

/-- `Validate` reports nothing exactly when the model admits the document. -/
theorem validate_eq_nil : validate spi n d = [] ↔ Admits spi maxValidationDepth n d := by
  rw [← walk_clean true d "" "" .type]
  unfold validate admitWith
  cases (walk spi true maxValidationDepth).node n d "" "" .type with
  | error e => simp
  | ok r => simp [Prod.ext_iff]

/-! ## More declarations admit more -/

theorem leaf_mono (h : n.shape ≤ m.shape) : n.leaf ≤ m.leaf := (WithBot.coe_le_coe.mp (h [])).1

theorem step_mono (h : n.shape ≤ m.shape) {s : Segment} {c : ModelNode T}
    (hc : n.step s = some c) : ∃ c', m.step s = some c' ∧ c.shape ≤ c'.shape := by
  have hsub : c.shape ≤ optShape (m.step s) := by
    intro p
    have hp := h (s :: p)
    rwa [shape_cons, shape_cons, hc] at hp
  cases hm : m.step s with
  | none =>
    have hnil := hsub []
    rw [hm, optShape_none, shape_nil] at hnil
    exact absurd (le_bot_iff.mp hnil) WithBot.coe_ne_bot
  | some c' => exact ⟨c', rfl, by rwa [hm] at hsub⟩

theorem Admits.mono (henlarges : UnionEnlarges spi T) {left : Nat} (h : n.shape ≤ m.shape)
    (hn : Admits spi left n d) : Admits spi left m d := by
  induction left generalizing n m d with
  | zero => exact hn
  | succ left ih =>
    have hscalar : ∀ v, (∃ s, n.leaf = .scalar s ∧ holdsScalar spi (TypeSet.types s) v = true) →
        ∃ s, m.leaf = .scalar s ∧ holdsScalar spi (TypeSet.types s) v = true := by
      rintro v ⟨s, hs, hholds⟩
      obtain ⟨t, ht, hst⟩ := Leaf.scalar_le_iff.mp (hs ▸ leaf_mono h)
      refine ⟨t, ht, ?_⟩
      rw [← sup_eq_right.mpr hst]
      exact henlarges s t v hholds
    cases d with
    | null =>
      rw [Admits, ← Leaf.nullable_le_iff] at hn ⊢
      exact hn.trans (leaf_mono h)
    | object fields =>
      refine ⟨(WithBot.coe_le_coe.mp (h [])).2.1 hn.1, fun f hf => ?_⟩
      obtain ⟨c, hc, hadm⟩ := hn.2 f hf
      obtain ⟨c', hc', hle⟩ := step_mono h (s := .field f.1) hc
      exact ⟨c', hc', ih hle hadm⟩
    | array items =>
      obtain ⟨e, he, hadm⟩ := hn
      obtain ⟨e', he', hle⟩ := step_mono h (s := .element) he
      exact ⟨e', he', fun item hitem => ih hle (hadm item hitem)⟩
    | float64 => exact hn
    | other _ => exact hn
    | bool v => exact hscalar _ hn
    | number v => exact hscalar _ hn
    | string v => exact hscalar _ hn

/-! ## The order of fields does not matter -/

/-- The same document, its objects visited in another order. -/
inductive Doc.Reordered : Doc → Doc → Prop
  | refl (d : Doc) : Reordered d d
  | fields {fs gs : List (String × Doc)} (perm : fs.Perm gs) : Reordered (.object fs) (.object gs)
  | field {pre post : List (String × Doc)} {name : String} {v w : Doc} (inner : Reordered v w) :
      Reordered (.object (pre ++ (name, v) :: post)) (.object (pre ++ (name, w) :: post))
  | item {pre post : List Doc} {v w : Doc} (inner : Reordered v w) :
      Reordered (.array (pre ++ v :: post)) (.array (pre ++ w :: post))
  | trans {d e f : Doc} (first : Reordered d e) (second : Reordered e f) : Reordered d f

theorem Admits.reordered {e : Doc} (hde : d.Reordered e) {left : Nat} (h : Admits spi left n d) :
    Admits spi left n e := by
  induction hde generalizing left n with
  | refl d => exact h
  | fields perm =>
    cases left with
    | zero => exact h
    | succ left => exact ⟨h.1, fun f hf => h.2 f (perm.mem_iff.mpr hf)⟩
  | @field pre post name v w _ ih =>
    cases left with
    | zero => exact h
    | succ left =>
      refine ⟨h.1, fun f hf => ?_⟩
      rw [List.mem_append, List.mem_cons] at hf
      rcases hf with hf | rfl | hf
      · exact h.2 f (List.mem_append.mpr (.inl hf))
      · obtain ⟨c, hc, hadm⟩ := h.2 (name, v) (by simp)
        exact ⟨c, hc, ih hadm⟩
      · exact h.2 f (List.mem_append.mpr (.inr (List.mem_cons_of_mem _ hf)))
  | @item pre post v w _ ih =>
    cases left with
    | zero => exact h
    | succ left =>
      obtain ⟨elem, helem, hadm⟩ := h
      refine ⟨elem, helem, fun item hitem => ?_⟩
      rw [List.mem_append, List.mem_cons] at hitem
      rcases hitem with hitem | rfl | hitem
      · exact hadm item (List.mem_append.mpr (.inl hitem))
      · exact ih (hadm v (by simp))
      · exact hadm item (List.mem_append.mpr (.inr (List.mem_cons_of_mem _ hitem)))
  | trans _ _ ih₁ ih₂ => exact ih₂ (ih₁ h)

theorem validate_mono (henlarges : UnionEnlarges spi T) (hle : n.shape ≤ m.shape) {e : Doc}
    (hde : d.Reordered e) (hvalid : validate spi n d = []) : validate spi m e = [] := by
  rw [validate_eq_nil] at hvalid ⊢
  exact (hvalid.reordered hde).mono henlarges hle

theorem le_extend {level : ChangeLevel} (h : extend spi n d level = .ok m) : n.shape ≤ m.shape := by
  unfold extend at h
  split at h
  · cases h
  split at h
  · cases h
    exact le_rfl
  split at h
  · cases h
  split at h
  · cases h
    exact le_rfl
  cases h
  exact le_shape_merge n _

end Validate

/-- A document valid against a model stays valid against every model that `Apply`, `Merge` or
`Extend` makes of it, in whatever order its fields are visited. -/
theorem validate_monotone (henlarges : UnionEnlarges spi T) (base : ModelNode T) (d e : Doc)
    (hde : d.Reordered e) (hvalid : validate spi base d = []) :
    (∀ delta r, apply base delta = .ok r → validate spi r e = []) ∧
      (∀ m : ModelNode T, validate spi (base.merge m) e = []) ∧
      (∀ d' level r, extend spi base d' level = .ok r → validate spi r e = []) :=
  ⟨fun _ _ h => validate_mono henlarges (le_apply h) hde hvalid,
    fun m => validate_mono henlarges (le_shape_merge base m) hde hvalid,
    fun _ _ _ h => validate_mono henlarges (le_extend h) hde hvalid⟩

theorem holdsScalar_subset {declared declared' : List DataType} (h : declared ⊆ declared') {v : Doc}
    (hholds : holdsScalar spi declared v = true) : holdsScalar spi declared' v = true := by
  cases v with
  | number text =>
    simp only [holdsScalar] at hholds ⊢
    cases hparse : spi.parseDecimal text with
    | none => simp [hparse] at hholds
    | some dec =>
      rw [hparse] at hholds
      obtain ⟨dt, hdt, hadmits⟩ := List.any_eq_true.mp hholds
      exact List.any_eq_true.mpr ⟨dt, h hdt, hadmits⟩
  | string text =>
    obtain ⟨dt, hdt, hadmits⟩ := List.any_eq_true.mp hholds
    exact List.any_eq_true.mpr ⟨dt, h hdt, hadmits⟩
  | bool b =>
    rw [holdsScalar, List.contains_iff_mem] at hholds ⊢
    exact h hholds
  | _ => cases hholds

namespace Sample

/-- Numbers of a few digits; every other literal is out of the parser's range. -/
def decimals : ScalarSpi Int where
  parseDecimal text :=
    if text = "7" then some 7 else if text = "2147483648" then some 2147483648 else none
  stripTrailingZeros d := d
  scale _ := 0
  unscaled d := d
  precision _ := 10
  classifyInteger d := if d < 2147483648 then .integer else .long
  classifyDecimal _ := .double
  admitsNumeric dt d :=
    match dt with
    | .integer => d < 2147483648
    | .long => true
    | _ => false
  classifyTemporalString _ := none

theorem decimals_unionEnlarges : UnionEnlarges decimals TypeFlags := by
  intro s t v
  refine holdsScalar_subset decimals (List.map_subset _ fun d hd => ?_)
  rw [List.mem_filter] at hd ⊢
  exact ⟨hd.1, by simp [hd.2]⟩

def textField : ModelNode TypeFlags := ⟨.absent, some [("a", newLeafNode .string)], none⟩

theorem textField_valid : validate decimals textField (.object [("a", .string "x")]) = [] := by
  rw [validate_eq_nil]
  refine ⟨rfl, fun f hf => ?_⟩
  rw [List.mem_singleton.mp hf]
  exact ⟨newLeafNode .string, rfl, _, rfl, rfl⟩

end Sample

open Sample

theorem validate_monotone_textField :
    validate decimals textField (.object [("a", .string "x")]) = [] ∧
      (∀ delta r, apply textField delta = .ok r →
        validate decimals r (.object [("a", .string "x")]) = []) ∧
      (∀ m : ModelNode Sample.TypeFlags,
        validate decimals (textField.merge m) (.object [("a", .string "x")]) = []) ∧
      (∀ d' level r, extend decimals textField d' level = .ok r →
        validate decimals r (.object [("a", .string "x")]) = []) :=
  ⟨textField_valid, validate_monotone decimals decimals_unionEnlarges
    textField _ _ (.refl _) textField_valid⟩

end CyodaGo.Schema
