import CyodaGo.Verification.Schema.Admission

/-! # What a document needs of a model

Stated value by value, without the traversal: at each path, what the values of the document
there declare and the model does not hold. A shape above the model covers these needs exactly
when it admits the document. -/

namespace CyodaGo.Schema

open ModelNode

variable {T D : Type} [TypeSet T]

namespace Doc

/-- `w` is a value of the document at the path; all items of an array share one path. -/
inductive At : Doc → List Segment → Doc → Prop
  | here (d : Doc) : At d [] d
  | field {fs : List (String × Doc)} {name : String} {v w : Doc} {p : List Segment}
      (mem : (name, v) ∈ fs) (inner : At v p w) : At (.object fs) (.field name :: p) w
  | item {items : List Doc} {v w : Doc} {p : List Segment} (mem : v ∈ items)
      (inner : At v p w) : At (.array items) (.element :: p) w

inductive All (P : Doc → Prop) : Doc → Prop
  | mk {d : Doc} (here : P d) (fields : ∀ fs, d = .object fs → ∀ x ∈ fs, All P x.2)
      (items : ∀ is, d = .array is → ∀ v ∈ is, All P v) : All P d

/-- A JSON object decodes to a map: one value for each name. -/
abbrev Distinct (d : Doc) : Prop := All (fun d => ∀ fs, d = .object fs → (Entries.keys fs).Nodup) d

variable (spi : ScalarSpi D)

/-- Every number of the document is in the parser's range. -/
abbrev NumbersParse (d : Doc) : Prop :=
  All (fun d => ∀ text, d = .number text → (spi.parseDecimal text).isSome) d

variable {P : Doc → Prop}

theorem All.here {d : Doc} (h : All P d) : P d := by cases h; assumption

theorem All.field {fs : List (String × Doc)} (h : All P (.object fs)) {x : String × Doc}
    (hx : x ∈ fs) : All P x.2 := by
  cases h with
  | mk _ fields _ => exact fields fs rfl x hx

theorem All.item {items : List Doc} (h : All P (.array items)) {v : Doc} (hv : v ∈ items) :
    All P v := by
  cases h with
  | mk _ _ inner => exact inner items rfl v hv

/-- What the value itself declares. -/
def decl : Doc → Decl T
  | .null => (.nullable, false, false)
  | .object _ => (.absent, true, false)
  | .array _ => (.absent, false, true)
  | v => (Leaf.ofType (inferDataType spi v), false, false)

/-- The declaration holds the value, looking only at the value itself. -/
def HeldBy (x : Decl T) : Doc → Prop
  | .null => x.1 ≠ .absent
  | .object _ => x.2.1 = true
  | .array _ => x.2.2 = true
  | .float64 => False
  | .other _ => False
  | v => ∃ s, x.1 = .scalar s ∧ holdsScalar spi (TypeSet.types s) v = true

def Held (x : WithBot (Decl T)) (v : Doc) : Prop := ∃ y : Decl T, x = y ∧ v.HeldBy spi y

end Doc

/-- At the path, the document needs a declaration the shape does not make: that of a value it
does not hold there, or a first element for an array that is empty. -/
inductive Needs (spi : ScalarSpi D) (F : Shape T) (d : Doc) : List Segment → Decl T → Prop
  | value {p : List Segment} {v : Doc} (at_ : d.At p v) (missing : ¬ v.Held spi (F p)) :
      Needs spi F d p (v.decl spi)
  | element {p : List Segment} (at_ : d.At p (.array [])) (missing : F (p ++ [.element]) = ⊥) :
      Needs spi F d (p ++ [.element]) (.nullable, false, false)

/-- The shape makes every declaration that is needed beyond `F`. -/
def Covers (spi : ScalarSpi D) (F : Shape T) (d : Doc) (f : Shape T) : Prop :=
  ∀ p x, Needs spi F d p x → (x : WithBot (Decl T)) ≤ f p

/-- The subtree of a shape below one step. -/
def below (F : Shape T) (s : Segment) : Shape T := fun p => F (s :: p)

section Covers

variable {spi : ScalarSpi D} {F f : Shape T}

variable {v : Doc}

theorem Needs.field {fs : List (String × Doc)} {name : String} (hmem : (name, v) ∈ fs)
    {p : List Segment} {x : Decl T} (h : Needs spi (below F (.field name)) v p x) :
    Needs spi F (.object fs) (.field name :: p) x := by
  cases h with
  | value hat hmissing => exact .value (.field hmem hat) hmissing
  | element hat hmissing => exact .element (.field hmem hat) hmissing

theorem Needs.item {items : List Doc} (hmem : v ∈ items) {p : List Segment} {x : Decl T}
    (h : Needs spi (below F .element) v p x) : Needs spi F (.array items) (.element :: p) x := by
  cases h with
  | value hat hmissing => exact .value (.item hmem hat) hmissing
  | element hat hmissing => exact .element (.item hmem hat) hmissing

theorem covers_object {fs : List (String × Doc)} :
    Covers spi F (.object fs) f ↔
      (¬ Doc.Held spi (F []) (.object fs) → ((.absent, true, false) : Decl T) ≤ f []) ∧
        ∀ x ∈ fs, Covers spi (below F (.field x.1)) x.2 (below f (.field x.1)) := by
  constructor
  · intro h
    refine ⟨fun hmissing => h [] _ (.value (.here _) hmissing), fun x hx p y hneeds => ?_⟩
    exact h _ y (hneeds.field hx)
  · rintro ⟨hhere, hfields⟩ p x hneeds
    cases hneeds with
    | value hat hmissing =>
      cases hat with
      | here => exact hhere hmissing
      | field hmem inner => exact hfields _ hmem _ _ (.value inner hmissing)
    | element hat hmissing =>
      cases hat with
      | field hmem inner => exact hfields _ hmem _ _ (.element inner hmissing)

theorem covers_array {items : List Doc} :
    Covers spi F (.array items) f ↔
      (¬ Doc.Held spi (F []) (.array items) → ((.absent, false, true) : Decl T) ≤ f []) ∧
        (items = [] → F [.element] = ⊥ → ((.nullable, false, false) : Decl T) ≤ f [.element]) ∧
        ∀ v ∈ items, Covers spi (below F .element) v (below f .element) := by
  constructor
  · intro h
    refine ⟨fun hmissing => h [] _ (.value (.here _) hmissing), ?_, fun v hv p y hneeds => ?_⟩
    · rintro rfl hmissing
      exact h [.element] _ (Needs.element (p := []) (.here _) hmissing)
    · exact h _ y (hneeds.item hv)
  · rintro ⟨hhere, hempty, hitems⟩ p x hneeds
    cases hneeds with
    | value hat hmissing =>
      cases hat with
      | here => exact hhere hmissing
      | item hmem inner => exact hitems _ hmem _ _ (.value inner hmissing)
    | element hat hmissing =>
      cases hat with
      | here => exact hempty rfl hmissing
      | item hmem inner => exact hitems _ hmem _ _ (.element inner hmissing)

/-- A value without parts. -/
def Doc.IsValue : Doc → Prop
  | .object _ => False
  | .array _ => False
  | _ => True

theorem covers_value (hv : v.IsValue) :
    Covers spi F v f ↔ (¬ Doc.Held spi (F []) v → ((v.decl spi : Decl T) : WithBot (Decl T)) ≤ f []) := by
  constructor
  · intro h hmissing
    exact h [] _ (.value (.here _) hmissing)
  · intro h p x hneeds
    cases hneeds with
    | value hat hmissing =>
      cases hat with
      | here => exact h hmissing
      | field => exact hv.elim
      | item => exact hv.elim
    | element hat hmissing => cases hat <;> exact hv.elim

end Covers

/-! ## Covering the needs is admitting the document -/

/-- The document is within the depth bound and made of JSON values. -/
def Fits : Nat → Doc → Prop
  | 0, _ => False
  | left + 1, d =>
    match d with
    | .object fs => ∀ x ∈ fs, Fits left x.2
    | .array items => ∀ v ∈ items, Fits left v
    | .float64 => False
    | .other _ => False
    | _ => True

/-- What the engine expects of the SPI's classifiers and type sets: a value is held by the type
it is classified as, and uniting type sets only enlarges what they hold. -/
structure ScalarSpi.Lawful (spi : ScalarSpi D) (T : Type) [TypeSet T] : Prop where
  temporal_ne_null : ∀ text, spi.classifyTemporalString text ≠ some .null
  number_ne_null : ∀ d, inferNumber spi d ≠ .null
  number_admitted : ∀ d, spi.admitsNumeric (inferNumber spi d) d = true
  enlarges : UnionEnlarges spi T

section Admits

variable {spi : ScalarSpi D} {F : Shape T} {n : ModelNode T} {d : Doc} {left : Nat}

/-- A number, text or flag. -/
def Doc.IsScalar : Doc → Prop
  | .number _ => True
  | .string _ => True
  | .bool _ => True
  | _ => False

variable {v : Doc} {s : Segment}

/-- A scalar is held by the type it is classified as. -/
theorem holdsScalar_infer (hspi : spi.Lawful T) (hv : v.IsScalar) (hparse : v.NumbersParse spi) :
    inferDataType spi v ≠ .null ∧ holdsScalar spi [inferDataType spi v] v = true := by
  cases v with
  | number text =>
    obtain ⟨dec, hdec⟩ := Option.isSome_iff_exists.mp (hparse.here text rfl)
    simp only [inferDataType, holdsScalar, hdec, List.any_cons, List.any_nil, Bool.or_false]
    exact ⟨hspi.number_ne_null dec, hspi.number_admitted dec⟩
  | string text =>
    cases htemporal : spi.classifyTemporalString text with
    | none => simp [inferDataType, holdsScalar, htemporal]
    | some dt =>
      simp only [inferDataType, holdsScalar, htemporal, Option.getD_some]
      refine ⟨fun hnull => ?_, by simp⟩
      exact hspi.temporal_ne_null text (htemporal.trans (congrArg some hnull))
  | bool b => exact ⟨by simp [inferDataType], rfl⟩
  | _ => exact hv.elim

theorem holdsScalar_of_le (henlarges : UnionEnlarges spi T) {s t : T} (hst : s ≤ t)
    (h : holdsScalar spi (TypeSet.types s) v = true) :
    holdsScalar spi (TypeSet.types t) v = true := by
  rw [← sup_eq_right.mpr hst]
  exact henlarges s t v h

/-- Held already, or declared by what is needed: either way the scalar is held. -/
theorem held_of_covers (hspi : spi.Lawful T) (hv : v.IsScalar) (hparse : v.NumbersParse spi)
    {x : WithBot (Decl T)} (hx : x ≤ n.decl)
    (hneeds : ¬ v.Held spi x → (v.decl spi : Decl T) ≤ n.decl) :
    ∃ s, n.leaf = .scalar s ∧ holdsScalar spi (TypeSet.types s) v = true := by
  by_cases hheld : v.Held spi x
  · obtain ⟨y, rfl, hy⟩ := hheld
    have hscalar : ∃ s, y.1 = .scalar s ∧ holdsScalar spi (TypeSet.types s) v = true := by
      cases v <;> first | exact hy | exact hv.elim
    obtain ⟨s, hs, hholds⟩ := hscalar
    obtain ⟨t, ht, hst⟩ := Leaf.scalar_le_iff.mp (hs ▸ (WithBot.coe_le_coe.mp hx).1)
    exact ⟨t, ht, holdsScalar_of_le hspi.enlarges hst hholds⟩
  · obtain ⟨hne, hholds⟩ := holdsScalar_infer hspi hv hparse
    have hleaf : Leaf.ofType (inferDataType spi v) ≤ n.leaf := by
      have hle := (hneeds hheld).1
      cases v <;> first | exact hle | exact hv.elim
    rw [Leaf.ofType_of_ne_null hne] at hleaf
    obtain ⟨t, ht, hst⟩ := Leaf.scalar_le_iff.mp hleaf
    refine ⟨t, ht, holdsScalar_of_le hspi.enlarges hst ?_⟩
    rwa [TypeSet.types_single _ hne]

theorem exists_step {y : Decl T} (h : (y : WithBot (Decl T)) ≤ n.shape [s]) :
    ∃ c, n.step s = some c := by
  cases hstep : n.step s with
  | some c => exact ⟨c, rfl⟩
  | none =>
    rw [shape_cons, hstep, optShape_none] at h
    exact absurd (le_bot_iff.mp h) WithBot.coe_ne_bot

/-- A step that is needed exists. -/
theorem step_of_covers (hF : below F s ≤ below n.shape s)
    (hcov : Covers spi (below F s) v (below n.shape s)) : ∃ c, n.step s = some c := by
  by_cases hheld : v.Held spi (below F s [])
  · obtain ⟨y, hy, _⟩ := hheld
    have hle := hF []
    rw [hy] at hle
    exact exists_step hle
  · exact exists_step (hcov [] _ (.value (.here v) hheld))

omit [TypeSet T] in
theorem below_shape {c : ModelNode T} (hstep : n.step s = some c) : below n.shape s = c.shape := by
  funext p
  rw [below, shape_cons, hstep, optShape_some]

theorem below_mono {f : Shape T} (h : F ≤ f) (s : Segment) : below F s ≤ below f s :=
  fun p => h (s :: p)

/-- A model above `F` that covers what the document needs beyond `F` admits it. -/
theorem Covers.admits (hspi : spi.Lawful T) (hfits : Fits left d) (hparse : d.NumbersParse spi)
    (hF : F ≤ n.shape) (hcov : Covers spi F d n.shape) : Admits spi left n d := by
  induction left generalizing F n d with
  | zero => exact hfits
  | succ left ih =>
    have hstep : ∀ {s : Segment} {v : Doc}, Covers spi (below F s) v (below n.shape s) →
        Fits left v → v.NumbersParse spi → ∃ c, n.step s = some c ∧ Admits spi left c v := by
      intro s v hsub hv hpv
      obtain ⟨c, hc⟩ := step_of_covers (below_mono hF s) hsub
      have hFc := below_mono hF s
      rw [below_shape hc] at hsub hFc
      exact ⟨c, hc, ih hv hpv hFc hsub⟩
    cases d with
    | object fs =>
      obtain ⟨hhere, hfields⟩ := covers_object.mp hcov
      refine ⟨?_, fun x hx => hstep (hfields x hx) (hfits x hx) (hparse.field hx)⟩
      by_cases hheld : Doc.Held spi (F []) (.object fs)
      · obtain ⟨y, hy, hobj⟩ := hheld
        have hle := hF []
        rw [hy] at hle
        exact (WithBot.coe_le_coe.mp hle).2.1 hobj
      · exact (WithBot.coe_le_coe.mp (hhere hheld)).2.1 rfl
    | array items =>
      obtain ⟨_, hempty, hitems⟩ := covers_array.mp hcov
      have helem : ∃ e, n.step .element = some e := by
        cases items with
        | cons v rest =>
          obtain ⟨e, he, _⟩ := hstep (hitems v (List.mem_cons_self ..))
            (hfits v (List.mem_cons_self ..)) (hparse.item (List.mem_cons_self ..))
          exact ⟨e, he⟩
        | nil =>
          cases hbot : F [.element] with
          | bot => exact exists_step (hempty rfl hbot)
          | coe y =>
            have hle := hF [.element]
            rw [hbot] at hle
            exact exists_step hle
      obtain ⟨e, he⟩ := helem
      refine ⟨e, he, fun v hv => ?_⟩
      obtain ⟨e', he', hadm⟩ := hstep (hitems v hv) (hfits v hv) (hparse.item hv)
      cases he.symm.trans he'
      exact hadm
    | null =>
      have hcov' := (covers_value (v := .null) trivial).mp hcov
      by_cases hheld : Doc.Held spi (F []) .null
      · obtain ⟨y, hy, hleaf⟩ := hheld
        have hle := hF []
        rw [hy] at hle
        exact Leaf.nullable_le_iff.mp
          ((Leaf.nullable_le_iff.mpr hleaf).trans (WithBot.coe_le_coe.mp hle).1)
      · exact Leaf.nullable_le_iff.mp (WithBot.coe_le_coe.mp (hcov' hheld)).1
    | float64 => exact hfits.elim
    | other t => exact hfits.elim
    | bool b =>
      exact held_of_covers hspi (v := .bool b) trivial hparse (hF []) fun h =>
        WithBot.coe_le_coe.mp ((covers_value (v := .bool b) trivial).mp hcov h)
    | number text =>
      exact held_of_covers hspi (v := .number text) trivial hparse (hF []) fun h =>
        WithBot.coe_le_coe.mp ((covers_value (v := .number text) trivial).mp hcov h)
    | string text =>
      exact held_of_covers hspi (v := .string text) trivial hparse (hF []) fun h =>
        WithBot.coe_le_coe.mp ((covers_value (v := .string text) trivial).mp hcov h)

/-- Admitting a document is admitting each of its values at its place. -/
theorem Admits.at_path (h : Admits spi left n d) {p : List Segment} (hat : d.At p v) :
    ∃ left' c, n.at? p = some c ∧ Admits spi left' c v := by
  induction hat generalizing n left with
  | here d => exact ⟨left, n, rfl, h⟩
  | @field fs name v w p hmem inner ih =>
    cases left with
    | zero => exact h.elim
    | succ left =>
      obtain ⟨c, hc, hadm⟩ := h.2 _ hmem
      rw [at?, show n.step (.field name) = some c from hc, Option.bind_some]
      exact ih hadm
  | @item items v w p hmem inner ih =>
    cases left with
    | zero => exact h.elim
    | succ left =>
      obtain ⟨e, he, hadm⟩ := h
      rw [at?, show n.step .element = some e from he, Option.bind_some]
      exact ih (hadm v hmem)

theorem Admits.heldBy (h : Admits spi left n d) : d.HeldBy spi n.decl := by
  cases left with
  | zero => exact h.elim
  | succ left =>
    cases d with
    | array items =>
      obtain ⟨e, he, _⟩ := h
      rw [Doc.HeldBy, decl, array_of_element he]
      rfl
    | object fs => exact h.1
    | _ => exact h

/-- A model that admits the document lacks nothing it needs. -/
theorem Admits.not_needs (h : Admits spi left n d) (p : List Segment) (x : Decl T) :
    ¬ Needs spi n.shape d p x := by
  intro hneeds
  cases hneeds with
  | value hat hmissing =>
    obtain ⟨left', c, hc, hadm⟩ := h.at_path hat
    exact hmissing ⟨c.decl, by rw [shape_at?, hc]; rfl, hadm.heldBy⟩
  | @element p hat hmissing =>
    obtain ⟨left', c, hc, hadm⟩ := h.at_path hat
    cases left' with
    | zero => exact hadm
    | succ left' =>
      obtain ⟨e, he, _⟩ := hadm
      rw [shape_append, hc, optShape_some, shape_cons,
        show c.step .element = some e from he] at hmissing
      exact WithBot.coe_ne_bot hmissing

end Admits

/-! ## The level a document asks for -/

/-- The level that widening a type costs at the end of a path. -/
def levelAt (base : ChangeLevel) : List Segment → ChangeLevel
  | [] => base
  | .field _ :: p => levelAt .type p
  | .element :: p => levelAt .arrayElements p

variable (x : Decl T)

def declaresScalar : Bool :=
  match x.1 with
  | .scalar _ => true
  | _ => false

/-- The value is of a kind that is not declared, beside kinds that are. -/
def startsKind (v : Doc) : Bool :=
  (declaresScalar x || x.2.1 || x.2.2) &&
    match v with
    | .null => false
    | .object _ => !x.2.1
    | .array _ => !x.2.2
    | _ => !declaresScalar x

def changeCost (base : ChangeLevel) (x : Decl T) (v : Doc) : ChangeLevel :=
  if startsKind x v then .structural else base

/-- The levels of the changes that a document needs where the shape has a node: a value the node
does not hold, a field it has not seen, an element it has never observed. Below a place that is
new nothing further is charged. -/
inductive Requires (spi : ScalarSpi D) (F : Shape T) (base : ChangeLevel) (d : Doc) :
    ChangeLevel → Prop
  | value {p : List Segment} {v : Doc} {x : Decl T} (at_ : d.At p v) (node : F p = x)
      (missing : ¬ v.HeldBy spi x) : Requires spi F base d (changeCost (levelAt base p) x v)
  | newField {p : List Segment} {fs : List (String × Doc)} {name : String} {v : Doc} {x : Decl T}
      (at_ : d.At p (.object fs)) (node : F p = x) (declared : x.2.1 = true)
      (mem : (name, v) ∈ fs) (missing : F (p ++ [.field name]) = ⊥) :
      Requires spi F base d .structural
  | element {p : List Segment} {items : List Doc} {x : Decl T} (at_ : d.At p (.array items))
      (node : F p = x) (declared : x.2.2 = true) (missing : F (p ++ [.element]) = ⊥) :
      Requires spi F base d .arrayElements

section Requires

variable {spi : ScalarSpi D} {F : Shape T} {base L : ChangeLevel} {x : Decl T}

variable {v : Doc}

theorem Requires.field {fs : List (String × Doc)} {name : String} (hmem : (name, v) ∈ fs)
    (h : Requires spi (below F (.field name)) .type v L) :
    Requires spi F base (.object fs) L := by
  cases h with
  | value hat hnode hmissing => exact .value (.field hmem hat) hnode hmissing
  | newField hat hnode hdeclared hfield hmissing =>
    exact .newField (.field hmem hat) hnode hdeclared hfield hmissing
  | element hat hnode hdeclared hmissing =>
    exact .element (.field hmem hat) hnode hdeclared hmissing

theorem Requires.item {items : List Doc} (hmem : v ∈ items)
    (h : Requires spi (below F .element) .arrayElements v L) :
    Requires spi F base (.array items) L := by
  cases h with
  | value hat hnode hmissing => exact .value (.item hmem hat) hnode hmissing
  | newField hat hnode hdeclared hfield hmissing =>
    exact .newField (.item hmem hat) hnode hdeclared hfield hmissing
  | element hat hnode hdeclared hmissing =>
    exact .element (.item hmem hat) hnode hdeclared hmissing

theorem not_requires_bot {d : Doc} : ¬ Requires spi (⊥ : Shape T) base d L := by
  intro h
  cases h with
  | value _ hnode => exact WithBot.coe_ne_bot hnode.symm
  | newField _ hnode => exact WithBot.coe_ne_bot hnode.symm
  | element _ hnode => exact WithBot.coe_ne_bot hnode.symm

theorem requires_object (hF : F [] = x) {fs : List (String × Doc)} :
    Requires spi F base (.object fs) L ↔
      (¬ Doc.HeldBy spi x (.object fs) ∧ L = changeCost base x (.object fs)) ∨
      ∃ y ∈ fs, (x.2.1 = true ∧ F [.field y.1] = ⊥ ∧ L = .structural) ∨
        Requires spi (below F (.field y.1)) .type y.2 L := by
  constructor
  · intro h
    cases h with
    | value hat hnode hmissing =>
      cases hat with
      | here =>
        cases WithBot.coe_injective (hF.symm.trans hnode)
        exact .inl ⟨hmissing, rfl⟩
      | field hmem inner => exact .inr ⟨_, hmem, .inr (.value inner hnode hmissing)⟩
    | newField hat hnode hdeclared hmem hmissing =>
      cases hat with
      | here =>
        cases WithBot.coe_injective (hF.symm.trans hnode)
        exact .inr ⟨_, hmem, .inl ⟨hdeclared, hmissing, rfl⟩⟩
      | field hmem' inner =>
        exact .inr ⟨_, hmem', .inr (.newField inner hnode hdeclared hmem hmissing)⟩
    | element hat hnode hdeclared hmissing =>
      cases hat with
      | field hmem inner =>
        exact .inr ⟨_, hmem, .inr (.element inner hnode hdeclared hmissing)⟩
  · rintro (⟨hmissing, rfl⟩ | ⟨y, hy, ⟨hdeclared, hmissing, rfl⟩ | hinner⟩)
    · exact .value (.here _) hF hmissing
    · exact Requires.newField (p := []) (.here _) hF hdeclared hy hmissing
    · exact hinner.field hy

theorem requires_array (hF : F [] = x) {items : List Doc} :
    Requires spi F base (.array items) L ↔
      (¬ Doc.HeldBy spi x (.array items) ∧ L = changeCost base x (.array items)) ∨
      (x.2.2 = true ∧ F [.element] = ⊥ ∧ L = .arrayElements) ∨
      ∃ v ∈ items, Requires spi (below F .element) .arrayElements v L := by
  constructor
  · intro h
    cases h with
    | value hat hnode hmissing =>
      cases hat with
      | here =>
        cases WithBot.coe_injective (hF.symm.trans hnode)
        exact .inl ⟨hmissing, rfl⟩
      | item hmem inner => exact .inr (.inr ⟨_, hmem, .value inner hnode hmissing⟩)
    | newField hat hnode hdeclared hmem hmissing =>
      cases hat with
      | item hmem' inner =>
        exact .inr (.inr ⟨_, hmem', .newField inner hnode hdeclared hmem hmissing⟩)
    | element hat hnode hdeclared hmissing =>
      cases hat with
      | here =>
        cases WithBot.coe_injective (hF.symm.trans hnode)
        exact .inr (.inl ⟨hdeclared, hmissing, rfl⟩)
      | item hmem inner =>
        exact .inr (.inr ⟨_, hmem, .element inner hnode hdeclared hmissing⟩)
  · rintro (⟨hmissing, rfl⟩ | ⟨hdeclared, hmissing, rfl⟩ | ⟨v, hv, hinner⟩)
    · exact .value (.here _) hF hmissing
    · exact Requires.element (p := []) (.here _) hF hdeclared hmissing
    · exact hinner.item hv

theorem requires_value (hF : F [] = x) (hv : v.IsValue) :
    Requires spi F base v L ↔ ¬ v.HeldBy spi x ∧ L = changeCost base x v := by
  constructor
  · intro h
    cases h with
    | value hat hnode hmissing =>
      cases hat with
      | here =>
        cases WithBot.coe_injective (hF.symm.trans hnode)
        exact ⟨hmissing, rfl⟩
      | field => exact hv.elim
      | item => exact hv.elim
    | newField hat => cases hat <;> exact hv.elim
    | element hat => cases hat <;> exact hv.elim
  · rintro ⟨hmissing, rfl⟩
    exact .value (.here _) hF hmissing

end Requires

end CyodaGo.Schema
