import CyodaGo.Model.Schema.Export
import CyodaGo.Shared.Json
import CyodaGo.Verification.Schema.Needs

/-! # The exported JSON Schema

What the keywords of an exported schema mean, and that the schema of a model accepts every
document the model admits: the branch that holds a value is one of those rendered. -/

namespace CyodaGo.Schema

open ModelNode

/-! ## The keywords -/

/-- The text of a number is this JSON literal. -/
def Writes (num : Json.Number) (text : String) : Prop := num.bytes = text.toByteArray.data.toList

namespace Doc

/-- The keyword `type`: a number with zero fraction is an integer. -/
def HasType (type : String) : Doc → Prop
  | .null => type = "null"
  | .bool _ => type = "boolean"
  | .number text =>
    type = "number" ∨ type = "integer" ∧ ∃ num, Writes num text ∧ num.value.isInt = true
  | .string _ => type = "string"
  | .array _ => type = "array"
  | .object _ => type = "object"
  | .float64 => False
  | .other _ => False

/-- The value is one a JSON text can hold. -/
def IsJson : Doc → Prop
  | .number text => ∃ num, Writes num text
  | .float64 => False
  | .other _ => False
  | _ => True

end Doc

namespace JsonSchema

mutual

/-- The document meets every keyword of the schema; `format` only annotates. -/
def Valid : JsonSchema → Doc → Prop
  | ⟨type, _, properties, items, anyOf⟩, d =>
    (∀ t, type = some t → d.HasType t) ∧ ValidProperties properties d ∧ ValidItems items d ∧
      ValidAnyOf anyOf d
  termination_by structural s => s

/-- A keyword that is absent asks for nothing, nor does one for another kind of value. -/
def ValidProperties : Option (List (String × JsonSchema)) → Doc → Prop
  | none, _ => True
  | some properties, d =>
    ∀ fields, d = .object fields → ∀ f ∈ fields, ValidField properties f.1 f.2
  termination_by structural properties => properties

/-- A field that `properties` does not name is unconstrained. -/
def ValidField : List (String × JsonSchema) → String → Doc → Prop
  | [], _, _ => True
  | (key, s) :: rest, name, v => if name = key then Valid s v else ValidField rest name v
  termination_by structural properties => properties

def ValidItems : Option JsonSchema → Doc → Prop
  | none, _ => True
  | some s, d => ∀ items, d = .array items → ∀ v ∈ items, Valid s v
  termination_by structural items => items

def ValidAnyOf : Option (List JsonSchema) → Doc → Prop
  | none, _ => True
  | some branches, d => ValidBranch branches d
  termination_by structural anyOf => anyOf

def ValidBranch : List JsonSchema → Doc → Prop
  | [], _ => False
  | s :: rest, d => Valid s d ∨ ValidBranch rest d
  termination_by structural branches => branches

end

theorem validField_iff {properties : List (String × JsonSchema)} {name : String} {v : Doc} :
    ValidField properties name v ↔ ∀ s, properties.lookup name = some s → s.Valid v := by
  induction properties with
  | nil => simp [ValidField]
  | cons p rest ih =>
    obtain ⟨key, s⟩ := p
    rw [ValidField, List.lookup_cons]
    by_cases h : name = key
    · simp [h]
    · simp [h, ih, beq_eq_false_iff_ne.mpr h]

theorem validBranch_iff {branches : List JsonSchema} {d : Doc} :
    ValidBranch branches d ↔ ∃ s ∈ branches, s.Valid d := by
  induction branches with
  | nil => simp [ValidBranch]
  | cons s rest ih => simp [ValidBranch, ih]

theorem valid_ofFormat {type : String} {format : Option String} {d : Doc} (h : d.HasType type) :
    Valid ⟨some type, format, none, none, none⟩ d := by
  refine ⟨fun t ht => ?_, trivial, trivial, trivial⟩
  cases ht
  exact h

end JsonSchema

theorem valid_unionOf {branches : List JsonSchema} {s : JsonSchema} {d : Doc} (hs : s ∈ branches)
    (h : s.Valid d) : (unionOf branches).Valid d := by
  match branches with
  | [] => cases hs
  | [b] =>
    rw [List.mem_singleton] at hs
    rwa [hs] at h
  | b :: c :: rest =>
    refine ⟨(fun _ h => by cases h), trivial, trivial, ?_⟩
    exact JsonSchema.validBranch_iff.mpr ⟨s, hs, h⟩

/-! ## Scalars -/

def DataType.isInteger : DataType → Bool
  | .integer | .long | .bigInteger | .unboundInteger => true
  | _ => false

def DataType.isDecimal : DataType → Bool
  | .double | .bigDecimal | .unboundDecimal => true
  | _ => false

def DataType.isTemporal : DataType → Bool
  | .localDate | .localDateTime | .localTime | .zonedDateTime | .year | .yearMonth => true
  | _ => false

/-- What the SPI documents of its types: only the numeric ones admit numbers, an integer type
only those of integral value, and a text is classified as a temporal type or not at all. -/
structure ScalarSpi.Typed {D : Type} (spi : ScalarSpi D) : Prop where
  numeric : ∀ dt dec, spi.admitsNumeric dt dec = true → dt.isInteger = true ∨ dt.isDecimal = true
  integral : ∀ dt num text dec, Writes num text → spi.parseDecimal text = some dec →
    spi.admitsNumeric dt dec = true → dt.isInteger = true → num.value.isInt = true
  temporal : ∀ text dt, spi.classifyTemporalString text = some dt → dt.isTemporal = true

section Scalars

variable {D : Type} {spi : ScalarSpi D} {dt : DataType} {d : Doc}

theorem valid_jsonSchemaType {type : String} (htype : (jsonSchemaType dt).type = some type)
    (h : d.HasType type) : (jsonSchemaType dt).Valid d := by
  cases dt <;> (cases htype; exact JsonSchema.valid_ofFormat h)

theorem type_of_isInteger (h : dt.isInteger = true) : (jsonSchemaType dt).type = some "integer" := by
  cases dt <;> first | rfl | cases h

theorem type_of_isDecimal (h : dt.isDecimal = true) : (jsonSchemaType dt).type = some "number" := by
  cases dt <;> first | rfl | cases h

theorem type_of_isTemporal (h : dt.isTemporal = true) :
    (jsonSchemaType dt).type = some "string" := by
  cases dt <;> first | rfl | cases h

/-- A scalar is valid against the rendering of the declared type that holds it. -/
theorem exists_valid_jsonSchemaType (hspi : spi.Typed) {declared : List DataType}
    (hjson : d.IsJson) (h : holdsScalar spi declared d = true) :
    ∃ dt ∈ declared, (jsonSchemaType dt).Valid d := by
  cases d with
  | number text =>
    simp only [holdsScalar] at h
    cases hparse : spi.parseDecimal text with
    | none => simp [hparse] at h
    | some dec =>
      rw [hparse] at h
      obtain ⟨dt, hdt, hadmits⟩ := List.any_eq_true.mp h
      refine ⟨dt, hdt, ?_⟩
      rcases hspi.numeric dt dec hadmits with hint | hdec
      · obtain ⟨num, hnum⟩ := hjson
        exact valid_jsonSchemaType (type_of_isInteger hint)
          (.inr ⟨rfl, num, hnum, hspi.integral dt num text dec hnum hparse hadmits hint⟩)
      · exact valid_jsonSchemaType (type_of_isDecimal hdec) (.inl rfl)
  | string text =>
    obtain ⟨dt, hdt, hadmits⟩ := List.any_eq_true.mp h
    refine ⟨dt, hdt, ?_⟩
    rw [Bool.or_eq_true, decide_eq_true_iff, decide_eq_true_iff] at hadmits
    rcases hadmits with rfl | hclass
    · exact JsonSchema.valid_ofFormat rfl
    · exact valid_jsonSchemaType (type_of_isTemporal (hspi.temporal text dt hclass)) rfl
  | bool b =>
    rw [holdsScalar, List.contains_iff_mem] at h
    exact ⟨.boolean, h, JsonSchema.valid_ofFormat rfl⟩
  | _ => cases h

end Scalars

/-! ## Nodes -/

section Nodes

variable {T D : Type} [TypeSet T] {spi : ScalarSpi D} {n : ModelNode T} {d : Doc}

/-- The branches a node is rendered as, whether or not it has a container among them. -/
def schemaBranches (n : ModelNode T) : List JsonSchema :=
  convertObject n.object ++ convertArray n.array ++ scalarBranches n.leaf

theorem valid_convert {s : JsonSchema} (hs : s ∈ schemaBranches n) (h : s.Valid d) :
    (convert n).Valid d := by
  obtain ⟨leaf, object, array⟩ := n
  match object, array with
  | none, none =>
    cases leaf with
    | absent => cases hs
    | nullable => cases hs
    | scalar types => exact valid_unionOf hs h
  | some _, _ => exact valid_unionOf hs h
  | none, some _ => exact valid_unionOf hs h

theorem lookup_convertChildren (children : Children T) (name : String) :
    (convertChildren children).lookup name = (children.lookup name).map convert := by
  induction children with
  | nil => rfl
  | cons c rest ih =>
    obtain ⟨key, child⟩ := c
    rw [convertChildren, List.lookup_cons, List.lookup_cons]
    cases name == key with
    | true => rfl
    | false => exact ih

theorem valid_of_scalar (hspi : spi.Typed) (hjson : d.IsJson) {types : T}
    (hleaf : n.leaf = .scalar types) (h : holdsScalar spi (TypeSet.types types) d = true) :
    (convert n).Valid d := by
  obtain ⟨dt, hdt, hvalid⟩ := exists_valid_jsonSchemaType hspi hjson h
  refine valid_convert ?_ hvalid
  rw [schemaBranches, hleaf]
  exact List.mem_append_right _ (List.mem_map_of_mem hdt)

theorem valid_of_object {fields : List (String × Doc)} (hobject : n.object.isSome)
    (h : ∀ f ∈ fields, ∀ c, n.child f.1 = some c → (convert c).Valid f.2) :
    (convert n).Valid (.object fields) := by
  obtain ⟨children, hchildren⟩ := Option.isSome_iff_exists.mp hobject
  refine valid_convert (s := ⟨some "object", none, some (convertChildren children), none, none⟩)
    ?_ ⟨?_, ?_, trivial, trivial⟩
  · rw [schemaBranches, hchildren]
    exact List.mem_append_left _ (List.mem_append_left _ (List.mem_singleton.mpr rfl))
  · intro t ht
    cases ht
    rfl
  · intro fs hfs f hf
    cases hfs
    rw [JsonSchema.validField_iff, lookup_convertChildren]
    intro s hs
    obtain ⟨c, hc, rfl⟩ := Option.map_eq_some_iff.mp hs
    refine h f hf c ?_
    rw [ModelNode.child, hchildren]
    exact hc

theorem valid_of_array {items : List Doc} {e : ModelNode T} (helement : n.element = some e)
    (h : ∀ v ∈ items, (convert e).Valid v) : (convert n).Valid (.array items) := by
  refine valid_convert (s := ⟨some "array", none, none, some (convert e), none⟩)
    ?_ ⟨?_, trivial, ?_, trivial⟩
  · rw [schemaBranches, array_of_element helement]
    exact List.mem_append_left _ (List.mem_append_right _ (List.mem_singleton.mpr rfl))
  · intro t ht
    cases ht
    rfl
  · intro is his
    cases his
    exact h

/-- The induction is on the levels of nesting left; a document and a tree go down together. -/
theorem Admits.valid_convert (hspi : spi.Typed) {left : Nat} (h : Admits spi left n d)
    (hjson : d.All Doc.IsJson) (hnull : d.All (· ≠ .null)) : (convert n).Valid d := by
  induction left generalizing n d with
  | zero => exact h.elim
  | succ left ih =>
    cases d with
    | null => exact (hnull.here rfl).elim
    | object fields =>
      refine valid_of_object h.1 fun f hf c hc => ?_
      obtain ⟨c', hc', hadmits⟩ := h.2 f hf
      cases hc.symm.trans hc'
      exact ih hadmits (hjson.field hf) (hnull.field hf)
    | array items =>
      obtain ⟨e, helement, hitems⟩ := h
      refine valid_of_array helement fun v hv => ?_
      exact ih (hitems v hv) (hjson.item hv) (hnull.item hv)
    | float64 => exact h.elim
    | other goType => exact h.elim
    | number text =>
      obtain ⟨types, hleaf, hholds⟩ := h
      exact valid_of_scalar hspi hjson.here hleaf hholds
    | string text =>
      obtain ⟨types, hleaf, hholds⟩ := h
      exact valid_of_scalar hspi hjson.here hleaf hholds
    | bool b =>
      obtain ⟨types, hleaf, hholds⟩ := h
      exact valid_of_scalar hspi hjson.here hleaf hholds

/-- The exported schema rejects no document the model admits. -/
theorem exportJsonSchema_accepts (hspi : spi.Typed) (currentState : String) (n : ModelNode T)
    (d : Doc) (hjson : d.All Doc.IsJson) (hnull : d.All (· ≠ .null))
    (hvalid : validate spi n d = []) : (exportJsonSchema currentState n).model.Valid d :=
  Admits.valid_convert hspi (validate_eq_nil.mp hvalid) hjson hnull

end Nodes

namespace Sample

theorem isInt_of_digits {num : Json.Number} (hpoint : Json.byte '.' ∉ num.bytes)
    (hlower : Json.byte 'e' ∉ num.bytes) (hupper : Json.byte 'E' ∉ num.bytes) :
    num.value.isInt = true := by
  obtain ⟨negative, int, canonical, frac, exp⟩ := num
  have hfrac : frac = none := by
    cases frac with
    | none => rfl
    | some ds => simp [Json.Number.bytes] at hpoint
  have hexp : exp = none := by
    cases exp with
    | none => rfl
    | some e =>
      obtain ⟨upper, sign, digits⟩ := e
      cases upper with
      | true => simp [Json.Number.bytes, Json.Exponent.bytes] at hupper
      | false => simp [Json.Number.bytes, Json.Exponent.bytes] at hlower
  subst hfrac hexp
  cases negative <;>
    simp [Json.Number.value, Json.Number.exponent, Json.Number.fraction, Rat.isInt]

theorem decimals_typed : decimals.Typed where
  numeric dt dec h := by cases dt <;> first | exact .inl rfl | cases h
  integral dt num text dec hwrites hparse _ _ := by
    have htext : text = "7" ∨ text = "2147483648" := by
      by_contra hother
      rw [not_or] at hother
      simp [decimals, hother.1, hother.2] at hparse
    rcases htext with rfl | rfl <;>
      exact isInt_of_digits (hwrites ▸ by decide) (hwrites ▸ by decide) (hwrites ▸ by decide)
  temporal _ _ h := by cases h

/-- A field observed as a text and as an array of numbers. -/
def mixedField : ModelNode TypeFlags :=
  ⟨.absent, some [("a",
    ⟨.scalar (TypeSet.single .string), none, some (some (newLeafNode .integer))⟩)], none⟩

def sevens : Doc := .object [("a", .array [.number "7"])]

theorem sevens_all {P : Doc → Prop} (hobject : P sevens) (harray : P (.array [.number "7"]))
    (hnumber : P (.number "7")) : sevens.All P := by
  refine .mk hobject (fun fs hfs f hf => ?_) (fun _ h => by cases h)
  cases hfs
  rw [List.mem_singleton.mp hf]
  refine .mk harray (fun _ h => by cases h) fun is his v hv => ?_
  cases his
  rw [List.mem_singleton.mp hv]
  exact .mk hnumber (fun _ h => by cases h) (fun _ h => by cases h)

theorem writes_seven : Writes ⟨false, ⟨[7], by simp⟩, by simp, none, none⟩ "7" := by
  change [(7 : Json.Digit)].map Json.Digit.byte ++ [] ++ [] = _
  decide

theorem mixedField_valid : validate decimals mixedField sevens = [] := by
  rw [validate_eq_nil]
  refine ⟨rfl, fun f hf => ?_⟩
  rw [List.mem_singleton.mp hf]
  refine ⟨_, rfl, _, rfl, fun v hv => ?_⟩
  rw [List.mem_singleton.mp hv]
  exact ⟨_, rfl, rfl⟩

end Sample

open Sample

theorem exportJsonSchema_accepts_mixedField :
    validate decimals mixedField sevens = [] ∧
      (exportJsonSchema "LOCKED" mixedField).model.Valid sevens :=
  ⟨mixedField_valid,
    exportJsonSchema_accepts decimals_typed "LOCKED" mixedField sevens
      (sevens_all trivial trivial ⟨_, writes_seven⟩)
      (sevens_all (fun h => by cases h) (fun h => by cases h) (fun h => by cases h))
      mixedField_valid⟩

end CyodaGo.Schema
