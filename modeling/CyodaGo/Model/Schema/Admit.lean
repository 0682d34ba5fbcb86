import CyodaGo.Model.Schema.Node
import Mathlib.Algebra.Group.Int.Defs

/-! # Admission of documents

One traversal judges a document against a model, value by value, and reports what the model
would have to become to hold it. `Validate` renders its findings as errors; `Extend` merges the
overlay it built when the configured change level permits every finding. -/

namespace CyodaGo.Schema

/-- A decoded JSON document; `float64` and `other` are the Go values no decoder with
`UseNumber` produces. The fields of an object are in the order the loop visits them. -/
inductive Doc where
  | null
  | bool (b : Bool)
  | number (text : String)
  | string (text : String)
  | array (items : List Doc)
  | object (fields : List (String × Doc))
  | float64
  | other (goType : String)

/-! ## Scalars -/

/-- What the traversal uses of the SPI's numbers and temporal strings. -/
structure ScalarSpi (D : Type) where
  parseDecimal : String → Option D
  stripTrailingZeros : D → D
  scale : D → Int
  unscaled : D → Int
  precision : D → Int
  classifyInteger : Int → DataType
  classifyDecimal : D → DataType
  admitsNumeric : DataType → D → Bool
  classifyTemporalString : String → Option DataType

section Scalars

variable {D : Type} (spi : ScalarSpi D)

def int128MaxDigits : Int := 39

def inferNumber (d : D) : DataType :=
  let stripped := spi.stripTrailingZeros d
  if spi.scale stripped ≤ 0 then
    if spi.scale stripped = 0 then spi.classifyInteger (spi.unscaled stripped)
    -- The digit count is bounded before the power of ten is computed.
    else if int128MaxDigits < spi.precision stripped + -spi.scale stripped then .unboundInteger
    else spi.classifyInteger (spi.unscaled stripped * 10 ^ (-spi.scale stripped).toNat)
  else spi.classifyDecimal stripped

def inferDataType : Doc → DataType
  | .bool _ => .boolean
  | .number text =>
    match spi.parseDecimal text with
    | none => .string
    | some d => inferNumber spi d
  | .string text => (spi.classifyTemporalString text).getD .string
  | .null => .null
  | _ => .string

def holdsScalar (declared : List DataType) : Doc → Bool
  | .number text =>
    match spi.parseDecimal text with
    | none => false
    | some dec => declared.any fun dt => spi.admitsNumeric dt dec
  | .string text =>
    declared.any fun dt => dt = .string || spi.classifyTemporalString text = some dt
  | .bool _ => declared.contains .boolean
  | _ => false

end Scalars

/-! ## Changes -/

inductive ChangeLevel where
  | arrayLength
  | arrayElements
  | type
  | structural
  | other (text : String)
  deriving DecidableEq, Repr

namespace ChangeLevel

def text : ChangeLevel → String
  | .arrayLength => "ARRAY_LENGTH"
  | .arrayElements => "ARRAY_ELEMENTS"
  | .type => "TYPE"
  | .structural => "STRUCTURAL"
  | .other text => text

def changeLevelRank : ChangeLevel → Int
  | .arrayLength => 0
  | .arrayElements => 1
  | .type => 2
  | .structural => 3
  | .other _ => -1

def levelPermits (configured required : ChangeLevel) : Bool :=
  required.changeLevelRank ≤ configured.changeLevelRank

end ChangeLevel

inductive ChangeReason where
  | leafType | newField | newKind | arrayElement | nullable | invalidFieldName
  deriving DecidableEq, Repr

structure Change where
  path : String
  docPath : String
  reason : ChangeReason
  required : ChangeLevel
  observed : Option DataType
  declared : List DataType
  declaredKinds : List String
  value : Doc

inductive AdmitError where
  | depthExceeded (path : String)
  | unsupportedValue (path kind : String)
  | invalidFieldName (path parent name : String)
  deriving DecidableEq, Repr

def maxValidationDepth : Nat := 256

def isSegmentNameByte (c : Char) : Bool :=
  ('a' ≤ c && c ≤ 'z') || ('A' ≤ c && c ≤ 'Z') || ('0' ≤ c && c ≤ '9') || c = '_' || c = '-'

/-- A character outside ASCII has a byte outside the class. -/
def isSegmentName (s : String) : Bool := !s.toList.isEmpty && s.toList.all isSegmentNameByte

/-! ## The traversal

`node` and `describeAt` call each other on the parts of a document, one level deeper each time
and never beyond `maxValidationDepth`. Each method below takes the two calls it makes one level
deeper as an argument; `walk` ties the knot over the levels that remain. -/

section Traversal

variable {T D : Type} [TypeSet T] (spi : ScalarSpi D)

/-- An overlay, if one is needed, and the recorded changes. -/
abbrev Finding (T : Type) := Option (ModelNode T) × List Change

/-- The calls one level deeper. -/
structure Deeper (T : Type) where
  node : ModelNode T → Doc → (path docPath : String) → ChangeLevel → Except AdmitError (Finding T)
  describeAt : Doc → (path docPath : String) →
    Except AdmitError (ModelNode T × List Change)

open ModelNode

variable (model : ModelNode T) (deeper : Deeper T)

def null (path docPath : String) (scalarLevel : ChangeLevel) : Finding T :=
  if model.nullable || model.scalar.isSome then (none, [])
  else
    (some ((newLeafNode .null).setNullable),
      [{ path, docPath, reason := .nullable, required := scalarLevel, observed := some .null
         declared := model.declaredTypes, declaredKinds := model.declaredKindNames
         value := .null }])

/-- The change `wrongKind` records. -/
def newKindChange (data : Doc) (path docPath : String) (scalarLevel : ChangeLevel)
    (observed : Option DataType) : Change :=
  { path, docPath, reason := .newKind
    required := if model.kinds = [] then scalarLevel else .structural
    observed, declared := model.declaredTypes, declaredKinds := model.declaredKindNames
    value := data }

/-- `scalar`, with `wrongKind` for a scalar value in its first branch. -/
def scalar (data : Doc) (path docPath : String) (scalarLevel : ChangeLevel) : Finding T :=
  let observed := inferDataType spi data
  match model.scalar with
  | none =>
    (some (newLeafNode observed),
      [newKindChange model data path docPath scalarLevel (some observed)])
  | some s =>
    if holdsScalar spi (TypeSet.types s) data then (none, [])
    else
      (some (newLeafNode observed),
        [{ path, docPath, reason := .leafType, required := scalarLevel
           observed := some observed, declared := TypeSet.types s
           declaredKinds := model.declaredKindNames, value := data }])

/-- One field of a document against the children of a node. -/
def fieldFinding (continueOnInvalidName : Bool) (model : ModelNode T) (path docPath : String)
    (field : String × Doc) : Except AdmitError (Finding T) :=
  let (name, val) := field
  let childPath := path ++ "." ++ name
  let childDocPath := docPath ++ "." ++ name
  let change reason : Change :=
    { path := childPath, docPath := childDocPath, reason, required := .structural
      observed := none, declared := [], declaredKinds := model.declaredKindNames, value := val }
  match model.child name with
  | none =>
    if isSegmentName name then do
      let (derived, inner) ← deeper.describeAt val childPath childDocPath
      return (some derived, change .newField :: inner)
    else if continueOnInvalidName then
      return (none, [change .invalidFieldName])
    else
      throw (.invalidFieldName childPath path name)
  | some child => deeper.node child val childPath childDocPath .type

/-- The body of the loops over fields and items: what one part needs is put into the overlay
of the whole, its changes are recorded after the earlier ones. -/
def collect {α : Type} (combine : Option (ModelNode T) → α → ModelNode T → ModelNode T)
    (finding : α → Except AdmitError (Finding T)) (acc : Finding T) (part : α) :
    Except AdmitError (Finding T) := do
  let (overlay, changes) ← finding part
  match overlay with
  | none => return (acc.1, acc.2 ++ changes)
  | some overlay => return (some (combine acc.1 part overlay), acc.2 ++ changes)

/-- `ensure().SetChild`. -/
def setField (overlay : Option (ModelNode T)) (field : String × Doc) (child : ModelNode T) :
    ModelNode T :=
  (overlay.getD newObjectNode).setChild field.1 child

def object (continueOnInvalidName : Bool) (model : ModelNode T) (fields : List (String × Doc))
    (path docPath : String) : Except AdmitError (Finding T) :=
  fields.foldlM
    (collect setField (fieldFinding deeper continueOnInvalidName model path docPath)) (none, [])

/-- `Merge` of an item's overlay into the element's. -/
def mergeItem (elemOverlay : Option (ModelNode T)) (_ : Doc × Nat) (overlay : ModelNode T) :
    ModelNode T :=
  match elemOverlay with
  | none => overlay
  | some elem => elem.merge overlay

def itemDocPath (docPath : String) (i : Nat) : String := docPath ++ "[" ++ toString i ++ "]"

/-- One item while the element is being learned. -/
def learnItem (path docPath : String) (item : Doc × Nat) :
    Except AdmitError (Finding T) := do
  let (derived, inner) ← deeper.describeAt item.1 (path ++ "[]") (itemDocPath docPath item.2)
  return (some derived, inner)

/-- One item against a declared element. -/
def judgeItem (element : ModelNode T) (path docPath : String) (item : Doc × Nat) :
    Except AdmitError (Finding T) :=
  deeper.node element item.1 (path ++ "[]") (itemDocPath docPath item.2) .arrayElements

def array (model : ModelNode T) (items : List Doc) (path docPath : String) :
    Except AdmitError (Finding T) := do
  let (elemOverlay, changes) ← match model.element with
    | none =>
      let change : Change :=
        { path, docPath, reason := .arrayElement, required := .arrayElements, observed := none
          declared := [], declaredKinds := model.declaredKindNames, value := .array items }
      if items.isEmpty then pure (some (newLeafNode .null), [change])
      else items.zipIdx.foldlM (collect mergeItem (learnItem deeper path docPath)) (none, [change])
    | some element =>
      items.zipIdx.foldlM (collect mergeItem (judgeItem deeper element path docPath)) (none, [])
  return (elemOverlay.map fun elem => newArrayNode (some elem), changes)

def float64Message : String := "received float64 value; callers must use json.UseNumber() decoding"

/-- `node` on a value that is not a container. -/
def nodeValue (data : Doc) (path docPath : String) (scalarLevel : ChangeLevel) :
    Except AdmitError (Finding T) :=
  match data with
  | .null => return null model path docPath scalarLevel
  | .float64 => throw (.unsupportedValue path float64Message)
  | .other goType => throw (.unsupportedValue path ("unsupported type: " ++ goType))
  | data => return scalar spi model data path docPath scalarLevel

/-- The overlay of a value with no stored model to compare against. Only the names that no
query could address are reported from inside it. -/
def describeBody (continueOnInvalidName : Bool) (data : Doc) (path docPath : String) :
    Except AdmitError (ModelNode T × List Change) := do
  let (overlay, inner) ← match data with
    | .object fields =>
      object deeper continueOnInvalidName newObjectNode fields path docPath
    | .array items => array deeper (newArrayNode none) items path docPath
    | data => nodeValue spi newEmptyNode data path docPath .type
  let kept := inner.filter fun c => c.reason = .invalidFieldName
  -- Only `{}` leaves no overlay here, and it still declares an object.
  return (overlay.getD newObjectNode, kept)

def nodeBody (continueOnInvalidName : Bool) (model : ModelNode T) (data : Doc)
    (path docPath : String) (scalarLevel : ChangeLevel) :
    Except AdmitError (Finding T) :=
  match data with
  | .object fields =>
    if model.object.isNone then wrongKind
    else object deeper continueOnInvalidName model fields path docPath
  | .array items =>
    if model.array.isNone then wrongKind
    else array deeper model items path docPath
  | data => nodeValue spi model data path docPath scalarLevel
where
  /-- `wrongKind` for a container value; it describes the value at the same depth. -/
  wrongKind : Except AdmitError (Finding T) := do
    let (derived, inner) ← describeBody spi deeper continueOnInvalidName data path docPath
    return (some derived, newKindChange model data path docPath scalarLevel none :: inner)

/-- The traversal with `left` levels below `maxValidationDepth`. -/
def walk (continueOnInvalidName : Bool) : Nat → Deeper T
  | 0 =>
    { node := fun _ _ path _ _ => throw (.depthExceeded path)
      describeAt := fun _ path _ => throw (.depthExceeded path) }
  | left + 1 =>
    { node := nodeBody spi (walk continueOnInvalidName left) continueOnInvalidName
      describeAt := describeBody spi (walk continueOnInvalidName left) continueOnInvalidName }

def admitWith (continueOnInvalidName : Bool) (model : ModelNode T) (data : Doc) :
    Except AdmitError (Finding T) :=
  (walk spi continueOnInvalidName maxValidationDepth).node model data "" "" .type

def admitData (data : Doc) : Except AdmitError (Finding T) := admitWith spi false model data

def describe (data : Doc) (path : String) : Except AdmitError (ModelNode T) :=
  Prod.fst <$> (walk spi false maxValidationDepth).describeAt data path path

end Traversal

/-! ## Extend -/

section Extend

variable {T D : Type} [TypeSet T] (spi : ScalarSpi D)

/-- The text after the last dot. -/
def lastSegment (path : String) : String := String.ofList ((path.toList.splitOn '.').getLastD [])

def kindNameFor : Doc → String
  | .object _ => NodeKind.object.text
  | .array _ => NodeKind.array.text
  | _ => NodeKind.leaf.text

def displayChangePath (p : String) : String := if p = "" then "(root)" else p

def changeLevelError (c : Change) (level : ChangeLevel) : String :=
  let at' := displayChangePath c.path
  let tail := " level, but level is " ++ level.text.quote
  match c.reason with
  | .leafType => "type change at " ++ at' ++ " requires " ++ c.required.text ++ tail
  | .newField =>
    "new field " ++ (lastSegment c.path).quote ++ " at " ++ at' ++ " requires STRUCTURAL" ++ tail
  | .newKind =>
    "new " ++ kindNameFor c.value ++ " branch at " ++ at' ++ " requires " ++ c.required.text ++
      tail
  | .arrayElement => "array element type at " ++ at' ++ " requires ARRAY_ELEMENTS" ++ tail
  | .nullable => "nullable marker at " ++ at' ++ " requires " ++ c.required.text ++ tail
  | .invalidFieldName => "schema change at " ++ at' ++ " requires " ++ c.required.text ++ tail

inductive ExtendError where
  | admission (err : AdmitError)
  | changeLevel (msg : String)
  deriving DecidableEq, Repr

def extend (existing : ModelNode T) (data : Doc) (level : ChangeLevel) :
    Except ExtendError (ModelNode T) :=
  match admitData spi existing data with
  | .error err => .error (.admission err)
  | .ok (overlay, changes) =>
    if changes.isEmpty then .ok existing
    else
      match changes.find? fun c => !level.levelPermits c.required with
      | some c => .error (.changeLevel (changeLevelError c level))
      | none =>
        match overlay with
        | none => .ok existing
        | some overlay => .ok (existing.merge overlay)

end Extend

/-! ## Validate -/

section Validate

variable {T D : Type} [TypeSet T] (spi : ScalarSpi D)

inductive ErrorKind where
  | generic | unknownElement | incompatibleType
  deriving DecidableEq, Repr

structure ValidationError where
  path : String
  message : String
  kind : ErrorKind
  expectedTypes : List DataType
  actualType : Option DataType
  deriving DecidableEq, Repr

def wirePath (p : String) : String :=
  match p.toList with
  | '.' :: rest => String.ofList rest
  | _ => p

def jsonKindName : Doc → String
  | .object _ => "object"
  | .array _ => "array"
  | .string _ => "string"
  | .number _ => "number"
  | .bool _ => "boolean"
  | .null => "null"
  | _ => "value"

def kindsText (declaredKinds : List String) : String :=
  if declaredKinds = [] then "no value" else " or ".intercalate declaredKinds

variable (c : Change)

/-- An observed type that was never set prints as the first data type. -/
def incompatibleType : ValidationError :=
  let observed := c.observed.getD .integer
  { path := wirePath c.docPath
    message := "value of type " ++ observed.text ++ " is not compatible with [" ++
      " ".intercalate (c.declared.map DataType.text) ++ "]"
    kind := .incompatibleType, expectedTypes := c.declared, actualType := some observed }

def genericError (message : String) : ValidationError :=
  { path := wirePath c.docPath, message, kind := .generic, expectedTypes := []
    actualType := none }

def expectedGot : ValidationError :=
  genericError c ("expected " ++ kindsText c.declaredKinds ++ ", got " ++ jsonKindName c.value)

def validationErrorForNewKind : ValidationError :=
  let declaresContainer := c.declaredKinds.contains "object" || c.declaredKinds.contains "array"
  match c.value, declaresContainer with
  | .number _, false | .string _, false | .bool _, false => incompatibleType c
  | .object _, false | .array _, false =>
    genericError c ("expected scalar, got " ++ jsonKindName c.value)
  | _, _ => expectedGot c

def validationErrorFor : ValidationError :=
  match c.reason with
  | .leafType => incompatibleType c
  | .newField | .invalidFieldName =>
    { path := wirePath c.docPath, message := "unexpected field not present in model"
      kind := .unknownElement, expectedTypes := [], actualType := none }
  | .newKind => validationErrorForNewKind c
  | .arrayElement =>
    genericError c ("array element type has never been observed; the document supplies " ++
      jsonKindName c.value)
  | .nullable => expectedGot c

def AdmitError.validationError : AdmitError → ValidationError
  | .depthExceeded path =>
    { path := wirePath path
      message := "validation depth exceeded (max " ++ toString maxValidationDepth ++ ")"
      kind := .generic, expectedTypes := [], actualType := none }
  | .invalidFieldName path _ _ =>
    { path := wirePath path, message := "unexpected field not present in model"
      kind := .unknownElement, expectedTypes := [], actualType := none }
  | .unsupportedValue path _ =>
    { path := wirePath path, message := "unsupported value", kind := .generic
      expectedTypes := [], actualType := none }

def validate (model : ModelNode T) (data : Doc) : List ValidationError :=
  match admitWith spi true model data with
  | .error err => [err.validationError]
  | .ok (_, changes) => changes.map validationErrorFor

end Validate

end CyodaGo.Schema
