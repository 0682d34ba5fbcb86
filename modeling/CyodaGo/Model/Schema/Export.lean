import CyodaGo.Model.Schema.Node

/-! # Exports of a model

The JSON_SCHEMA exporter renders a node as the union of the branches it carries. -/

namespace CyodaGo.Schema

/-- What `Export` marshals. -/
structure Envelope (M : Type) where
  currentState : String
  model : M

/-! ## JSON_SCHEMA -/

/-- A schema with the keywords the exporter uses. -/
structure JsonSchema where
  type : Option String
  format : Option String
  properties : Option (List (String × JsonSchema))
  items : Option JsonSchema
  anyOf : Option (List JsonSchema)

namespace JsonSchema

def empty : JsonSchema := ⟨none, none, none, none, none⟩

def ofType (type : String) : JsonSchema := { empty with type := some type }

def ofFormat (type format : String) : JsonSchema :=
  { empty with type := some type, format := some format }

end JsonSchema

def jsonSchemaType : DataType → JsonSchema
  | .integer | .long | .bigInteger | .unboundInteger => .ofType "integer"
  | .double | .bigDecimal | .unboundDecimal => .ofType "number"
  | .string | .character => .ofType "string"
  | .boolean => .ofType "boolean"
  | .null => .ofType "null"
  | .localDate => .ofFormat "string" "date"
  | .localDateTime | .zonedDateTime => .ofFormat "string" "date-time"
  | .localTime => .ofFormat "string" "time"
  | .year => .ofFormat "string" "year"
  | .yearMonth => .ofFormat "string" "year-month"
  | .uuid | .timeUUID => .ofFormat "string" "uuid"
  | .byteArray => .ofFormat "string" "byte"

/-- No branch leaves everything open, one stands for itself. -/
def unionOf : List JsonSchema → JsonSchema
  | [] => .empty
  | [branch] => branch
  | branches => { JsonSchema.empty with anyOf := some branches }

section JsonSchema

variable {T : Type} [TypeSet T]

def convertLeaf (leaf : Leaf T) : JsonSchema := unionOf (leaf.declaredTypes.map jsonSchemaType)

/-- The scalar branch beside a container; the nullable marker opens none. -/
def scalarBranches : Leaf T → List JsonSchema
  | .scalar s => (TypeSet.types s).map jsonSchemaType
  | _ => []

mutual

def convert : ModelNode T → JsonSchema
  | ⟨leaf, none, none⟩ => convertLeaf leaf
  | ⟨leaf, object, array⟩ =>
    unionOf (convertObject object ++ convertArray array ++ scalarBranches leaf)
  termination_by structural n => n

def convertObject : Option (Children T) → List JsonSchema
  | none => []
  | some children =>
    [{ JsonSchema.empty with
        type := some "object"
        properties := some (convertChildren children) }]
  termination_by structural object => object

def convertChildren : Children T → List (String × JsonSchema)
  | [] => []
  | (name, child) :: rest => (name, convert child) :: convertChildren rest
  termination_by structural children => children

def convertArray : Option (Option (ModelNode T)) → List JsonSchema
  | none => []
  | some elem =>
    [{ JsonSchema.empty with
        type := some "array"
        items := convertElement elem }]
  termination_by structural array => array

def convertElement : Option (ModelNode T) → Option JsonSchema
  | none => none
  | some elem => some (convert elem)
  termination_by structural elem => elem

end

def exportJsonSchema (currentState : String) (n : ModelNode T) : Envelope JsonSchema :=
  ⟨currentState, convert n⟩

end JsonSchema

end CyodaGo.Schema
