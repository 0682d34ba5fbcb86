import CyodaGo.Shared.Entries
import Mathlib.Order.Lattice
import Mathlib.Order.BoundedOrder.Basic

/-! # Model nodes

A node of an entity model declares the set of kinds its path was observed as: scalar types, an
object with its children, an array with its element. `Merge` is the union of two such trees. -/

namespace CyodaGo.Schema

inductive DataType where
  | integer | long | bigInteger | unboundInteger
  | double | bigDecimal | unboundDecimal
  | string | character
  | localDate | localDateTime | localTime | zonedDateTime | year | yearMonth
  | uuid | timeUUID | byteArray | boolean | null
  deriving DecidableEq, Repr

def DataType.text : DataType → String
  | .integer => "INTEGER"
  | .long => "LONG"
  | .bigInteger => "BIG_INTEGER"
  | .unboundInteger => "UNBOUND_INTEGER"
  | .double => "DOUBLE"
  | .bigDecimal => "BIG_DECIMAL"
  | .unboundDecimal => "UNBOUND_DECIMAL"
  | .string => "STRING"
  | .character => "CHARACTER"
  | .localDate => "LOCAL_DATE"
  | .localDateTime => "LOCAL_DATE_TIME"
  | .localTime => "LOCAL_TIME"
  | .zonedDateTime => "ZONED_DATE_TIME"
  | .year => "YEAR"
  | .yearMonth => "YEAR_MONTH"
  | .uuid => "UUID_TYPE"
  | .timeUUID => "TIME_UUID_TYPE"
  | .byteArray => "BYTE_ARRAY"
  | .boolean => "BOOLEAN"
  | .null => "NULL"

inductive NodeKind where
  | leaf | object | array
  deriving DecidableEq, Repr

def NodeKind.text : NodeKind → String
  | .leaf => "LEAF"
  | .object => "OBJECT"
  | .array => "ARRAY"

/-- What the engine uses of the SPI's `TypeSet`: its union is a join, a set is the union of its
members, a concrete type alone is the set of that type, and `NULL` is never a member. -/
class TypeSet (T : Type) extends SemilatticeSup T, OrderBot T where
  types : T → List DataType
  single : DataType → T
  sup_single : ∀ s, (types s).foldr (fun dt t => single dt ⊔ t) ⊥ = s
  types_single : ∀ dt, dt ≠ .null → types (single dt) = [dt]
  null_notMem : ∀ s, DataType.null ∉ types s

/-- The scalar part of a node: no declaration, the nullable marker alone, or a scalar branch.
A scalar branch admits null by itself, so the marker is never recorded beside one. -/
inductive Leaf (T : Type) where
  | absent
  | nullable
  | scalar (types : T)
  deriving DecidableEq, Repr

structure ModelNode (T : Type) where
  leaf : Leaf T
  object : Option (List (String × ModelNode T))
  array : Option (Option (ModelNode T))

abbrev Children (T : Type) := List (String × ModelNode T)

section Leaf

variable {T : Type} [TypeSet T]

namespace Leaf

def addScalarType : Leaf T → DataType → Leaf T
  | .absent, .null => .nullable
  | l, .null => l
  | .scalar s, dt => .scalar (s ⊔ TypeSet.single dt)
  | _, dt => .scalar (TypeSet.single dt)

def addScalarTypes (l : Leaf T) (dts : List DataType) : Leaf T := dts.foldl addScalarType l

def setNullable : Leaf T → Leaf T
  | .absent => .nullable
  | l => l

/-- An empty scalar branch where there was none; the marker collapses into it. -/
def declare : Leaf T → Leaf T
  | .scalar s => .scalar s
  | _ => .scalar ⊥

def declaredTypes : Leaf T → List DataType
  | .absent => []
  | .nullable => [.null]
  | .scalar s => TypeSet.types s

end Leaf

end Leaf

namespace ModelNode

variable {T : Type}

/-! ## The node as its readers see it -/

def scalar (n : ModelNode T) : Option T :=
  match n.leaf with
  | .scalar s => some s
  | _ => none

def nullable (n : ModelNode T) : Bool :=
  match n.leaf with
  | .nullable => true
  | _ => false

def child (n : ModelNode T) (name : String) : Option (ModelNode T) :=
  n.object.bind (List.lookup name)

def element (n : ModelNode T) : Option (ModelNode T) := n.array.join

def kinds (n : ModelNode T) : List NodeKind :=
  (if n.scalar.isSome then [NodeKind.leaf] else []) ++
    (if n.object.isSome then [NodeKind.object] else []) ++
    (if n.array.isSome then [NodeKind.array] else [])

/-- The diagnostics' rendering of `kinds`. -/
def kindNames (n : ModelNode T) : String :=
  if n.kinds = [] then "no kind" else "+".intercalate (n.kinds.map NodeKind.text)

/-- The kinds in the words of `Validate`; a rendered list joins them with " or ". -/
def declaredKindNames (n : ModelNode T) : List String :=
  (if n.object.isSome then ["object"] else []) ++
    (if n.array.isSome then ["array"] else []) ++
    (if n.scalar.isSome then ["scalar"] else [])

section Constructors

def newEmptyNode : ModelNode T := ⟨.absent, none, none⟩

def newObjectNode : ModelNode T := ⟨.absent, some [], none⟩

def newArrayNode (element : Option (ModelNode T)) : ModelNode T := ⟨.absent, none, some element⟩

def setChild (n : ModelNode T) (name : String) (child : ModelNode T) : ModelNode T :=
  { n with object := some (Entries.set (n.object.getD []) name child) }

def setElement (n : ModelNode T) (elem : ModelNode T) : ModelNode T :=
  { n with array := some (some elem) }

variable [TypeSet T]

def declaredTypes (n : ModelNode T) : List DataType := n.leaf.declaredTypes

def addScalarTypes (n : ModelNode T) (dts : List DataType) : ModelNode T :=
  { n with leaf := n.leaf.addScalarTypes dts }

def setNullable (n : ModelNode T) : ModelNode T := { n with leaf := n.leaf.setNullable }

def declareKind (n : ModelNode T) : NodeKind → ModelNode T
  | .leaf => { n with leaf := n.leaf.declare }
  | .object => { n with object := some (n.object.getD []) }
  | .array => { n with array := some (n.array.getD none) }

def newLeafNode (dt : DataType) : ModelNode T := newEmptyNode.addScalarTypes [dt]

end Constructors

/-! ## Merge -/

section Merge

variable [TypeSet T]

/-- The scalar branches are united type by type; the marker stays only while there is none. -/
def mergeLeaf (a b : ModelNode T) : Leaf T :=
  let l : Leaf T := if a.scalar.isSome || b.scalar.isSome then Leaf.declare .absent else .absent
  let l := match a.scalar with
    | some s => l.addScalarTypes (TypeSet.types s)
    | none => l
  let l := match b.scalar with
    | some s => l.addScalarTypes (TypeSet.types s)
    | none => l
  if a.nullable || b.nullable then l.setNullable else l

mutual

/-- The source's `Merge` of two present nodes. -/
def merge (a : ModelNode T) : ModelNode T → ModelNode T
  | ⟨leaf, object, array⟩ =>
    ⟨mergeLeaf a ⟨leaf, object, array⟩, mergeObject a.object object, mergeArray a.array array⟩
  termination_by structural b => b

def mergeObject (ao : Option (Children T)) : Option (Children T) → Option (Children T)
  | none => ao
  | some bo => some (mergeChildren (ao.getD []) bo)
  termination_by structural bo => bo

def mergeChildren (result : Children T) : Children T → Children T
  | [] => result
  | (name, child) :: rest =>
    let child := match result.lookup name with
      | some existing => merge existing child
      | none => child
    mergeChildren (Entries.set result name child) rest
  termination_by structural bo => bo

def mergeArray (aa : Option (Option (ModelNode T))) :
    Option (Option (ModelNode T)) → Option (Option (ModelNode T))
  | none => aa
  | some elem => some (mergeElement (aa.getD none) elem)
  termination_by structural ba => ba

def mergeElement (a : Option (ModelNode T)) : Option (ModelNode T) → Option (ModelNode T)
  | none => a
  | some elem =>
    match a with
    | none => some elem
    | some existing => some (merge existing elem)
  termination_by structural b => b

end

end Merge

/-! ## The codec

`Marshal` writes every node; `Unmarshal` refuses a node that declares no kind and is not
nullable, so a tree survives the round trip exactly when no such node is in it. -/

section Codec

/-- The node declares a kind or the nullable marker. -/
def declares (n : ModelNode T) : Bool :=
  n.scalar.isSome || n.nullable || n.object.isSome || n.array.isSome

mutual

def decodable : ModelNode T → Bool
  | ⟨leaf, object, array⟩ =>
    (ModelNode.mk leaf object array).declares && decodableObject object && decodableArray array
  termination_by structural n => n

def decodableObject : Option (Children T) → Bool
  | none => true
  | some children => decodableChildren children
  termination_by structural object => object

def decodableChildren : Children T → Bool
  | [] => true
  | (_, child) :: rest => child.decodable && decodableChildren rest
  termination_by structural children => children

def decodableArray : Option (Option (ModelNode T)) → Bool
  | none => true
  | some elem => decodableElement elem
  termination_by structural array => array

def decodableElement : Option (ModelNode T) → Bool
  | none => true
  | some elem => elem.decodable
  termination_by structural elem => elem

end

end Codec

end ModelNode

end CyodaGo.Schema
