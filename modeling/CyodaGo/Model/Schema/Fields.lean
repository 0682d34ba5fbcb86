import CyodaGo.Model.Memory.Types
import CyodaGo.Model.Schema.Node

/-! # The fields of a model

`Fields` flattens a tree into the paths that hold scalars. Unique keys and search conditions
name fields by these paths. -/

namespace CyodaGo.Schema

structure FieldDescriptor where
  path : String
  types : List DataType
  isArray : Bool
  deriving DecidableEq, Repr

namespace ModelNode

variable {T : Type} [TypeSet T]

/-- The scalar arm; the nullable marker counts while nothing else was observed. -/
def scalarField (path : String) (n : ModelNode T) : List FieldDescriptor :=
  match n.scalar with
  | some s => [⟨path, TypeSet.types s, false⟩]
  | none => if n.nullable && n.kinds.isEmpty then [⟨path, [.null], false⟩] else []

mutual

def collectFields (path : String) : ModelNode T → List FieldDescriptor
  | ⟨leaf, object, array⟩ =>
    scalarField path ⟨leaf, object, array⟩ ++ objectFields path object ++ arrayFields path array
  termination_by structural n => n

def objectFields (path : String) : Option (Children T) → List FieldDescriptor
  | none => []
  | some children => childFields path children
  termination_by structural object => object

def childFields (path : String) : Children T → List FieldDescriptor
  | [] => []
  | (name, child) :: rest => collectFields (path ++ "." ++ name) child ++ childFields path rest
  termination_by structural children => children

def arrayFields (path : String) : Option (Option (ModelNode T)) → List FieldDescriptor
  | none => []
  | some elem => elementFields path elem
  termination_by structural array => array

/-- Only an element that is a scalar and nothing else makes an array field. -/
def elementFields (path : String) : Option (ModelNode T) → List FieldDescriptor
  | none => []
  | some elem =>
    match elem.scalar, elem.object, elem.array with
    | some s, none, none => [⟨path ++ "[*]", TypeSet.types s, true⟩]
    | _, _, _ => collectFields (path ++ "[*]") elem
  termination_by structural elem => elem

end

def fields (n : ModelNode T) : List FieldDescriptor := n.collectFields "$"

mutual

/-- The paths that `dropContainerPaths` removes. -/
def containerPaths (path : String) : ModelNode T → List String
  | ⟨_, object, array⟩ =>
    (if object.isSome || array.isSome then [path] else []) ++ containersBelow path object
  termination_by structural n => n

def containersBelow (path : String) : Option (Children T) → List String
  | none => []
  | some children => containersAmong path children
  termination_by structural object => object

def containersAmong (path : String) : Children T → List String
  | [] => []
  | (name, child) :: rest =>
    containerPaths (path ++ "." ++ name) child ++ containersAmong path rest
  termination_by structural children => children

end

end ModelNode

/-! ## Unique keys -/

abbrev UniqueKey := Memory.UniqueKey

inductive UniqueKeyDefError where
  | emptyID
  | duplicateID (id : String)
  | noFields (id : String)
  | duplicateField (id field : String)
  | notScalarLeaf (id field : String)
  deriving DecidableEq, Repr

section UniqueKeys

variable {T : Type} [TypeSet T]

def dropContainerPaths (n : ModelNode T) (paths : List String) : List String :=
  paths.filter fun p => !(n.containerPaths "$").contains p

/-- The paths a key may name. -/
def scalarLeafs (n : ModelNode T) : List String :=
  let scalars := n.fields.filter fun f =>
    !f.isArray && !f.path.toList.contains '[' && !f.path.toList.contains '*'
  dropContainerPaths n (scalars.map FieldDescriptor.path)

def validateKeyFields (leafs : List String) (id : String) :
    List String → List String → Except UniqueKeyDefError Unit
  | _, [] => .ok ()
  | seen, field :: rest =>
    if seen.contains field then .error (.duplicateField id field)
    else if leafs.contains field then validateKeyFields leafs id (field :: seen) rest
    else .error (.notScalarLeaf id field)

def validateKeys (leafs : List String) :
    List String → List UniqueKey → Except UniqueKeyDefError Unit
  | _, [] => .ok ()
  | seen, key :: rest =>
    if key.id = "" then .error .emptyID
    else if seen.contains key.id then .error (.duplicateID key.id)
    else if key.fields = [] then .error (.noFields key.id)
    else
      match validateKeyFields leafs key.id [] key.fields with
      | .error err => .error err
      | .ok _ => validateKeys leafs (key.id :: seen) rest

/-- The first violation, if there is one. -/
def validateUniqueKeys (n : ModelNode T) (keys : List UniqueKey) : Except UniqueKeyDefError Unit :=
  validateKeys (scalarLeafs n) [] keys

end UniqueKeys

end CyodaGo.Schema
