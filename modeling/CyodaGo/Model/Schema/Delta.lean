import CyodaGo.Model.Schema.Node
import Mathlib.Data.List.Dedup
import Mathlib.Data.List.Sort
import Mathlib.Data.String.Basic

/-! # Schema deltas

`Diff` spells an additive change of a model as a list of catalog operations, `Apply` replays
such a list. An operation names its node by a slash-separated string of child names, with `[]`
for an array's element. -/

namespace CyodaGo.Schema

variable {T : Type}

/-! ## The operation catalog -/

inductive SchemaOpKind where
  | addProperty
  | broadenType
  | addArrayItemType
  | addKindBranch
  | unknown (kind : String)
  deriving DecidableEq, Repr

/-- What the raw payload of an operation reads as: an encoded node, an array of type names that
all resolve, or neither. -/
inductive Payload (T : Type) where
  | node (n : ModelNode T)
  | typeNames (types : List DataType)
  | malformed

structure SchemaOp (T : Type) where
  kind : SchemaOpKind
  path : String
  name : String
  payload : Payload T

/-- The operations a delta's bytes decode to; the empty delta has none. -/
abbrev SchemaDelta (T : Type) := List (SchemaOp T)

inductive DeltaError where
  | noTypes (path : String)
  | kindRemoval (path : String) (kind : NodeKind)
  | nullableRemoval (path : String)
  | propertyRemoval (path : String)
  | elementRemoved (path : String)
  | cloneBase
  | emptySegment (path : String)
  | descendElement (kinds segment : String)
  | noElement (segment : String)
  | descendChild (kinds segment : String)
  | missingSegment (segment path : String)
  | decodePayload
  | notObject (path kinds : String)
  | emptyName
  | notArray (path kinds : String)
  | notOneBranch (kinds : String)
  | unknownKind (kind : String)
  deriving DecidableEq, Repr

/-- Duplicates are dropped and the names sorted. -/
def encodeTypeNames (path : String) (types : List DataType) : Except DeltaError (List DataType) :=
  if types = [] then .error (.noTypes path)
  else .ok (types.dedup.insertionSort fun a b => a.text ≤ b.text)

def decodeTypeNames : Payload T → Except DeltaError (List DataType)
  | .typeNames [] => .error .decodePayload
  | .typeNames types => .ok types
  | _ => .error .decodePayload

def unmarshal : Payload T → Except DeltaError (ModelNode T)
  | .node n => if n.decodable then .ok n else .error .decodePayload
  | _ => .error .decodePayload

def newAddProperty (parentPath name : String) (subtree : ModelNode T) : SchemaOp T :=
  ⟨.addProperty, parentPath, name, .node subtree⟩

def newBroadenType (targetPath : String) (added : List DataType) :
    Except DeltaError (SchemaOp T) := do
  let names ← encodeTypeNames targetPath added
  return ⟨.broadenType, targetPath, "", .typeNames names⟩

def newAddArrayItemType (arrayPath : String) (added : List DataType) :
    Except DeltaError (SchemaOp T) := do
  let names ← encodeTypeNames arrayPath added
  return ⟨.addArrayItemType, arrayPath, "", .typeNames names⟩

def newAddKindBranch (targetPath : String) (branch : ModelNode T) : SchemaOp T :=
  ⟨.addKindBranch, targetPath, "", .node branch⟩

def joinSchemaPath (parent child : String) : String :=
  if parent = "" then child else parent ++ "/" ++ child

/-! ## Diff -/

section Diff

variable [TypeSet T]

/-- The types of `b` that are not in `a`. -/
def typeDifference (b a : List DataType) : List DataType := b.filter fun dt => !a.contains dt

def isScalarOnly (n : ModelNode T) : Bool := n.object.isNone && n.array.isNone

/-- The node with the branch `k` of `n` and nothing else. -/
def isolateBranch (n : ModelNode T) : NodeKind → ModelNode T
  | .leaf => ((ModelNode.newEmptyNode (T := T)).declareKind .leaf).addScalarTypes
      ((n.scalar.map TypeSet.types).getD [])
  | .object => { ModelNode.newEmptyNode (T := T) with object := some (n.object.getD []) }
  | .array => { ModelNode.newEmptyNode (T := T) with array := some (n.array.getD none) }

/-- The first kind `oldN` declares and `newN` does not. -/
def removedKind (oldN newN : ModelNode T) : Option NodeKind :=
  oldN.kinds.find? fun k => !newN.kinds.contains k

/-- The scalar types `diffNode` widens by: new members of the branch, or all of a first branch
on a node that declares no kind. -/
def addedTypes (oldN newN : ModelNode T) : List DataType :=
  match newN.scalar with
  | none => []
  | some ns =>
    match oldN.scalar with
    | some os => typeDifference (TypeSet.types ns) (TypeSet.types os)
    | none => if oldN.kinds = [] then TypeSet.types ns else []

/-- The operations of `diffNode` that concern the scalar declaration and come first. -/
def diffLeaf (path : String) (oldN newN : ModelNode T) :
    Except DeltaError (List (SchemaOp T)) := do
  let marker ← if newN.nullable && !oldN.nullable then
      List.singleton <$> newBroadenType path [.null]
    else pure []
  let widened ← if addedTypes oldN newN = [] then pure []
    else List.singleton <$> newBroadenType path (addedTypes oldN newN)
  return marker ++ widened

/-- The branch operation for a scalar beside kinds already declared. -/
def diffScalarBranch (path : String) (oldN newN : ModelNode T) : List (SchemaOp T) :=
  if newN.scalar.isSome && oldN.scalar.isNone && !oldN.kinds.isEmpty then
    [newAddKindBranch path (isolateBranch newN .leaf)]
  else []

mutual

def diffNode (path : String) (oldN : ModelNode T) :
    ModelNode T → Except DeltaError (List (SchemaOp T))
  | ⟨leaf, object, array⟩ => do
      let newN : ModelNode T := ⟨leaf, object, array⟩
      match removedKind oldN newN with
      | some k => throw (.kindRemoval path k)
      | none => pure ()
      if oldN.nullable && !newN.nullable && newN.scalar.isNone then
        throw (.nullableRemoval path)
      let leafOps ← diffLeaf path oldN newN
      let objectOps ← diffObject path oldN.object object
      let arrayOps ← diffArray path oldN.array array
      return leafOps ++ objectOps ++ arrayOps ++ diffScalarBranch path oldN newN
  termination_by structural newN => newN

def diffObject (path : String) (oldObject : Option (Children T)) :
    Option (Children T) → Except DeltaError (List (SchemaOp T))
  | none => return []
  | some newChildren =>
    match oldObject with
    | none => return [newAddKindBranch path ⟨.absent, some newChildren, none⟩]
    | some oldChildren => do
        let ops ← diffChildren path oldChildren newChildren
        match oldChildren.find? fun x => (newChildren.lookup x.1).isNone with
        | some (name, _) => throw (.propertyRemoval (joinSchemaPath path name))
        | none => return ops
  termination_by structural newObject => newObject

def diffChildren (path : String) (oldChildren : Children T) :
    Children T → Except DeltaError (List (SchemaOp T))
  | [] => return []
  | (name, newChild) :: rest => do
      let ops ← match oldChildren.lookup name with
        | none => pure [newAddProperty path name newChild]
        | some oldChild => diffNode (joinSchemaPath path name) oldChild newChild
      let restOps ← diffChildren path oldChildren rest
      return ops ++ restOps
  termination_by structural newChildren => newChildren

def diffArray (path : String) (oldArray : Option (Option (ModelNode T))) :
    Option (Option (ModelNode T)) → Except DeltaError (List (SchemaOp T))
  | none => return []
  | some newElem =>
    match oldArray with
    | none => return [newAddKindBranch path ⟨.absent, none, some newElem⟩]
    | some oldElem => diffElement path oldElem newElem
  termination_by structural newArray => newArray

def diffElement (path : String) (oldElem : Option (ModelNode T)) :
    Option (ModelNode T) → Except DeltaError (List (SchemaOp T))
  | none => if oldElem.isSome then throw (.elementRemoved path) else return []
  | some newElem =>
    match oldElem with
    | none =>
      -- `resolvePath` cannot descend into an element that does not exist yet, so a
      -- container travels as the array branch itself.
      if newElem.object.isSome || newElem.array.isSome then
        return [newAddKindBranch path ⟨.absent, none, some (some newElem)⟩]
      else
        List.singleton <$> newAddArrayItemType path newElem.declaredTypes
    | some oldElem =>
      if isScalarOnly oldElem && isScalarOnly newElem then
        let added := typeDifference newElem.declaredTypes oldElem.declaredTypes
        if added = [] then return []
        else List.singleton <$> newAddArrayItemType path added
      else
        diffNode (joinSchemaPath path "[]") oldElem newElem
  termination_by structural newElem => newElem

end

def diff (oldN newN : ModelNode T) : Except DeltaError (SchemaDelta T) := diffNode "" oldN newN

end Diff

/-! ## Apply -/

section Apply

/-- The segments `resolvePath` walks. -/
def splitPath (path : String) : List String :=
  if path = "" then [] else (path.toList.splitOn '/').map String.ofList

/-- `resolvePath` along the segments, followed by the change `f` of the node it finds. -/
def updateAt (path : String) (f : ModelNode T → Except DeltaError (ModelNode T)) :
    List String → ModelNode T → Except DeltaError (ModelNode T)
  | [], cur => f cur
  | part :: rest, cur =>
    if part = "" then throw (.emptySegment path)
    else if part = "[]" then
      match cur.array with
      | none => throw (.descendElement cur.kindNames part)
      | some none => throw (.noElement part)
      | some (some elem) => do
          let elem ← updateAt path f rest elem
          return { cur with array := some (some elem) }
    else
      match cur.object with
      | none => throw (.descendChild cur.kindNames part)
      | some children =>
        match children.lookup part with
        | none => throw (.missingSegment part path)
        | some next => do
            let next ← updateAt path f rest next
            return { cur with object := some (Entries.set children part next) }

variable [TypeSet T]

def applyAddProperty (op : SchemaOp T) (parent : ModelNode T) :
    Except DeltaError (ModelNode T) := do
  if parent.object.isNone then throw (.notObject op.path parent.kindNames)
  if op.name = "" then throw .emptyName
  let incoming ← unmarshal op.payload
  match parent.child op.name with
  | some existing => return parent.setChild op.name (existing.merge incoming)
  | none => return parent.setChild op.name incoming

def applyBroadenType (op : SchemaOp T) (target : ModelNode T) :
    Except DeltaError (ModelNode T) := do
  let types ← decodeTypeNames op.payload
  return target.addScalarTypes types

def applyAddArrayItemType (op : SchemaOp T) (target : ModelNode T) :
    Except DeltaError (ModelNode T) := do
  if target.array.isNone then throw (.notArray op.path target.kindNames)
  let types ← decodeTypeNames op.payload
  match target.element with
  | none =>
    -- `decodeTypeNames` refuses an empty list.
    match types with
    | [] => throw .decodePayload
    | dt :: rest => return target.setElement ((ModelNode.newLeafNode dt).addScalarTypes rest)
  | some elem => return target.setElement (elem.addScalarTypes types)

def applyAddKindBranch (op : SchemaOp T) (target : ModelNode T) :
    Except DeltaError (ModelNode T) := do
  let incoming ← unmarshal op.payload
  match incoming.kinds with
  | [.leaf] =>
    return (target.declareKind .leaf).addScalarTypes
      ((incoming.scalar.map TypeSet.types).getD [])
  | [.object] =>
    return { target with object := ModelNode.mergeObject target.object incoming.object }
  | [.array] =>
    return { target with array := ModelNode.mergeArray target.array incoming.array }
  | _ => throw (.notOneBranch incoming.kindNames)

def applyOp (root : ModelNode T) (op : SchemaOp T) : Except DeltaError (ModelNode T) :=
  match op.kind with
  | .addProperty => updateAt op.path (applyAddProperty op) (splitPath op.path) root
  | .broadenType => updateAt op.path (applyBroadenType op) (splitPath op.path) root
  | .addArrayItemType => updateAt op.path (applyAddArrayItemType op) (splitPath op.path) root
  | .addKindBranch => updateAt op.path (applyAddKindBranch op) (splitPath op.path) root
  | .unknown kind => throw (.unknownKind kind)

def cloneNode (n : ModelNode T) : Except DeltaError (ModelNode T) :=
  if n.decodable then .ok n else .error .cloneBase

def apply (base : ModelNode T) (delta : SchemaDelta T) : Except DeltaError (ModelNode T) := do
  let root ← cloneNode base
  delta.foldlM applyOp root

end Apply

end CyodaGo.Schema
