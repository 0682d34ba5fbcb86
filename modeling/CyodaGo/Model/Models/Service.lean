import CyodaGo.Model.Models.RequestStore
import CyodaGo.Model.Schema.Delta
import CyodaGo.Model.Schema.Fields

/-! # The model service

The administrative operations on one model, and the creation of its entities, over any
implementation of the stores. -/

namespace CyodaGo.Models

open Schema
open Memory (Time)

/-- What a descriptor holds beside state, change level and schema. -/
structure DescriptorRest where
  updateDate : Time
  uniqueKeys : List UniqueKey
  deriving DecidableEq

abbrev Descriptor (T : Type) := ModelDescriptor (ModelNode T) DescriptorRest

/-- A descriptor's change level before any was set. -/
def noChangeLevel : ChangeLevel := .other ""

/-! ## Sample data -/

inductive SampleError where
  | unsupportedFormat (format : String)
  | parse (format text : String)
  | nonDocument (text : String)
  | walk (err : AdmitError)
  deriving DecidableEq

structure Parsers where
  parseJSON : List UInt8 → Except String Doc
  parseXML : List UInt8 → Except String Doc

section Sample

variable {T D : Type} [TypeSet T] (spi : ScalarSpi D)

/-- A value's kind as it reads inside a sentence. -/
def kindPhrase (v : Doc) : String :=
  match jsonKindName v with
  | "null" => "null"
  | "object" => "an object"
  | "array" => "an array"
  | kind => "a " ++ kind

/-- The root path of the importer. -/
def walkDoc (doc : Doc) : Except SampleError (ModelNode T) :=
  match describe spi doc "$" with
  | .error err => .error (.walk err)
  | .ok n => .ok n

/-- The documents of a collection, merged one after the other. -/
def walkItems : ℕ → ModelNode T → List Doc → Except SampleError (ModelNode T)
  | _, node, [] => .ok node
  | i, node, item :: rest =>
    match item with
    | .object _ =>
      match walkDoc spi item with
      | .error err => .error err
      | .ok derived => walkItems (i + 1) (node.merge derived) rest
    | _ => .error (.nonDocument ("element " ++ toString i ++ " is " ++ kindPhrase item))

def walkSampleData : Doc → Except SampleError (ModelNode T)
  | .object fields => walkDoc spi (.object fields)
  | .array items => walkItems spi 0 ModelNode.newObjectNode items
  | v => .error (.nonDocument ("got " ++ kindPhrase v))

def parsedAs (format : String) : Except String Doc → Except SampleError Doc
  | .error text => .error (.parse format text)
  | .ok doc => .ok doc

/-- `SampleDataImporter.Import`. -/
def importSample (parsers : Parsers) (data : List UInt8) (format : String) :
    Except SampleError (ModelNode T) := do
  let parsed ← match format with
    | "JSON" => parsedAs format (parsers.parseJSON data)
    | "XML" => parsedAs format (parsers.parseXML data)
    | _ => .error (.unsupportedFormat format)
  walkSampleData spi parsed

end Sample

/-! ## Errors -/

inductive IngestError where
  | unmarshal
  | invalid (errs : List ValidationError)
  | extend (err : ExtendError)
  | keys (err : UniqueKeyDefError)
  | diff (err : DeltaError)
  | extendSchema (fault : Fault)

/-- `unexpectedState` names the state the operation needs. -/
inductive AppError where
  | unsupportedConverter
  | alreadyRegistered
  | sample (err : SampleError)
  | unmarshalSchema
  | invalidUniqueKeys (err : UniqueKeyDefError)
  | modelNotFound
  | unexpectedState (expected : ModelState)
  | hasEntities (count : ℕ)
  | keysUnsupported
  | store (fault : Fault)
  | modelNotLocked
  | badBody
  | unstorable
  | ingest (err : IngestError)
  | incompleteKey
  | workflow

/-- `classifyGetErr`. -/
def classifyGetErr : Fault → AppError
  | .notFound => .modelNotFound
  | .failed cause => .store (.failed cause)

/-! ## The administrative operations -/

section Handlers

variable {Q : Type} {R : Q → Type} {T D : Type} [TypeSet T]

abbrev ModelStoreOf (Q : Type) (R : Q → Type) (T : Type) :=
  Spi.ModelStore Q R (ModelNode T) (SchemaDelta T) DescriptorRest

variable (spi : ScalarSpi D) (parsers : Parsers) (store : ModelStoreOf Q R T)

/-- Bypasses the cache when the store can. -/
def getModelFresh : Program Q R (Except Fault (Option (Descriptor T))) :=
  store.refreshAndGet.getD store.get

structure ImportModelInput where
  format : String
  converter : String
  data : List UInt8

variable (existing : Option (Descriptor T)) (desc : Descriptor T)

/-- The schema to save: the imported one merged into the stored one. -/
def finalNode (newNode : ModelNode T) : Except AppError (ModelNode T) :=
  match existing.bind ModelDescriptor.schema with
  | none => .ok newNode
  | some schema => if schema.decodable then .ok (schema.merge newNode) else .error .unmarshalSchema

/-- The descriptor that an import saves over the one it has read. -/
def importedDescriptor (input : ImportModelInput) (now : Time) : Except AppError (Descriptor T) :=
  if existing.any (·.state = .locked) then .error .alreadyRegistered
  else
    match importSample spi parsers input.data input.format with
    | .error err => .error (.sample err)
    | .ok newNode =>
      match finalNode existing newNode with
      | .error err => .error err
      | .ok node =>
        match existing with
        | none => .ok ⟨.unlocked, noChangeLevel, some node, ⟨now, []⟩⟩
        | some old =>
          match validateUniqueKeys node old.rest.uniqueKeys with
          | .error err => .error (.invalidUniqueKeys err)
          | .ok _ => .ok ⟨.unlocked, old.changeLevel, some node, ⟨now, old.rest.uniqueKeys⟩⟩

/-- Every failed read counts as an absent model. -/
def existingModel : Except Fault (Option (Descriptor T)) → Option (Descriptor T)
  | .error _ => none
  | .ok desc => desc

def saved : Except Fault Unit → Except AppError Unit
  | .error fault => .error (.store fault)
  | .ok () => .ok ()

def saveImported (input : ImportModelInput) (now : Time) :
    Program Q R (Except AppError Unit) := do
  match importedDescriptor spi parsers existing input now with
  | .error err => return .error err
  | .ok desc => return saved (← store.save desc)

def importModel (input : ImportModelInput) (now : Time) : Program Q R (Except AppError Unit) := do
  if input.converter ≠ "SAMPLE_DATA" then
    return .error .unsupportedConverter
  saveImported spi parsers store (existingModel (← getModelFresh store)) input now

/-- The gating read of the other operations: the model must be there, in the given state. -/
def gate (expected : ModelState) : Except Fault (Option (Descriptor T)) →
    Except AppError (Descriptor T)
  | .error fault => .error (classifyGetErr fault)
  | .ok none => .error .modelNotFound
  | .ok (some desc) => if desc.state = expected then .ok desc else .error (.unexpectedState expected)

def lockModel : Program Q R (Except AppError Unit) := do
  match gate .unlocked (← getModelFresh store) with
  | .error err => return .error err
  | .ok _ => return saved (← store.lock)

/-- `count` is the entity store's `Count`. -/
def whenEmpty (count : Program Q R (Except Fault ℕ)) (act : Program Q R (Except Fault Unit)) :
    Program Q R (Except AppError Unit) := do
  match ← count with
  | .error fault => return .error (.store fault)
  | .ok entities =>
    if 0 < entities then
      return .error (.hasEntities entities)
    return saved (← act)

variable (count : Program Q R (Except Fault ℕ))

def unlockModel : Program Q R (Except AppError Unit) := do
  match gate .locked (← getModelFresh store) with
  | .error err => return .error err
  | .ok _ => whenEmpty count store.unlock

def deleteModel : Program Q R (Except AppError Unit) := do
  match gate .unlocked (← getModelFresh store) with
  | .error err => return .error err
  | .ok _ => whenEmpty count store.delete

/-- The descriptor with new keys, when its schema has the fields they name. -/
def withKeys (keys : List UniqueKey) : Except AppError (Descriptor T) :=
  match desc.schema with
  | none => .error .unmarshalSchema
  | some schema =>
    if schema.decodable then
      match validateUniqueKeys schema keys with
      | .error err => .error (.invalidUniqueKeys err)
      | .ok _ => .ok { desc with rest := { desc.rest with uniqueKeys := keys } }
    else .error .unmarshalSchema

/-- `supported` is the backend's `SupportsCompositeUniqueKeys`. -/
def setUniqueKeys (supported : Bool) (keys : List UniqueKey) :
    Program Q R (Except AppError Unit) := do
  if !supported then
    return .error .keysUnsupported
  match gate .unlocked (← getModelFresh store) with
  | .error err => return .error err
  | .ok desc =>
    match withKeys desc keys with
    | .error err => return .error err
    | .ok desc => return saved (← store.save desc)

/-! ## The creation of an entity -/

/-- What an entity flow asks of the entity store, the transaction manager and the engine.
`execute` answers how many segments the cascade commits before it returns. -/
structure Spi.EntityFlow (Q : Type) (R : Q → Type) where
  beginTx : Program Q R (Except Fault Unit)
  execute : Program Q R (Except Fault ℕ)
  commitSegment : Program Q R (Except Fault Unit)
  save : Program Q R (Except Fault Unit)
  commit : Program Q R (Except Fault Unit)

/-- `body` is what the payload decodes to; `claims` is `ComputeClaims`. -/
structure CreateEntityInput where
  body : Option Doc
  storable : Bool
  claims : List UniqueKey → Bool

/-- The extension that the document needs; none when the model admits it as it is. -/
def neededExtension (data : Doc) : Except IngestError (Option (SchemaDelta T)) :=
  match desc.schema with
  | none => .error .unmarshal
  | some model =>
    if ¬ model.decodable then .error .unmarshal
    else if desc.changeLevel = noChangeLevel then
      match validate spi model data with
      | [] => .ok none
      | errs => .error (.invalid errs)
    else
      match extend spi model data desc.changeLevel with
      | .error err => .error (.extend err)
      | .ok extended =>
        match validateUniqueKeys extended desc.rest.uniqueKeys with
        | .error err => .error (.keys err)
        | .ok _ =>
          match diff model extended with
          | .error err => .error (.diff err)
          | .ok [] => .ok none
          | .ok delta => .ok (some delta)

def validateOrExtend (data : Doc) : Program Q R (Except AppError Unit) := do
  match neededExtension spi desc data with
  | .error err => return .error (.ingest err)
  | .ok none => return .ok ()
  | .ok (some delta) =>
    match ← store.extendSchema delta with
    | .error fault => return .error (.ingest (.extendSchema fault))
    | .ok () => return .ok ()

/-- The segments of a cascade, each with a commit of its own. -/
def cascade (flow : Spi.EntityFlow Q R) : ℕ → Program Q R (Except AppError Unit)
  | 0 => return .ok ()
  | segments + 1 => do
    match ← flow.commitSegment with
    | .error _ => return .error .workflow
    | .ok () => cascade flow segments

/-- The transaction part: the workflow runs, then the entity is saved and committed. -/
def storeEntity (flow : Spi.EntityFlow Q R) : Program Q R (Except AppError Unit) := do
  match ← flow.beginTx with
  | .error fault => return .error (.store fault)
  | .ok () =>
    match ← flow.execute with
    | .error _ => return .error .workflow
    | .ok segments =>
      match ← cascade flow segments with
      | .error err => return .error err
      | .ok () =>
        match ← flow.save with
        | .error fault => return .error (.store fault)
        | .ok () => return saved (← flow.commit)

/-- A store that answers neither a descriptor nor an error makes the handler panic. -/
def createEntity (flow : Spi.EntityFlow Q R) (input : CreateEntityInput) :
    Program Q R (Except AppError Unit) := do
  match ← store.get with
  | .error fault => return .error (classifyGetErr fault)
  | .ok none => return .error (.store (.failed .other))
  | .ok (some desc) =>
    if desc.state ≠ .locked then
      return .error .modelNotLocked
    match input.body with
    | none => return .error .badBody
    | some data =>
      if !input.storable then
        return .error .unstorable
      match ← validateOrExtend spi store desc data with
      | .error err => return .error err
      | .ok () =>
        if desc.rest.uniqueKeys ≠ [] ∧ ¬ input.claims desc.rest.uniqueKeys then
          return .error .incompleteKey
        storeEntity flow

end Handlers

end CyodaGo.Models
