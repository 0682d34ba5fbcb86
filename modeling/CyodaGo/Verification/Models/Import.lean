import CyodaGo.Model.Models.Service
import CyodaGo.Verification.Schema.Admission

/-! # Imports and failed reads

A sequential `ImportModel` through the request-scoped store. An import takes every failed read
for an absent model, so what it saves is right exactly when a failed read loses nothing. -/

namespace CyodaGo.ModelCache

open Models Schema
open Memory (Time)

variable {T D E : Type}

abbrev ModelNodeCache (T : Type) := Node (ModelNode T) DescriptorRest

/-- What every question of an undisturbed call meets. -/
abbrev Pattern (T : Type) := Question (ModelNode T) (SchemaDelta T) DescriptorRest → Outside

section Alone

variable (apply : ApplyFunc (ModelNode T) (SchemaDelta T) E) (outside : Pattern T)

def alone (n : ModelNodeCache T) (q : Question (ModelNode T) (SchemaDelta T) DescriptorRest) :
    Option (Answer q × ModelNodeCache T) :=
  n.serve apply (outside q) q

def runImport [TypeSet T] (spi : ScalarSpi D) (parsers : Parsers) (input : ImportModelInput) (now : Time)
    (n : ModelNodeCache T) : Option (Except AppError Unit × ModelNodeCache T) :=
  (importModel spi parsers requestScopedStore input now).runWith
    (alone apply outside) n

/-- The failure that the descriptor read meets, if it meets one. -/
def readFailure : Option Failure := (outside (.inner .get)).failure

def saveFailure (desc : Descriptor T) : Option Failure := (outside (.inner (.save desc))).failure

variable {n n' : ModelNodeCache T}

theorem inner_get (n : ModelNodeCache T) :
    n.inner apply .get = (match n.current with
      | none => .error .notFound
      | some desc => .ok (some desc), n) := by
  rw [Node.inner, ModelStore.perform]
  obtain ⟨current, _⟩ := n
  cases current <;> rfl

/-- What the import takes for the stored model. -/
def taken (outside : Pattern T) (n : ModelNodeCache T) : Option (Descriptor T) :=
  match readFailure outside with
  | some _ => none
  | none => n.current

open RequestScopedStore

/-- The gating read leaves the stored model as it is. -/
theorem run_getModelFresh [TypeSet T] (hflight : n.flight = none) :
    ∃ read n', (getModelFresh requestScopedStore).runWith
        (alone apply outside) n = some (read, n') ∧
      existingModel read = taken outside n ∧ n'.current = n.current := by
  change ∃ read n', refreshAndGet.runWith _ n = _ ∧ _
  simp only [refreshAndGet, fetch, ask, Program.ask_bind,
    Program.done_bind, Program.runWith, alone, Node.serve, hflight, Option.bind_some, taken,
    readFailure]
  cases (outside (.inner .get)).failure with
  | some cause => exact ⟨_, _, rfl, rfl, rfl⟩
  | none =>
    simp only [inner_get, Option.bind_some]
    cases n.current with
    | none => exact ⟨_, _, rfl, rfl, rfl⟩
    | some desc =>
      by_cases hlocked : desc.state = .locked
      · simp only [if_pos hlocked]
        exact ⟨_, _, rfl, rfl, rfl⟩
      simp only [if_neg hlocked]
      exact ⟨_, _, rfl, rfl, rfl⟩

theorem run_save (desc : Descriptor T) :
    ∃ r n', (requestScopedStore.save desc).runWith
        (alone apply outside) n = some (r, n') ∧
      match saveFailure outside desc with
      | some cause => r = .error (.failed cause) ∧ n'.current = n.current
      | none => r = .ok () ∧ n'.current = some desc := by
  change ∃ r n', (mutate (.save desc)).runWith _ n = _ ∧ _
  simp only [mutate, invalidate, ask, Program.ask_bind,
    Program.done_bind, Program.runWith, alone, Node.serve, saveFailure]
  cases (outside (.inner (.save desc))).failure with
  | some cause => exact ⟨_, _, rfl, rfl, rfl⟩
  | none => exact ⟨_, _, rfl, rfl, rfl⟩

variable [TypeSet T] (spi : ScalarSpi D) (parsers : Parsers) (input : ImportModelInput) (now : Time)

/-- How an import ends: its answer and the stored model. -/
inductive ImportEnds (n : ModelNodeCache T) : Except AppError Unit → Option (Descriptor T) → Prop
  | unsupported (hconverter : input.converter ≠ "SAMPLE_DATA") :
      ImportEnds n (.error .unsupportedConverter) n.current
  | refused {err : AppError} (hconverter : input.converter = "SAMPLE_DATA")
      (himported : importedDescriptor spi parsers (taken outside n) input now = .error err) :
      ImportEnds n (.error err) n.current
  | unsaved {desc : Descriptor T} {cause : Failure} (hconverter : input.converter = "SAMPLE_DATA")
      (himported : importedDescriptor spi parsers (taken outside n) input now = .ok desc)
      (hsave : saveFailure outside desc = some cause) :
      ImportEnds n (.error (.store (.failed cause))) n.current
  | saved {desc : Descriptor T} (hconverter : input.converter = "SAMPLE_DATA")
      (himported : importedDescriptor spi parsers (taken outside n) input now = .ok desc)
      (hsave : saveFailure outside desc = none) : ImportEnds n (.ok ()) (some desc)

variable {outside spi parsers input now}

theorem exists_runImport (hflight : n.flight = none) :
    ∃ result n', runImport apply outside spi parsers input now n = some (result, n') ∧
      ImportEnds outside spi parsers input now n result n'.current := by
  by_cases hconverter : input.converter = "SAMPLE_DATA"
  · obtain ⟨read, n1, hread, hexisting, hcurrent⟩ := run_getModelFresh apply outside hflight
    rw [runImport, importModel, if_neg (not_not_intro hconverter), Program.runWith_bind, hread,
      Option.bind_some, hexisting, saveImported]
    cases himported : importedDescriptor spi parsers (taken outside n) input now with
    | error err => exact ⟨_, n1, rfl, hcurrent ▸ .refused hconverter himported⟩
    | ok desc =>
      obtain ⟨r, n2, hsave, hsaved⟩ := run_save apply outside desc (n := n1)
      simp only [Program.runWith_bind, hsave, Option.bind_some]
      cases hfailure : saveFailure outside desc with
      | some cause =>
        simp only [hfailure] at hsaved
        obtain ⟨rfl, hkept⟩ := hsaved
        exact ⟨_, n2, rfl, (hkept.trans hcurrent) ▸ .unsaved hconverter himported hfailure⟩
      | none =>
        simp only [hfailure] at hsaved
        obtain ⟨rfl, hstored⟩ := hsaved
        exact ⟨_, n2, rfl, hstored ▸ .saved hconverter himported hfailure⟩
  · rw [runImport, importModel, if_pos hconverter]
    exact ⟨_, n, rfl, .unsupported hconverter⟩

end Alone

/-! ## What an import may do -/

section Statement

variable [TypeSet T] (spi : ScalarSpi D) (parsers : Parsers) (input : ImportModelInput)

/-- The imported schema merged into the old one. -/
def mergedInto (old : Option (Descriptor T)) (new : ModelNode T) : ModelNode T :=
  match old.bind ModelDescriptor.schema with
  | none => new
  | some schema => schema.merge new

/-- The stored descriptor carries the old model on. -/
structure CarriesOn (old : Option (Descriptor T)) (new : ModelNode T) (stored : Descriptor T) :
    Prop where
  schema : stored.schema = some (mergedInto old new)
  level : stored.changeLevel = (old.map ModelDescriptor.changeLevel).getD noChangeLevel
  keys : stored.rest.uniqueKeys = (old.map fun d => d.rest.uniqueKeys).getD []
  accepted : validateUniqueKeys (mergedInto old new) stored.rest.uniqueKeys = .ok ()

/-- An error that changes nothing, or the model was absent or unlocked and is carried on. -/
def KeepsModel (old : Option (Descriptor T)) (result : Except AppError Unit)
    (after : Option (Descriptor T)) : Prop :=
  (∃ err, result = .error err ∧ after = old) ∨
    result = .ok () ∧ (∀ desc ∈ old, desc.state = .unlocked) ∧
      ∃ new stored, importSample spi parsers input.data input.format = .ok new ∧
        after = some stored ∧ CarriesOn old new stored

/-- The model holds nothing that an import of `new` over it would lose. -/
structure NothingToLose (old : Descriptor T) (new : ModelNode T) : Prop where
  unlocked : old.state = .unlocked
  level : old.changeLevel = noChangeLevel
  keys : old.rest.uniqueKeys = []
  schema : mergedInto (some old) new = new

/-- What the first import of a model stores. -/
def firstDescriptor (new : ModelNode T) (now : Time) : Descriptor T :=
  ⟨.unlocked, noChangeLevel, some new, ⟨now, []⟩⟩

variable {spi parsers input} {now : Time} {old : Option (Descriptor T)} {new : ModelNode T}
  {desc : Descriptor T}

theorem importedDescriptor_none
    (himport : importSample spi parsers input.data input.format = .ok new) :
    importedDescriptor spi parsers none input now = .ok (firstDescriptor new now) := by
  rw [importedDescriptor, himport]
  rfl

theorem exists_new_of_imported (h : importedDescriptor spi parsers none input now = .ok desc) :
    ∃ new, importSample spi parsers input.data input.format = .ok new ∧
      desc = firstDescriptor new now := by
  cases himport : (importSample spi parsers input.data input.format :
      Except SampleError (ModelNode T)) with
  | error err =>
    rw [importedDescriptor, himport] at h
    cases h
  | ok new =>
    rw [importedDescriptor_none himport] at h
    exact ⟨new, rfl, (Except.ok.inj h).symm⟩

theorem finalNode_eq_ok {node : ModelNode T} (h : finalNode old new = .ok node) :
    node = mergedInto old new := by
  rw [finalNode] at h
  rw [mergedInto]
  cases hschema : old.bind ModelDescriptor.schema with
  | none =>
    rw [hschema] at h
    exact (Except.ok.inj h).symm
  | some schema =>
    rw [hschema] at h
    dsimp only at h
    split at h
    · exact (Except.ok.inj h).symm
    · cases h

theorem carriesOn_of_imported (h : importedDescriptor spi parsers old input now = .ok desc) :
    (∀ d ∈ old, d.state = .unlocked) ∧
      ∃ new, importSample spi parsers input.data input.format = .ok new ∧
        CarriesOn old new desc := by
  rw [importedDescriptor] at h
  split at h
  · cases h
  · next hlocked =>
    have hunlocked : ∀ d ∈ old, d.state = .unlocked := by
      rintro d rfl
      cases hstate : d.state with
      | locked => simp [hstate] at hlocked
      | unlocked => rfl
    cases himport : (importSample spi parsers input.data input.format :
        Except SampleError (ModelNode T)) with
    | error err => simp [himport] at h
    | ok new =>
      simp only [himport] at h
      cases hnode : finalNode old new with
      | error err => simp [hnode] at h
      | ok node =>
        obtain rfl := finalNode_eq_ok hnode
        simp only [hnode] at h
        cases old with
        | none =>
          cases h
          exact ⟨hunlocked, new, rfl, ⟨rfl, rfl, rfl, rfl⟩⟩
        | some old =>
          dsimp only at h
          split at h
          · cases h
          · next haccepted =>
            cases h
            exact ⟨hunlocked, new, rfl, ⟨rfl, rfl, rfl, haccepted⟩⟩

/-- A first import over what is there carries it on when there is nothing to lose. -/
theorem keepsModel_firstDescriptor
    (himport : importSample spi parsers input.data input.format = .ok new) :
    KeepsModel spi parsers input old (.ok ()) (some (firstDescriptor new now)) ↔
      ∀ d ∈ old, NothingToLose d new := by
  constructor
  · rintro (⟨err, herr, -⟩ | ⟨-, hunlocked, new', stored, himport', hstored, hcarries⟩) d hd
    · cases herr
    · cases himport.symm.trans himport'
      cases hstored
      rw [Option.mem_def.mp hd] at hcarries
      exact ⟨hunlocked d hd, hcarries.level.symm, hcarries.keys.symm,
        (Option.some.inj hcarries.schema).symm⟩
  · intro h
    refine .inr ⟨rfl, fun d hd => (h d hd).unlocked, new, _, himport, rfl, ?_⟩
    cases old with
    | none => exact ⟨rfl, rfl, rfl, rfl⟩
    | some d =>
      have hd := h d rfl
      exact ⟨congrArg some hd.schema.symm, hd.level.symm, hd.keys.symm, rfl⟩

end Statement

/-! ## The import -/

section Import

variable [TypeSet T] (apply : ApplyFunc (ModelNode T) (SchemaDelta T) E) (outside : Pattern T)
  (spi : ScalarSpi D) (parsers : Parsers) (input : ImportModelInput) (now : Time)
  {n : ModelNodeCache T}

/-- A sequential import returns. It leaves the model on an error and carries it on otherwise,
exactly when no read failure makes it save over a model that has something to lose. -/
theorem import_keeps_model (hflight : n.flight = none) :
    ∃ result n', runImport apply outside spi parsers input now n = some (result, n') ∧
      (KeepsModel spi parsers input n.current result n'.current ↔
        (input.converter = "SAMPLE_DATA" → ∀ cause ∈ readFailure outside, ∀ old ∈ n.current,
          ∀ new, importSample spi parsers input.data input.format = .ok new →
            saveFailure outside (firstDescriptor new now) = none → NothingToLose old new)) := by
  obtain ⟨result, n', hrun, hends⟩ := exists_runImport apply hflight
  refine ⟨result, n', hrun, ?_⟩
  generalize n'.current = after at hends ⊢
  cases hends with
  | unsupported hconverter =>
    exact iff_of_true (.inl ⟨_, rfl, rfl⟩) fun h => absurd h hconverter
  | @refused err hconverter himported =>
    refine iff_of_true (.inl ⟨_, rfl, rfl⟩) fun _ cause hread old _ new himport _ => ?_
    rw [taken, Option.mem_def.mp hread, importedDescriptor_none himport] at himported
    cases himported
  | @unsaved desc cause hconverter himported hsave =>
    refine iff_of_true (.inl ⟨_, rfl, rfl⟩) fun _ cause hread old _ new himport hsave' => ?_
    rw [taken, Option.mem_def.mp hread, importedDescriptor_none himport] at himported
    cases himported
    exact nomatch hsave.symm.trans hsave'
  | @saved desc hconverter himported hsave =>
    cases hread : readFailure outside with
    | none =>
      rw [taken, hread] at himported
      obtain ⟨hunlocked, new, himport, hcarries⟩ := carriesOn_of_imported himported
      exact iff_of_true (.inr ⟨rfl, hunlocked, new, desc, himport, rfl, hcarries⟩)
        fun _ _ h => nomatch h
    | some cause =>
      rw [taken, hread] at himported
      obtain ⟨new, himport, rfl⟩ := exists_new_of_imported himported
      rw [keepsModel_firstDescriptor himport]
      constructor
      · rintro h - _ - old hold new' himport' -
        cases himport.symm.trans himport'
        exact h old hold
      · intro h d hd
        exact h hconverter cause rfl d hd new himport hsave

end Import

namespace Sample

open Schema.Sample (TypeFlags textField)

/-- Every body is the document with one text field. -/
def oneDocument : Parsers where
  parseJSON _ := .ok (.object [("a", .string "x")])
  parseXML _ := .error ""

def sampleData : ImportModelInput := ⟨"JSON", "SAMPLE_DATA", []⟩

def noExtension : ApplyFunc (ModelNode TypeFlags) (SchemaDelta TypeFlags) Unit := fun _ _ => .error ()

/-- Reads of the inner store meet `read`; everything else works. -/
def reading (read : Option Failure) : Pattern TypeFlags
  | .inner .get => ⟨read, 0, 0⟩
  | _ => ⟨none, 0, 0⟩

def keyed (state : ModelState) : Descriptor TypeFlags :=
  ⟨state, .type, some textField, ⟨0, [⟨"k", ["$.a"]⟩]⟩⟩

end Sample

open Sample

theorem import_keeps_keyed_model :
    ∃ result n', runImport noExtension (reading none) Schema.Sample.decimals
        oneDocument sampleData 1 (.fresh (some (keyed .unlocked))) =
          some (result, n') ∧
      KeepsModel Schema.Sample.decimals oneDocument sampleData
        (some (keyed .unlocked)) result n'.current := by
  obtain ⟨result, n', hrun, hkeeps⟩ := import_keeps_model noExtension (reading none)
    Schema.Sample.decimals oneDocument sampleData 1
    (n := .fresh (some (keyed .unlocked))) rfl
  exact ⟨result, n', hrun, hkeeps.mpr fun _ _ h => nomatch h⟩

/-- The read of a locked model fails, and the import replaces the model. -/
theorem import_over_failed_read :
    ∃ n', runImport noExtension (reading (some .unavailable)) Schema.Sample.decimals
        oneDocument sampleData 1 (.fresh (some (keyed .locked))) =
          some (.ok (), n') ∧
      n'.current.map (fun d => (d.state, d.changeLevel, d.rest.uniqueKeys)) =
        some (.unlocked, noChangeLevel, []) ∧
      ¬ KeepsModel Schema.Sample.decimals oneDocument sampleData
        (some (keyed .locked)) (.ok ()) n'.current := by
  refine ⟨_, rfl, rfl, ?_⟩
  rintro (⟨err, herr, -⟩ | ⟨-, hunlocked, -⟩)
  · cases herr
  · exact nomatch hunlocked _ rfl

end CyodaGo.ModelCache
