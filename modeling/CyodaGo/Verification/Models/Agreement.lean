import CyodaGo.Model.Models.Memory
import CyodaGo.Model.Models.Sqlite
import CyodaGo.Shared.Run
import CyodaGo.Verification.Models.Fold

/-! # The sqlite store against the memory store

Both stores take the same calls on one model reference. What memory keeps as one value, sqlite
keeps as a base and a log; the two agree while folding the log over the base gives the value.
No call removes rows from the log, so a `Save` must find rows that add nothing to what it
saves. -/

namespace CyodaGo.Models

variable {S Δ A E : Type} (applyFunc : Option (ApplyFunc S Δ E)) (interval : Int)

/-- The two stores side by side. -/
abbrev Stores (S Δ A : Type) := Tables S Δ A × ModelStore.Entry S A

def Stores.fresh : Stores S Δ A := (⟨none, .empty⟩, none)

open ModelStore

/-- One call on both stores; the answers of sqlite and of memory. -/
def stepStores (s : Stores S Δ A) (call : Call S Δ A) :
    Option ((Answer S A E × Answer S A E) × Stores S Δ A) :=
  let r := Sqlite.perform applyFunc interval s.1 call
  let r' := perform applyFunc s.2 call
  some ((r.1, r'.1), (r.2, r'.2))

/-- The row and the log represent the entry. -/
inductive Represents : Tables S Δ A → ModelStore.Entry S A → Prop
  | absent {t : Tables S Δ A} (row : t.row = none) : Represents t none
  | present {t : Tables S Δ A} {doc desc : ModelDescriptor S A} (row : t.row = some doc)
      (state : doc.state = desc.state) (level : doc.changeLevel = desc.changeLevel)
      (rest : doc.rest = desc.rest)
      (fold : foldLocked applyFunc t.log doc.schema = .ok desc.schema) :
      Represents t (some desc)

variable {applyFunc interval} {t : Tables S Δ A} {entry : ModelStore.Entry S A}

theorem Represents.get_eq (h : Represents applyFunc t entry) :
    Sqlite.get applyFunc t = (get entry : Except (StoreError E) _) := by
  cases h with
  | absent hrow => rw [Sqlite.get, hrow]; rfl
  | @present doc desc hrow hstate hlevel hrest hfold =>
    obtain ⟨state, level, schema, rest⟩ := desc
    subst hstate hlevel hrest
    rw [Sqlite.get, hrow]
    simp only [hfold]
    rfl

/-- The trigger leaves what the log folds to as it is. -/
theorem Sqlite.savepointAfter_fold (interval : Int) {log : ExtensionLog S Δ} {base : Option S}
    {schema : S} (nextSeq : Nat) (hfold : foldLocked applyFunc log base = .ok (some schema)) :
    ∃ log', Sqlite.savepointAfter applyFunc interval base nextSeq log = .ok log' ∧
      foldLocked applyFunc log' base = .ok (some schema) := by
  by_cases htrigger : 0 < interval ∧ interval ≤ (nextSeq : Int) - log.lastSavepointSeq
  · refine ⟨log.insert 0 (.savepoint schema), ?_, foldLocked_insert_savepoint schema⟩
    rw [Sqlite.savepointAfter, if_pos htrigger, hfold]
    rfl
  · exact ⟨log, if_neg htrigger, hfold⟩

namespace Represents

theorem lock (h : Represents applyFunc t entry) :
    Represents applyFunc (Sqlite.perform applyFunc interval t .lock).2
      (perform applyFunc entry .lock).2 := by
  cases h with
  | absent hrow =>
    rw [Sqlite.perform, Sqlite.lock, hrow]
    exact .absent hrow
  | @present doc desc hrow hstate hlevel hrest hfold =>
    rw [Sqlite.perform, Sqlite.lock, hrow]
    by_cases hlocked : doc.state = .locked
    · simp only [hlocked, if_true]
      exact .present hrow hlocked hlevel hrest hfold
    simp only [hlocked, if_false]
    by_cases hdedup : t.log.maxSeq = t.log.lastSavepointSeq
    · rw [if_pos hdedup]
      exact .present rfl rfl hlevel hrest hfold
    rw [if_neg hdedup, hfold]
    cases hschema : desc.schema with
    | none => exact .present rfl rfl hlevel hrest hfold
    | some payload =>
      refine .present rfl rfl hlevel hrest ?_
      rw [hschema]
      exact foldLocked_insert_savepoint payload

/-- A change of one field, made by both stores. -/
theorem update {f : ModelDescriptor S A → ModelDescriptor S A} (h : Represents applyFunc t entry)
    (hstate : ∀ a b, a.state = b.state → (f a).state = (f b).state)
    (hlevel : ∀ a b, a.changeLevel = b.changeLevel → (f a).changeLevel = (f b).changeLevel)
    (hkeeps : ∀ a, (f a).schema = a.schema ∧ (f a).rest = a.rest) :
    Represents applyFunc (settle t (Sqlite.update f t) : Answer S A E × _).2
      (settle entry (update f entry) : Answer S A E × _).2 := by
  cases h with
  | absent hrow =>
    rw [Sqlite.update, hrow]
    exact .absent hrow
  | @present doc desc hrow hs hl hrest hfold =>
    rw [Sqlite.update, hrow]
    refine .present rfl (hstate _ _ hs) (hlevel _ _ hl) ?_ ?_
    · rw [(hkeeps doc).2, (hkeeps desc).2, hrest]
    · rw [(hkeeps doc).1, (hkeeps desc).1]
      exact hfold

theorem extendSchema (h : Represents applyFunc t entry) (delta : Option Δ) :
    Represents applyFunc (Sqlite.perform applyFunc interval t (.extendSchema delta)).2
      (perform applyFunc entry (.extendSchema delta)).2 := by
  cases delta with
  | none => exact h
  | some delta =>
    cases applyFunc with
    | none => exact h
    | some apply =>
      rw [Sqlite.perform, Sqlite.extendSchema, Sqlite.extendSchemaAttempt, perform]
      cases h with
      | absent hrow =>
        rw [hrow]
        exact .absent hrow
      | @present doc desc hrow hstate hlevel hrest hfold =>
        simp only [extendSchema, hrow, hfold]
        cases happly : apply desc.schema delta with
        | error err =>
          simp only [bind, Except.bind, happly]
          exact .present hrow hstate hlevel hrest hfold
        | ok newSchema =>
          have hdelta : foldLocked (some apply) (t.log.insert 0 (.delta delta)) doc.schema =
              .ok (some newSchema) := by
            rw [foldLocked_insert_delta, hfold]
            simp [replayDelta, happly, bind, Except.bind]
          obtain ⟨log', hlog', hfold'⟩ :=
            Sqlite.savepointAfter_fold interval (t.log.maxSeq + 1) hdelta
          simp only [bind, Except.bind, happly, hlog']
          exact .present rfl hstate hlevel hrest hfold'

theorem perform (h : Represents applyFunc t entry) (call : Call S Δ A)
    (hsave : ∀ desc, call = .save desc → foldLocked applyFunc t.log desc.schema = .ok desc.schema) :
    Represents applyFunc (Sqlite.perform applyFunc interval t call).2
      (perform applyFunc entry call).2 := by
  cases call with
  | save desc => exact .present rfl rfl rfl rfl (hsave desc rfl)
  | get => exact h
  | lock => exact h.lock
  | extendSchema delta => exact h.extendSchema delta
  | unlock => exact h.update (fun _ _ _ => rfl) (fun _ _ h => h) fun _ => ⟨rfl, rfl⟩
  | setChangeLevel level => exact h.update (fun _ _ h => h) (fun _ _ _ => rfl) fun _ => ⟨rfl, rfl⟩
  | delete =>
    cases h with
    | absent hrow =>
      rw [Sqlite.perform, Sqlite.delete, hrow]
      exact .absent hrow
    | present hrow =>
      rw [Sqlite.perform, Sqlite.delete, hrow]
      exact .absent rfl

end Represents

/-- What a `Save` meets: the rows in the log fold to the saved schema itself. An empty log
does. -/
def SavesOverQuietLog (applyFunc : Option (ApplyFunc S Δ E))
    (_ : List (Event (Stores S Δ A) (Call S Δ A) (Answer S A E × Answer S A E)))
    (s : Stores S Δ A) (call : Call S Δ A) : Prop :=
  ∀ desc, call = .save desc → foldLocked applyFunc s.1.log desc.schema = .ok desc.schema

theorem represents_of_run {tr : List (Event (Stores S Δ A) (Call S Δ A) (Answer S A E × Answer S A E))}
    {s : Stores S Δ A}
    (h : Run (stepStores applyFunc interval) (SavesOverQuietLog applyFunc) .fresh tr s) :
    Represents applyFunc s.1 s.2 := by
  refine Run.inv (I := fun _ s => Represents applyFunc s.1 s.2) (.absent rfl) ?_ h
  intro tr s call r s' hs hallowed hstep
  cases hstep
  exact hs.perform call hallowed

/-- In every run whose `Save`s meet rows that add nothing, both stores answer every `Get` with
the same descriptor. -/
theorem backends_agree {tr : List (Event (Stores S Δ A) (Call S Δ A) (Answer S A E × Answer S A E))}
    {s : Stores S Δ A} {ev : Event (Stores S Δ A) (Call S Δ A) (Answer S A E × Answer S A E)}
    (hrun : Run (stepStores applyFunc interval) (SavesOverQuietLog applyFunc) .fresh tr s)
    (hev : ev ∈ tr) (hget : ev.action = .get) : ev.result.1 = ev.result.2 := by
  obtain ⟨tr', hbefore, -, hstep⟩ := hrun.of_mem hev
  rw [hget] at hstep
  have hresult : _ = ev.result := congrArg Prod.fst (Option.some.inj hstep)
  rw [← hresult]
  exact congrArg (Except.map some) (represents_of_run hbefore).get_eq

namespace Sample

abbrev StoreEvent := Event (Stores (List Nat) Nat Unit) (Call (List Nat) Nat Unit)
  (Answer (List Nat) Unit Unit × Answer (List Nat) Unit Unit)

def isGet : Call (List Nat) Nat Unit → Bool
  | .get => true
  | _ => false

theorem eq_get {call : Call (List Nat) Nat Unit} (h : isGet call = true) : call = .get := by
  cases call <;> first | rfl | cases h

def quietSave (_ : List StoreEvent) (s : Stores (List Nat) Nat Unit)
    (call : Call (List Nat) Nat Unit) : Bool :=
  match call with
  | .save desc => foldLocked (some addName) s.1.log desc.schema = .ok desc.schema
  | _ => true

def anyCall (_ : List StoreEvent) (_ : Stores (List Nat) Nat Unit)
    (_ : Call (List Nat) Nat Unit) : Bool := true

theorem quietSave_allowed (tr : List StoreEvent) (s : Stores (List Nat) Nat Unit)
    (call : Call (List Nat) Nat Unit) (h : quietSave tr s call = true) :
    SavesOverQuietLog (some addName) tr s call := by
  rintro desc rfl
  simpa [quietSave] using h

end Sample

open Sample

/-- Some `Get` was answered like this. -/
def Sample.answered (sqlite memory : ModelDescriptor (List Nat) Unit) (tr : List Sample.StoreEvent)
    (_ : Stores (List Nat) Nat Unit) : Bool :=
  tr.any fun ev =>
    isGet ev.action && ev.result = (.ok (some sqlite), .ok (some memory))

theorem Sample.exists_answered {sqlite memory : ModelDescriptor (List Nat) Unit}
    {tr : List Sample.StoreEvent} {s : Stores (List Nat) Nat Unit}
    (h : answered sqlite memory tr s = true) :
    ∃ ev ∈ tr, ev.action = .get ∧ ev.result = (.ok (some sqlite), .ok (some memory)) := by
  obtain ⟨ev, hev, hget⟩ := List.any_eq_true.mp h
  rw [Bool.and_eq_true, decide_eq_true_eq] at hget
  exact ⟨ev, hev, eq_get hget.1, hget.2⟩

/-- Two extensions, the second of which triggers a savepoint. -/
theorem backends_agree_extended :
    ∃ tr s ev, Run (stepStores (some addName) 2) (SavesOverQuietLog (some addName))
        .fresh tr s ∧
      ev ∈ tr ∧ ev.action = .get ∧ ev.result.2 = .ok (some (model [1, 2, 3])) ∧
      ev.result.1 = ev.result.2 := by
  have hrun : ∃ tr s, Run (stepStores (some addName) 2)
      (SavesOverQuietLog (some addName)) .fresh tr s ∧
      answered (model [1, 2, 3]) (model [1, 2, 3]) tr s = true :=
    exists_run_of_execute quietSave_allowed
      [.save (model [1]), .lock, .extendSchema (some 2), .extendSchema (some 3), .unlock,
        .get] (by decide)
  obtain ⟨tr, s, hrun, hcheck⟩ := hrun
  obtain ⟨ev, hev, haction, hresult⟩ := exists_answered hcheck
  exact ⟨tr, s, ev, hrun, hev, haction, congrArg Prod.snd hresult,
    backends_agree hrun hev haction⟩

/-- An extension made before a `Save` is in what sqlite returns after it. -/
theorem save_keeps_old_extension :
    ∃ tr s ev, Run (stepStores (some addName) 64) AnyStep .fresh tr s ∧ ev ∈ tr ∧
      ev.action = .get ∧ ev.result.1 = .ok (some (model [7, 2])) ∧
      ev.result.2 = .ok (some (model [7])) := by
  have hrun : ∃ tr s, Run (stepStores (some addName) 64) AnyStep .fresh tr s ∧
      answered (model [7, 2]) (model [7]) tr s = true :=
    exists_run_of_execute (fun tr s call (_ : anyCall tr s call = true) => trivial)
      [.save (model [1]), .lock, .extendSchema (some 2), .unlock, .save (model [7]),
        .get] (by decide)
  obtain ⟨tr, s, hrun, hcheck⟩ := hrun
  obtain ⟨ev, hev, haction, hresult⟩ := exists_answered hcheck
  exact ⟨tr, s, ev, hrun, hev, haction, congrArg Prod.fst hresult, congrArg Prod.snd hresult⟩

end CyodaGo.Models
