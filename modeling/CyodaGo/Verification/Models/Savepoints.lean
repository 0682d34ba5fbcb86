import CyodaGo.Model.Models.Postgres
import CyodaGo.Verification.Models.Agreement

/-! # Savepoints are transparent

A savepoint is written by the call that appends a delta, from a fold that includes it, right
above it. So at every point of a sequence of extensions the log folds to what applying all
deltas to the base gives. In sqlite this needs that the base was saved over a log without
savepoints, since nothing drains the log. -/

namespace CyodaGo.Models

open Snapshots

open Models.Postgres

open ExtensionLog

variable {S Δ A E τ : Type}

/-! ## Sequences of extensions -/

/-- One call of `ExtendSchema`. Before its two inserts, `skip` and `skip'` values of a shared
sequence go to other models. -/
structure Append (Δ : Type) where
  delta : Option Δ
  skip : Nat
  skip' : Nat

/-- The store after a sequence of calls, and the deltas that were accepted, in order. -/
def appendAll (extend : Append Δ → τ → Except (StoreError E) τ) (t : τ) (accepted : List Δ) :
    List (Append Δ) → τ × List Δ
  | [] => (t, accepted)
  | a :: rest =>
    match extend a t with
    | .error _ => appendAll extend t accepted rest
    | .ok t' => appendAll extend t' (accepted ++ a.delta.toList) rest

theorem appendAll_inv {extend : Append Δ → τ → Except (StoreError E) τ}
    {I : τ → List Δ → Prop}
    (hstep : ∀ t accepted a t', I t accepted → extend a t = .ok t' →
      I t' (accepted ++ a.delta.toList))
    {t : τ} {accepted : List Δ} (h : I t accepted) (appends : List (Append Δ)) :
    I (appendAll extend t accepted appends).1 (appendAll extend t accepted appends).2 := by
  induction appends generalizing t accepted with
  | nil => exact h
  | cons a rest ih =>
    rw [appendAll]
    cases hext : extend a t with
    | error err => exact ih h
    | ok t' => exact ih (hstep t accepted a t' h hext)

/-! ## A log without its savepoints -/

def ExtensionLog.withoutSavepoints (log : ExtensionLog S Δ) : ExtensionLog S Δ where
  rows := log.rows.filter fun r => r.delta?.isSome
  ascending := log.ascending.filter _
  positive r hr := log.positive r (List.mem_of_mem_filter hr)

theorem foldLocked_withoutSavepoints {applyFunc : Option (ApplyFunc S Δ E)}
    {log : ExtensionLog S Δ} {base : Option S} :
    foldLocked applyFunc log.withoutSavepoints base =
      log.deltas.foldlM (replayDelta applyFunc) base := by
  have hdeltas : log.withoutSavepoints.deltas = log.deltas := by
    rw [ExtensionLog.deltas, ExtensionLog.deltas, withoutSavepoints,
      List.filterMap_filter]
    refine List.filterMap_congr fun r _ => ?_
    cases hdelta : r.delta? <;> simp
  rw [foldLocked_eq_replay, replay_of_updates, updates_entries, hdeltas]
  intro e he
  obtain ⟨r, hr, rfl⟩ := List.mem_map.mp he
  have hsome := (List.mem_filter.mp hr).2
  cases hpayload : r.payload with
  | delta d => exact ⟨d, by simp [Row.entry, hpayload]⟩
  | savepoint s => simp [Row.delta?, hpayload] at hsome

/-! ## One extension -/

/-- The columns give back the document that was written, and replaying depends on documents
only. -/
structure Postgres.Column.Lawful (column : Postgres.Column S Δ) (apply : ApplyFunc S Δ E) :
    Prop where
  schema_schema : ∀ s, column.schema (column.schema s) = column.schema s
  delta_delta : ∀ d, column.delta (column.delta d) = column.delta d
  apply_congr : ∀ s t d d', s.map column.schema = t.map column.schema →
    column.delta d = column.delta d' →
    (apply s d).toOption.map column.schema = (apply t d').toOption.map column.schema

/-- The columns of sqlite keep the bytes. -/
def blob : Postgres.Column S Δ := ⟨id, id⟩

theorem blob_lawful (apply : ApplyFunc S Δ E) : (blob : Postgres.Column S Δ).Lawful apply where
  schema_schema _ := rfl
  delta_delta _ := rfl
  apply_congr s t d d' hs hd := by
    simp only [blob, Option.map_id_fun, id_eq] at hs hd
    rw [hs, hd]

def SameDocument (column : Postgres.Column S Δ) (s t : Option S) : Prop :=
  s.map column.schema = t.map column.schema

/-- What an accepted extension does to the log. -/
inductive Extended (column : Postgres.Column S Δ) (apply : ApplyFunc S Δ E) (base : Option S)
    (log : ExtensionLog S Δ) (delta : Δ) : ExtensionLog S Δ → Prop
  | appended {current : Option S} {s : S} {skip : Nat}
      (fold : foldLocked (some apply) log base = .ok current) (ok : apply current delta = .ok s) :
      Extended column apply base log delta (log.insert skip (.delta (column.delta delta)))
  | saved {current : Option S} {s payload : S} {skip skip' : Nat}
      (fold : foldLocked (some apply) log base = .ok current) (ok : apply current delta = .ok s)
      (folded : foldLocked (some apply) (log.insert skip (.delta (column.delta delta))) base =
        .ok (some payload)) :
      Extended column apply base log delta
        ((log.insert skip (.delta (column.delta delta))).insert skip'
          (.savepoint (column.schema payload)))

section Extended

variable {column : Postgres.Column S Δ} {apply : ApplyFunc S Δ E} {base : Option S}
  {log log' : ExtensionLog S Δ} {delta : Δ}

theorem replayDelta_eq_ok {current r : Option S} :
    replayDelta (some apply) current delta = .ok r ↔
      ∃ s, apply current delta = .ok s ∧ r = some s := by
  cases h : apply current delta <;> simp [replayDelta, h, eq_comm]

/-- Equal documents replay equal deltas to equal documents. -/
theorem Postgres.Column.Lawful.replay_congr (hlaw : column.Lawful apply) {x y x' : Option S}
    {d d' : Δ} (hxy : SameDocument column x y) (hd : column.delta d = column.delta d')
    (h : replayDelta (some apply) x d = .ok x') :
    ∃ y', replayDelta (some apply) y d' = .ok y' ∧ SameDocument column x' y' := by
  obtain ⟨s, hs, rfl⟩ := replayDelta_eq_ok.mp h
  have hcongr := hlaw.apply_congr x y d d' hxy hd
  rw [hs] at hcongr
  cases hy : apply y d' with
  | error err =>
    rw [hy] at hcongr
    cases hcongr
  | ok t =>
    rw [hy] at hcongr
    exact ⟨some t, replayDelta_eq_ok.mpr ⟨t, hy, rfl⟩, hcongr⟩

@[simp] theorem deltas_insert_delta (skip : Nat) (d : Δ) :
    (log.insert skip (.delta d)).deltas = log.deltas ++ [d] := by
  simp [ExtensionLog.deltas, ExtensionLog.insert, Row.delta?]

@[simp] theorem deltas_insert_savepoint (skip : Nat) (s : S) :
    (log.insert skip (.savepoint s)).deltas = log.deltas := by
  simp [ExtensionLog.deltas, ExtensionLog.insert, Row.delta?]

theorem Extended.deltas (h : Extended column apply base log delta log') :
    log'.deltas = log.deltas ++ [column.delta delta] := by
  cases h <;> simp

theorem Extended.transparent (hlaw : column.Lawful apply)
    (ht : Transparent (SameDocument column) (replayDelta (some apply)) base log.entries)
    (h : Extended column apply base log delta log') :
    Transparent (SameDocument column) (replayDelta (some apply)) base log'.entries := by
  -- The delta was tried on the fold as it was handed in; the log replays it as it is stored.
  have hdelta : ∀ {current : Option S} {s : S} (skip : Nat),
      foldLocked (some apply) log base = .ok current → apply current delta = .ok s →
      Transparent (SameDocument column) (replayDelta (some apply)) base
        (log.insert skip (.delta (column.delta delta))).entries := by
    intro current s skip hfold hok
    obtain ⟨x', hx', -⟩ := hlaw.replay_congr (x := current) rfl (hlaw.delta_delta delta).symm
      (replayDelta_eq_ok.mpr ⟨s, hok, rfl⟩)
    rw [foldLocked_eq_replay] at hfold
    rw [entries_insert]
    exact ht.update (fun x y x' hxy => hlaw.replay_congr hxy rfl) hfold hx'
  cases h with
  | appended hfold hok => exact hdelta _ hfold hok
  | @saved current s payload skip skip' hfold hok hfolded =>
    rw [foldLocked_eq_replay] at hfolded
    rw [entries_insert]
    refine (hdelta skip hfold hok).snapshot hfolded fun y hy => ?_
    rw [SameDocument, ← hy]
    exact congrArg some (hlaw.schema_schema payload)

/-- The log replays stored deltas to the document that the deltas as handed in give. -/
theorem Postgres.Column.Lawful.foldlM_stored (hlaw : column.Lawful apply) {deltas : List Δ}
    {x y x' : Option S} (hxy : SameDocument column x y)
    (h : (deltas.map column.delta).foldlM (replayDelta (some apply)) x = .ok x') :
    ∃ y', deltas.foldlM (replayDelta (some apply)) y = .ok y' ∧ SameDocument column x' y' := by
  induction deltas generalizing x y with
  | nil =>
    cases h
    exact ⟨y, rfl, hxy⟩
  | cons d rest ih =>
    obtain ⟨mid, hmid, hrest⟩ := Checked.foldlM_cons_eq_ok.mp h
    obtain ⟨mid', hmid', hsame⟩ := hlaw.replay_congr hxy (hlaw.delta_delta d) hmid
    obtain ⟨y', hy', hsame'⟩ := ih hsame hrest
    exact ⟨y', Checked.foldlM_cons_eq_ok.mpr ⟨mid', hmid', hy'⟩, hsame'⟩

end Extended

/-! ## The two stores -/

section Stores

variable {column : Postgres.Column S Δ} {apply : ApplyFunc S Δ E} {interval : Int}
  {doc desc : ModelDescriptor S A} {delta : Δ} {skip skip' : Nat}

theorem Postgres.extendSchema_extended {t t' : Tables S Δ A} (hrow : t.row = some doc)
    (h : extendSchema column (some apply) interval skip skip' (some delta) t = .ok t') :
    t'.row = some doc ∧ Extended column apply doc.schema t.log delta t'.log := by
  simp only [extendSchema, hrow, admitDelta] at h
  obtain ⟨_, hfinding, h⟩ := Checked.bind_eq_ok.mp h
  obtain ⟨current, hfold, hfinding⟩ := Checked.bind_eq_ok.mp hfinding
  cases hok : apply current delta with
  | error err => simp [hok] at hfinding
  | ok s =>
    obtain ⟨log, hlog, h⟩ := Checked.bind_eq_ok.mp h
    cases h
    refine ⟨rfl, ?_⟩
    rw [savepointAfter] at hlog
    split at hlog
    · obtain ⟨folded, hfolded, hlog⟩ := Checked.bind_eq_ok.mp hlog
      cases folded with
      | none => cases hlog
      | some payload =>
        cases hlog
        exact .saved hfold hok hfolded
    · cases hlog
      exact .appended hfold hok

/-- A locked model during a sequence of extensions. -/
structure Tracks (column : Postgres.Column S Δ) (apply : ApplyFunc S Δ E) (base : Option S)
    (log : ExtensionLog S Δ) (accepted : List Δ) : Prop where
  deltas : log.deltas = accepted.map column.delta
  transparent : Transparent (SameDocument column) (replayDelta (some apply)) base log.entries

theorem Tracks.extend {base : Option S} {log log' : ExtensionLog S Δ} {accepted : List Δ}
    (hlaw : column.Lawful apply) (h : Tracks column apply base log accepted)
    (hext : Extended column apply base log delta log') :
    Tracks column apply base log' (accepted ++ [delta]) := by
  refine ⟨?_, hext.transparent hlaw h.transparent⟩
  rw [hext.deltas, h.deltas, List.map_append, List.map_singleton]

/-- The log folds to what the accepted deltas make of the base, with its savepoints and
without them. -/
theorem Tracks.fold {base : Option S} {log : ExtensionLog S Δ} {accepted : List Δ}
    (hlaw : column.Lawful apply) (h : Tracks column apply base log accepted) :
    ∃ schema schema' schema'', foldLocked (some apply) log base = .ok schema ∧
      accepted.foldlM (replayDelta (some apply)) base = .ok schema' ∧
      foldLocked (some apply) log.withoutSavepoints base = .ok schema'' ∧
      SameDocument column schema schema' ∧ SameDocument column schema schema'' := by
  obtain ⟨x, y, hx, hy, hxy⟩ := h.transparent
  rw [updates_entries] at hy
  obtain ⟨z, hz, hyz⟩ := hlaw.foldlM_stored (y := base) rfl (h.deltas ▸ hy)
  exact ⟨x, z, y, foldLocked_eq_replay.trans hx, hz, foldLocked_withoutSavepoints.trans hy,
    hxy.trans hyz, hxy⟩

end Stores

def Postgres.append (column : Postgres.Column S Δ) (apply : ApplyFunc S Δ E) (interval : Int)
    (a : Append Δ) (t : Tables S Δ A) :
    Except (StoreError E) (Tables S Δ A) :=
  extendSchema column (some apply) interval a.skip a.skip' a.delta t

section Sequences

variable {column : Postgres.Column S Δ} {apply : ApplyFunc S Δ E} {interval : Int}
  {doc desc : ModelDescriptor S A} {t : Tables S Δ A}
  {extend : Append Δ → Tables S Δ A → Except (StoreError E) (Tables S Δ A)}

/-- What both stores make of a call on an existing model. -/
def Extends (column : Postgres.Column S Δ) (apply : ApplyFunc S Δ E)
    (extend : Append Δ → Tables S Δ A → Except (StoreError E) (Tables S Δ A)) : Prop :=
  ∀ a t t' doc, t.row = some doc → extend a t = .ok t' →
    match a.delta with
    | none => t' = t
    | some delta => t'.row = some doc ∧ Extended column apply doc.schema t.log delta t'.log

theorem Postgres.append_extends (interval : Int) :
    Extends column apply (append (A := A) column apply interval) := by
  rintro ⟨delta, skip, skip'⟩ t t' doc hrow h
  cases delta with
  | none => exact (Except.ok.inj h).symm
  | some delta => exact extendSchema_extended hrow h

theorem tracks_appendAll (hlaw : column.Lawful apply) (hextend : Extends column apply extend)
    (hrow : t.row = some doc) (h : Tracks column apply doc.schema t.log [])
    (appends : List (Append Δ)) :
    (appendAll extend t [] appends).1.row = some doc ∧
      Tracks column apply doc.schema (appendAll extend t [] appends).1.log
        (appendAll extend t [] appends).2 := by
  refine appendAll_inv (I := fun (t : Tables S Δ A) accepted => t.row = some doc ∧
    Tracks column apply doc.schema t.log accepted) ?_ ⟨hrow, h⟩ appends
  rintro t accepted ⟨delta, skip, skip'⟩ t' ⟨hrow, htracks⟩ hext
  have hcase := hextend _ t t' doc hrow hext
  cases delta with
  | none =>
    obtain rfl : t' = t := hcase
    simpa using ⟨hrow, htracks⟩
  | some delta => exact ⟨hcase.1, htracks.extend hlaw hcase.2⟩

theorem tracks_empty (base : Option S) : Tracks column apply base .empty [] := ⟨rfl, .nil rfl⟩

/-- The savepoint that postgres writes when it locks the model. -/
theorem tracks_locked (hlaw : column.Lawful apply) (payload : S) (skip : Nat) :
    Tracks column apply (some payload)
      (empty.insert skip (.savepoint (column.schema payload))) [] := by
  refine ⟨deltas_insert_savepoint skip _, ?_⟩
  rw [entries_insert]
  refine Transparent.snapshot (.nil rfl) rfl fun y hy => ?_
  rw [SameDocument, ← hy]
  exact congrArg some (hlaw.schema_schema payload)

theorem Postgres.lock_save (desc : ModelDescriptor S A) (hlaw : column.Lawful apply) (skip : Nat) (t : Tables S Δ A) :
    ∃ log, lock column (some apply) skip (save desc t) =
        .ok ⟨some { desc with state := .locked }, log⟩ ∧
      Tracks column apply desc.schema log [] := by
  obtain ⟨state, level, schema, rest⟩ := desc
  cases state with
  | locked => exact ⟨.empty, rfl, tracks_empty _⟩
  | unlocked =>
    cases schema with
    | none => exact ⟨.empty, rfl, tracks_empty _⟩
    | some payload => exact ⟨_, rfl, tracks_locked hlaw payload skip⟩

end Sequences

/-! ## Runs of the sqlite store -/

section Runs

variable {applyFunc : Option (ApplyFunc S Δ E)} {interval : Int}

def stepSqlite (applyFunc : Option (ApplyFunc S Δ E)) (interval : Int) (t : Tables S Δ A)
    (call : Call S Δ A) : Option (Answer S A E × Tables S Δ A) :=
  some (Sqlite.perform applyFunc interval t call)

/-- A `Save` meets a log without savepoints. -/
def SavesOverNoSavepoint (_ : List (Event (Tables S Δ A) (Call S Δ A) (Answer S A E)))
    (t : Tables S Δ A) (call : Call S Δ A) : Prop :=
  ∀ desc, call = .save desc → t.log.lastSavepoint = none

/-- The rows fold to what the deltas alone make of the base, errors included. -/
def Plain (applyFunc : Option (ApplyFunc S Δ E)) (log : ExtensionLog S Δ) (base : Option S) : Prop :=
  foldLocked applyFunc log base = log.deltas.foldlM (replayDelta applyFunc) base

variable {log : ExtensionLog S Δ} {base : Option S} {t t' : Tables S Δ A}

theorem plain_of_no_savepoint (h : log.lastSavepoint = none) (base : Option S) :
    Plain applyFunc log base := by
  have hall : log.rows.filter (fun r => 0 < r.seq) = log.rows :=
    List.filter_eq_self.mpr fun r hr => decide_eq_true (log.positive r hr)
  rw [Plain, foldLocked, h, deltasAfter, hall]
  rfl

theorem Plain.insert_delta (h : Plain applyFunc log base) (skip : Nat) (d : Δ) :
    Plain applyFunc (log.insert skip (.delta d)) base := by
  rw [Plain, foldLocked_insert_delta, h, deltas_insert_delta, List.foldlM_append]
  simp

theorem Plain.insert_savepoint {payload : S} (h : Plain applyFunc log base)
    (hfold : foldLocked applyFunc log base = .ok (some payload)) (skip : Nat) :
    Plain applyFunc (log.insert skip (.savepoint payload)) base := by
  rw [Plain, foldLocked_insert_savepoint, deltas_insert_savepoint, ← hfold, h]

theorem Plain.savepointAfter {log' : ExtensionLog S Δ} (h : Plain applyFunc log base)
    {nextSeq : Nat} (hlog : Sqlite.savepointAfter applyFunc interval base nextSeq log = .ok log') :
    Plain applyFunc log' base := by
  rw [Sqlite.savepointAfter] at hlog
  split at hlog
  · obtain ⟨folded, hfolded, hlog⟩ := Checked.bind_eq_ok.mp hlog
    cases folded with
    | none => cases hlog
    | some payload =>
      cases hlog
      exact h.insert_savepoint hfolded 0
  · cases hlog
    exact h

/-- What holds of a model at every point. -/
def PlainTables (applyFunc : Option (ApplyFunc S Δ E)) (t : Tables S Δ A) : Prop :=
  ∀ doc, t.row = some doc → Plain applyFunc t.log doc.schema

theorem PlainTables.settle (h : PlainTables applyFunc t) {r : Except (StoreError E) (Tables S Δ A)}
    (hr : ∀ t', r = .ok t' → PlainTables applyFunc t') :
    PlainTables applyFunc (settle t r : Answer S A E × _).2 := by
  cases r with
  | error err => exact h
  | ok t' => exact hr t' rfl

theorem PlainTables.update (h : PlainTables applyFunc t)
    {f : ModelDescriptor S A → ModelDescriptor S A} (hf : ∀ doc, (f doc).schema = doc.schema)
    (hupdate : (Sqlite.update f t : Except (StoreError E) _) = .ok t') :
    PlainTables applyFunc t' := by
  rw [Sqlite.update] at hupdate
  split at hupdate
  · cases hupdate
  · next doc hrow =>
    cases hupdate
    intro doc' hdoc'
    cases hdoc'
    rw [hf]
    exact h doc hrow

theorem PlainTables.lock (h : PlainTables applyFunc t) (hlock : Sqlite.lock applyFunc t = .ok t') :
    PlainTables applyFunc t' := by
  rw [Sqlite.lock] at hlock
  split at hlock
  · cases hlock
  · next doc hrow =>
    have hplain := h doc hrow
    split at hlock
    · cases hlock
      exact h
    simp only at hlock
    split at hlock
    · cases hlock
      rintro _ ⟨⟩
      exact hplain
    · obtain ⟨folded, hfolded, hlock⟩ := Checked.bind_eq_ok.mp hlock
      cases folded with
      | none =>
        cases hlock
        rintro _ ⟨⟩
        exact hplain
      | some payload =>
        cases hlock
        rintro _ ⟨⟩
        exact hplain.insert_savepoint hfolded 0

theorem PlainTables.extendSchema (h : PlainTables applyFunc t) {delta : Option Δ}
    (hextend : Sqlite.extendSchema applyFunc interval delta t = .ok t') :
    PlainTables applyFunc t' := by
  cases delta with
  | none => exact Except.ok.inj hextend ▸ h
  | some delta =>
    cases applyFunc with
    | none => cases hextend
    | some apply =>
      simp only [Sqlite.extendSchema, Sqlite.extendSchemaAttempt] at hextend
      split at hextend
      · cases hextend
      · next doc hrow =>
        obtain ⟨current, -, hextend⟩ := Checked.bind_eq_ok.mp hextend
        split at hextend
        · cases hextend
        obtain ⟨log, hlog, hextend⟩ := Checked.bind_eq_ok.mp hextend
        cases hextend
        intro doc' hdoc'
        cases hrow.symm.trans hdoc'
        exact ((h doc hrow).insert_delta 0 delta).savepointAfter hlog

theorem PlainTables.perform (h : PlainTables applyFunc t) (call : Call S Δ A)
    (hsave : ∀ desc, call = .save desc → t.log.lastSavepoint = none) :
    PlainTables applyFunc (Sqlite.perform applyFunc interval t call).2 := by
  cases call with
  | save desc => exact fun _ _ => plain_of_no_savepoint (hsave desc rfl) _
  | get => exact h
  | delete =>
    refine h.settle fun t' ht' => ?_
    rw [Sqlite.delete] at ht'
    split at ht'
    · cases ht'
    cases ht'
    rintro _ ⟨⟩
  | lock => exact h.settle fun t' => h.lock
  | unlock => exact h.settle fun t' => h.update fun _ => rfl
  | setChangeLevel level => exact h.settle fun t' => h.update fun _ => rfl
  | extendSchema delta => exact h.settle fun t' => h.extendSchema

theorem plainTables_of_run {tr : List (Event (Tables S Δ A) (Call S Δ A) (Answer S A E))}
    (h : Run (stepSqlite applyFunc interval) SavesOverNoSavepoint ⟨none, .empty⟩ tr t) :
    PlainTables applyFunc t := by
  refine Run.inv (I := fun _ t => PlainTables applyFunc t) (by rintro _ ⟨⟩) ?_ h
  intro tr t call r t' ht hallowed hstep
  have hnext : (Sqlite.perform applyFunc interval t call).2 = t' :=
    congrArg Prod.snd (Option.some.inj hstep)
  exact hnext ▸ ht.perform call hallowed

end Runs

/-- In every run of the sqlite store whose `Save`s meet a log without savepoints, `Get` returns what
the deltas of the log make of the base in log order, and the log without its savepoints returns the
same. In postgres, where `Save` drains the log, this is so after any sequence of extensions of a
locked model, up to how a `JSONB` column writes a document. -/
theorem savepoints_transparent (apply : ApplyFunc S Δ E) (interval : Int) :
    (∀ (tr : List (Event (Tables S Δ A) (Call S Δ A) (Answer S A E))) t,
      Run (stepSqlite (some apply) interval) SavesOverNoSavepoint ⟨none, .empty⟩ tr t →
      Sqlite.get (some apply) { t with log := t.log.withoutSavepoints } =
        Sqlite.get (some apply) t ∧
      ∀ doc, t.row = some doc → Sqlite.get (some apply) t =
        (t.log.deltas.foldlM (replayDelta (some apply)) doc.schema).map
          fun schema => { doc with schema }) ∧
    (∀ (desc : ModelDescriptor S A) (column : Postgres.Column S Δ) tables skip, column.Lawful apply →
      ∃ locked, lock column (some apply) skip (save desc tables) = .ok locked ∧
      ∀ appends : List (Append Δ), ∃ schema schema' schema'' t accepted,
        appendAll (append column apply interval) locked [] appends = (t, accepted) ∧
        Postgres.get (some apply) t = .ok { desc with state := .locked, schema } ∧
        accepted.foldlM (replayDelta (some apply)) desc.schema = .ok schema' ∧
        Postgres.get (some apply) { t with log := t.log.withoutSavepoints } =
          .ok { desc with state := .locked, schema := schema'' } ∧
        SameDocument column schema schema' ∧ SameDocument column schema schema'') := by
  constructor
  · intro tr t hrun
    have hplain := plainTables_of_run hrun
    constructor
    · rw [Sqlite.get, Sqlite.get]
      cases hrow : t.row with
      | none => rfl
      | some doc =>
        have hfold : foldLocked (some apply) t.log doc.schema = _ := hplain doc hrow
        simp only [foldLocked_withoutSavepoints, hfold]
    · intro doc hrow
      have hfold : foldLocked (some apply) t.log doc.schema = _ := hplain doc hrow
      rw [Sqlite.get, hrow]
      simp only [hfold]
      rfl
  · intro desc column tables skip hlaw
    obtain ⟨log, hlock, hstart⟩ := lock_save desc hlaw skip tables
    refine ⟨_, hlock, fun appends => ?_⟩
    obtain ⟨hrow, htracks⟩ := tracks_appendAll (t := ⟨some { desc with state := .locked }, log⟩)
      hlaw (Postgres.append_extends interval) rfl hstart appends
    obtain ⟨schema, schema', schema'', hfold, hall, hwithout, hsame, hsame'⟩ := htracks.fold hlaw
    refine ⟨schema, schema', schema'', _, _, rfl, ?_, hall, ?_, hsame, hsame'⟩
    · rw [Postgres.get, hrow]
      simp only [hfold]
      rfl
    · rw [Postgres.get, hrow]
      simp only [hwithout]
      rfl

namespace Sample

def savesOverNoSavepoint (_ : List (Event (Tables (List Nat) Nat Unit) (Call (List Nat) Nat Unit)
    (Answer (List Nat) Unit Unit))) (t : Tables (List Nat) Nat Unit)
    (call : Call (List Nat) Nat Unit) : Bool :=
  match call with
  | .save _ => t.log.lastSavepoint.isNone
  | _ => true

theorem savesOverNoSavepoint_allowed (tr : List (Event (Tables (List Nat) Nat Unit)
    (Call (List Nat) Nat Unit) (Answer (List Nat) Unit Unit))) (t : Tables (List Nat) Nat Unit)
    (call : Call (List Nat) Nat Unit) (h : savesOverNoSavepoint tr t call = true) :
    SavesOverNoSavepoint tr t call := by
  rintro desc rfl
  simpa [savesOverNoSavepoint] using h

def returns (t : Tables (List Nat) Nat Unit) (schema : List Nat) : Prop :=
  Sqlite.get (some addName) t = .ok { model schema with state := .locked }

instance (t : Tables (List Nat) Nat Unit) (schema : List Nat) : Decidable (returns t schema) :=
  inferInstanceAs (Decidable (_ = _))

end Sample

open Sample in
/-- A model that is extended before and after it is saved again, with a savepoint from the second
time on; and two extensions in postgres, each followed by a savepoint. -/
theorem savepoints_transparent_extended :
    (∃ tr t, Run (stepSqlite (some addName) 2) SavesOverNoSavepoint ⟨none, .empty⟩ tr t ∧
      returns t [9, 2, 3] ∧ returns { t with log := t.log.withoutSavepoints } [9, 2, 3]) ∧
    ∃ locked t, lock blob (some addName) 0
        (save (model [1]) ⟨none, .empty⟩) = .ok locked ∧
      (appendAll (append blob addName 1) locked []
        [⟨some 2, 0, 0⟩, ⟨some 3, 4, 1⟩]).1 = t ∧
      Postgres.get (some addName) t = .ok { model [1, 2, 3] with state := .locked } := by
  constructor
  · have hrun : ∃ tr t, Run (stepSqlite (some addName) 2) SavesOverNoSavepoint ⟨none, .empty⟩ tr t ∧
        decide (returns t [9, 2, 3]) = true :=
      exists_run_of_execute savesOverNoSavepoint_allowed
        [.save (model [1]), .lock, .extendSchema (some 2), .unlock, .save (model [9]), .lock,
          .extendSchema (some 3)] (by decide)
    obtain ⟨tr, t, hrun, hreturns⟩ := hrun
    have hreturns : returns t [9, 2, 3] := of_decide_eq_true hreturns
    exact ⟨tr, t, hrun, hreturns,
      ((savepoints_transparent addName 2).1 tr t hrun).1.trans hreturns⟩
  · obtain ⟨locked, hlock, h⟩ := (savepoints_transparent addName 1).2 (model [1]) blob
      ⟨none, .empty⟩ 0 (blob_lawful _)
    obtain ⟨schema, schema', -, t, accepted, hrun, hget, hall, -, hsame, -⟩ :=
      h [⟨some 2, 0, 0⟩, ⟨some 3, 4, 1⟩]
    refine ⟨locked, t, hlock, by rw [hrun], ?_⟩
    cases hlock
    obtain rfl : [2, 3] = accepted := congrArg Prod.snd hrun
    obtain rfl : some [1, 2, 3] = schema' := Except.ok.inj hall
    obtain rfl : schema = some [1, 2, 3] := by simpa [SameDocument, blob] using hsame
    exact hget

open Sample in
/-- A savepoint from before a `Save` hides the schema that was saved. -/
theorem savepoint_hides_saved_schema : ∃ tr t,
    Run (stepSqlite (some addName) 1) AnyStep ⟨none, .empty⟩ tr t ∧
    t.row.bind (·.schema) = some [9] ∧ returns t [1, 2, 3] ∧
    returns { t with log := t.log.withoutSavepoints } [9, 2, 3] := by
  have hrun : ∃ tr t, Run (stepSqlite (some addName) 1) AnyStep ⟨none, .empty⟩ tr t ∧
      decide (t.row.bind (·.schema) = some [9] ∧ returns t [1, 2, 3] ∧
        returns { t with log := t.log.withoutSavepoints } [9, 2, 3]) = true :=
    exists_any_of_execute
      [.save (model [1]), .lock, .extendSchema (some 2), .unlock, .save (model [9]), .lock,
        .extendSchema (some 3)] (by decide)
  obtain ⟨tr, t, hrun, hcheck⟩ := hrun
  exact ⟨tr, t, hrun, of_decide_eq_true hcheck⟩

end CyodaGo.Models
