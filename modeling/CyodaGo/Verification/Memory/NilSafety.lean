import CyodaGo.Verification.Memory.Versions

/-! # No nil dereference

The store dereferences the entity of the oldest row and of rows it has tested to be
live. Live rows always carry an entity; the oldest row does as long as no commit
flushes the delete of an entity without a history. -/

namespace CyodaGo.Memory

open Memory.System

/-- What the unchecked dereferences rely on. -/
structure SafeHistory (vs : List EntityVersion) : Prop where
  live : ∀ v ∈ vs, v.deleted = false → ∃ e, v.entity = some e
  oldest : ∀ v, vs.head? = some v → v.deleted = false

theorem Outcome.map_ne_nilDeref {α β : Type} {f : α → β} {r : Outcome α} (h : r ≠ .nilDeref) :
    r.map f ≠ .nilDeref := by
  cases r with
  | ok a => simp [Outcome.map]
  | err e => simp [Outcome.map]
  | nilDeref => exact absurd rfl h

/-! ## Calls that never crash -/

theorem manage_ne_nilDeref (s : System) (user : Option TenantID) (call : ManagerCall) :
    (s.manage user call).1 ≠ .nilDeref := by
  cases call with
  | begin txID now =>
    refine Outcome.map_ne_nilDeref ?_
    unfold begin
    split
    · simp
    · split <;> simp
  | join txID =>
    refine Outcome.map_ne_nilDeref ?_
    unfold join
    split
    · simp
    split
    · simp
    split
    · simp
    · split <;> simp
  | getSubmitTime txID =>
    refine Outcome.map_ne_nilDeref ?_
    unfold getSubmitTime
    split
    · split <;> simp
    split
    · split <;> simp
    · simp
  | savepoint txID spID =>
    refine Outcome.map_ne_nilDeref ?_
    unfold savepoint
    split <;> simp
  | rollbackToSavepoint txID spID =>
    refine Outcome.map_ne_nilDeref ?_
    unfold rollbackToSavepoint
    split
    · simp
    · split <;> simp
  | releaseSavepoint txID spID =>
    refine Outcome.map_ne_nilDeref ?_
    unfold releaseSavepoint
    split
    · simp
    split
    · split <;> simp
    · simp

theorem getSnapshotVersion_ne_nilDeref (vs : List EntityVersion) (id : EntityID) (t : Time) :
    getSnapshotVersion vs id t ≠ .nilDeref := by
  unfold getSnapshotVersion
  split <;> simp

theorem getAsAt_ne_nilDeref (vs : List EntityVersion) (id : EntityID) (t : Time) :
    getAsAt vs id t ≠ .nilDeref := by
  unfold getAsAt
  split
  · simp
  · split <;> simp

theorem matchSortBounded_ne_nilDeref (q : SearchQuery) (rows : List Entity) :
    matchSortBounded q rows ≠ .nilDeref := by
  unfold matchSortBounded
  dsimp only
  split <;> simp

theorem getVersionByTransaction_ne_nilDeref (f : StoreFactory) (tid : TenantID) (id : EntityID)
    (txID : TxID) : getVersionByTransaction f tid id txID ≠ .nilDeref := by
  unfold getVersionByTransaction
  split
  · simp
  split
  · simp
  dsimp only
  split <;> simp

theorem getVersionMetadata_ne_nilDeref (vs : List EntityVersion) (id : EntityID)
    (opts : VersionMetadataOptions) : getVersionMetadata vs id opts ≠ .nilDeref := by
  unfold getVersionMetadata
  split <;> simp

theorem readTx_ne_nilDeref (spi : Spi) (f : StoreFactory) (tid : TenantID) (order : List EntityID)
    (txID : TxID) (tx : TransactionState) (op : ReadOp) :
    (readTx spi f tid order txID tx op).1 ≠ .nilDeref := by
  cases op with
  | get id =>
    refine Outcome.map_ne_nilDeref ?_
    unfold getTx
    split
    · simp
    split
    · simp
    split
    · simp
    · exact getSnapshotVersion_ne_nilDeref _ _ _
  | getAsAt id asAt =>
    simp only [readTx]
    split
    · simp
    · exact Outcome.map_ne_nilDeref (getAsAt_ne_nilDeref _ _ _)
  | «exists» id =>
    refine Outcome.map_ne_nilDeref ?_
    unfold existsTx
    split
    · simp
    split
    · simp
    split
    · simp
    · split <;> simp
  | count m =>
    simp only [readTx]
    split <;> simp
  | countByState m states =>
    simp only [readTx]
    split
    · simp
    · split <;> simp
  | getPage m limit offset asAt =>
    simp only [readTx]
    split
    · simp
    split
    · simp
    split
    · simp
    · split <;> simp
  | search q =>
    simp only [readTx]
    split
    · simp
    split
    · simp
    split
    · simp
    split
    · simp
    split
    · exact matchSortBounded_ne_nilDeref _ _
    unfold searchTx
    dsimp only
    split <;> simp
  | getVersionByTransaction id byTx =>
    exact Outcome.map_ne_nilDeref (getVersionByTransaction_ne_nilDeref _ _ _ _)
  | getVersionMetadata id opts =>
    exact Outcome.map_ne_nilDeref (getVersionMetadata_ne_nilDeref _ _ _)

theorem storeTx_ne_nilDeref (spi : Spi) (s : System) (tid : TenantID) (ctx : Ctx) (txID : TxID)
    (tx : TransactionState) (order : List EntityID) (call : StoreCall) :
    (s.storeTx spi tid ctx txID tx order call).1 ≠ .nilDeref := by
  cases call with
  | save entity =>
    refine Outcome.map_ne_nilDeref ?_
    unfold saveTx
    split <;> simp
  | compareAndSave entity expectedTxID =>
    simp only [storeTx]
    split
    · simp
    refine Outcome.map_ne_nilDeref ?_
    unfold compareAndSaveTx
    dsimp only
    split
    · simp
    split
    · simp
    split
    · split <;> simp
    · split <;> simp
  | delete id =>
    refine Outcome.map_ne_nilDeref ?_
    unfold deleteTx
    split
    · simp
    · split <;> simp
  | deleteAll modelRef =>
    refine Outcome.map_ne_nilDeref ?_
    unfold deleteAllTx
    split <;> simp
  | read op => exact readTx_ne_nilDeref spi s.factory tid order txID tx op
  | stage op =>
    refine Outcome.map_ne_nilDeref ?_
    unfold stageTx
    split <;> simp

/-! ## Direct calls -/

variable {vs : List EntityVersion} {s : System} {tid : TenantID}

theorem SafeHistory.getLast (h : SafeHistory vs) {row : EntityVersion}
    (hlast : vs.getLast? = some row) (hdel : row.deleted = false) : ∃ e, row.entity = some e :=
  h.live row (List.mem_of_getLast? hlast) hdel

theorem nextSaveVersion_ne_nilDeref (h : SafeHistory vs) : nextSaveVersion vs ≠ .nilDeref := by
  unfold nextSaveVersion
  split
  · simp
  rename_i row hfind
  have hmem : row ∈ vs := List.mem_reverse.mp (List.mem_of_find?_eq_some hfind)
  have hdel : row.deleted = false := by simpa using List.find?_some hfind
  obtain ⟨e, he⟩ := h.live row hmem hdel
  simp [he]

theorem saveCreationDate_ne_nilDeref (h : SafeHistory vs) (caller now : Time) :
    saveCreationDate vs caller now ≠ .nilDeref := by
  unfold saveCreationDate
  split
  · rename_i first hhead
    obtain ⟨e, he⟩ := h.live first (List.mem_of_head? hhead) (h.oldest first hhead)
    simp [he]
  · simp

theorem currentStatePointers_ne_nilDeref {data : GoMap EntityID (List EntityVersion)}
    (h : ∀ e, SafeHistory (data.getD e [])) (modelRef : ModelRef) (ids : List EntityID) :
    currentStatePointers data modelRef ids ≠ .nilDeref := by
  induction ids with
  | nil => simp [currentStatePointers]
  | cons id ids ih =>
    simp only [currentStatePointers]
    split
    · exact ih
    rename_i latest hlast
    split
    · exact ih
    rename_i hdel
    obtain ⟨e, he⟩ := (h id).getLast hlast (by simpa using hdel)
    simp only [he]
    split
    · exact Outcome.map_ne_nilDeref ih
    · exact ih

theorem readDirect_ne_nilDeref {f : StoreFactory} (h : ∀ t e, SafeHistory (f.versions t e))
    (tid : TenantID) (order : List EntityID) (op : ReadOp) :
    readDirect f tid order op ≠ .nilDeref := by
  have hrows : ∀ m, currentStatePointers (f.tenantData tid) m order ≠ .nilDeref :=
    fun m => currentStatePointers_ne_nilDeref (h tid) m order
  cases op with
  | get id =>
    refine Outcome.map_ne_nilDeref ?_
    unfold getLatest
    split
    · simp
    rename_i latest hlast
    split
    · simp
    rename_i hdel
    obtain ⟨e, he⟩ := (h tid id).getLast hlast (by simpa using hdel)
    simp [he]
  | getAsAt id asAt => exact Outcome.map_ne_nilDeref (getAsAt_ne_nilDeref _ _ _)
  | «exists» id => simp [readDirect]
  | count m => exact Outcome.map_ne_nilDeref (hrows m)
  | countByState m states =>
    simp only [readDirect]
    split
    · simp
    · exact Outcome.map_ne_nilDeref (hrows m)
  | getPage m limit offset asAt =>
    simp only [readDirect]
    split
    · simp
    split
    · simp
    split
    · simp
    · exact Outcome.map_ne_nilDeref (hrows m)
  | search q =>
    simp only [readDirect]
    split
    · simp
    split
    · simp
    split
    · simp
    split
    · exact matchSortBounded_ne_nilDeref _ _
    cases hr : currentStatePointers (f.tenantData tid) q.modelRef order with
    | ok rows => exact matchSortBounded_ne_nilDeref q rows
    | err e => simp [Outcome.bind]
    | nilDeref => exact absurd hr (hrows q.modelRef)
  | getVersionByTransaction id byTx =>
    exact Outcome.map_ne_nilDeref (getVersionByTransaction_ne_nilDeref _ _ _ _)
  | getVersionMetadata id opts =>
    exact Outcome.map_ne_nilDeref (getVersionMetadata_ne_nilDeref _ _ _)

theorem deleteAllLoop_ne_nilDeref (tid : TenantID) (modelRef : ModelRef) (now : Time)
    (a : WriteAttribution) {ids : List EntityID} (hnodup : ids.Nodup) (f : StoreFactory)
    (h : ∀ e ∈ ids, SafeHistory (f.versions tid e)) :
    (deleteAllLoop tid modelRef now a ids f).1 ≠ .nilDeref := by
  induction ids generalizing f with
  | nil => simp [deleteAllLoop]
  | cons id ids ih =>
    obtain ⟨hid, hnodup⟩ := List.nodup_cons.mp hnodup
    have hskip := ih hnodup f fun e he => h e (List.mem_cons_of_mem _ he)
    simp only [deleteAllLoop]
    split
    · exact hskip
    rename_i latest hlast
    split
    · exact hskip
    rename_i hdel
    obtain ⟨ent, hent⟩ := (h id (by simp)).getLast hlast (by simpa using hdel)
    simp only [hent]
    split
    · refine ih hnodup _ ?_
      intro e he
      have hne : ¬ (tid = tid ∧ e = id) := fun hc => hid (hc.2 ▸ he)
      rw [versions_writeDeleted, if_neg hne]
      exact h e (List.mem_cons_of_mem _ he)
    · exact hskip

theorem saveUnlocked_ne_nilDeref (spi : Spi) (keys : List UniqueKey) {entity : Entity}
    (clock : Time) (h : SafeHistory (s.factory.versions tid entity.info.id)) :
    (s.saveUnlocked spi tid keys entity clock).1 ≠ .nilDeref := by
  obtain ⟨r, s1, hrun⟩ : ∃ r s1, s.saveUnlocked spi tid keys entity clock = (r, s1) := ⟨_, _, rfl⟩
  rw [hrun]
  cases saveUnlocked_spec hrun with
  | refused _ hcrash _ =>
    intro hnil
    rcases hcrash hnil with hc | hc
    · exact nextSaveVersion_ne_nilDeref h hc
    · exact saveCreationDate_ne_nilDeref h _ _ hc
  | saved => simp

theorem deleteDirect_ne_nilDeref {id : EntityID} (a : WriteAttribution) (clock : Time)
    (h : SafeHistory (s.factory.versions tid id)) :
    (s.deleteDirect tid id a clock).1 ≠ .nilDeref := by
  obtain ⟨r, s1, hrun⟩ : ∃ r s1, s.deleteDirect tid id a clock = (r, s1) := ⟨_, _, rfl⟩
  rw [hrun]
  cases deleteDirect_spec hrun with
  | refused => simp
  | crashed hlast hdel hent =>
    obtain ⟨e, he⟩ := h.getLast hlast hdel
    cases hent.symm.trans he
  | deleted => simp

theorem storeDirect_ne_nilDeref (spi : Spi) (h : ∀ t e, SafeHistory (s.factory.versions t e))
    (ctx : Ctx) (clock : Time) {order : List EntityID}
    (horder : order.Perm (s.factory.tenantData tid).keys) (call : StoreCall) :
    (s.storeDirect spi tid ctx clock order call).1 ≠ .nilDeref := by
  cases call with
  | save entity =>
    exact Outcome.map_ne_nilDeref (saveUnlocked_ne_nilDeref spi _ clock (h tid _))
  | compareAndSave entity expectedTxID =>
    simp only [storeDirect]
    split
    · simp
    refine Outcome.map_ne_nilDeref ?_
    unfold compareAndSaveDirect
    split
    · simp
    · exact saveUnlocked_ne_nilDeref spi _ clock (h tid _)
  | delete id => exact Outcome.map_ne_nilDeref (deleteDirect_ne_nilDeref _ clock (h tid id))
  | deleteAll modelRef =>
    have hnodup : order.Nodup := horder.nodup_iff.mpr (GoMap.keys_nodup _)
    exact Outcome.map_ne_nilDeref
      (deleteAllLoop_ne_nilDeref tid modelRef _ _ hnodup _ fun e _ => h tid e)
  | read op => exact readDirect_ne_nilDeref h tid order op
  | stage op => simp [storeDirect, stageDirect, Outcome.map]

/-! ## Runs -/

theorem Stepped.ne_nilDeref {spi : Spi} {w w' : World} {a : Action} {r : Result}
    (h : Stepped spi w a r w') (hsafe : ∀ t e, SafeHistory (w.sys.factory.versions t e)) :
    r ≠ .done .nilDeref := by
  suffices hr : ∀ o, r = .done o → o ≠ .nilDeref from fun heq => hr _ heq rfl
  intro o ho
  cases h with
  | manage hmay =>
    obtain rfl := Result.done.inj ho
    exact manage_ne_nilDeref _ _ _
  | direct horder htx hfree =>
    obtain rfl := Result.done.inj ho
    exact storeDirect_ne_nilDeref spi hsafe _ _ horder _
  | inTx =>
    obtain rfl := Result.done.inj ho
    exact storeTx_ne_nilDeref _ _ _ _ _ _ _ _
  | @task call =>
    obtain rfl := Result.done.inj ho
    cases call with
    | get id => simp [System.task]
    | markRedispatch id after =>
      simp only [System.task]
      split <;> simp
  | _ =>
    cases ho
    all_goals simp

/-- No commit flushes the delete of an entity that has no history. -/
def deletesExisting (w : World) : Action → Bool
  | .commitApply _ _ _ => w.insideTx.all fun tx =>
    decide (∀ eid ∈ tx.deletes, w.sys.factory.versions tx.tenantID eid ≠ [])
  | _ => true

theorem Extends.oldest {stamp : Time} {vs' : List EntityVersion} {b : Bool}
    (hext : Extends stamp vs b vs') (h : ∀ v, vs.head? = some v → v.deleted = false)
    (hb : b = true → vs ≠ []) : ∀ v, vs'.head? = some v → v.deleted = false := by
  induction hext with
  | refl => exact h
  | @live mid row e _ hrow ih =>
    intro v hv
    cases mid with
    | nil =>
      cases hv
      exact hrow.deleted
    | cons first rest => exact ih nofun v hv
  | @tombstone mid row hprev hrow ih =>
    intro v hv
    obtain ⟨rows, rfl, -⟩ := hprev.append
    cases vs with
    | nil => exact absurd rfl (hb rfl)
    | cons first rest => exact h v hv

theorem safeHistory_of_run {spi : Spi} {tr : Trace} {w : World}
    (h : PluginRun spi (Passing deletesExisting) tr w) (t : TenantID) (e : EntityID) :
    SafeHistory (w.sys.factory.versions t e) := by
  refine ⟨?_, ?_⟩
  · intro v hv hdel
    obtain ⟨ent, hent, -, -⟩ := (historyInv_of_run h t e).shape v hv hdel
    exact ⟨ent, hent⟩
  · induction h with
    | nil => exact nofun
    | @cons tr w w' r a hrun ha hs ih =>
      cases (stepped_of_step hs).history t e with
      | same hsame =>
        rw [hsame]
        exact ih
      | grown hfloor hext htouched =>
        refine hext.oldest ih ?_
        rintro rfl
        cases htouched with
        | overwritten hne _ => exact hne
        | tombstoned hin hget hmem =>
          simp only [Passing, deletesExisting, insideTx_eq_some hin hget, Option.all_some,
            decide_eq_true_eq] at ha
          exact ha.2 e hmem

/-- As long as no commit flushes the delete of an entity without a history, no call of
a run dereferences a nil entity. -/
theorem no_nil_dereference {spi : Spi} {tr : Trace} {w : World}
    (h : PluginRun spi (Passing deletesExisting) tr w) :
    ∀ ev ∈ tr, ev.result ≠ .done .nilDeref := by
  intro ev hev
  obtain ⟨tr', hrun, _, hs⟩ := h.of_mem hev
  exact (stepped_of_step hs).ne_nilDeref (safeHistory_of_run hrun)

open Sample

/-- A transaction saves and deletes an entity that was committed before, and a direct
save re-creates it. -/
def deleteAndRecreate : List Action :=
  [direct "A" (.save (entity "e" [1])) [],
    begin "A" "t" 0,
    inTx "A" "t" (.save (entity "e" [2])) ["e"],
    inTx "A" "t" (.delete "e") ["e"],
    commitMark 0 "A" "t",
    .commitCheck 0,
    .commitApply 0 [] ["e"],
    .commitFinish 0 [],
    direct "A" (.save (entity "e" [3])) ["e"]]

theorem no_nil_dereference_deleteAndRecreate :
    ∃ tr w, PluginRun spi (Passing deletesExisting) tr w ∧ tr.length = 9 ∧
      ∀ ev ∈ tr, ev.result ≠ .done .nilDeref := by
  obtain ⟨tr, w, hrun, hcheck⟩ := exists_run_passing spi deletesExisting
    (fun tr _ => tr.length = 9) deleteAndRecreate (by decide)
  exact ⟨tr, w, hrun, by simpa using hcheck, no_nil_dereference hrun⟩

/-- A transaction saves and deletes a brand-new entity; a direct save follows. -/
def saveAfterEmptyDelete : List Action :=
  [begin "A" "t" 0,
    inTx "A" "t" (.save (entity "e" [1])) [],
    inTx "A" "t" (.delete "e") [],
    commitMark 0 "A" "t",
    .commitCheck 0,
    .commitApply 0 [] ["e"],
    .commitFinish 0 [],
    direct "A" (.save (entity "e" [2])) ["e"]]

def Result.crashed : Result → Bool
  | .done .nilDeref => true
  | _ => false

theorem Result.crashed_iff {r : Result} : r.crashed = true ↔ r = .done .nilDeref := by
  cases r with
  | running => simp [Result.crashed]
  | done o => cases o <;> simp [Result.crashed]

/-- The commit leaves a tombstone as the oldest row, and the direct save dereferences
its entity. -/
theorem saveAfterEmptyDelete_dereferences_nil :
    ∃ tr w, PluginRun spi AnyStep tr w ∧
      (w.sys.factory.versions "A" "e").map (fun v => (v.entity, v.deleted)) = [(none, true)] ∧
      ∃ ev ∈ tr, ev.result = .done .nilDeref := by
  obtain ⟨tr, w, hrun, hcheck⟩ := exists_run_any spi
    (fun tr w => tr.any (fun ev => ev.result.crashed) &&
      (w.sys.factory.versions "A" "e").map (fun v => (v.entity, v.deleted)) = [(none, true)])
    saveAfterEmptyDelete (by decide)
  simp only [Bool.and_eq_true, List.any_eq_true, decide_eq_true_eq] at hcheck
  obtain ⟨⟨ev, hev, hcrash⟩, hrows⟩ := hcheck
  exact ⟨tr, w, hrun, hrows, ev, hev, Result.crashed_iff.mp hcrash⟩

end CyodaGo.Memory
