import CyodaGo.Verification.Memory.Pending

/-! # Aborted commits

A commit that fails its conflict check or its claim validation leaves the store and the
commit log as they were, closes the transaction and drops everything the manager kept
for it. -/

namespace CyodaGo.Memory

/-- No per-transaction map has an entry for `txID`. -/
structure Cleaned (txID : TxID) (m : TransactionManager) : Prop where
  active : txID ∉ m.active
  committing : txID ∉ m.committing
  savepoints : m.savepoints.get txID = none
  txUniqueKeys : m.txUniqueKeys.get txID = none
  txSnapshotSeq : m.txSnapshotSeq.get txID = none
  supersededSaves : m.supersededSaves.get txID = none
  scheduledTaskOps : m.scheduledTaskOps.get txID = none

structure AbortedBy (txID : TxID) (s s' : System) : Prop where
  factory : s'.factory = s.factory
  committedLog : s'.tm.committedLog = s.tm.committedLog
  submitTimes : s'.tm.submitTimes = s.tm.submitTimes
  commitSeq : s'.tm.commitSeq = s.tm.commitSeq
  closed : ∃ tx, s'.txs.get txID = some tx ∧ tx.closed = true
  cleaned : Cleaned txID s'.tm

theorem cleaned_forget (m : TransactionManager) (txID : TxID) : Cleaned txID (m.forget txID) :=
  ⟨Finset.notMem_erase _ _, Finset.notMem_erase _ _, GoMap.get_del_self _ _,
    GoMap.get_del_self _ _, GoMap.get_del_self _ _, GoMap.get_del_self _ _, GoMap.get_del_self _ _⟩

theorem abortedBy_close (s : System) (txID : TxID) (tx : TransactionState) :
    AbortedBy txID s ((s.forget txID).close txID tx) :=
  ⟨rfl, rfl, rfl, rfl, ⟨_, GoMap.get_set_self _ _ _, rfl⟩, cleaned_forget s.tm txID⟩

/-- The errors with which a commit that passed its first section can end. -/
def abortErr (e : Err) : Prop := e = .conflict ∨ e = .uniqueViolation ∨ e = .partialUniqueKey

variable {s : System} {t txID : TxID} {user : Option TenantID} {tx : TransactionState} {spi : Spi}
  {w w' : World} {a : Action} {r : Result}

theorem AbortedBy.of_marked {s' : System} {committing : Finset TxID}
    (h : AbortedBy txID { s with tm := { s.tm with committing := committing } } s') :
    AbortedBy txID s s' :=
  ⟨h.factory, h.committedLog, h.submitTimes, h.commitSeq, h.closed, h.cleaned⟩

open Memory.System

theorem commitMark_error {e : Err} (h : s.commitMark user txID = .error e) : ¬ abortErr e := by
  have hkind : ∃ kind, e = .tx "Commit" kind txID := by
    unfold commitMark at h
    split at h
    · exact ⟨_, (Except.error.inj h).symm⟩
    split at h
    · exact ⟨_, (Except.error.inj h).symm⟩
    split at h
    · exact ⟨_, (Except.error.inj h).symm⟩
    · cases h
  obtain ⟨kind, rfl⟩ := hkind
  simp [abortErr]

theorem commitMark_ok {s1 : System} (h : s.commitMark user txID = .ok (tx, s1)) :
    s1 = { s with tm := { s.tm with committing := insert txID s.tm.committing } } := by
  unfold commitMark at h
  split at h
  · cases h
  split at h
  · cases h
  split at h
  · cases h
  · exact (Prod.mk.inj (Except.ok.inj h)).2.symm

/-- A sequential commit that aborts, from any state. -/
theorem commit_aborted {spi : Spi} {s s' : System} {ctx : Ctx} {txID : TxID}
    {stampClock evictClock : Time} {bufferOrder deleteOrder : List EntityID}
    {activeOrder : List TxID} {e : Err}
    (h : s.commit spi ctx txID stampClock evictClock bufferOrder deleteOrder activeOrder =
      (.err e, s')) (he : abortErr e) : AbortedBy txID s s' := by
  unfold commit at h
  split at h
  · rename_i e' hmark
    obtain ⟨he', -⟩ := Prod.mk.inj h
    obtain rfl := Outcome.err.inj he'
    exact absurd he (commitMark_error hmark)
  · rename_i tx s1 hmark
    obtain rfl := commitMark_ok hmark
    apply AbortedBy.of_marked
    split at h
    · rename_i s2 hcheck
      cases h
      unfold commitCheck at hcheck
      split at hcheck
      · cases hcheck
        exact abortedBy_close _ txID tx
      · cases hcheck
    · rename_i captured hcheck
      split at h
      · rename_i e' s2 happly
        cases h
        unfold commitApply at happly
        dsimp only at happly
        split at happly
        · obtain ⟨-, rfl⟩ := Prod.mk.inj (Except.error.inj happly)
          exact abortedBy_close _ txID tx
        · cases happly
      · cases h

/-! ## Transactions that ended without committing -/

/-- A closed transaction that no pending commit can still complete. -/
structure Dead (t : TxID) (w : World) : Prop where
  record : ∃ tx, w.sys.txs.get t = some tx ∧ tx.closed = true
  active : t ∉ w.sys.tm.active
  submitTimes : w.sys.tm.submitTimes.get t = none
  commits : ∀ c, ¬ w.commits c t

theorem TxChange.active {s' : System} (h : TxChange s s') (hkey : t ∈ s.txs.keys)
    (hact : t ∈ s'.tm.active) : t ∈ s.tm.active := by
  cases h with
  | kept _ active =>
    rw [active] at hact
    exact hact
  | @begun txID tenant snapshot hfresh hfloor h =>
    subst h
    have hne : t ≠ txID := fun heq => hfresh (heq ▸ hkey)
    simpa [publish, hne] using hact
  | ended _ _ _ _ _ active =>
    rw [active] at hact
    exact Finset.mem_of_mem_erase hact

theorem Stepped.dead (h : Stepped spi w a r w') (hdead : Dead t w) : Dead t w' := by
  obtain ⟨tx, hget, hclosed⟩ := hdead.record
  refine ⟨?_, ?_, ?_, ?_⟩
  · obtain ⟨tx', hget', -, -, hclosed'⟩ := h.txChange.record hget
    exact ⟨tx', hget', hclosed' hclosed⟩
  · exact fun hact => hdead.active (h.txChange.active (GoMap.mem_keys_of_get hget) hact)
  · cases hsub : w'.sys.tm.submitTimes.get t with
    | none => rfl
    | some e =>
      rcases h.submitTimes hsub with ⟨e', hold⟩ | ⟨c, hc⟩
      · cases hdead.submitTimes.symm.trans hold
      · exact absurd hc (hdead.commits c)
  · intro c hc
    rcases h.commits hc with hold | hact
    · exact hdead.commits c hold
    · exact hdead.active hact

/-- The transaction whose commit an event aborts. -/
def abortedTx (ev : Event World Action Result) : Option TxID :=
  match ev.action, ev.result with
  | .commitCheck c, .done (.err _) =>
    match ev.before.waiting.get c with
    | some (.commit txID _) => some txID
    | _ => none
  | .commitApply _ _ _, .done (.err _) => ev.before.inside.map Inside.txID
  | _, _ => none

theorem Pending.dead (h : Pending w) {c : CallID} (hc : w.commits c t)
    (hab : AbortedBy t w.sys w'.sys) (hno : ∀ c', w'.commits c' t → w.commits c' t ∧ c' ≠ c) :
    Dead t w' := by
  refine ⟨hab.closed, hab.cleaned.active, ?_, ?_⟩
  · rw [hab.submitTimes]
    cases hsub : w.sys.tm.submitTimes.get t with
    | none => rfl
    | some e => exact absurd hc ((h.submitted t e hsub).2.2 c)
  · intro c' hc'
    obtain ⟨hold, hne⟩ := hno c' hc'
    exact hne (h.unique c' c t hold hc)

/-- An aborting section leaves the store alone and kills its transaction. -/
theorem Stepped.aborts (h : Stepped spi w a r w') (hpend : Pending w)
    (hab : abortedTx ⟨w, a, r, w'⟩ = some t) : AbortedBy t w.sys w'.sys ∧ Dead t w' := by
  cases h with
  | @conflict c txID committer tx hwait hfree hget hconf =>
    obtain rfl : txID = t := by simpa [abortedTx, hwait] using hab
    have haborted := abortedBy_close w.sys txID tx
    refine ⟨haborted, hpend.dead (c := c) (.inl ⟨committer, hwait⟩) haborted ?_⟩
    intro c' hc'
    refine ⟨commits_del hc', ?_⟩
    rcases hc' with ⟨com, hw⟩ | ⟨i, hin, -⟩
    · exact (waiting_del_eq_some hw).1
    · cases hfree.symm.trans hin
  | @aborted i captured tx clock _ _ e hin hstage hget hval =>
    obtain rfl : i.txID = t := by simpa [abortedTx, hin] using hab
    have haborted := abortedBy_close w.sys i.txID tx
    refine ⟨haborted, hpend.dead (c := i.call) (.inr ⟨i, hin, rfl, rfl⟩) haborted ?_⟩
    intro c' hc'
    exact absurd hc' (hpend.left hin c')
  | _ => simp [abortedTx] at hab

/-! ## Later calls -/

/-- The calls that look at the transaction `t`. -/
def onTx (t : TxID) : Action → Prop
  | .manage _ (.join txID) => txID = t
  | .manage _ (.getSubmitTime txID) => txID = t
  | .manage _ (.savepoint txID _) => txID = t
  | .manage _ (.rollbackToSavepoint txID _) => txID = t
  | .manage _ (.releaseSavepoint txID _) => txID = t
  | .store _ ctx call _ _ => ctx.tx = some t ∧ World.takesOpMu call = true
  | .commitMark _ _ txID => txID = t
  | .rollbackMark _ _ txID => txID = t
  | _ => False

def stagesTask : Action → Bool
  | .store _ _ (.stage _) _ _ => true
  | _ => false

theorem txGuard_closed (op : String) (txID : TxID) (h : tx.closed = true) :
    ∃ e, txGuard op txID tx = some e := by
  unfold txGuard
  rw [if_pos h]
  split
  · exact ⟨_, rfl⟩
  · exact ⟨_, rfl⟩

theorem activeTx_eq_none (h : t ∉ s.tm.active) : s.activeTx t = none := by
  simp [activeTx, h]

theorem readTx_closed (spi : Spi) (f : StoreFactory) (tid : TenantID) (order : List EntityID)
    (txID : TxID) (hclosed : tx.closed = true) {op : ReadOp} (h : World.takesOpMu (.read op) = true) :
    ∃ e, readTx spi f tid order txID tx op = (.err e, ∅) := by
  cases op with
  | get id =>
    obtain ⟨e, he⟩ := txGuard_closed "Get" txID hclosed
    exact ⟨e, by simp [readTx, getTx, he, Outcome.map]⟩
  | getAsAt id asAt =>
    obtain ⟨e, he⟩ := txGuard_closed "GetAsAt" txID hclosed
    exact ⟨e, by simp [readTx, he]⟩
  | «exists» id =>
    obtain ⟨e, he⟩ := txGuard_closed "Exists" txID hclosed
    exact ⟨e, by simp [readTx, existsTx, he, Outcome.map]⟩
  | count m =>
    obtain ⟨e, he⟩ := txGuard_closed "Count" txID hclosed
    exact ⟨e, by simp [readTx, he]⟩
  | countByState m states =>
    obtain ⟨e, he⟩ := txGuard_closed "CountByState" txID hclosed
    have hne : states ≠ some [] := by
      rintro rfl
      simp [World.takesOpMu] at h
    exact ⟨e, by simp [readTx, he, hne]⟩
  | getPage m limit offset asAt =>
    obtain ⟨e, he⟩ := txGuard_closed "GetPage" txID hclosed
    cases asAt with
    | some t => simp [World.takesOpMu] at h
    | none =>
      simp only [readTx, he]
      split
      · exact ⟨_, rfl⟩
      split
      · exact ⟨_, rfl⟩
      · exact ⟨_, rfl⟩
  | search q =>
    obtain ⟨e, he⟩ := txGuard_closed "Search" txID hclosed
    simp only [readTx, he]
    split
    · exact ⟨_, rfl⟩
    split
    · exact ⟨_, rfl⟩
    split
    · exact ⟨_, rfl⟩
    · exact ⟨_, rfl⟩
  | getVersionByTransaction id byTx => simp [World.takesOpMu] at h
  | getVersionMetadata id opts => simp [World.takesOpMu] at h

/-- Every store call that looks at a closed transaction fails and changes nothing,
except the staging of a scheduled task. -/
theorem storeTx_closed (spi : Spi) (s : System) (tid : TenantID) (ctx : Ctx) (txID : TxID)
    (order : List EntityID) (hclosed : tx.closed = true) {call : StoreCall}
    (htakes : World.takesOpMu call = true) (hstage : ∀ op, call ≠ .stage op) :
    ∃ e, s.storeTx spi tid ctx txID tx order call = (.err e, s) := by
  cases call with
  | save entity =>
    obtain ⟨e, he⟩ := txGuard_closed "Save" txID hclosed
    exact ⟨e, by simp [storeTx, saveTx, he, Outcome.map]⟩
  | compareAndSave entity expectedTxID =>
    obtain ⟨e, he⟩ := txGuard_closed "CompareAndSave" txID hclosed
    simp only [storeTx, compareAndSaveTx, he]
    split
    · exact ⟨_, rfl⟩
    · exact ⟨_, rfl⟩
  | delete id =>
    obtain ⟨e, he⟩ := txGuard_closed "Delete" txID hclosed
    exact ⟨e, by simp [storeTx, deleteTx, he, Outcome.map]⟩
  | deleteAll modelRef =>
    obtain ⟨e, he⟩ := txGuard_closed "DeleteAll" txID hclosed
    exact ⟨e, by simp [storeTx, deleteAllTx, he, Outcome.map]⟩
  | read op =>
    obtain ⟨e, he⟩ := readTx_closed spi s.factory tid order txID hclosed htakes
    exact ⟨e, by simp [storeTx, he, recordReads]⟩
  | stage op => exact absurd rfl (hstage op)

/-- Manager calls on a transaction that is neither active nor committed fail and change
nothing. -/
theorem manage_dead {call : ManagerCall} (hcall : onTx t (.manage user call))
    (hact : t ∉ s.tm.active) (hsub : s.tm.submitTimes.get t = none) :
    ∃ e, s.manage user call = (.err e, s) := by
  have hnone := activeTx_eq_none hact
  cases call with
  | begin txID now => exact hcall.elim
  | join txID =>
    obtain rfl : txID = t := hcall
    exact ⟨_, by simp [manage, join, hnone, Outcome.map]; rfl⟩
  | getSubmitTime txID =>
    obtain rfl : txID = t := hcall
    exact ⟨_, by simp [manage, getSubmitTime, hnone, hsub, Outcome.map]; rfl⟩
  | savepoint txID spID =>
    obtain rfl : txID = t := hcall
    exact ⟨_, by simp [manage, savepoint, openTx, hnone, Outcome.map]; rfl⟩
  | rollbackToSavepoint txID spID =>
    obtain rfl : txID = t := hcall
    exact ⟨_, by simp [manage, rollbackToSavepoint, openTx, hnone, Outcome.map]; rfl⟩
  | releaseSavepoint txID spID =>
    obtain rfl : txID = t := hcall
    exact ⟨_, by simp [manage, releaseSavepoint, hnone, Outcome.map]; rfl⟩

/-- A call on a dead transaction fails and changes nothing, unless it stages a scheduled
task for a record that is only closed. -/
theorem Dead.refuses (h : Dead t w) (ha : onTx t a) (hs : step spi w a = some (r, w')) :
    ((∃ e, r = .done (.err e)) ∧ w' = w) ↔
      (stagesTask a = false ∨ ∃ tx, w.sys.txs.get t = some tx ∧ tx.rolledBack = true) := by
  obtain ⟨tx, hget, hclosed⟩ := h.record
  cases stepped_of_step hs with
  | manage hmay =>
    obtain ⟨e, he⟩ := manage_dead ha h.active h.submitTimes
    rw [he]
    exact ⟨fun _ => .inl rfl, fun _ => ⟨⟨e, rfl⟩, rfl⟩⟩
  | direct _ htx _ => cases htx.symm.trans ha.1
  | @inTx tid ctx call clock order txID rec _ htx hrec hmay =>
    obtain rfl := Option.some.inj (htx.symm.trans ha.1)
    obtain rfl := Option.some.inj (hrec.symm.trans hget)
    cases call with
    | stage op =>
      cases hrb : rec.rolledBack with
      | true =>
        have hrefused : w.sys.storeTx spi tid ctx txID rec order (.stage op) =
            (.err (.tx "scheduledTaskStore" .rolledBack txID), w.sys) := by
          simp [storeTx, stageTx, hrb, Outcome.map]
        rw [hrefused]
        exact ⟨fun _ => .inr ⟨rec, hrec, hrb⟩, fun _ => ⟨⟨_, rfl⟩, rfl⟩⟩
      | false =>
        simp only [storeTx, stageTx, hrb, Outcome.map]
        constructor
        · rintro ⟨⟨e, he⟩, -⟩
          simp at he
        · rintro (hst | ⟨tx', hget', hrb'⟩)
          · simp [stagesTask] at hst
          · obtain rfl := Option.some.inj (hrec.symm.trans hget')
            cases hrb.symm.trans hrb'
    | _ =>
      obtain ⟨e, he⟩ := storeTx_closed spi w.sys tid ctx txID order hclosed ha.2 (by simp)
      rw [he]
      exact ⟨fun _ => .inl rfl, fun _ => ⟨⟨e, rfl⟩, rfl⟩⟩
  | task => exact ha.elim
  | markRefused => exact ⟨fun _ => .inl rfl, fun _ => ⟨⟨_, rfl⟩, rfl⟩⟩
  | marked _ hactive =>
    obtain rfl : _ = t := ha
    exact absurd hactive h.active
  | rollbackRefused => exact ⟨fun _ => .inl rfl, fun _ => ⟨⟨_, rfl⟩, rfl⟩⟩
  | rollbackMarked _ hactive =>
    obtain rfl : _ = t := ha
    exact absurd hactive h.active
  | _ => exact ha.elim

/-- An aborted commit changes nothing but its own transaction, which it closes and
forgets. Every later call that looks at the transaction fails and changes nothing,
exactly when it is not the staging of a scheduled task (or a waiting rollback has also
marked the record). -/
theorem commit_abort_atomicity (spi : Spi) :
    (∀ s ctx txID stampClock evictClock bufferOrder deleteOrder activeOrder e s',
      commit spi s ctx txID stampClock evictClock bufferOrder deleteOrder activeOrder =
        (.err e, s') → abortErr e → AbortedBy txID s s') ∧
    ∀ tr w, PluginRun spi AnyStep tr w → ∀ ev ∈ tr, ∀ t, abortedTx ev = some t →
      AbortedBy t ev.before.sys ev.after.sys ∧
      ∀ a r w', onTx t a → step spi w a = some (r, w') →
        (((∃ e, r = .done (.err e)) ∧ w' = w) ↔
          (stagesTask a = false ∨ ∃ tx, w.sys.txs.get t = some tx ∧ tx.rolledBack = true)) := by
  refine ⟨?_, ?_⟩
  · intro s ctx txID stampClock evictClock bufferOrder deleteOrder activeOrder e s' h he
    exact commit_aborted h he
  · intro tr w hrun ev hev t hab
    obtain ⟨tr', hrun', -, hs⟩ := hrun.of_mem hev
    obtain ⟨haborted, hdead⟩ := (stepped_of_step hs).aborts (pending_of_run hrun') hab
    refine ⟨haborted, ?_⟩
    have hlater : Dead t ev.after → Dead t w :=
      hrun.rel_of_mem (R := fun x y => Dead t x → Dead t y) (fun _ h => h)
        (fun _ _ _ hxy hyz hx => hyz (hxy hx)) (fun _ _ _ _ hs => (stepped_of_step hs).dead) hev
    intro a r w' ha hstep
    exact (hlater hdead).refuses ha hstep

/-- Two transactions write one entity; the second to commit fails its conflict check. -/
def conflictingCommits : List Action :=
  [Sample.begin "A" "t" 1,
    Sample.begin "A" "u" 1,
    Sample.inTx "A" "t" (.save (Sample.entity "e" [1])) [],
    Sample.inTx "A" "u" (.save (Sample.entity "e" [2])) [],
    Sample.commitMark 0 "A" "u",
    .commitCheck 0,
    .commitApply 0 ["e"] [],
    .commitFinish 0 ["t"],
    Sample.commitMark 1 "A" "t",
    .commitCheck 1]

theorem commit_abort_atomicity_conflictingCommits :
    ∃ tr w, PluginRun Sample.spi AnyStep tr w ∧ ∃ ev ∈ tr, abortedTx ev = some "t" ∧
      AbortedBy "t" ev.before.sys ev.after.sys ∧
      ∃ r w', step Sample.spi w (Sample.inTx "A" "t" (.read (.get "e")) ["e"]) = some (r, w') ∧
        (∃ e, r = .done (.err e)) ∧ w' = w := by
  obtain ⟨tr, w, hrun, hcheck⟩ := exists_run_any Sample.spi
    (fun tr w => (tr.any fun ev => abortedTx ev = some "t") &&
      (step Sample.spi w (Sample.inTx "A" "t" (.read (.get "e")) ["e"])).isSome)
    conflictingCommits (by decide)
  simp only [Bool.and_eq_true, List.any_eq_true, decide_eq_true_eq] at hcheck
  obtain ⟨⟨ev, hev, hab⟩, hstep⟩ := hcheck
  obtain ⟨⟨r, w'⟩, hstep⟩ := Option.isSome_iff_exists.mp hstep
  obtain ⟨haborted, hlater⟩ := (commit_abort_atomicity Sample.spi).2 tr w hrun ev hev "t" hab
  exact ⟨tr, w, hrun, ev, hev, hab, haborted, r, w', hstep,
    (hlater (Sample.inTx "A" "t" (.read (.get "e")) ["e"]) r w' ⟨rfl, rfl⟩ hstep).mpr (.inl rfl)⟩

def isUnit : Result → Bool
  | .done (.ok .unit) => true
  | _ => false

theorem eq_unit_of_isUnit (h : isUnit r = true) : r = .done (.ok .unit) := by
  unfold isUnit at h
  split at h
  · rfl
  · cases h

/-- After an aborted commit a scheduled-task call on the transaction succeeds and leaves
a staged operation behind. -/
theorem stage_after_abort_succeeds :
    ∃ tr w, PluginRun Sample.spi AnyStep tr w ∧ (∃ ev ∈ tr, abortedTx ev = some "t") ∧
      w.sys.tm.scheduledTaskOps.get "t" = none ∧
      ∃ w', step Sample.spi w (Sample.inTx "A" "t" (.stage (.delete "task")) ["e"]) =
          some (.done (.ok .unit), w') ∧
        w'.sys.tm.scheduledTaskOps.get "t" = some [.delete "task"] := by
  obtain ⟨tr, w, hrun, hcheck⟩ := exists_run_any Sample.spi
    (fun tr w => (tr.any fun ev => abortedTx ev = some "t") &&
      w.sys.tm.scheduledTaskOps.get "t" = none &&
      ((step Sample.spi w (Sample.inTx "A" "t" (.stage (.delete "task")) ["e"])).any fun p =>
        isUnit p.1 &&
          p.2.sys.tm.scheduledTaskOps.get "t" = some [.delete "task"]))
    conflictingCommits (by decide)
  simp only [Bool.and_eq_true, List.any_eq_true, Option.any_eq_true, decide_eq_true_eq] at hcheck
  obtain ⟨⟨⟨ev, hev, hab⟩, hnone⟩, ⟨r, w'⟩, hstep, hres, hops⟩ := hcheck
  refine ⟨tr, w, hrun, ⟨ev, hev, hab⟩, hnone, w', ?_, hops⟩
  have hr : r = .done (.ok .unit) := eq_unit_of_isUnit hres
  rw [hstep, hr]

end CyodaGo.Memory
