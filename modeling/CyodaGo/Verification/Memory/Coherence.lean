import CyodaGo.Verification.Memory.Effects

/-! # The table of transactions

Every step leaves the table as it is up to the contents of open records, begins a
transaction, or ends one. From this the invariants that tie records, the active set,
snapshots and the floor together follow once for all steps. -/

namespace CyodaGo.Memory

inductive TxChange (s s' : System) : Prop where
  | kept (records : ∀ t, Option.Rel SameIdentity (s.txs.get t) (s'.txs.get t))
      (active : s'.tm.active = s.tm.active)
      (txSnapshotSeq : s'.tm.txSnapshotSeq = s.tm.txSnapshotSeq)
      (commitSeq : s'.tm.commitSeq = s.tm.commitSeq)
      (committedLog : s'.tm.committedLog = s.tm.committedLog)
      (floor : s.tm.lastSubmitTime ≤ s'.tm.lastSubmitTime)
  | begun {txID : TxID} {tenant : TenantID} {snapshot : Time} (hfresh : txID ∉ s.txs.keys)
      (hfloor : s.tm.lastSubmitTime ≤ snapshot) (h : s' = s.publish txID tenant snapshot)
  | ended {txID : TxID} {tx tx' : TransactionState} (hget : s.txs.get txID = some tx)
      (records : s'.txs = s.txs.set txID tx') (tenantID : tx'.tenantID = tx.tenantID)
      (snapshotTime : tx'.snapshotTime = tx.snapshotTime) (closed : tx'.closed = true)
      (active : s'.tm.active = s.tm.active.erase txID)
      (txSnapshotSeq : s'.tm.txSnapshotSeq = s.tm.txSnapshotSeq.del txID)
      (commitSeq : s.tm.commitSeq ≤ s'.tm.commitSeq)
      (floor : s'.tm.lastSubmitTime = s.tm.lastSubmitTime)

theorem sameIdentity_rel_refl (tx : Option TransactionState) : Option.Rel SameIdentity tx tx := by
  cases tx with
  | none => exact .none
  | some tx => exact .some (.refl tx)

variable {txID : TxID} {tx : TransactionState} {s s' : System} {spi : Spi} {w w' : World}
  {a : Action} {r : Result} {i : Inside}

theorem Edited.records (h : Edited txID tx s s') (hget : s.txs.get txID = some tx) (t : TxID) :
    Option.Rel SameIdentity (s.txs.get t) (s'.txs.get t) := by
  by_cases ht : t = txID
  · subst ht
    obtain ⟨tx', hget', hid⟩ := h.record
    rw [hget, hget']
    exact .some hid
  · rw [h.others t ht]
    exact sameIdentity_rel_refl _

theorem CallEffect.txChange {free : TxID → Bool} {starts : Option TxID}
    (h : CallEffect free starts s s') : TxChange s s' := by
  cases h with
  | same h =>
    subst h
    exact .kept (fun t => sameIdentity_rel_refl _) rfl rfl rfl rfl le_rfl
  | begun _ hfresh hfloor h => exact .begun hfresh hfloor h
  | edited hfree hget h =>
    exact .kept (h.records hget) h.staged.active h.staged.txSnapshotSeq h.staged.commitSeq
      h.staged.committedLog h.staged.lastSubmitTime.ge
  | released h =>
    subst h
    exact .kept (fun t => sameIdentity_rel_refl _) rfl rfl rfl rfl le_rfl

theorem DirectEffect.txChange (h : DirectEffect s s') : TxChange s s' := by
  refine .kept ?_ ?_ ?_ ?_ ?_ h.floor
  · intro t
    rw [h.txs]
    exact sameIdentity_rel_refl _
  all_goals rw [h.tm]

theorem Stepped.txChange (h : Stepped spi w a r w') : TxChange w.sys w'.sys := by
  cases h with
  | manage hmay => exact (manage_effect _ hmay).txChange
  | direct horder htx hfree => exact (storeDirect_effect _ _).txChange
  | inTx horder htx hget hmay => exact (inTx_effect _ _ hget hmay).txChange
  | task hfree => exact (task_effect _ _).txChange
  | markRefused => exact .kept (fun t => sameIdentity_rel_refl _) rfl rfl rfl rfl le_rfl
  | marked => exact .kept (fun t => sameIdentity_rel_refl _) rfl rfl rfl rfl le_rfl
  | conflict hwait hfree hget hconf => exact .ended hget rfl rfl rfl rfl rfl rfl le_rfl rfl
  | checked => exact .kept (fun t => sameIdentity_rel_refl _) rfl rfl rfl rfl le_rfl
  | aborted hin hstage hget hval => exact .ended hget rfl rfl rfl rfl rfl rfl le_rfl rfl
  | flushed =>
    exact .kept (fun t => sameIdentity_rel_refl _) rfl rfl rfl rfl (lt_nextSubmitTime _ _).le
  | finished hin hstage hget hnodup horder =>
    exact .ended hget rfl rfl rfl rfl rfl rfl (Nat.le_succ _) rfl
  | rollbackRefused => exact .kept (fun t => sameIdentity_rel_refl _) rfl rfl rfl rfl le_rfl
  | rollbackMarked => exact .kept (fun t => sameIdentity_rel_refl _) rfl rfl rfl rfl le_rfl
  | rolledBack hwait hget hfree => exact .ended hget rfl rfl rfl rfl rfl rfl le_rfl rfl

/-! ## Coherence -/

/-- Open records are the active ones, and the floor is above every snapshot. -/
structure Coherent (s : System) : Prop where
  active_iff : ∀ t, t ∈ s.tm.active ↔ ∃ tx, s.txs.get t = some tx ∧ tx.closed = false
  snapshot_le : ∀ t tx, s.txs.get t = some tx → tx.snapshotTime ≤ s.tm.lastSubmitTime
  snapshotSeq : ∀ t ∈ s.tm.active, ∃ n, s.tm.txSnapshotSeq.get t = some n ∧ n ≤ s.tm.commitSeq

open Memory.System

theorem coherent_empty : Coherent empty where
  active_iff := by simp [empty, TransactionManager.empty]
  snapshot_le := by simp [empty]
  snapshotSeq := by simp [empty, TransactionManager.empty]

theorem exists_of_rel_some {tx' : TransactionState} {o : Option TransactionState}
    (h : Option.Rel SameIdentity o (some tx')) : ∃ tx, o = some tx ∧ SameIdentity tx tx' := by
  cases h with
  | some hid => exact ⟨_, rfl, hid⟩

theorem exists_of_some_rel {o : Option TransactionState} (h : Option.Rel SameIdentity (some tx) o) :
    ∃ tx', o = some tx' ∧ SameIdentity tx tx' := by
  cases h with
  | some hid => exact ⟨_, rfl, hid⟩

theorem Coherent.kept (hs : Coherent s)
    (records : ∀ t, Option.Rel SameIdentity (s.txs.get t) (s'.txs.get t))
    (active : s'.tm.active = s.tm.active) (txSnapshotSeq : s'.tm.txSnapshotSeq = s.tm.txSnapshotSeq)
    (commitSeq : s'.tm.commitSeq = s.tm.commitSeq)
    (floor : s.tm.lastSubmitTime ≤ s'.tm.lastSubmitTime) : Coherent s' where
  active_iff := by
    intro t
    rw [active, hs.active_iff t]
    constructor
    · rintro ⟨tx, hget, hopen⟩
      obtain ⟨tx', hget', hid⟩ := exists_of_some_rel (hget ▸ records t)
      exact ⟨tx', hget', hid.closed.trans hopen⟩
    · rintro ⟨tx', hget', hopen⟩
      obtain ⟨tx, hget, hid⟩ := exists_of_rel_some (hget' ▸ records t)
      exact ⟨tx, hget, hid.closed.symm.trans hopen⟩
  snapshot_le := by
    intro t tx' hget'
    obtain ⟨tx, hget, hid⟩ := exists_of_rel_some (hget' ▸ records t)
    rw [hid.snapshotTime]
    exact (hs.snapshot_le t tx hget).trans floor
  snapshotSeq := by
    rw [active, txSnapshotSeq, commitSeq]
    exact hs.snapshotSeq

open GoMap

theorem Coherent.begun (hs : Coherent s) (tenant : TenantID) {snapshot : Time}
    (hfloor : s.tm.lastSubmitTime ≤ snapshot) :
    Coherent (s.publish txID tenant snapshot) where
  active_iff := by
    intro t
    by_cases ht : t = txID
    · subst ht
      simp [publish, newTransaction]
    simp only [publish, Finset.mem_insert, ht, false_or, get_set_of_ne _ _ ht]
    exact hs.active_iff t
  snapshot_le := by
    intro t tx hget
    by_cases ht : t = txID
    · subst ht
      simp only [publish, get_set_self, Option.some.injEq] at hget
      subst hget
      exact le_rfl
    · simp only [publish, get_set_of_ne _ _ ht] at hget
      exact (hs.snapshot_le t tx hget).trans hfloor
  snapshotSeq := by
    intro t hmem
    by_cases ht : t = txID
    · subst ht
      exact ⟨s.tm.commitSeq, by simp [publish], le_rfl⟩
    simp only [publish, Finset.mem_insert, ht, false_or] at hmem
    simpa [publish, get_set_of_ne _ _ ht] using hs.snapshotSeq t hmem

theorem Coherent.ended (hs : Coherent s) {tx' : TransactionState} (hget : s.txs.get txID = some tx)
    (records : s'.txs = s.txs.set txID tx') (snapshotTime : tx'.snapshotTime = tx.snapshotTime)
    (closed : tx'.closed = true) (active : s'.tm.active = s.tm.active.erase txID)
    (txSnapshotSeq : s'.tm.txSnapshotSeq = s.tm.txSnapshotSeq.del txID)
    (commitSeq : s.tm.commitSeq ≤ s'.tm.commitSeq)
    (floor : s'.tm.lastSubmitTime = s.tm.lastSubmitTime) : Coherent s' where
  active_iff := by
    intro t
    rw [active, records]
    by_cases ht : t = txID
    · subst ht
      simp [closed]
    simp only [Finset.mem_erase, ne_eq, ht, not_false_eq_true, true_and,
      get_set_of_ne _ _ ht]
    exact hs.active_iff t
  snapshot_le := by
    intro t rec hrec
    rw [records] at hrec
    rw [floor]
    by_cases ht : t = txID
    · subst ht
      simp only [get_set_self, Option.some.injEq] at hrec
      rw [← hrec, snapshotTime]
      exact hs.snapshot_le t tx hget
    · rw [get_set_of_ne _ _ ht] at hrec
      exact hs.snapshot_le t rec hrec
  snapshotSeq := by
    intro t hmem
    rw [active, Finset.mem_erase] at hmem
    obtain ⟨n, hn, hle⟩ := hs.snapshotSeq t hmem.2
    refine ⟨n, ?_, hle.trans commitSeq⟩
    rw [txSnapshotSeq, get_del_of_ne _ hmem.1]
    exact hn

theorem TxChange.coherent (h : TxChange s s') (hs : Coherent s) : Coherent s' := by
  cases h with
  | kept records active txSnapshotSeq commitSeq _ floor =>
    exact hs.kept records active txSnapshotSeq commitSeq floor
  | begun hfresh hfloor h =>
    subst h
    exact hs.begun _ hfloor
  | ended hget records _ snapshotTime closed active txSnapshotSeq commitSeq floor =>
    exact hs.ended hget records snapshotTime closed active txSnapshotSeq commitSeq floor

theorem TxChange.floor (h : TxChange s s') : s.tm.lastSubmitTime ≤ s'.tm.lastSubmitTime := by
  cases h with
  | kept _ _ _ _ _ floor => exact floor
  | begun _ hfloor h =>
    subst h
    exact hfloor
  | ended _ _ _ _ _ _ _ _ floor => exact floor.ge

theorem coherent_of_run {allowed : Trace → World → Action → Prop} {tr : Trace}
    (h : PluginRun spi allowed tr w) : Coherent w.sys :=
  h.inv (I := fun _ w => Coherent w.sys) coherent_empty
    fun _ _ _ _ _ hw _ hs => (stepped_of_step hs).txChange.coherent hw

/-! ## Records over a run -/

/-- A record keeps its tenant and its snapshot, and stays closed once closed. -/
theorem TxChange.record (h : TxChange s s') {t : TxID} (hget : s.txs.get t = some tx) :
    ∃ tx', s'.txs.get t = some tx' ∧ tx'.tenantID = tx.tenantID ∧
      tx'.snapshotTime = tx.snapshotTime ∧ (tx.closed = true → tx'.closed = true) := by
  cases h with
  | kept records =>
    obtain ⟨tx', hget', hid⟩ := exists_of_some_rel (hget ▸ records t)
    exact ⟨tx', hget', hid.tenantID, hid.snapshotTime, fun hc => hid.closed.trans hc⟩
  | @begun txID tenant snapshot hfresh hfloor h =>
    subst h
    have hne : t ≠ txID := fun heq => hfresh (heq ▸ mem_keys_of_get hget)
    exact ⟨tx, by simpa [publish, get_set_of_ne _ _ hne] using hget, rfl, rfl, id⟩
  | @ended txID tx0 tx' hget0 records tenantID snapshotTime closed =>
    rw [records]
    by_cases ht : t = txID
    · subst ht
      cases hget0.symm.trans hget
      exact ⟨tx', get_set_self _ _ _, tenantID, snapshotTime, fun _ => closed⟩
    · exact ⟨tx, by rw [get_set_of_ne _ _ ht, hget], rfl, rfl, id⟩

/-- A call adds a record only for the transaction it begins. -/
theorem CallEffect.starts {free : TxID → Bool} {starts : Option TxID} {s s' : System}
    (h : CallEffect free starts s s') {t : TxID} {tx : TransactionState}
    (hnone : s.txs.get t = none) (hget : s'.txs.get t = some tx) : starts = some t := by
  cases h with
  | same h =>
    subst h
    cases hnone.symm.trans hget
  | @begun txID tenant snapshot hstarts hfresh hfloor h =>
    subst h
    by_cases ht : t = txID
    · rw [ht]
      exact hstarts
    simp only [publish, get_set_of_ne _ _ ht] at hget
    cases hnone.symm.trans hget
  | @edited txID rec hfree hrec h =>
    have hne : t ≠ txID := by
      intro heq
      cases hnone.symm.trans (heq ▸ hrec)
    rw [h.others t hne] at hget
    cases hnone.symm.trans hget
  | released h =>
    subst h
    cases hnone.symm.trans hget

/-- Only a `Begin` adds a record. -/
theorem Stepped.begins {spi : Spi} {w w' : World} {a : Action} {r : Result}
    (h : Stepped spi w a r w') {t : TxID} {tx : TransactionState}
    (hnone : w.sys.txs.get t = none) (hget : w'.sys.txs.get t = some tx) :
    ∃ user now, a = .manage user (.begin t now) := by
  have hset : ∀ {t' : TxID} {tx1 tx2 : TransactionState}, w.sys.txs.get t' = some tx1 →
      (w.sys.txs.set t' tx2).get t ≠ some tx := by
    intro t' tx1 tx2 hget' hset
    rw [get_set] at hset
    split at hset
    · rename_i heq
      cases hnone.symm.trans (heq ▸ hget')
    · cases hnone.symm.trans hset
  cases h with
  | @manage user call hmay =>
    have hstarts := (manage_effect call hmay).starts hnone hget
    cases call with
    | begin txID now =>
      cases hstarts
      exact ⟨user, now, rfl⟩
    | _ => cases hstarts
  | direct =>
    rw [(storeDirect_effect _ _).txs] at hget
    cases hnone.symm.trans hget
  | inTx horder htx hrec hmay => cases (inTx_effect _ _ hrec hmay).starts hnone hget
  | task =>
    rw [(task_effect _ _).txs] at hget
    cases hnone.symm.trans hget
  | conflict hwait hfree hrec hconf => exact absurd hget (hset hrec)
  | aborted hin hstage hrec hval => exact absurd hget (hset hrec)
  | finished hin hstage hrec hnodup horder => exact absurd hget (hset hrec)
  | rolledBack hwait hrec hfree => exact absurd hget (hset hrec)
  | _ => cases hnone.symm.trans hget

/-! ## The commit that holds the locks -/

/-- The parts of the state that belong to the transaction `t`. -/
structure SameTx (t : TxID) (s s' : System) : Prop where
  record : s'.txs.get t = s.txs.get t
  txUniqueKeys : s'.tm.txUniqueKeys.get t = s.tm.txUniqueKeys.get t
  supersededSaves : s'.tm.supersededSaves.get t = s.tm.supersededSaves.get t
  scheduledTaskOps : s'.tm.scheduledTaskOps.get t = s.tm.scheduledTaskOps.get t

theorem SameTx.refl (t : TxID) (s : System) : SameTx t s s := ⟨rfl, rfl, rfl, rfl⟩

theorem CallEffect.sameTx {free : TxID → Bool} {starts : Option TxID}
    (h : CallEffect free starts s s') {t : TxID} (hheld : free t = false) (hmem : t ∈ s.txs.keys) :
    SameTx t s s' := by
  cases h with
  | same h =>
    subst h
    exact .refl t _
  | @begun txID tenant snapshot _ hfresh hfloor h =>
    subst h
    have hne : t ≠ txID := fun heq => hfresh (heq ▸ hmem)
    exact ⟨get_set_of_ne _ _ hne, rfl, rfl, rfl⟩
  | @edited txID tx hfree hget h =>
    have hne : t ≠ txID := by
      intro heq
      rw [heq, hfree] at hheld
      cases hheld
    exact ⟨h.others t hne, h.staged.txUniqueKeys t hne, h.staged.supersededSaves t hne,
      h.staged.scheduledTaskOps t hne⟩
  | released h =>
    subst h
    exact ⟨rfl, rfl, rfl, rfl⟩

theorem opMuFree_of_inside (hin : w.inside = some i) (t : TxID) :
    w.opMuFree t = true ↔ i.txID ≠ t := by
  simp [World.opMuFree, hin]

/-- While a commit is inside, no other step touches its transaction. -/
theorem Stepped.sameTx {i' : Inside} (h : Stepped spi w a r w') (hin : w.inside = some i)
    (hin' : w'.inside = some i') (hmem : i.txID ∈ w.sys.txs.keys) : SameTx i.txID w.sys w'.sys := by
  have hheld : w.opMuFree i.txID = false := by simp [World.opMuFree, hin]
  cases h with
  | manage hmay => exact (manage_effect _ hmay).sameTx hheld hmem
  | direct _ _ hfree => cases hfree.symm.trans hin
  | inTx horder htx hget hmay => exact (inTx_effect _ _ hget hmay).sameTx hheld hmem
  | task hfree => cases hfree.symm.trans hin
  | markRefused => exact .refl _ _
  | marked => exact ⟨rfl, rfl, rfl, rfl⟩
  | conflict _ hfree => cases hfree.symm.trans hin
  | checked _ hfree => cases hfree.symm.trans hin
  | aborted => cases hin'
  | flushed => exact ⟨rfl, rfl, rfl, rfl⟩
  | finished => cases hin'
  | rollbackRefused => exact .refl _ _
  | rollbackMarked => exact .refl _ _
  | @rolledBack c txID tx hwait hget hfree =>
    have hne : i.txID ≠ txID := (opMuFree_of_inside hin txID).mp hfree
    exact ⟨get_set_of_ne _ _ hne, get_del_of_ne _ hne, get_del_of_ne _ hne,
      get_del_of_ne _ hne⟩

/-- The commit inside stays the same, up to its flush. -/
theorem Stepped.stillInside {i' : Inside} (h : Stepped spi w a r w') (hin : w.inside = some i)
    (hin' : w'.inside = some i') :
    i' = i ∨ ∃ stamp, i' = { i with stage := .flushed stamp } := by
  cases h with
  | checked _ hfree => cases hfree.symm.trans hin
  | aborted => cases hin'
  | flushed hin0 =>
    cases hin0.symm.trans hin
    exact .inr ⟨_, (Option.some.inj hin').symm⟩
  | finished => cases hin'
  | _ => exact .inl (Option.some.inj (hin'.symm.trans hin))

/-- A commit enters with its conflict check. -/
theorem Stepped.enters (h : Stepped spi w a r w') (hin : w.inside = none)
    (hin' : w'.inside = some i) :
    a = .commitCheck i.call ∧ i.stage = .checked (capture w.sys.tm i.txID) ∧ w'.sys = w.sys ∧
      w.waiting.get i.call = some (.commit i.txID i.committer) := by
  cases h with
  | checked hwait =>
    cases hin'
    exact ⟨rfl, rfl, rfl, hwait⟩
  | aborted => cases hin'
  | flushed hin0 => cases hin.symm.trans hin0
  | finished => cases hin'
  | _ => cases hin.symm.trans hin'

end CyodaGo.Memory
