import CyodaGo.Verification.Memory.Exclusivity

/-! # First committer wins

The snapshot of a transaction is ordered by submit time, the conflict check by sequence
number, and the log is pruned by submit time. What ties them together: as long as a
transaction is active, every commit stamped after its snapshot is in the log under a
sequence number the check looks at. -/

namespace CyodaGo.Memory

open Sample

/-! ## Pruning -/

/-- One round of the loop over the active transactions. -/
def olderSnapshot (oldest : Time) (kv : TxID × TransactionState) : Time :=
  if oldest = 0 ∨ kv.2.snapshotTime < oldest then kv.2.snapshotTime else oldest

theorem oldestSnapshot_eq (txs : GoMap TxID TransactionState) (order : List TxID) :
    oldestSnapshot txs order = (txs.inOrder order).foldl olderSnapshot 0 := rfl

theorem olderSnapshot_ne_zero (oldest : Time) {kv : TxID × TransactionState}
    (h : kv.2.snapshotTime ≠ 0) : olderSnapshot oldest kv ≠ 0 := by
  unfold olderSnapshot
  split
  · exact h
  rename_i hnot
  exact fun h0 => hnot (.inl h0)

theorem olderSnapshot_le (oldest : Time) (kv : TxID × TransactionState) :
    olderSnapshot oldest kv ≤ kv.2.snapshotTime ∧ (oldest ≠ 0 → olderSnapshot oldest kv ≤ oldest) := by
  unfold olderSnapshot
  split
  · rename_i hlt
    exact ⟨le_rfl, fun h0 => (hlt.resolve_left h0).le⟩
  rename_i hnot
  exact ⟨not_lt.mp fun hlt => hnot (.inr hlt), fun _ => le_rfl⟩

theorem foldl_olderSnapshot {kvs : List (TxID × TransactionState)}
    (hnonzero : ∀ kv ∈ kvs, kv.2.snapshotTime ≠ 0) {oldest : Time} (h0 : oldest ≠ 0) :
    kvs.foldl olderSnapshot oldest ≠ 0 ∧ kvs.foldl olderSnapshot oldest ≤ oldest ∧
      ∀ kv ∈ kvs, kvs.foldl olderSnapshot oldest ≤ kv.2.snapshotTime := by
  induction kvs generalizing oldest with
  | nil => exact ⟨h0, le_rfl, nofun⟩
  | cons kv kvs ih =>
    have hstep := olderSnapshot_le oldest kv
    obtain ⟨hne, hle, hall⟩ := ih (fun x hx => hnonzero x (List.mem_cons_of_mem _ hx))
      (olderSnapshot_ne_zero oldest (hnonzero kv List.mem_cons_self))
    refine ⟨hne, hle.trans (hstep.2 h0), ?_⟩
    intro x hx
    rcases List.mem_cons.mp hx with rfl | hx
    · exact hle.trans hstep.1
    · exact hall x hx

variable {t : TxID} {tx : TransactionState} {w w' : World} {r : Result} {tr : Trace} {s : System}
  {spi : Spi}

/-- The loop finds a bound below every snapshot it visits, if none is the zero time. -/
theorem oldestSnapshot_le {txs : GoMap TxID TransactionState} {order : List TxID}
    (hnonzero : ∀ t tx, txs.get t = some tx → tx.snapshotTime ≠ 0) (ht : t ∈ order)
    (hget : txs.get t = some tx) :
    oldestSnapshot txs order ≠ 0 ∧ oldestSnapshot txs order ≤ tx.snapshotTime := by
  have hmem : (t, tx) ∈ txs.inOrder order := GoMap.mem_inOrder.mpr ⟨ht, hget⟩
  have hall : ∀ kv ∈ txs.inOrder order, kv.2.snapshotTime ≠ 0 := fun kv hkv =>
    hnonzero kv.1 kv.2 (GoMap.mem_inOrder.mp hkv).2
  rw [oldestSnapshot_eq]
  -- the first round sets the bound, so the general lemma applies from the second on
  cases hkvs : txs.inOrder order with
  | nil =>
    rw [hkvs] at hmem
    cases hmem
  | cons kv kvs =>
    rw [hkvs] at hmem hall
    have hstep := olderSnapshot_le 0 kv
    obtain ⟨hne, hle, hrest⟩ := foldl_olderSnapshot
      (fun x hx => hall x (List.mem_cons_of_mem _ hx))
      (olderSnapshot_ne_zero 0 (hall kv List.mem_cons_self))
    refine ⟨hne, ?_⟩
    rcases List.mem_cons.mp hmem with rfl | hmem
    · exact hle.trans hstep.1
    · exact hrest _ hmem

theorem mem_prune {oldest : Time} {log : List CommittedTx} {c : CommittedTx} (hne : oldest ≠ 0)
    (hc : c ∈ log) (hle : oldest ≤ c.submitTime) : c ∈ prune oldest log := by
  simp [prune, hne, hc, hle]

/-! ## Commits of a run -/

structure CommitRecord where
  txID : TxID
  submitTime : Time
  tx : TransactionState

/-- The commit that returned nil with this event. -/
def commitRecord (ev : Event World Action Result) : Option CommitRecord :=
  match ev.action, ev.before.inside with
  | .commitFinish _ _, some i =>
    match i.stage, ev.before.sys.txs.get i.txID with
    | .flushed submitTime, some tx => some ⟨i.txID, submitTime, tx⟩
    | _, _ => none
  | _, _ => none

theorem commitRecord_finished {i : Inside} {submitTime clock : Time} {order : List TxID}
    (hin : w.inside = some i) (hstage : i.stage = .flushed submitTime)
    (hget : w.sys.txs.get i.txID = some tx) :
    commitRecord ⟨w, .commitFinish clock order, r, w'⟩ = some ⟨i.txID, submitTime, tx⟩ := by
  simp [commitRecord, hin, hstage, hget]

/-- The entity ids that both transactions touch, one of them writing. -/
def overlaps (c tx : TransactionState) : Prop := ∃ e ∈ c.writeSet, e ∈ tx.readSet ∨ e ∈ tx.writeSet

/-- No commit of the record stamped after the snapshot of `tx` overlaps it. -/
def Unharmed (tx : TransactionState) (tr : Trace) : Prop :=
  ∀ ev ∈ tr, ∀ c, commitRecord ev = some c → tx.snapshotTime < c.submitTime → ¬ overlaps c.tx tx

/-- Every commit of the record stamped after `snapshot` is in the log, with a sequence
number after `n`. -/
def Logged (snapshot : Time) (n : ℕ) (tr : Trace) (log : List CommittedTx) : Prop :=
  ∀ ev ∈ tr, ∀ c, commitRecord ev = some c → snapshot < c.submitTime →
    ∃ entry ∈ log, n < entry.seq ∧ entry.submitTime = c.submitTime ∧ entry.writeSet = c.tx.writeSet

theorem unharmed_of_logged {m : TransactionManager} {n : ℕ}
    (hlog : Logged tx.snapshotTime n tr m.committedLog) (hn : m.txSnapshotSeq.get t = some n)
    (hconf : conflicts m t tx = false) : Unharmed tx tr := by
  intro ev hev c hc hlt
  obtain ⟨entry, hmem, hseq, -, hwrites⟩ := hlog ev hev c hc hlt
  rintro ⟨e, he, htouch⟩
  have hnot := List.any_eq_false.mp hconf entry hmem
  simp only [GoMap.getD, hn, Option.getD_some, hseq, decide_true, Bool.true_and,
    decide_eq_true_eq] at hnot
  exact hnot ⟨e, hwrites ▸ he, htouch⟩

/-! ## What a step does to the log and to the active transactions -/

theorem CallEffect.committedLog {free : TxID → Bool} {starts : Option TxID} {s' : System}
    (h : CallEffect free starts s s') : s'.tm.committedLog = s.tm.committedLog := by
  cases h with
  | same h => rw [h]
  | begun _ _ _ h =>
    rw [h]
    rfl
  | edited _ _ h => exact h.staged.committedLog
  | released h => rw [h]

/-- Only the last section of a commit changes the log. -/
theorem Stepped.committedLog {a : Action} (h : Stepped spi w a r w')
    (hnone : commitRecord ⟨w, a, r, w'⟩ = none) :
    w'.sys.tm.committedLog = w.sys.tm.committedLog := by
  cases h with
  | manage hmay => exact (manage_effect _ hmay).committedLog
  | direct => rw [(storeDirect_effect _ _).tm]
  | inTx _ _ hget hmay => exact (inTx_effect _ _ hget hmay).committedLog
  | task => rw [(task_effect _ _).tm]
  | finished hin hstage hget =>
    cases (commitRecord_finished hin hstage hget).symm.trans hnone
  | _ => rfl

/-- A transaction that is active after a step was so before, or it begins with the
step: at the floor or above it, and with the present sequence number. -/
theorem TxChange.activeBefore {s' : System} (h : TxChange s s') {tx' : TransactionState} {n : ℕ}
    (hmem : t ∈ s'.tm.active) (hget : s'.txs.get t = some tx')
    (hn : s'.tm.txSnapshotSeq.get t = some n) :
    s.txs.get t = none ∧ s.tm.lastSubmitTime ≤ tx'.snapshotTime ∧ n = s.tm.commitSeq ∨
      t ∈ s.tm.active ∧ s.tm.txSnapshotSeq.get t = some n ∧
        ∃ tx, s.txs.get t = some tx ∧ tx.snapshotTime = tx'.snapshotTime := by
  cases h with
  | kept records active txSnapshotSeq =>
    obtain ⟨tx, hold, hid⟩ := exists_of_rel_some (hget ▸ records t)
    exact .inr ⟨active ▸ hmem, txSnapshotSeq ▸ hn, tx, hold, hid.snapshotTime.symm⟩
  | @begun txID tenant snapshot hfresh hfloor h =>
    subst h
    by_cases ht : t = txID
    · subst ht
      simp only [System.publish, GoMap.get_set_self, Option.some.injEq] at hget hn
      exact .inl ⟨GoMap.get_eq_none_of_notMem hfresh, hget ▸ hfloor, hn.symm⟩
    · simp only [System.publish, GoMap.get_set_of_ne _ _ ht, Finset.mem_insert, ht,
        false_or] at hget hn hmem
      exact .inr ⟨hmem, hn, tx', hget, rfl⟩
  | ended _ records _ _ _ active txSnapshotSeq =>
    rw [active, Finset.mem_erase] at hmem
    rw [records, GoMap.get_set_of_ne _ _ hmem.1] at hget
    rw [txSnapshotSeq, GoMap.get_del_of_ne _ hmem.1] at hn
    exact .inr ⟨hmem.2, hn, tx', hget, rfl⟩

/-! ## The invariant -/

/-- The snapshot `Begin` takes. -/
def beginSnapshot (m : TransactionManager) (now : Time) : Time :=
  if now < m.lastSubmitTime then m.lastSubmitTime else now

/-- A conflict check is entered only while the transaction is open, and no transaction
begins at the zero time. -/
def checksOpen (w : World) : Action → Bool
  | .manage _ (.begin _ now) => beginSnapshot w.sys.tm now ≠ 0
  | .commitCheck c =>
    match w.waiting.get c with
    | some (.commit txID _) => isOpen w txID
    | _ => true
  | _ => true

structure Ordered (tr : Trace) (w : World) : Prop where
  nonzero : ∀ t tx, w.sys.txs.get t = some tx → tx.snapshotTime ≠ 0
  stamped : ∀ ev ∈ tr, ∀ c, commitRecord ev = some c → c.submitTime ≤ w.sys.tm.lastSubmitTime
  flushed : ∀ i stamp, w.inside = some i → i.stage = .flushed stamp →
    stamp ≤ w.sys.tm.lastSubmitTime
  logged : ∀ t ∈ w.sys.tm.active, ∀ tx n, w.sys.txs.get t = some tx →
    w.sys.tm.txSnapshotSeq.get t = some n → Logged tx.snapshotTime n tr w.sys.tm.committedLog
  inside : ∀ i tx, w.inside = some i → w.sys.txs.get i.txID = some tx → Unharmed tx tr

theorem snapshotTime_begin {user : Option TenantID} {txID : TxID} {now : Time}
    (hnone : s.txs.get txID = none) (hget : (s.begin user txID now).2.txs.get txID = some tx) :
    tx.snapshotTime = beginSnapshot s.tm now := by
  unfold System.begin at hget
  split at hget
  · cases hnone.symm.trans hget
  split at hget
  · cases hnone.symm.trans hget
  simp only [System.publish, GoMap.get_set_self, Option.some.injEq] at hget
  rw [← hget]
  rfl

section Step

variable {spi : Spi} {w w' : World} {a : Action} {r : Result} {tr : Trace}

theorem Stepped.nonzero (h : Stepped spi w a r w') (hallowed : checksOpen w a = true)
    (hord : Ordered tr w) : ∀ t tx, w'.sys.txs.get t = some tx → tx.snapshotTime ≠ 0 := by
  intro t tx' hget'
  cases hget : w.sys.txs.get t with
  | some tx =>
    obtain ⟨tx1, hget1, -, hsnap, -⟩ := h.txChange.record hget
    cases hget1.symm.trans hget'
    rw [hsnap]
    exact hord.nonzero t tx hget
  | none =>
    obtain ⟨user, now, rfl⟩ := h.begins hget hget'
    cases h with
    | manage =>
      rw [snapshotTime_begin hget hget']
      simpa [checksOpen] using hallowed

/-- Stamps are not above the floor, already before the step that records them. -/
theorem Stepped.stamped (h : Stepped spi w a r w') (hord : Ordered tr w) :
    ∀ ev ∈ (⟨w, a, r, w'⟩ :: tr : Trace), ∀ c, commitRecord ev = some c →
      c.submitTime ≤ w.sys.tm.lastSubmitTime := by
  intro ev hev c hc
  rcases List.mem_cons.mp hev with rfl | hev
  · cases h with
    | finished hin hstage hget =>
      cases (commitRecord_finished hin hstage hget).symm.trans hc
      exact hord.flushed _ _ hin hstage
    | _ => simp [commitRecord] at hc
  · exact hord.stamped ev hev c hc

theorem Stepped.stampInside (h : Stepped spi w a r w') (hord : Ordered tr w) :
    ∀ i stamp, w'.inside = some i → i.stage = .flushed stamp →
      stamp ≤ w'.sys.tm.lastSubmitTime := by
  intro i stamp hin hstage
  have hold : w.inside = some i → stamp ≤ w'.sys.tm.lastSubmitTime := fun hw =>
    (hord.flushed i stamp hw hstage).trans h.txChange.floor
  cases h with
  | checked =>
    cases hin
    cases hstage
  | aborted => cases hin
  | flushed hin0 =>
    cases hin
    obtain rfl := CommitStage.flushed.inj hstage
    exact (nextSubmitTime_floor _ _).ge
  | finished => cases hin
  | _ => exact hold hin

/-- The last section of a commit keeps what an active transaction's check needs. -/
theorem mem_committedLog_finish (hord : Ordered tr w) {i : Inside} {submitTime clock : Time}
    {tx : TransactionState} {order : List TxID}
    (horder : order.toFinset = w.sys.tm.active.erase i.txID) {t : TxID} {rec : TransactionState}
    (ht : t ∈ w.sys.tm.active.erase i.txID) (hrec : w.sys.txs.get t = some rec)
    {entry : CommittedTx} (hlt : rec.snapshotTime < entry.submitTime)
    (hentry : entry ∈ (w.sys.tm.recordCommit i.txID tx submitTime clock).committedLog) :
    entry ∈ (w.sys.commitFinish i.txID tx submitTime clock order).tm.committedLog := by
  have hmem : t ∈ order := List.mem_toFinset.mp (horder ▸ ht)
  obtain ⟨hne, hle⟩ := oldestSnapshot_le hord.nonzero hmem hrec
  exact mem_prune hne hentry (hle.trans hlt.le)

theorem logged_finish (hcoh : Coherent w.sys) (hord : Ordered tr w) {i : Inside}
    {submitTime clock : Time} {tx : TransactionState} {order : List TxID}
    (hin : w.inside = some i) (hstage : i.stage = .flushed submitTime)
    (hget : w.sys.txs.get i.txID = some tx)
    (horder : order.toFinset = w.sys.tm.active.erase i.txID) {t : TxID} {rec : TransactionState}
    {n : ℕ} (ht : t ∈ w.sys.tm.active.erase i.txID) (hrec : w.sys.txs.get t = some rec)
    (hn : w.sys.tm.txSnapshotSeq.get t = some n) :
    Logged rec.snapshotTime n (⟨w, .commitFinish clock order, r, w'⟩ :: tr)
      (w.sys.commitFinish i.txID tx submitTime clock order).tm.committedLog := by
  have hactive := Finset.mem_of_mem_erase ht
  intro ev hev c hc hlt
  rcases List.mem_cons.mp hev with rfl | hev
  · -- the entry of this commit gets the next sequence number
    cases (commitRecord_finished hin hstage hget).symm.trans hc
    obtain ⟨n', hn', hle⟩ := hcoh.snapshotSeq t hactive
    cases hn'.symm.trans hn
    have hnew : (⟨i.txID, submitTime, w.sys.tm.commitSeq + 1, tx.writeSet⟩ : CommittedTx) ∈
        (w.sys.tm.recordCommit i.txID tx submitTime clock).committedLog :=
      List.mem_append.mpr (.inr List.mem_cons_self)
    exact ⟨_, mem_committedLog_finish hord horder ht hrec hlt hnew, Nat.lt_succ_of_le hle, rfl, rfl⟩
  · obtain ⟨entry, hentry, hseq, hstamp, hwrites⟩ := hord.logged t hactive rec n hrec hn ev hev c hc hlt
    have hold : entry ∈ (w.sys.tm.recordCommit i.txID tx submitTime clock).committedLog :=
      List.mem_append.mpr (.inl hentry)
    exact ⟨entry, mem_committedLog_finish hord horder ht hrec (hstamp ▸ hlt) hold, hseq, hstamp, hwrites⟩

theorem Stepped.logged (h : Stepped spi w a r w') (hcoh : Coherent w.sys) (hord : Ordered tr w) :
    ∀ t ∈ w'.sys.tm.active, ∀ tx n, w'.sys.txs.get t = some tx →
      w'.sys.tm.txSnapshotSeq.get t = some n →
      Logged tx.snapshotTime n (⟨w, a, r, w'⟩ :: tr) w'.sys.tm.committedLog := by
  intro t ht tx' n hget' hn'
  rcases h.txChange.activeBefore ht hget' hn' with ⟨-, hfloor, -⟩ | ⟨hmem, hn, tx, hget, hsnap⟩
  · intro ev hev c hc hlt
    exact absurd ((h.stamped hord ev hev c hc).trans hfloor) (not_le.mpr hlt)
  rw [← hsnap]
  cases hrec : commitRecord ⟨w, a, r, w'⟩ with
  | none =>
    rw [h.committedLog hrec]
    intro ev hev c hc hlt
    rcases List.mem_cons.mp hev with rfl | hev
    · cases hrec.symm.trans hc
    · exact hord.logged t hmem tx n hget hn ev hev c hc hlt
  | some c =>
    cases h with
    | finished hin hstage hget0 hnodup horder =>
      exact logged_finish hcoh hord hin hstage hget0 horder ht hget hn
    | _ => simp [commitRecord] at hrec

/-- The commit inside overlaps no commit stamped after its snapshot: its check said so,
and no other commit finishes before it leaves. -/
theorem Stepped.unharmed (h : Stepped spi w a r w') (hallowed : checksOpen w a = true)
    (hcoh : Coherent w.sys) (hpend : Pending w) (hord : Ordered tr w) :
    ∀ i tx, w'.inside = some i → w'.sys.txs.get i.txID = some tx →
      Unharmed tx (⟨w, a, r, w'⟩ :: tr) := by
  intro i tx hin' hget'
  have hrec : commitRecord ⟨w, a, r, w'⟩ = none := by
    cases h with
    | finished => cases hin'
    | _ => rfl
  have holder : Unharmed tx tr := by
    cases hw : w.inside with
    | some i0 =>
      have htx : i.txID = i0.txID := by
        rcases h.stillInside hw hin' with rfl | ⟨stamp, rfl⟩
        · rfl
        · rfl
      have hsame := h.sameTx hw hin' (hpend.record i0.call i0.txID (.inr ⟨i0, hw, rfl, rfl⟩))
      rw [htx, hsame.record] at hget'
      exact hord.inside i0 tx hw hget'
    | none =>
      cases h with
      | @checked c txID committer rec hwait hfree hget hconf =>
        cases hin'
        obtain rfl := Option.some.inj (hget.symm.trans hget')
        simp only [checksOpen, hwait, isOpen, hget, Option.all_some, Bool.not_eq_true'] at hallowed
        have hactive := (hcoh.active_iff txID).mpr ⟨rec, hget, hallowed⟩
        obtain ⟨n, hn, -⟩ := hcoh.snapshotSeq txID hactive
        exact unharmed_of_logged (hord.logged txID hactive rec n hget hn) hn hconf
      | aborted => cases hin'
      | flushed hin0 => cases hw.symm.trans hin0
      | finished => cases hin'
      | _ => cases hw.symm.trans hin'
  intro ev hev c hc hlt
  rcases List.mem_cons.mp hev with rfl | hev
  · cases hrec.symm.trans hc
  · exact holder ev hev c hc hlt

end Step

theorem ordered_init : Ordered [] World.init where
  nonzero t tx hget := by cases hget
  stamped ev hev := by cases hev
  flushed i stamp hin := by cases hin
  logged t ht := by cases ht
  inside i tx hin := by cases hin

theorem ordered_of_run (h : PluginRun spi (Passing checksOpen) tr w) : Ordered tr w := by
  induction h with
  | nil => exact ordered_init
  | cons a hrun ha hs ih =>
    have hstep := stepped_of_step hs
    have hcoh := coherent_of_run hrun
    refine ⟨hstep.nonzero ha.2 ih, ?_, hstep.stampInside ih, hstep.logged hcoh ih,
      hstep.unharmed ha.2 hcoh (pending_of_run hrun) ih⟩
    intro ev hev c hc
    exact (hstep.stamped ih ev hev c hc).trans hstep.txChange.floor

/-- A step removes no log entry stamped after the snapshot of a transaction that stays
active. -/
theorem Stepped.keepsLog {a : Action} (h : Stepped spi w a r w') (hord : Ordered tr w)
    (ht : t ∈ w'.sys.tm.active) (hget : w'.sys.txs.get t = some tx) {entry : CommittedTx}
    (hentry : entry ∈ w.sys.tm.committedLog) (hlt : tx.snapshotTime < entry.submitTime) :
    entry ∈ w'.sys.tm.committedLog := by
  cases hrec : commitRecord ⟨w, a, r, w'⟩ with
  | none => exact h.committedLog hrec ▸ hentry
  | some c =>
    cases h with
    | @finished i submitTime tx0 clock order hin hstage hget0 hnodup horder =>
      have hne : t ≠ i.txID := Finset.ne_of_mem_erase ht
      have hold : w.sys.txs.get t = some tx := (GoMap.get_set_of_ne _ _ hne).symm.trans hget
      exact mem_committedLog_finish hord horder ht hold hlt (List.mem_append.mpr (.inl hentry))
    | _ => simp [commitRecord] at hrec

/-! ## The law -/

/-- In every run whose conflict checks are entered only while the transaction is open and
whose transactions do not begin at the zero time: a commit that returns nil overlaps no
earlier commit stamped after its snapshot; as long as a transaction is active, every
commit stamped after its snapshot is in the log under a number its check looks at; and
no step prunes such an entry. -/
theorem first_committer_wins (spi : Spi) :
    ∀ tr w, PluginRun spi (Passing checksOpen) tr w →
      (∀ newer older ev c, tr = newer ++ ev :: older → commitRecord ev = some c →
        Unharmed c.tx older) ∧
      (∀ t ∈ w.sys.tm.active, ∃ tx n, w.sys.txs.get t = some tx ∧
        w.sys.tm.txSnapshotSeq.get t = some n ∧
        Logged tx.snapshotTime n tr w.sys.tm.committedLog) ∧
      ∀ ev ∈ tr, ∀ t ∈ ev.after.sys.tm.active, ∀ tx, ev.after.sys.txs.get t = some tx →
        ∀ entry ∈ ev.before.sys.tm.committedLog, tx.snapshotTime < entry.submitTime →
          entry ∈ ev.after.sys.tm.committedLog := by
  intro tr w hrun
  refine ⟨?_, ?_, ?_⟩
  · rintro newer older ⟨x, a, r, y⟩ c rfl hc
    obtain ⟨holder, -, hs⟩ := hrun.of_append
    dsimp only at hs holder
    cases stepped_of_step hs with
    | finished hin hstage hget =>
      cases (commitRecord_finished hin hstage hget).symm.trans hc
      exact (ordered_of_run holder).inside _ _ hin hget
    | _ => simp [commitRecord] at hc
  · intro t ht
    have hcoh := coherent_of_run hrun
    obtain ⟨tx, hget, -⟩ := (hcoh.active_iff t).mp ht
    obtain ⟨n, hn, -⟩ := hcoh.snapshotSeq t ht
    exact ⟨tx, n, hget, hn, (ordered_of_run hrun).logged t ht tx n hget hn⟩
  · intro ev hev t ht tx hget entry hentry hlt
    obtain ⟨older, holder, -, hs⟩ := hrun.of_mem hev
    exact (stepped_of_step hs).keepsLog (ordered_of_run holder) ht hget hentry hlt

/-- Two transactions with the same snapshot commit apart while a third stays open. -/
def disjointCommits : List Action :=
  [begin "A" "t" 1,
    begin "A" "u" 1,
    begin "A" "v" 1,
    inTx "A" "t" (.save (entity "d" [1])) [],
    inTx "A" "u" (.save (entity "e" [1])) [],
    commitMark 0 "A" "u",
    .commitCheck 0,
    .commitApply 0 ["e"] [],
    .commitFinish 0 ["t", "v"],
    commitMark 1 "A" "t",
    .commitCheck 1,
    .commitApply 0 ["d"] [],
    .commitFinish 0 ["v"]]

theorem first_committer_wins_disjointCommits :
    ∃ tr w, PluginRun Sample.spi (Passing checksOpen) tr w ∧
      (∃ ev ∈ tr, ∃ c, commitRecord ev = some c ∧ c.txID = "t" ∧ c.tx.snapshotTime = 1) ∧
      (∀ newer older ev c, tr = newer ++ ev :: older → commitRecord ev = some c →
        Unharmed c.tx older) := by
  obtain ⟨tr, w, hrun, hcheck⟩ := exists_run_passing Sample.spi checksOpen
    (fun tr _ => tr.any fun ev => (commitRecord ev).any fun c =>
      c.txID = "t" && c.tx.snapshotTime = 1) disjointCommits (by decide)
  simp only [List.any_eq_true, Option.any_eq_true, Bool.and_eq_true, decide_eq_true_eq] at hcheck
  exact ⟨tr, w, hrun, hcheck, (first_committer_wins Sample.spi tr w hrun).1⟩

/-- A transaction is rolled back while its commit waits, so that another commit prunes
the entry its check needs. -/
def rollbackThenPrune : List Action :=
  [begin "A" "t" 1,
    begin "A" "u" 1,
    inTx "A" "t" (.save (entity "e" [1])) [],
    inTx "A" "u" (.save (entity "e" [2])) [],
    commitMark 0 "A" "t",
    .rollbackMark 1 (some "A") "t",
    .rollbackFinish 1,
    commitMark 2 "A" "u",
    .commitCheck 2,
    .commitApply 0 ["e"] [],
    .commitFinish 0 [],
    .commitCheck 0,
    .commitApply 0 ["e"] [],
    .commitFinish 0 []]

/-- Both commits of `e` return nil, though the second began before the first. -/
theorem overlapping_commits_both_succeed :
    ∃ tr w, PluginRun Sample.spi AnyStep tr w ∧
      ∃ newer older ev c, tr = newer ++ ev :: older ∧ commitRecord ev = some c ∧
        ¬ Unharmed c.tx older := by
  obtain ⟨tr, w, hrun, hcheck⟩ := exists_run_any Sample.spi
    (fun tr _ => match tr with
      | ev :: older => (commitRecord ev).any fun c => older.any fun ev' =>
        (commitRecord ev').any fun c' => c.tx.snapshotTime < c'.submitTime &&
          decide (∃ e ∈ c'.tx.writeSet, e ∈ c.tx.readSet ∨ e ∈ c.tx.writeSet)
      | [] => false) rollbackThenPrune (by decide)
  cases tr with
  | nil => cases hcheck
  | cons ev older =>
    simp only [Option.any_eq_true, List.any_eq_true, Bool.and_eq_true, decide_eq_true_eq] at hcheck
    obtain ⟨c, hc, ev', hev', c', hc', hlt, hover⟩ := hcheck
    exact ⟨_, w, hrun, [], older, ev, c, rfl, hc, fun h => h ev' hev' c' hc' hlt hover⟩

end CyodaGo.Memory
