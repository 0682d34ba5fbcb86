import CyodaGo.Verification.Memory.Claims
import CyodaGo.Verification.Memory.Pending

/-! # Commit and Rollback exclude each other

Commits and rollbacks that enter only while the transaction is open: at most one of
them succeeds, a rolled back transaction leaves no trace in the store, and a committed
one is applied in full. -/

namespace CyodaGo.Memory

open Sample

/-! ## Events of a transaction -/

/-- A `Commit` of `t` returned nil. -/
def commitsNil (t : TxID) (ev : Event World Action Result) : Bool :=
  match ev.action, ev.result with
  | .commitFinish _ _, .done (.ok _) => ev.before.inside.any fun i => i.txID = t
  | _, _ => false

/-- A `Rollback` of `t` returned nil. -/
def rollsBackNil (t : TxID) (ev : Event World Action Result) : Bool :=
  match ev.action, ev.result with
  | .rollbackFinish c, .done (.ok _) =>
    match ev.before.waiting.get c with
    | some (.rollback txID) => txID = t
    | _ => false
  | _, _ => false

def returnsNil (t : TxID) (ev : Event World Action Result) : Bool :=
  commitsNil t ev || rollsBackNil t ev

/-- A commit of `t` stamped and flushed its writes. -/
def flushes (t : TxID) (ev : Event World Action Result) : Bool :=
  match ev.action, ev.result with
  | .commitApply _ _ _, .running => ev.before.inside.any fun i => i.txID = t
  | _, _ => false

def isOpen (w : World) (t : TxID) : Bool := (w.sys.txs.get t).all fun tx => !tx.closed

/-- The section after `OpMu` is acquired is entered only while the transaction is open. -/
def endsOpen (w : World) : Action → Bool
  | .commitCheck c =>
    match w.waiting.get c with
    | some (.commit txID _) => isOpen w txID
    | _ => true
  | .rollbackFinish c =>
    match w.waiting.get c with
    | some (.rollback txID) => isOpen w txID
    | _ => true
  | _ => true

variable {w w' : World} {t : TxID} {tr : Trace} {ev : Event World Action Result}
  {tx : TransactionState} {spi : Spi} {a : Action} {r : Result}
  {allowed : Trace → World → Action → Prop}

theorem TxChange.isOpen (h : TxChange w.sys w'.sys) (hopen : isOpen w' t = true) :
    isOpen w t = true := by
  unfold Memory.isOpen at hopen ⊢
  cases hget : w.sys.txs.get t with
  | none => rfl
  | some tx =>
    obtain ⟨tx', hget', -, -, hclosed⟩ := h.record hget
    rw [hget'] at hopen
    cases htx : tx.closed with
    | false => simp [htx]
    | true => simp [hclosed htx] at hopen

/-! ## At most one success -/

/-- What holds of `t` along a run that ends transactions only while they are open. -/
structure Exclusive (t : TxID) (tr : Trace) (w : World) : Prop where
  once : (tr.filter (returnsNil t)).length ≤ 1
  unended : isOpen w t = true → tr.filter (returnsNil t) = []
  insideOpen : ∀ i, w.inside = some i → i.txID = t → isOpen w t = true

theorem Exclusive.quiet (h : Exclusive t tr w) (hquiet : returnsNil t ev = false)
    (hopen : isOpen w' t = true → isOpen w t = true)
    (hinside : ∀ i, w'.inside = some i → i.txID = t → isOpen w' t = true) :
    Exclusive t (ev :: tr) w' := by
  have hfilter : (ev :: tr).filter (returnsNil t) = tr.filter (returnsNil t) := by
    rw [List.filter_cons_of_neg (by simp [hquiet])]
  exact ⟨hfilter ▸ h.once, fun ho => hfilter ▸ h.unended (hopen ho), hinside⟩

theorem Exclusive.ended (h : Exclusive t tr w) (hopen : isOpen w t = true)
    (ev : Event World Action Result) (hclosed : isOpen w' t = false)
    (hinside : ∀ i, w'.inside = some i → i.txID ≠ t) :
    Exclusive t (ev :: tr) w' := by
  have hnone := h.unended hopen
  refine ⟨?_, ?_, fun i hin heq => absurd heq (hinside i hin)⟩
  · rw [List.filter_cons]
    split
    · rw [hnone]
      exact le_rfl
    rw [hnone]
    exact Nat.zero_le 1
  · intro hopen'
    cases hclosed.symm.trans hopen'

theorem isOpen_set_closed (h : w.sys.txs.get t = some tx) (hclosed : tx.closed = true) :
    isOpen w t = false := by
  simp [isOpen, h, hclosed]

/-- A commit that stays inside, or enters while its transaction is open, has an open
transaction. -/
theorem Stepped.insideOpen (hstep : Stepped spi w a r w') (hallowed : endsOpen w a = true)
    (hpend : Pending w) (h : Exclusive t tr w) (i : Inside) (hin : w'.inside = some i)
    (ht : i.txID = t) :
    isOpen w' t = true := by
  cases hw : w.inside with
  | some i0 =>
    have htx : i0.txID = t := by
      rcases hstep.stillInside hw hin with rfl | ⟨stamp, rfl⟩
      · exact ht
      · exact ht
    have hsame := hstep.sameTx hw hin (hpend.record i0.call i0.txID (.inr ⟨i0, hw, rfl, rfl⟩))
    have hopen := h.insideOpen i0 hw htx
    unfold isOpen at hopen ⊢
    rw [← htx, hsame.record, htx]
    exact hopen
  | none =>
    obtain ⟨rfl, -, hsys, hwait⟩ := hstep.enters hw hin
    simp only [endsOpen, hwait, ht] at hallowed
    unfold isOpen at hallowed ⊢
    rw [hsys]
    exact hallowed

theorem Stepped.exclusive (hstep : Stepped spi w a r w') (hallowed : endsOpen w a = true)
    (hpend : Pending w) (h : Exclusive t tr w) : Exclusive t (⟨w, a, r, w'⟩ :: tr) w' := by
  have hopen : isOpen w' t = true → isOpen w t = true := hstep.txChange.isOpen
  have hinside := hstep.insideOpen hallowed hpend h
  cases hquiet : returnsNil t ⟨w, a, r, w'⟩ with
  | false => exact h.quiet hquiet hopen hinside
  | true =>
    cases hstep with
    | @finished i stamp tx clock order hin hstage hget =>
      have ht : i.txID = t := by
        simpa [returnsNil, commitsNil, rollsBackNil, hin] using hquiet
      subst ht
      exact h.ended (h.insideOpen i hin rfl) _
        (isOpen_set_closed (GoMap.get_set_self _ _ _) rfl) nofun
    | @rolledBack c txID tx hwait hget hfree =>
      have ht : txID = t := by
        simpa [returnsNil, commitsNil, rollsBackNil, hwait] using hquiet
      subst ht
      simp only [endsOpen, hwait] at hallowed
      refine h.ended hallowed _ (isOpen_set_closed (GoMap.get_set_self _ _ _) rfl) ?_
      intro i hin
      exact (opMuFree_of_inside hin txID).mp hfree
    | _ => simp [returnsNil, commitsNil, rollsBackNil] at hquiet

theorem exclusive_of_run (h : PluginRun spi (Passing endsOpen) tr w) (t : TxID) :
    Exclusive t tr w := by
  induction h with
  | nil => exact ⟨Nat.zero_le 1, fun _ => rfl, nofun⟩
  | cons a hrun ha hs ih => exact (stepped_of_step hs).exclusive ha.2 (pending_of_run hrun) ih

/-! ## A flush leads to a successful commit -/

/-- A flushed commit is still inside, or has returned nil. -/
def FlushEnds (t : TxID) (tr : Trace) (w : World) : Prop :=
  (∃ ev ∈ tr, flushes t ev = true) →
    (∃ i stamp, w.inside = some i ∧ i.txID = t ∧ i.stage = .flushed stamp) ∨
      ∃ ev ∈ tr, commitsNil t ev = true

theorem Stepped.flushEnds (hstep : Stepped spi w a r w') (h : FlushEnds t tr w) :
    FlushEnds t (⟨w, a, r, w'⟩ :: tr) w' := by
  rintro ⟨ev, hev, hflush⟩
  rcases List.mem_cons.mp hev with rfl | hev
  · cases hstep with
    | @flushed i captured tx clock bufferOrder deleteOrder claims hin =>
      have ht : i.txID = t := by simpa [flushes, hin] using hflush
      exact .inl ⟨_, _, rfl, ht, rfl⟩
    | _ => simp [flushes] at hflush
  · rcases h ⟨ev, hev, hflush⟩ with ⟨i, stamp, hin, ht, hstage⟩ | ⟨ev', hev', hnil⟩
    · cases hw' : w'.inside with
      | some i' =>
        rcases hstep.stillInside hin hw' with rfl | ⟨stamp', rfl⟩
        · exact .inl ⟨_, stamp, rfl, ht, hstage⟩
        · exact .inl ⟨_, stamp', rfl, ht, rfl⟩
      | none =>
        cases hstep with
        | checked => cases hw'
        | aborted hin0 hstage0 =>
          cases hin0.symm.trans hin
          cases hstage0.symm.trans hstage
        | flushed => cases hw'
        | finished => exact .inr ⟨_, List.mem_cons_self, by simp [commitsNil, hin, ht]⟩
        | _ => cases hw'.symm.trans hin
    · exact .inr ⟨ev', List.mem_cons_of_mem _ hev', hnil⟩

theorem flushEnds_of_run (h : PluginRun spi allowed tr w) (t : TxID) : FlushEnds t tr w := by
  induction h with
  | nil => exact fun ⟨_, hev, _⟩ => nomatch hev
  | cons a _ _ hs ih => exact (stepped_of_step hs).flushEnds ih

theorem eq_of_mem_of_length_le_one {A : Type} {xs : List A} (h : xs.length ≤ 1) {a b : A}
    (ha : a ∈ xs) (hb : b ∈ xs) : a = b := by
  match xs, h with
  | [x], _ => rw [List.mem_singleton.mp ha, List.mem_singleton.mp hb]

/-- After a successful rollback no commit of the transaction has flushed anything. -/
theorem not_flushes_of_rollsBackNil (hrun : PluginRun spi (Passing endsOpen) tr w) (hev : ev ∈ tr)
    (hnil : rollsBackNil t ev = true) : ∀ ev' ∈ tr, flushes t ev' = false := by
  intro ev' hev'
  cases hflush : flushes t ev' with
  | false => rfl
  | true =>
    have hex := exclusive_of_run hrun t
    have hmem : ev ∈ tr.filter (returnsNil t) :=
      List.mem_filter.mpr ⟨hev, by simp [returnsNil, hnil]⟩
    rcases flushEnds_of_run hrun t ⟨ev', hev', hflush⟩ with ⟨i, stamp, hin, ht, -⟩ | ⟨ev2, hev2, hnil2⟩
    · rw [hex.unended (hex.insideOpen i hin ht)] at hmem
      cases hmem
    have hmem2 : ev2 ∈ tr.filter (returnsNil t) :=
      List.mem_filter.mpr ⟨hev2, by simp [returnsNil, hnil2]⟩
    obtain rfl := eq_of_mem_of_length_le_one hex.once hmem hmem2
    unfold commitsNil at hnil2
    unfold rollsBackNil at hnil
    split at hnil
    · rename_i hact hres
      simp [hact] at hnil2
    · cases hnil

/-! ## Whose rows the store holds -/

def rowCarries (t : TxID) (row : EntityVersion) : Prop :=
  row.transactionID = t ∨ ∃ e, row.entity = some e ∧ e.info.transactionID = t

/-- The row names no transaction but `t`. -/
structure CarriesOnly (t : TxID) (row : EntityVersion) : Prop where
  transactionID : row.transactionID = t
  entity : ∀ e, row.entity = some e → e.info.transactionID = t

theorem CarriesOnly.eq {t' : TxID} {row : EntityVersion} (h : CarriesOnly t row)
    (hc : rowCarries t' row) : t' = t := by
  rcases hc with hrow | ⟨e, hent, he⟩
  · exact hrow.symm.trans h.transactionID
  · exact he.symm.trans (h.entity e hent)

/-- Every row of `f'` that `f` does not have was written by `t`. -/
def RowsBy (t : TxID) (f f' : StoreFactory) : Prop :=
  ∀ tid e, ∀ row ∈ f'.versions tid e, row ∈ f.versions tid e ∨ CarriesOnly t row

theorem RowsBy.refl (t : TxID) (f : StoreFactory) : RowsBy t f f := fun _ _ _ hrow => .inl hrow

theorem RowsBy.trans {f f1 f2 : StoreFactory} (h : RowsBy t f f1) (h' : RowsBy t f1 f2) :
    RowsBy t f f2 := by
  intro tid e row hrow
  rcases h' tid e row hrow with hold | hnew
  · exact h tid e row hold
  · exact .inr hnew

theorem RowsBy.append {f f' : StoreFactory} {tid : TenantID} {eid : EntityID}
    {rows : List EntityVersion}
    (hv : ∀ t e, f'.versions t e =
      if t = tid ∧ e = eid then f.versions tid eid ++ rows else f.versions t e)
    (hrows : ∀ row ∈ rows, CarriesOnly t row) : RowsBy t f f' := by
  intro t' e row hrow
  rw [hv] at hrow
  split at hrow
  · rename_i heq
    obtain ⟨rfl, rfl⟩ := heq
    rcases List.mem_append.mp hrow with hold | hnew
    · exact .inl hold
    · exact .inr (hrows row hnew)
  · exact .inl hrow

theorem carriesOnly_tombstone (version : Int) (txID : TxID) (now : Time) (a : WriteAttribution) :
    ∀ row ∈ [tombstone version txID now a], CarriesOnly txID row := by
  intro row hrow
  rw [List.mem_singleton.mp hrow]
  exact ⟨rfl, nofun⟩

theorem carriesOnly_flushRows (txID : TxID) (tid : TenantID) (stamp creationDate : Time) (base : Int)
    (hasPrior : Bool) (staged : List Entity) :
    ∀ row ∈ flushRows txID tid stamp creationDate base hasPrior staged, CarriesOnly txID row := by
  induction staged generalizing base hasPrior with
  | nil => simp [flushRows]
  | cons e staged ih =>
    intro row hrow
    rw [flushRows, List.mem_cons] at hrow
    rcases hrow with rfl | hrow
    · refine ⟨rfl, ?_⟩
      intro e' he'
      cases he'
      rfl
    · exact ih _ _ row hrow

theorem rowsBy_writeSaved (f : StoreFactory) (tid : TenantID) (entity : Entity) (version : Int)
    (now creationDate : Time) (claims : List UniqueClaim) :
    RowsBy entity.info.transactionID f (f.writeSaved tid entity version now creationDate claims) := by
  refine RowsBy.append (versions_writeSaved f tid entity version now creationDate claims) ?_
  intro row hrow
  rw [List.mem_singleton.mp hrow]
  refine ⟨rfl, ?_⟩
  intro e he
  cases he
  rfl

theorem rowsBy_writeDeleted (f : StoreFactory) (tid : TenantID) (eid : EntityID) (version : Int)
    (now : Time) (a : WriteAttribution) : RowsBy "" f (f.writeDeleted tid eid version now a) :=
  RowsBy.append (versions_writeDeleted f tid eid version now a) (carriesOnly_tombstone _ _ _ _)

theorem rowsBy_swept {tid : TenantID} {now : Time} {a : WriteAttribution} {f f' : StoreFactory}
    (h : Swept tid now a f f') : RowsBy "" f f' := by
  induction h with
  | refl => exact .refl _ _
  | delete eid version _ ih => exact ih.trans (rowsBy_writeDeleted _ tid eid version now a)

open StoreFactory

theorem rowsBy_flush (f : StoreFactory) (txID : TxID) (tx : TransactionState)
    (committer : WriteAttribution) (captured : Captured) (claims : GoMap EntityID (List UniqueClaim))
    (stamp : Time) (bufferOrder deleteOrder : List EntityID) :
    RowsBy txID f (f.flush txID tx committer captured claims stamp bufferOrder deleteOrder) := by
  have hreleased : RowsBy txID f
      (deleteOrder.foldl (fun f id => f.releaseClaims tx.tenantID id) f) :=
    List.foldlRecOn deleteOrder _ (.refl txID f) fun f' hf id _ => hf
  have hwritten := List.foldlRecOn (tx.buffer.inOrder bufferOrder)
    (flushEntity txID tx.tenantID stamp captured.superseded claims) hreleased
    fun f' hf kv _ => hf.trans (RowsBy.append (versions_flushEntity _ _ kv)
      (carriesOnly_flushRows _ _ _ _ _ _ _))
  have hdone := List.foldlRecOn deleteOrder
    (flushDelete txID tx.tenantID stamp tx.deleteAttribution committer) hwritten
    fun f' hf id _ => hf.trans (RowsBy.append (versions_flushDelete _ _ id)
      (carriesOnly_tombstone _ _ _ _))
  exact hdone

/-- A write outside any transaction whose caller supplies the transaction id `t`. -/
def savesAs (t : TxID) : Action → Bool
  | .store _ ctx (.save entity) _ _ => ctx.tx.isNone && entity.info.transactionID = t
  | .store _ ctx (.compareAndSave entity _) _ _ => ctx.tx.isNone && entity.info.transactionID = t
  | _ => false

/-- The transaction a step writes for, where the empty id stands for none. -/
theorem Stepped.rowsBy (h : Stepped spi w a r w') :
    ∃ t, RowsBy t w.sys.factory w'.sys.factory ∧
      (t = "" ∨ savesAs t a = true ∨ flushes t ⟨w, a, r, w'⟩ = true) := by
  cases h with
  | manage hmay => exact ⟨"", by rw [(manage_effect _ hmay).factory]; exact .refl _ _, .inl rfl⟩
  | @direct tid ctx call clock order horder htx hfree =>
    have hspec : DirectSpec spi w.sys tid ctx clock call _ _ := storeDirect_spec order call
    cases hspec with
    | kept _ _ h =>
      refine ⟨"", ?_, .inl rfl⟩
      rw [h]
      exact .refl _ _
    | @saved entity _ _ _ hcall _ _ _ h =>
      refine ⟨entity.info.transactionID, ?_, .inr (.inl ?_)⟩
      · rw [h]
        exact rowsBy_writeSaved w.sys.factory tid entity _ _ _ _
      · cases call <;> simp_all [savesAs, StoreCall.saves]
    | swept _ hswept h =>
      refine ⟨"", ?_, .inl rfl⟩
      rw [h]
      exact rowsBy_swept hswept
  | inTx _ _ hget hmay =>
    exact ⟨"", by rw [(inTx_effect _ _ hget hmay).factory]; exact .refl _ _, .inl rfl⟩
  | @task call =>
    refine ⟨"", ?_, .inl rfl⟩
    intro t e row hrow
    rw [versions_task] at hrow
    exact .inl hrow
  | @flushed i captured tx clock bufferOrder deleteOrder claims hin =>
    exact ⟨i.txID, rowsBy_flush _ _ _ _ _ _ _ _ _, .inr (.inr (by simp [flushes, hin]))⟩
  | _ => exact ⟨"", .refl _ _, .inl rfl⟩

/-- A row of the store that names `t` was written by a flush of `t`, or by a direct
write that borrowed the id. -/
theorem written_of_run (h : PluginRun spi allowed tr w) (ht : t ≠ "") {tid : TenantID}
    {e : EntityID} {row : EntityVersion} (hrow : row ∈ w.sys.factory.versions tid e)
    (hc : rowCarries t row) : ∃ ev ∈ tr, savesAs t ev.action = true ∨ flushes t ev = true := by
  induction h with
  | nil => cases hrow
  | cons a _ _ hs ih =>
    obtain ⟨t', hby, hwriter⟩ := (stepped_of_step hs).rowsBy
    rcases hby tid e row hrow with hold | hnew
    · obtain ⟨ev, hev, hdone⟩ := ih hold
      exact ⟨ev, List.mem_cons_of_mem _ hev, hdone⟩
    obtain rfl := hnew.eq hc
    exact ⟨_, List.mem_cons_self, hwriter.resolve_left ht⟩

/-- An entity version, a tombstone or an index entry that names `t`. -/
def carries (t : TxID) (f : StoreFactory) : Prop :=
  (∃ tid e, ∃ row ∈ f.versions tid e, rowCarries t row) ∨ ∃ tid e n, f.txIndex.get (tid, e, t) = some n

theorem carries_row {f : StoreFactory} (hindex : IndexLaw f) (h : carries t f) :
    ∃ tid e, ∃ row ∈ f.versions tid e, rowCarries t row := by
  rcases h with hrow | ⟨tid, e, n, hget⟩
  · exact hrow
  rw [hindex tid e t] at hget
  split at hget
  · cases hget
  obtain ⟨row, hfind, -⟩ := Option.map_eq_some_iff.mp hget
  have hwritten := List.find?_some hfind
  simp only [writtenBy, Bool.and_eq_true, decide_eq_true_eq] at hwritten
  exact ⟨tid, e, row, List.mem_of_find?_eq_some hfind, .inl hwritten.2⟩

/-- In every run, the transactions that versions, tombstones or index entries of the store name
are among those that were flushed or whose id a direct save borrowed: what a transaction stages
stays out of the store until its commit. -/
theorem named_transactions_wrote {spi : Spi} {tr : Trace} {w : World}
    (hrun : PluginRun spi AnyStep tr w) :
    { t | t ≠ "" ∧ carries t w.sys.factory } ⊆
      { t | ∃ ev ∈ tr, savesAs t ev.action = true ∨ flushes t ev = true } := by
  rintro t ⟨ht, hcarries⟩
  obtain ⟨tid, e, row, hrow, hc⟩ := carries_row (factoryInv_of_run hrun).index hcarries
  exact written_of_run hrun ht hrow hc

/-- One transaction commits a save; another is rolled back while its commit waits. -/
def commitAndRollback : List Action :=
  [begin "A" "t" 1,
    begin "A" "u" 1,
    inTx "A" "t" (.save (entity "e" [1])) [],
    inTx "A" "u" (.save (entity "e'" [1])) [],
    commitMark 0 "A" "t",
    .rollbackMark 1 (some "A") "u",
    commitMark 2 "A" "u",
    .commitCheck 0,
    .commitApply 0 ["e"] [],
    .rollbackFinish 1,
    .commitFinish 0 []]

theorem named_transactions_wrote_commitAndRollback :
    ∃ tr w, PluginRun Sample.spi AnyStep tr w ∧ carries "t" w.sys.factory ∧
      ∃ ev ∈ tr, flushes "t" ev = true := by
  obtain ⟨tr, w, hrun, hcheck⟩ := exists_run_any Sample.spi
    (fun tr w => (w.sys.factory.versions "A" "e").any (fun row => row.transactionID = "t") &&
      tr.all fun ev => !savesAs "t" ev.action) commitAndRollback (by decide)
  simp only [Bool.and_eq_true, List.any_eq_true, List.all_eq_true, Bool.not_eq_true',
    decide_eq_true_eq] at hcheck
  obtain ⟨⟨row, hrow, hid⟩, hborrow⟩ := hcheck
  have hcarries : carries "t" w.sys.factory := .inl ⟨"A", "e", row, hrow, .inl hid⟩
  obtain ⟨ev, hev, hwrote⟩ := named_transactions_wrote hrun ⟨by decide, hcarries⟩
  refine ⟨tr, w, hrun, hcarries, ev, hev, hwrote.resolve_left fun hsaves => ?_⟩
  cases (hborrow ev hev).symm.trans hsaves

/-- The empty id is no transaction's. -/
theorem ne_empty_of_run (h : PluginRun spi allowed tr w) (hget : w.sys.txs.get t = some tx) :
    t ≠ "" := by
  induction h generalizing tx with
  | nil => cases hget
  | @cons tr x y r a hrun ha hs ih =>
    cases hold : x.sys.txs.get t with
    | some tx0 => exact ih hold
    | none =>
      obtain ⟨user, now, rfl⟩ := (stepped_of_step hs).begins hold hget
      cases stepped_of_step hs with
      | manage hmay =>
        simp only [World.mayManage, Bool.and_eq_true, decide_eq_true_eq] at hmay
        exact hmay.1

/-! ## Events of a transaction and the store -/

def ManagerCall.txID : ManagerCall → TxID
  | .begin txID _ => txID
  | .join txID => txID
  | .getSubmitTime txID => txID
  | .savepoint txID _ => txID
  | .rollbackToSavepoint txID _ => txID
  | .releaseSavepoint txID _ => txID

/-- The action is a section of a call on the transaction `t`. -/
def actsFor (t : TxID) (w : World) : Action → Bool
  | .manage _ call => call.txID = t
  | .store _ ctx _ _ _ => ctx.tx = some t
  | .task _ => false
  | .commitMark _ _ txID => txID = t
  | .commitCheck c =>
    match w.waiting.get c with
    | some (.commit txID _) => txID = t
    | _ => false
  | .commitApply _ _ _ => w.inside.any fun i => i.txID = t
  | .commitFinish _ _ => w.inside.any fun i => i.txID = t
  | .rollbackMark _ _ txID => txID = t
  | .rollbackFinish c =>
    match w.waiting.get c with
    | some (.rollback txID) => txID = t
    | _ => false

/-- The only section of a call on a transaction that touches the store is its flush. -/
theorem Stepped.factory_of_actsFor (h : Stepped spi w a r w') (hacts : actsFor t w a = true)
    (hflush : flushes t ⟨w, a, r, w'⟩ = false) : w'.sys.factory = w.sys.factory := by
  cases h with
  | manage hmay => exact (manage_effect _ hmay).factory
  | direct _ htx => simp [actsFor, htx] at hacts
  | inTx _ _ hget hmay => exact (inTx_effect _ _ hget hmay).factory
  | task => simp [actsFor] at hacts
  | flushed hin =>
    simp only [actsFor, hin] at hacts
    simp [flushes, hin] at hflush hacts
    exact absurd hacts hflush
  | _ => rfl

/-! ## What a successful commit applied -/

/-- `f'` is `f` with everything the transaction staged: the rows of every buffered save,
a tombstone for every delete, the claims of the final saves and the scheduled-task
operations in order. -/
structure Applied (spi : Spi) (t : TxID) (tx : TransactionState) (captured : Captured)
    (committer : WriteAttribution) (stamp : Time) (f f' : StoreFactory) : Prop where
  saves : ∀ e entity, tx.buffer.get e = some entity →
    f'.versions tx.tenantID e = f.versions tx.tenantID e ++
      rowsFor t tx.tenantID stamp (captured.superseded.getD e []) entity (f.versions tx.tenantID e)
  tombstones : ∀ e ∈ tx.deletes, f'.versions tx.tenantID e = f.versions tx.tenantID e ++
    [tombstone (baseVersion (f.versions tx.tenantID e) + 1) t stamp
      (tx.deleteAttribution.getD e committer)]
  claims : ∀ e entity, tx.buffer.get e = some entity →
    ∃ claims, spi.computeClaims (captured.keys.getD e []) entity.data = some claims ∧
      f'.claimsByEntity.getD ⟨tx.tenantID, e⟩ [] =
        claims.map (claimKey tx.tenantID entity.info.modelRef) ∧
      ∀ c ∈ claims, f'.uniqueClaims.get
        (claimKey tx.tenantID entity.info.modelRef c) = some e
  released : ∀ e ∈ tx.deletes, f'.claimsByEntity.getD ⟨tx.tenantID, e⟩ [] = []
  scheduledTasks : f'.scheduledTasks =
    captured.scheduledTaskOps.foldl applyScheduledTaskOp f.scheduledTasks

theorem scheduledTasks_flushEntity (txID : TxID) (tid : TenantID) (stamp : Time)
    (superseded : GoMap EntityID (List Entity)) (claims : GoMap EntityID (List UniqueClaim))
    (f : StoreFactory) (kv : EntityID × Entity) :
    (f.flushEntity txID tid stamp superseded claims kv).scheduledTasks = f.scheduledTasks := by
  unfold flushEntity
  dsimp only
  rw [scheduledTasks_insertClaims]
  exact scheduledTasks_recordTxIndex _ _ _ _ _

theorem scheduledTasks_flush (txID : TxID) (tx : TransactionState) (committer : WriteAttribution)
    (captured : Captured) (claims : GoMap EntityID (List UniqueClaim)) (stamp : Time)
    (bufferOrder deleteOrder : List EntityID) (f : StoreFactory) :
    (f.flush txID tx committer captured claims stamp bufferOrder deleteOrder).scheduledTasks =
      captured.scheduledTaskOps.foldl applyScheduledTaskOp f.scheduledTasks := by
  have hreleased : (deleteOrder.foldl (fun f id => f.releaseClaims tx.tenantID id)
      f).scheduledTasks = f.scheduledTasks :=
    List.foldlRecOn (motive := fun f' : StoreFactory => f'.scheduledTasks = f.scheduledTasks)
      deleteOrder _ rfl
      fun f' hf id _ => hf
  have hwritten := List.foldlRecOn
    (motive := fun f' : StoreFactory => f'.scheduledTasks = f.scheduledTasks)
    (tx.buffer.inOrder bufferOrder)
    (flushEntity txID tx.tenantID stamp captured.superseded claims) hreleased
    fun f' hf kv _ => (scheduledTasks_flushEntity _ _ _ _ _ f' kv).trans hf
  have hdone := List.foldlRecOn
    (motive := fun f' : StoreFactory => f'.scheduledTasks = f.scheduledTasks)
    deleteOrder (flushDelete txID tx.tenantID stamp tx.deleteAttribution committer)
    hwritten fun f' hf id _ => hf
  unfold flush
  dsimp only
  rw [hdone]

theorem applied_flush {f : StoreFactory} {captured : Captured}
    {claims : GoMap EntityID (List UniqueClaim)} {bufferOrder deleteOrder : List EntityID}
    (txID : TxID) (committer : WriteAttribution) (stamp : Time) (hinv : f.claimTable.Inverse)
    (hkept : WellKept tx.buffer tx.deletes) (hbuf : bufferOrder.Perm tx.buffer.keys)
    (hnodup : deleteOrder.Nodup) (hdel : deleteOrder.toFinset = tx.deletes)
    (hval : validateClaims spi f tx.tenantID tx.deletes captured.keys
      (tx.buffer.inOrder (tx.buffer.keys.insertionSort (· ≤ ·))) ∅ ∅ = .ok claims) :
    Applied spi txID tx captured committer stamp f
      (f.flush txID tx committer captured claims stamp bufferOrder deleteOrder) := by
  have hmemDel : ∀ e, e ∈ deleteOrder ↔ e ∈ tx.deletes := fun e => by
    rw [← hdel, List.mem_toFinset]
  have hinv' : (f.flush txID tx committer captured claims stamp bufferOrder
      deleteOrder).claimTable.Inverse := by
    rw [claimTable_flush]
    exact (hinv.releaseAll _).reassignAll (assignable_flush hinv hbuf hdel hval)
  refine ⟨?_, ?_, ?_, ?_, scheduledTasks_flush _ _ _ _ _ _ _ _ _⟩
  · intro e entity hget
    have hnot : e ∉ deleteOrder := fun hd =>
      hkept.disjoint e ((hmemDel e).mp hd) (GoMap.mem_keys_of_get hget)
    exact versions_flush_buffered _ _ _ hbuf hget hnot
  · intro e he
    exact versions_flush_deleted _ _ _ hbuf hnodup ((hmemDel e).mpr he) (hkept.disjoint e he)
  · intro e entity hget
    have hheld := held_flush_buffered (f := f) txID committer captured claims stamp deleteOrder hbuf hget
    refine ⟨claims.getD e [], validated_of_flush hval hget, hheld, ?_⟩
    intro c hc
    have howner := (hinv' (claimKey tx.tenantID entity.info.modelRef c)
      ⟨tx.tenantID, e⟩).mpr (hheld ▸ List.mem_map_of_mem hc)
    obtain ⟨holder, hholder, heq⟩ := Option.map_eq_some_iff.mp howner
    rw [hholder, (EntityTenantKey.mk.inj heq).2]
  · intro e he
    have hheld := held_flush_of_notMem (f := f) txID committer captured claims stamp deleteOrder hbuf
      (.inr (hkept.disjoint e he) : tx.tenantID ≠ tx.tenantID ∨ e ∉ tx.buffer.keys)
    rw [if_pos ⟨rfl, (hmemDel e).mpr he⟩] at hheld
    exact hheld

/-- The record of a run holds a conflict check of `t` and a flush that applied what was
staged at that check. -/
def CommitApplied (spi : Spi) (t : TxID) (tr : Trace) : Prop :=
  ∃ check ∈ tr, ∃ flush ∈ tr, ∃ c committer tx stamp, check.action = .commitCheck c ∧
    check.before.waiting.get c = some (.commit t committer) ∧
    check.before.sys.txs.get t = some tx ∧ flushes t flush = true ∧
    Applied spi t tx (capture check.before.sys.tm t) committer stamp
      flush.before.sys.factory flush.after.sys.factory

theorem CommitApplied.mono {tr' : Trace} (h : CommitApplied spi t tr) (hsub : ∀ ev ∈ tr, ev ∈ tr') :
    CommitApplied spi t tr' := by
  obtain ⟨check, hcheck, flush, hflush, hrest⟩ := h
  exact ⟨check, hsub check hcheck, flush, hsub flush hflush, hrest⟩

/-- What the record knows about the commit inside. -/
structure Tracked (spi : Spi) (tr : Trace) (w : World) : Prop where
  checked : ∀ i captured, w.inside = some i → i.stage = .checked captured →
    ∃ check ∈ tr, check.action = .commitCheck i.call ∧
      check.before.waiting.get i.call = some (.commit i.txID i.committer) ∧
      captured = capture check.before.sys.tm i.txID ∧
      w.sys.txs.get i.txID = check.before.sys.txs.get i.txID
  flushed : ∀ i stamp, w.inside = some i → i.stage = .flushed stamp → CommitApplied spi i.txID tr

theorem Stepped.tracked (h : Stepped spi w a r w') (hpend : Pending w) (hst : Staging w.sys)
    (hinv : w.sys.factory.claimTable.Inverse) (ht : Tracked spi tr w) :
    Tracked spi (⟨w, a, r, w'⟩ :: tr) w' := by
  refine ⟨?_, ?_⟩
  · intro i captured hin hstage
    cases hw : w.inside with
    | some i0 =>
      have hsame := h.sameTx hw hin (hpend.record i0.call i0.txID (.inr ⟨i0, hw, rfl, rfl⟩))
      rcases h.stillInside hw hin with rfl | ⟨stamp, rfl⟩
      · obtain ⟨check, hcheck, hact, hwait, hcap, hrec⟩ := ht.checked i captured hw hstage
        exact ⟨check, List.mem_cons_of_mem _ hcheck, hact, hwait, hcap, hsame.record.trans hrec⟩
      · cases hstage
    | none =>
      obtain ⟨rfl, hcaptured, hsys, hwait⟩ := h.enters hw hin
      obtain rfl := CommitStage.checked.inj (hcaptured.symm.trans hstage)
      exact ⟨_, List.mem_cons_self, rfl, hwait, rfl, by rw [hsys]⟩
  · intro i stamp hin hstage
    cases hw : w.inside with
    | none =>
      obtain ⟨-, hcaptured, -, -⟩ := h.enters hw hin
      cases hcaptured.symm.trans hstage
    | some i0 =>
      have hold : i = i0 → CommitApplied spi i.txID (⟨w, a, r, w'⟩ :: tr) := by
        rintro rfl
        exact (ht.flushed i stamp hw hstage).mono fun _ hev => List.mem_cons_of_mem _ hev
      cases h with
      | @flushed i1 captured tx clock bufferOrder deleteOrder claims hin1 hstage1 hget hbuf hnodup
          hdel hval =>
          cases hin
          obtain ⟨check, hcheck, hact, hwait, hcap, hrec⟩ := ht.checked i1 captured hin1 hstage1
          subst hcap
          refine ⟨check, List.mem_cons_of_mem _ hcheck, _, List.mem_cons_self, i1.call,
            i1.committer, tx, (w.sys.tm.nextSubmitTime clock).1, hact, hwait, hrec ▸ hget,
            by simp [flushes, hin1], ?_⟩
          exact applied_flush _ _ _ hinv (hst.records _ _ hget) hbuf hnodup hdel hval
      | checked _ hfree => cases hfree.symm.trans hw
      | aborted => cases hin
      | finished => cases hin
      | _ => exact hold (Option.some.inj (hin.symm.trans hw))

theorem tracked_of_run (h : PluginRun spi allowed tr w) : Tracked spi tr w := by
  induction h with
  | nil => exact ⟨nofun, nofun⟩
  | cons a hrun _ hs ih =>
    exact (stepped_of_step hs).tracked (pending_of_run hrun) (staging_of_run hrun)
      (inverse_of_run hrun) ih

theorem applied_of_commitsNil (hrun : PluginRun spi allowed tr w) (hev : ev ∈ tr)
    (hnil : commitsNil t ev = true) : CommitApplied spi t tr := by
  obtain ⟨newer, older, rfl, holder, -, hs⟩ := hrun.split hev
  obtain ⟨x, a, r, y⟩ := ev
  dsimp only at hs holder
  cases stepped_of_step hs with
  | @finished i stamp tx clock order hin hstage =>
    have ht : i.txID = t := by simpa [commitsNil, hin] using hnil
    subst ht
    refine ((tracked_of_run holder).flushed i stamp hin hstage).mono ?_
    intro ev' hev'
    exact List.mem_append.mpr (.inr (List.mem_cons_of_mem _ hev'))
  | _ => simp [commitsNil] at hnil

/-! ## The law -/

/-- In every run whose commits and rollbacks enter only while their transaction is open,
for every transaction `t`: at most one `Commit` or `Rollback` of `t` returns nil; if a
`Rollback` did, no section of a call on `t` ever changed the store and, unless a direct
write borrowed the id, no state of the run holds a row or an index entry of `t`; if a
`Commit` did, all that `t` had staged was applied. -/
theorem commit_rollback_exclusive (spi : Spi) :
    ∀ tr w, PluginRun spi (Passing endsOpen) tr w → ∀ t,
      (tr.filter (returnsNil t)).length ≤ 1 ∧
      ((∃ ev ∈ tr, rollsBackNil t ev = true) →
        (∀ ev ∈ tr, actsFor t ev.before ev.action = true →
          ev.after.sys.factory = ev.before.sys.factory) ∧
        ((∀ ev ∈ tr, savesAs t ev.action = false) →
          ∀ ev ∈ tr, ¬ carries t ev.after.sys.factory)) ∧
      ((∃ ev ∈ tr, commitsNil t ev = true) → CommitApplied spi t tr) := by
  intro tr w hrun t
  refine ⟨(exclusive_of_run hrun t).once, ?_, ?_⟩
  · rintro ⟨ev, hev, hnil⟩
    have hnever := not_flushes_of_rollsBackNil hrun hev hnil
    refine ⟨?_, ?_⟩
    · intro ev' hev' hacts
      obtain ⟨_, _, _, hs⟩ := hrun.of_mem hev'
      exact (stepped_of_step hs).factory_of_actsFor hacts (hnever ev' hev')
    · intro hborrow ev' hev' hcarries
      have hne : t ≠ "" := by
        obtain ⟨_, hrun0, _, hs⟩ := hrun.of_mem hev
        obtain ⟨x, a, r, y⟩ := ev
        dsimp only at hs hrun0
        cases stepped_of_step hs with
        | @rolledBack c txID tx hwait hget =>
          have ht : txID = t := by simpa [rollsBackNil, hwait] using hnil
          exact ht ▸ ne_empty_of_run hrun0 hget
        | _ => simp [rollsBackNil] at hnil
      obtain ⟨newer, older, rfl, hrun1, ha, hs⟩ := hrun.split hev'
      have hafter := Run.cons _ hrun1 ha hs
      obtain ⟨tid, e, row, hrow, hc⟩ := carries_row (factoryInv_of_run hafter).index hcarries
      obtain ⟨ev2, hev2, hsaves | hflush⟩ := written_of_run hafter hne hrow hc
      · cases (hborrow ev2 (List.mem_append.mpr (.inr hev2))).symm.trans hsaves
      · cases (hnever ev2 (List.mem_append.mpr (.inr hev2))).symm.trans hflush
  · rintro ⟨ev, hev, hnil⟩
    exact applied_of_commitsNil hrun hev hnil

theorem commit_rollback_exclusive_commitAndRollback :
    ∃ tr w, PluginRun Sample.spi (Passing endsOpen) tr w ∧ CommitApplied Sample.spi "t" tr ∧
      (tr.filter (returnsNil "t")).length ≤ 1 ∧
      ∀ ev ∈ tr, ¬ carries "u" ev.after.sys.factory := by
  obtain ⟨tr, w, hrun, hcheck⟩ := exists_run_passing Sample.spi endsOpen
    (fun tr _ => tr.any (commitsNil "t") && tr.any (rollsBackNil "u") &&
      tr.all fun ev => !savesAs "u" ev.action) commitAndRollback (by decide)
  simp only [Bool.and_eq_true, List.any_eq_true, List.all_eq_true, Bool.not_eq_true'] at hcheck
  obtain ⟨⟨hcommit, hrollback⟩, hborrow⟩ := hcheck
  obtain ⟨honce, -, happlied⟩ := commit_rollback_exclusive Sample.spi tr w hrun "t"
  obtain ⟨-, hrolled, -⟩ := commit_rollback_exclusive Sample.spi tr w hrun "u"
  exact ⟨tr, w, hrun, happlied hcommit, honce, (hrolled hrollback).2 hborrow⟩

/-- A rollback finishes between the first section of a commit and its conflict check. -/
def rollbackInsideCommit : List Action :=
  [begin "A" "t" 1,
    inTx "A" "t" (.save (entity "e" [1])) [],
    commitMark 0 "A" "t",
    .rollbackMark 1 (some "A") "t",
    .rollbackFinish 1,
    .commitCheck 0,
    .commitApply 0 ["e"] [],
    .commitFinish 0 []]

/-- Both calls return nil, and the rolled back transaction's entity is in the store. -/
theorem rollback_and_commit_both_succeed :
    ∃ tr w, PluginRun Sample.spi AnyStep tr w ∧ (∃ ev ∈ tr, rollsBackNil "t" ev = true) ∧
      (∃ ev ∈ tr, commitsNil "t" ev = true) ∧
      (w.sys.factory.versions "A" "e").map EntityVersion.transactionID = ["t"] := by
  obtain ⟨tr, w, hrun, hcheck⟩ := exists_run_any Sample.spi
    (fun tr w => tr.any (rollsBackNil "t") && tr.any (commitsNil "t") &&
      (w.sys.factory.versions "A" "e").map EntityVersion.transactionID = ["t"])
    rollbackInsideCommit (by decide)
  simp only [Bool.and_eq_true, List.any_eq_true, decide_eq_true_eq] at hcheck
  exact ⟨tr, w, hrun, hcheck.1.1, hcheck.1.2, hcheck.2⟩

end CyodaGo.Memory
