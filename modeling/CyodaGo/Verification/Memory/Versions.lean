import CyodaGo.Verification.Memory.History

/-! # Version numbers and the transaction index -/

namespace CyodaGo.Memory

open Sample

open StoreFactory

/-! ## One history -/

/-- What holds of every history: stamps do not decrease and stay below the floor, live
rows carry an entity with their own number and transaction, and live numbers increase
up to the base version. -/
structure HistoryInv (floor : Time) (vs : List EntityVersion) : Prop where
  times : vs.Pairwise fun v v' => v.submitTime ≤ v'.submitTime
  below : ∀ v ∈ vs, v.submitTime ≤ floor
  shape : ∀ v ∈ vs, v.deleted = false → ∃ e, v.entity = some e ∧ e.info.version = v.version ∧
    e.info.transactionID = v.transactionID
  numbers : ∀ v ∈ vs, v.deleted = false → v.version ≤ baseVersion vs
  increasing : vs.Pairwise fun v v' => v.deleted = false → v'.deleted = false → v.version < v'.version

theorem historyInv_nil (floor : Time) : HistoryInv floor [] := by
  constructor <;> simp

namespace HistoryInv

variable {floor stamp : Time} {vs vs' : List EntityVersion}

theorem mono (h : HistoryInv floor vs) (hle : floor ≤ stamp) : HistoryInv stamp vs :=
  { h with below := fun v hv => (h.below v hv).trans hle }

/-- A row with the stamp, whose number is beyond the base version if it is live. -/
theorem append (h : HistoryInv stamp vs) {row : EntityVersion} (htime : row.submitTime = stamp)
    (hbase : baseVersion vs ≤ baseVersion (vs ++ [row]))
    (hlive : row.deleted = false → baseVersion vs < row.version ∧
      row.version ≤ baseVersion (vs ++ [row]) ∧ ∃ e, row.entity = some e ∧
        e.info.version = row.version ∧ e.info.transactionID = row.transactionID) :
    HistoryInv stamp (vs ++ [row]) where
  times := by
    refine List.pairwise_append.mpr ⟨h.times, List.pairwise_singleton _ _, ?_⟩
    intro v hv v' hv'
    rw [List.mem_singleton.mp hv', htime]
    exact h.below v hv
  below := by
    intro v hv
    rcases List.mem_append.mp hv with hv | hv
    · exact h.below v hv
    · rw [List.mem_singleton.mp hv, htime]
  shape := by
    intro v hv hdel
    rcases List.mem_append.mp hv with hv | hv
    · exact h.shape v hv hdel
    obtain rfl := List.mem_singleton.mp hv
    exact (hlive hdel).2.2
  numbers := by
    intro v hv hdel
    rcases List.mem_append.mp hv with hv | hv
    · exact (h.numbers v hv hdel).trans hbase
    obtain rfl := List.mem_singleton.mp hv
    exact (hlive hdel).2.1
  increasing := by
    refine List.pairwise_append.mpr ⟨h.increasing, List.pairwise_singleton _ _, ?_⟩
    intro v hv v' hv' hdel hdel'
    obtain rfl := List.mem_singleton.mp hv'
    exact (h.numbers v hv hdel).trans_lt (hlive hdel').1

theorem append_live (h : HistoryInv stamp vs) {row : EntityVersion} {e : Entity}
    (hrow : LiveRow stamp vs row e) : HistoryInv stamp (vs ++ [row]) := by
  have hbase : baseVersion (vs ++ [row]) = row.version :=
    (baseVersion_append_live hrow.deleted hrow.entity).trans hrow.version
  have hnumber := hrow.number
  exact h.append hrow.submitTime (by omega) fun _ =>
    ⟨by omega, hbase.ge, e, hrow.entity, hrow.version, hrow.transactionID⟩

theorem append_tombstone (h : HistoryInv stamp vs) {row : EntityVersion}
    (hrow : TombstoneRow stamp vs row) : HistoryInv stamp (vs ++ [row]) :=
  h.append hrow.submitTime (baseVersion_append_deleted hrow.deleted).ge fun hlive =>
    absurd hrow.deleted (by simp [hlive])

theorem of_extends (h : HistoryInv floor vs) (hlt : floor ≤ stamp) {b : Bool}
    (hext : Extends stamp vs b vs') : HistoryInv stamp vs' := by
  induction hext with
  | refl => exact h.mono hlt
  | live _ hrow ih => exact ih.append_live hrow
  | tombstone _ hrow ih => exact ih.append_tombstone hrow

end HistoryInv

variable {spi : Spi} {allowed : Trace → World → Action → Prop} {tr : Trace} {w : World}
  {floor : Time} {vs : List EntityVersion} {f' : StoreFactory} {tid : TenantID} {a : Action}

theorem historyInv_of_run (h : PluginRun spi allowed tr w) (t : TenantID) (e : EntityID) :
    HistoryInv w.sys.tm.lastSubmitTime (w.sys.factory.versions t e) := by
  refine h.inv (I := fun _ w => HistoryInv w.sys.tm.lastSubmitTime (w.sys.factory.versions t e))
    (historyInv_nil _) ?_
  intro tr w a r w' hinv _ hs
  have hstep := stepped_of_step hs
  cases hstep.history t e with
  | same hsame =>
    rw [hsame]
    exact hinv.mono hstep.txChange.floor
  | grown hfloor hext _ => exact hinv.of_extends hfloor.le hext

/-! ## Numbers without gaps in uniqueness -/

/-- A live row written by `txID`. -/
def writtenBy (txID : TxID) (v : EntityVersion) : Bool := !v.deleted && v.transactionID = txID

/-- The index names, for every transaction, the number of the earliest live row it
wrote; the empty id is never indexed. -/
def IndexLaw (f : StoreFactory) : Prop :=
  ∀ t e txID, f.txIndex.get (t, e, txID) =
    if txID = "" then none else ((f.versions t e).find? (writtenBy txID)).map EntityVersion.version

theorem IndexLaw.congr {f : StoreFactory} (h : IndexLaw f)
    (hv : ∀ t e, f'.versions t e = f.versions t e) (hi : f'.txIndex = f.txIndex) : IndexLaw f' := by
  intro t e txID
  rw [hi, hv]
  exact h t e txID

theorem IndexLaw.append_tombstone {f : StoreFactory} (h : IndexLaw f) (tid : TenantID)
    (eid : EntityID) (row : EntityVersion) (hdel : row.deleted = true)
    (hv : ∀ t e, f'.versions t e =
      if t = tid ∧ e = eid then f.versions tid eid ++ [row] else f.versions t e)
    (hi : f'.txIndex = f.txIndex) : IndexLaw f' := by
  intro t e txID
  rw [hi, h t e txID, hv]
  split
  · rfl
  split
  · rename_i heq
    obtain ⟨rfl, rfl⟩ := heq
    simp [List.find?_append, writtenBy, hdel]
  · rfl

theorem IndexLaw.append_live {f : StoreFactory} (h : IndexLaw f) {eid : EntityID} {txID : TxID}
    (row : EntityVersion) (rows : List EntityVersion) (hinv : HistoryInv floor (f.versions tid eid))
    (hrows : ∀ v ∈ row :: rows, v.deleted = false ∧ v.transactionID = txID)
    (hnum : row.version = baseVersion (f.versions tid eid) + 1)
    (hv : ∀ t e, f'.versions t e =
      if t = tid ∧ e = eid then f.versions tid eid ++ row :: rows else f.versions t e)
    (hi : ∀ key, f'.txIndex.get key =
      (f.recordTxIndex tid eid txID (baseVersion (f.versions tid eid) + 1)).txIndex.get key) :
    IndexLaw f' := by
  intro t e txID'
  rw [hi, txIndex_recordTxIndex, h t e txID', hv]
  by_cases heq : t = tid ∧ e = eid
  · obtain ⟨rfl, rfl⟩ := heq
    by_cases htx : txID' = txID
    · subst htx
      by_cases hempty : txID' = ""
      · simp [hempty]
      obtain ⟨hdel, htxrow⟩ := hrows row (by simp)
      have hwritten : writtenBy txID' row = true := by simp [writtenBy, hdel, htxrow]
      cases hfind : (f.versions t e).find? (writtenBy txID') with
      | none => simp [hempty, hfind, hwritten, hnum, List.find?_append]
      | some v =>
        have hmem := List.mem_of_find?_eq_some hfind
        have hlive : v.deleted = false := by
          have := List.find?_some hfind
          simp only [writtenBy, Bool.and_eq_true, Bool.not_eq_true', decide_eq_true_eq] at this
          exact this.1
        have hle : v.version ≤ baseVersion (f.versions t e) + 1 := by
          have := hinv.numbers v hmem hlive
          omega
        simp [hempty, hfind, List.find?_append, Option.filter, hle]
    · have hnone : (row :: rows).find? (writtenBy txID') = none := by
        rw [List.find?_eq_none]
        intro v hv
        simp [writtenBy, (hrows v hv).2, Ne.symm htx]
      simp [htx, List.find?_append, hnone]
  · have hkey : ¬ ((t, e, txID') = (tid, eid, txID) ∧ txID ≠ "") := by
      rintro ⟨hk, -⟩
      simp only [Prod.mk.injEq] at hk
      exact heq ⟨hk.1, hk.2.1⟩
    rw [if_neg hkey, if_neg heq]

theorem IndexLaw.writeDeleted {f : StoreFactory} (h : IndexLaw f) (tid : TenantID) (eid : EntityID)
    (version : Int) (now : Time) (a : WriteAttribution) :
    IndexLaw (f.writeDeleted tid eid version now a) :=
  h.append_tombstone tid eid (tombstone version "" now a) rfl
    (versions_writeDeleted f tid eid version now a) rfl

theorem IndexLaw.writeSaved {f : StoreFactory} (h : IndexLaw f) {entity : Entity}
    (hinv : HistoryInv floor (f.versions tid entity.info.id)) (now creationDate : Time)
    (claims : List UniqueClaim) :
    IndexLaw (f.writeSaved tid entity (baseVersion (f.versions tid entity.info.id) + 1) now
      creationDate claims) := by
  refine h.append_live _ [] hinv ?_ rfl (versions_writeSaved f tid entity _ now creationDate claims)
    (txIndex_writeSaved f tid entity _ now creationDate claims)
  intro v hv
  rw [List.mem_singleton.mp hv]
  exact ⟨rfl, rfl⟩

/-- The two laws of the factory together; the index law needs the numbers. -/
structure FactoryInv (floor : Time) (f : StoreFactory) : Prop where
  history : ∀ t e, HistoryInv floor (f.versions t e)
  index : IndexLaw f

namespace FactoryInv

variable {floor stamp : Time} {f : StoreFactory} {txID : TxID} {tid : TenantID}

theorem flushRows_spec {creationDate : Time} {base : Int} {hasPrior : Bool} {staged : List Entity} :
    ∀ v ∈ flushRows txID tid stamp creationDate base hasPrior staged,
      v.deleted = false ∧ v.transactionID = txID := by
  induction staged generalizing base hasPrior with
  | nil => simp [flushRows]
  | cons e staged ih =>
    intro v hv
    rw [flushRows, List.mem_cons] at hv
    rcases hv with rfl | hv
    · exact ⟨rfl, rfl⟩
    · exact ih v hv

theorem flushEntity (h : FactoryInv stamp f) (superseded : GoMap EntityID (List Entity))
    (claims : GoMap EntityID (List UniqueClaim)) (kv : EntityID × Entity) :
    FactoryInv stamp (f.flushEntity txID tid stamp superseded claims kv) := by
  refine ⟨?_, ?_⟩
  · intro t e
    rw [versions_flushEntity]
    split
    · exact (h.history tid kv.1).of_extends le_rfl (extends_flushRows _ _ _ _ _ _ .refl)
    · exact h.history t e
  · obtain ⟨row, rows, hrows⟩ : ∃ row rows, rowsFor txID tid stamp (superseded.getD kv.1 []) kv.2
        (f.versions tid kv.1) = row :: rows := by
      refine List.exists_cons_of_ne_nil ?_
      simp [rowsFor, flushRows_eq_nil]
    have hspec : ∀ v ∈ row :: rows, v.deleted = false ∧ v.transactionID = txID := by
      rw [← hrows]
      exact flushRows_spec
    have hnum : row.version = baseVersion (f.versions tid kv.1) + 1 := by
      cases hsup : superseded.getD kv.1 [] with
      | nil =>
        rw [hsup] at hrows
        simp only [rowsFor, List.nil_append, flushRows, List.cons.injEq] at hrows
        rw [← hrows.1]
        rfl
      | cons e es =>
        rw [hsup] at hrows
        simp only [rowsFor, List.cons_append, flushRows, List.cons.injEq] at hrows
        rw [← hrows.1]
        rfl
    refine h.index.append_live row rows (h.history tid kv.1) hspec hnum ?_ ?_
    · intro t e
      rw [versions_flushEntity, hrows]
    · intro key
      simp only [StoreFactory.flushEntity, txIndex_insertClaims,
        txIndex_releaseClaims, txIndex_recordTxIndex,
        txIndex_setVersions]

theorem flushDelete (h : FactoryInv stamp f) (attributions : GoMap EntityID WriteAttribution)
    (committer : WriteAttribution) (eid : EntityID) :
    FactoryInv stamp (f.flushDelete txID tid stamp attributions committer eid) := by
  refine ⟨?_, h.index.append_tombstone tid eid _ rfl
    (versions_flushDelete attributions committer eid) rfl⟩
  intro t e
  rw [versions_flushDelete]
  split
  · exact (h.history tid eid).append_tombstone (tombstoneRow_tombstone _ _ _ _)
  · exact h.history t e

theorem flush (h : FactoryInv stamp f) (tx : TransactionState) (committer : WriteAttribution)
    (captured : Captured) (claims : GoMap EntityID (List UniqueClaim))
    (bufferOrder deleteOrder : List EntityID) :
    FactoryInv stamp (f.flush txID tx committer captured claims stamp bufferOrder deleteOrder) := by
  have hreleased : FactoryInv stamp
      (deleteOrder.foldl (fun f id => f.releaseClaims tx.tenantID id) f) :=
    List.foldlRecOn deleteOrder _ h fun f hf id _ =>
      ⟨hf.history, hf.index.congr (fun _ _ => rfl) rfl⟩
  have hwritten := List.foldlRecOn (tx.buffer.inOrder bufferOrder)
    (StoreFactory.flushEntity txID tx.tenantID stamp captured.superseded claims) hreleased
    fun f hf kv _ => hf.flushEntity captured.superseded claims kv
  have hdone := List.foldlRecOn deleteOrder
    (StoreFactory.flushDelete txID tx.tenantID stamp tx.deleteAttribution committer) hwritten
    fun f hf id _ => hf.flushDelete tx.deleteAttribution committer id
  exact ⟨hdone.history, hdone.index.congr (fun _ _ => rfl) rfl⟩

theorem swept_index {now : Time} {a : WriteAttribution} {f' : StoreFactory}
    (h : Swept tid now a f f') (hindex : IndexLaw f) : IndexLaw f' := by
  induction h with
  | refl => exact hindex
  | delete eid version _ ih => exact ih.writeDeleted tid eid version now a

theorem direct_index {spi : Spi} {s s' : System} {ctx : Ctx} {clock : Time} {call : StoreCall}
    {r : Outcome Value} (hinv : FactoryInv floor s.factory)
    (h : DirectSpec spi s tid ctx clock call r s') : IndexLaw s'.factory := by
  cases h with
  | kept _ _ h =>
    subst h
    exact hinv.index.congr (fun _ _ => rfl) rfl
  | saved _ _ _ _ h =>
    subst h
    exact hinv.index.writeSaved (hinv.history tid _) _ _ _
  | swept _ hswept h =>
    subst h
    exact swept_index hswept hinv.index

end FactoryInv

theorem Stepped.index {w' : World} {r : Result} (h : Stepped spi w a r w')
    (hinv : FactoryInv w.sys.tm.lastSubmitTime w.sys.factory) :
    IndexLaw w'.sys.factory := by
  cases h with
  | manage hmay =>
    simp only [(manage_effect _ hmay).factory]
    exact hinv.index
  | direct => exact hinv.direct_index (storeDirect_spec _ _)
  | inTx horder htx hget hmay =>
    simp only [(inTx_effect _ _ hget hmay).factory]
    exact hinv.index
  | task =>
    obtain ⟨tasks, htasks⟩ := task_factory w.sys _
    rw [htasks]
    exact hinv.index.congr (fun _ _ => rfl) rfl
  | @flushed i captured tx clock =>
    have hmono : FactoryInv (w.sys.tm.nextSubmitTime clock).1 w.sys.factory :=
      ⟨fun t e => (hinv.history t e).mono (lt_nextSubmitTime w.sys.tm clock).le, hinv.index⟩
    exact (hmono.flush _ _ _ _ _ _).index
  | _ => exact hinv.index

theorem factoryInv_of_run (h : PluginRun spi allowed tr w) :
    FactoryInv w.sys.tm.lastSubmitTime w.sys.factory := by
  refine ⟨historyInv_of_run h, ?_⟩
  induction h with
  | nil =>
    intro t e txID
    simp [World.init, System.empty, empty, versions,
      tenantData]
  | cons a hrun _ hs ih => exact (stepped_of_step hs).index ⟨historyInv_of_run hrun, ih⟩

/-! ## The history law -/

theorem insideTx_eq_some {i : Inside} {tx : TransactionState} (hin : w.inside = some i)
    (hget : w.sys.txs.get i.txID = some tx) : w.insideTx = some tx := by
  simp [World.insideTx, hin, hget]

end CyodaGo.Memory
