import CyodaGo.Verification.Memory.Versions

/-! # What transactions stage

Staged entities are kept under their own id, and no entity is both buffered and
marked for deletion. Committed rows inherit the first fact. -/

namespace CyodaGo.Memory

open Memory.System

structure WellKept (buffer : GoMap EntityID Entity) (deletes : Finset EntityID) : Prop where
  ids : ∀ eid e, buffer.get eid = some e → e.info.id = eid
  disjoint : ∀ eid ∈ deletes, eid ∉ buffer.keys

structure Staging (s : System) : Prop where
  records : ∀ t tx, s.txs.get t = some tx → WellKept tx.buffer tx.deletes
  snapshots : ∀ t spID snap, (s.tm.savepoints.getD t ∅).get spID = some snap →
    WellKept snap.buffer snap.deletes
  superseded : ∀ t eid, ∀ e ∈ (s.tm.supersededSaves.getD t ∅).getD eid [], e.info.id = eid

theorem staging_empty : Staging empty :=
  ⟨by simp [empty], by simp [empty, TransactionManager.empty],
    by simp [empty, TransactionManager.empty]⟩

theorem wellKept_empty : WellKept ∅ ∅ := ⟨by simp, by simp⟩

/-! ## Records -/

open GoMap

theorem WellKept.save {buffer : GoMap EntityID Entity} {deletes : Finset EntityID}
    (h : WellKept buffer deletes) {e : Entity} (hnot : e.info.id ∉ deletes) :
    WellKept (buffer.set e.info.id e) deletes where
  ids := by
    intro eid e' hget
    by_cases heq : eid = e.info.id
    · subst heq
      simp only [get_set_self, Option.some.injEq] at hget
      rw [← hget]
    · rw [get_set_of_ne _ _ heq] at hget
      exact h.ids eid e' hget
  disjoint := by
    intro eid hmem
    rw [mem_keys_set]
    rintro (rfl | hkey)
    · exact hnot hmem
    · exact h.disjoint eid hmem hkey

theorem WellKept.unstage {buffer : GoMap EntityID Entity} {deletes : Finset EntityID}
    (h : WellKept buffer deletes) (id : EntityID) : WellKept buffer (deletes.erase id) :=
  ⟨h.ids, fun eid hmem => h.disjoint eid (Finset.mem_of_mem_erase hmem)⟩

variable {tx : TransactionState} {s : System} {spi : Spi} {w : World}
  {allowed : Trace → World → Action → Prop} {tid : TenantID} {txID : TxID} {stamp : Time}

theorem wellKept_stageDelete (h : WellKept tx.buffer tx.deletes) (id : EntityID)
    (a : WriteAttribution) :
    WellKept (stageDelete tx id a).buffer (stageDelete tx id a).deletes where
  ids := by
    intro eid e hget
    simp only [stageDelete, get_del] at hget
    split at hget
    · cases hget
    · exact h.ids eid e hget
  disjoint := by
    intro eid hmem
    simp only [stageDelete, Finset.mem_insert] at hmem
    simp only [stageDelete, mem_keys_del, not_and]
    rcases hmem with rfl | hmem
    · exact fun hne => absurd rfl hne
    · exact fun _ => h.disjoint eid hmem

theorem wellKept_foldl_stageDelete {β : Type} (key : β → EntityID) (a : WriteAttribution)
    (bs : List β) (h : WellKept tx.buffer tx.deletes) :
    WellKept (bs.foldl (fun tx b => stageDelete tx (key b) a) tx).buffer
      (bs.foldl (fun tx b => stageDelete tx (key b) a) tx).deletes := by
  induction bs generalizing tx with
  | nil => exact h
  | cons b bs ih => exact ih (wellKept_stageDelete h (key b) a)

namespace Staging

variable {s : System} {txID : TxID} {tx : TransactionState}

theorem setTx (h : Staging s) (hkept : WellKept tx.buffer tx.deletes) :
    Staging (s.setTx txID tx) where
  records := by
    intro t rec hget
    simp only [System.setTx, get_set] at hget
    split at hget
    · cases hget
      exact hkept
    · exact h.records t rec hget
  snapshots := h.snapshots
  superseded := h.superseded

theorem superseded_stage (h : Staging s) {eid : EntityID} {prior : Option Entity}
    (hprior : ∀ e, prior = some e → e.info.id = eid) (t : TxID) (eid' : EntityID) :
    ∀ e ∈ ((s.tm.stageSuperseded txID eid prior).supersededSaves.getD t ∅).getD eid' [],
      e.info.id = eid' := by
  cases prior with
  | none => exact h.superseded t eid'
  | some prior =>
    intro e he
    simp only [TransactionManager.stageSuperseded, getD_set] at he
    split at he
    · rw [getD_set] at he
      split at he
      · rename_i heq
        subst heq
        rcases List.mem_append.mp he with he | he
        · exact h.superseded txID eid' e he
        rw [List.mem_singleton.mp he]
        exact hprior prior rfl
      · exact h.superseded txID eid' e he
    · exact h.superseded t eid' e he

theorem bufferEntity (h : Staging s) (hkept : WellKept tx.buffer tx.deletes) {entity : Entity}
    (hnot : entity.info.id ∉ tx.deletes) (keys : List UniqueKey) :
    Staging (s.bufferEntity txID tx entity keys) where
  records := by
    intro t rec hget
    simp only [System.bufferEntity, get_set] at hget
    split at hget
    · cases hget
      exact hkept.save (e := { entity with info := { entity.info with transactionID := txID } }) hnot
    · exact h.records t rec hget
  snapshots := by
    intro t spID snap hget
    refine h.snapshots t spID snap ?_
    rw [← hget]
    cases hb : tx.buffer.get entity.info.id <;>
      simp [System.bufferEntity, TransactionManager.recordUniqueKeys,
        TransactionManager.stageSuperseded, hb]
  superseded := h.superseded_stage fun e he => hkept.ids _ e he

theorem storeTx (h : Staging s) (hget : s.txs.get txID = some tx) (spi : Spi) (tid : TenantID)
    (ctx : Ctx) (order : List EntityID) (call : StoreCall) :
    Staging (s.storeTx spi tid ctx txID tx order call).2 := by
  have hkept := h.records txID tx hget
  cases call with
  | save entity =>
    simp only [System.storeTx, saveTx]
    split
    · exact h
    · exact h.bufferEntity (hkept.unstage entity.info.id) (Finset.notMem_erase _ _) _
  | compareAndSave entity expectedTxID =>
    simp only [System.storeTx, compareAndSaveTx]
    split
    · exact h
    split
    · exact h
    split
    · exact h
    rename_i hnot
    split
    · split
      · exact h
      · exact h.bufferEntity hkept hnot _
    · split
      · exact h
      · exact h.bufferEntity hkept hnot _
  | delete id =>
    simp only [System.storeTx, deleteTx]
    split
    · exact h
    split
    · exact h.setTx (wellKept_stageDelete hkept id _)
    · exact h
  | deleteAll modelRef =>
    simp only [System.storeTx, deleteAllTx]
    split
    · exact h
    exact h.setTx (wellKept_foldl_stageDelete id _ _
      (wellKept_foldl_stageDelete (fun e : Entity => e.info.id) _ _ hkept))
  | read op =>
    simp only [System.storeTx, recordReads]
    split
    · exact h
    · exact h.setTx hkept
  | stage op =>
    simp only [System.storeTx, stageTx]
    split
    · exact h
    · exact ⟨h.records, h.snapshots, h.superseded⟩

/-! ## Manager calls -/

theorem publish (h : Staging s) (tenant : TenantID) (snapshot : Time) :
    Staging (s.publish txID tenant snapshot) where
  records := by
    intro t rec hget
    simp only [System.publish, get_set] at hget
    split at hget
    · cases hget
      exact wellKept_empty
    · exact h.records t rec hget
  snapshots := h.snapshots
  superseded := h.superseded

theorem savepoint (h : Staging s) (user : Option TenantID) (spID : SavepointID) :
    Staging (s.savepoint user txID spID).2 := by
  unfold System.savepoint
  split
  · exact h
  rename_i rec hopen
  obtain ⟨-, hget, -, -⟩ := openTx_eq_ok hopen
  refine ⟨h.records, ?_, h.superseded⟩
  intro t spID' snap hsnap
  simp only [getD_set] at hsnap
  split at hsnap
  · rw [get_set] at hsnap
    split at hsnap
    · cases hsnap
      exact h.records txID rec hget
    · exact h.snapshots txID spID' snap hsnap
  · exact h.snapshots t spID' snap hsnap

theorem snapshots_del (h : Staging s) (spID : SavepointID) (t : TxID) (spID' : SavepointID)
    (snap : SavepointSnapshot)
    (hsnap : ((s.tm.savepoints.set txID ((s.tm.savepoints.getD txID ∅).del spID)).getD t ∅).get
      spID' = some snap) : WellKept snap.buffer snap.deletes := by
  rw [getD_set] at hsnap
  split at hsnap
  · rw [get_del] at hsnap
    split at hsnap
    · cases hsnap
    · exact h.snapshots txID spID' snap hsnap
  · exact h.snapshots t spID' snap hsnap

theorem mem_truncateSuperseded {lens : GoMap EntityID ℕ} {saves : GoMap EntityID (List Entity)}
    {eid : EntityID} {e : Entity} (h : e ∈ (truncateSuperseded lens saves).getD eid []) :
    e ∈ saves.getD eid [] := by
  unfold truncateSuperseded at h
  rw [getD, get_filterMap] at h
  cases hsaves : saves.get eid with
  | none => simp [hsaves] at h
  | some es =>
    cases hlen : lens.get eid with
    | none => simp [hsaves, hlen] at h
    | some n =>
      simp only [hsaves, hlen, Option.bind_some, Option.map_some, Option.getD_some] at h
      simpa [getD, hsaves] using List.mem_of_mem_take h

theorem rollbackToSavepoint (h : Staging s) (user : Option TenantID) (spID : SavepointID) :
    Staging (s.rollbackToSavepoint user txID spID).2 := by
  unfold System.rollbackToSavepoint
  split
  · exact h
  split
  · exact h
  rename_i snap hsnap
  refine ⟨?_, h.snapshots_del spID, ?_⟩
  · intro t rec hget
    simp only [get_set] at hget
    split at hget
    · cases hget
      exact h.snapshots txID spID snap hsnap
    · exact h.records t rec hget
  · intro t eid e he
    dsimp only at he
    split at he
    · exact h.superseded t eid e he
    rename_i saves hsaves
    rw [getD_set] at he
    split at he
    · refine h.superseded txID eid e ?_
      rw [show s.tm.supersededSaves.getD txID ∅ = saves by simp [getD, hsaves]]
      exact mem_truncateSuperseded he
    · exact h.superseded t eid e he

theorem manage (h : Staging s) (user : Option TenantID) (call : ManagerCall) :
    Staging (s.manage user call).2 := by
  cases call with
  | begin txID now =>
    simp only [System.manage, begin]
    split
    · exact h
    split
    · exact h
    · exact h.publish _ _
  | join txID => exact h
  | getSubmitTime txID => exact h
  | savepoint txID spID => exact h.savepoint user spID
  | rollbackToSavepoint txID spID => exact h.rollbackToSavepoint user spID
  | releaseSavepoint txID spID =>
    simp only [System.manage, releaseSavepoint]
    split
    · exact h
    split
    · split
      · exact h
      · exact ⟨h.records, h.snapshots_del spID, h.superseded⟩
    · exact h

/-! ## The ends of a transaction -/

theorem forget (h : Staging s) (txID : TxID) : Staging (s.forget txID) where
  records := h.records
  snapshots := by
    intro t spID snap hsnap
    simp only [System.forget, TransactionManager.forget, getD_del] at hsnap
    split at hsnap
    · simp at hsnap
    · exact h.snapshots t spID snap hsnap
  superseded := by
    intro t eid e he
    simp only [System.forget, TransactionManager.forget, getD_del] at he
    split at he
    · simp at he
    · exact h.superseded t eid e he

theorem ended (h : Staging s) (hget : s.txs.get txID = some tx) {tx' : TransactionState}
    (hbuf : tx'.buffer = tx.buffer) (hdel : tx'.deletes = tx.deletes) :
    Staging ((s.forget txID).setTx txID tx') := by
  refine (h.forget txID).setTx ?_
  rw [hbuf, hdel]
  exact h.records txID tx hget

end Staging

theorem Staging.congr {s' : System} (h : Staging s) (htxs : s'.txs = s.txs)
    (hsp : s'.tm.savepoints = s.tm.savepoints) (hsup : s'.tm.supersededSaves = s.tm.supersededSaves)
    : Staging s' :=
  ⟨htxs ▸ h.records, hsp ▸ h.snapshots, hsup ▸ h.superseded⟩

theorem Staging.direct {s' : System} (h : Staging s) (heffect : DirectEffect s s') : Staging s' :=
  h.congr heffect.txs (by rw [heffect.tm]) (by rw [heffect.tm])

theorem Stepped.staging {w' : World} {a : Action} {r : Result} (h : Stepped spi w a r w')
    (hw : Staging w.sys) : Staging w'.sys := by
  cases h with
  | manage hmay => exact hw.manage _ _
  | direct => exact hw.direct (storeDirect_effect _ _)
  | inTx horder htx hget hmay => exact hw.storeTx hget _ _ _ _ _
  | task => exact hw.direct (task_effect _ _)
  | conflict hwait hfree hget hconf => exact hw.ended hget rfl rfl
  | aborted hin hstage hget hval => exact hw.ended hget rfl rfl
  | @finished i submitTime tx _ _ hin hstage hget hnodup horder =>
    have hended : Staging ((w.sys.forget i.txID).setTx i.txID { tx with closed := true }) :=
      hw.ended hget rfl rfl
    exact hended.congr rfl rfl rfl
  | rolledBack hwait hget hfree => exact hw.ended hget rfl rfl
  | _ => exact hw.congr rfl rfl rfl

theorem staging_of_run {tr : Trace} (h : PluginRun spi allowed tr w) : Staging w.sys :=
  h.inv (I := fun _ w => Staging w.sys) staging_empty
    fun _ _ _ _ _ hw _ hs => (stepped_of_step hs).staging hw

/-! ## Committed rows -/

/-- Every committed entity stands in the history of its own id. -/
def IdRows (f : StoreFactory) : Prop :=
  ∀ t e, ∀ v ∈ f.versions t e, ∀ ent, v.entity = some ent → ent.info.id = e

theorem IdRows.append {f f' : StoreFactory} (h : IdRows f) {eid : EntityID}
    {rows : List EntityVersion}
    (hv : ∀ t e, f'.versions t e =
      if t = tid ∧ e = eid then f.versions tid eid ++ rows else f.versions t e)
    (hrows : ∀ v ∈ rows, ∀ ent, v.entity = some ent → ent.info.id = eid) : IdRows f' := by
  intro t e v hmem ent hent
  rw [hv] at hmem
  split at hmem
  · rename_i heq
    obtain ⟨rfl, rfl⟩ := heq
    rcases List.mem_append.mp hmem with hmem | hmem
    · exact h t e v hmem ent hent
    · exact hrows v hmem ent hent
  · exact h t e v hmem ent hent

theorem IdRows.writeSaved {f : StoreFactory} (h : IdRows f) (tid : TenantID) (entity : Entity)
    (version : Int) (now creationDate : Time) (claims : List UniqueClaim) :
    IdRows (f.writeSaved tid entity version now creationDate claims) := by
  refine h.append (versions_writeSaved f tid entity version now creationDate claims) ?_
  intro v hv ent hent
  rw [List.mem_singleton.mp hv] at hent
  cases hent
  rfl

theorem entity_of_mem_tombstone {version : Int} {now : Time} {a : WriteAttribution}
    {v : EntityVersion} (hv : v ∈ [tombstone version txID now a]) : v.entity = none := by
  rw [List.mem_singleton.mp hv]
  rfl

theorem IdRows.writeDeleted {f : StoreFactory} (h : IdRows f) (tid : TenantID) (eid : EntityID)
    (version : Int) (now : Time) (a : WriteAttribution) :
    IdRows (f.writeDeleted tid eid version now a) := by
  refine h.append (versions_writeDeleted f tid eid version now a) ?_
  intro v hv ent hent
  cases (entity_of_mem_tombstone hv).symm.trans hent

theorem id_of_mem_flushRows {creationDate : Time} {staged : List Entity} {eid : EntityID}
    (hids : ∀ e ∈ staged, e.info.id = eid) (base : Int) (hasPrior : Bool) :
    ∀ v ∈ flushRows txID tid stamp creationDate base hasPrior staged, ∀ ent,
      v.entity = some ent → ent.info.id = eid := by
  induction staged generalizing base hasPrior with
  | nil => simp [flushRows]
  | cons e staged ih =>
    intro v hv ent hent
    rw [flushRows, List.mem_cons] at hv
    rcases hv with rfl | hv
    · cases hent
      exact hids e (by simp)
    · exact ih (fun e he => hids e (List.mem_cons_of_mem _ he)) _ _ v hv ent hent

theorem IdRows.flushEntity {f : StoreFactory} (h : IdRows f)
    {superseded : GoMap EntityID (List Entity)} (claims : GoMap EntityID (List UniqueClaim))
    {kv : EntityID × Entity} (hsup : ∀ e ∈ superseded.getD kv.1 [], e.info.id = kv.1)
    (hkv : kv.2.info.id = kv.1) :
    IdRows (f.flushEntity txID tid stamp superseded claims kv) := by
  refine h.append (versions_flushEntity superseded claims kv) (id_of_mem_flushRows ?_ _ _)
  intro e he
  rcases List.mem_append.mp he with he | he
  · exact hsup e he
  rw [List.mem_singleton.mp he]
  exact hkv

theorem IdRows.flush {f : StoreFactory} (h : IdRows f) {committer : WriteAttribution}
    {captured : Captured} {claims : GoMap EntityID (List UniqueClaim)}
    {bufferOrder deleteOrder : List EntityID} (hkept : WellKept tx.buffer tx.deletes)
    (hsup : ∀ eid, ∀ e ∈ captured.superseded.getD eid [], e.info.id = eid) :
    IdRows (f.flush txID tx committer captured claims stamp bufferOrder deleteOrder) := by
  have hreleased : IdRows (deleteOrder.foldl (fun f id => f.releaseClaims tx.tenantID id) f) :=
    List.foldlRecOn deleteOrder _ h fun f hf id _ => hf
  have hwritten := List.foldlRecOn (tx.buffer.inOrder bufferOrder)
    (StoreFactory.flushEntity txID tx.tenantID stamp captured.superseded claims) hreleased
    fun f hf kv hkv => hf.flushEntity claims (hsup kv.1)
      (hkept.ids kv.1 kv.2 (mem_inOrder.mp hkv).2)
  have hdone := List.foldlRecOn deleteOrder
    (StoreFactory.flushDelete txID tx.tenantID stamp tx.deleteAttribution committer) hwritten
    fun f hf id _ => hf.append (versions_flushDelete tx.deleteAttribution committer id)
      fun v hv ent hent => nomatch (entity_of_mem_tombstone hv).symm.trans hent
  exact hdone

theorem IdRows.swept {now : Time} {a : WriteAttribution} {f f' : StoreFactory}
    (h : Swept tid now a f f') (hrows : IdRows f) : IdRows f' := by
  induction h with
  | refl => exact hrows
  | delete eid version _ ih => exact ih.writeDeleted tid eid version now a

theorem IdRows.direct {s' : System} {ctx : Ctx} {clock : Time} {call : StoreCall}
    {r : Outcome Value} (hrows : IdRows s.factory)
    (h : DirectSpec spi s tid ctx clock call r s') : IdRows s'.factory := by
  cases h with
  | kept _ _ h =>
    subst h
    exact hrows
  | saved _ _ _ _ h =>
    subst h
    exact hrows.writeSaved tid _ _ _ _ _
  | swept _ hswept h =>
    subst h
    exact hrows.swept hswept

/-- The ids of committed rows, and of what the commit inside captured. -/
structure RowIds (w : World) : Prop where
  rows : IdRows w.sys.factory
  captured : ∀ i captured, w.inside = some i → i.stage = .checked captured →
    ∀ eid, ∀ e ∈ captured.superseded.getD eid [], e.info.id = eid

theorem Stepped.rowIds {w' : World} {a : Action} {r : Result} (h : Stepped spi w a r w')
    (hst : Staging w.sys) (hw : RowIds w) : RowIds w' := by
  cases h with
  | manage hmay => exact ⟨(manage_effect _ hmay).factory ▸ hw.rows, hw.captured⟩
  | direct => exact ⟨hw.rows.direct (storeDirect_spec _ _), hw.captured⟩
  | inTx horder htx hget hmay => exact ⟨(inTx_effect _ _ hget hmay).factory ▸ hw.rows, hw.captured⟩
  | task =>
    obtain ⟨tasks, htasks⟩ := task_factory w.sys _
    exact ⟨htasks ▸ hw.rows, hw.captured⟩
  | checked =>
    refine ⟨hw.rows, ?_⟩
    intro i captured hin hstage
    cases hin
    obtain rfl := CommitStage.checked.inj hstage
    exact hst.superseded _
  | flushed hin hstage hget =>
    refine ⟨hw.rows.flush (hst.records _ _ hget) (hw.captured _ _ hin hstage), ?_⟩
    intro i captured hin' hstage'
    cases hin'
    cases hstage'
  | aborted => exact ⟨hw.rows, nofun⟩
  | finished => exact ⟨hw.rows, nofun⟩
  | _ => exact ⟨hw.rows, hw.captured⟩

theorem rowIds_of_run {tr : Trace} (h : PluginRun spi allowed tr w) : RowIds w := by
  induction h with
  | nil => exact ⟨fun _ _ _ hv => (nomatch hv), nofun⟩
  | cons a hrun _ hs ih => exact (stepped_of_step hs).rowIds (staging_of_run hrun) ih

/-- In every state that a run reaches, staged and committed entities stand under their own ids,
also in savepoints and among the saves that later ones replaced, and no id is staged both to be
saved and to be deleted. -/
theorem entities_keep_ids {spi : Spi} {tr : Trace} {w : World}
    (hrun : PluginRun spi AnyStep tr w) : Staging w.sys ∧ IdRows w.sys.factory :=
  ⟨staging_of_run hrun, (rowIds_of_run hrun).rows⟩

/-- An entity is saved twice around a savepoint and then deleted, beside a direct save. -/
def saveAndDelete : List Action :=
  [Sample.direct "A" (.save (Sample.entity "d" [1])) [],
    Sample.begin "A" "t" 5,
    Sample.inTx "A" "t" (.save (Sample.entity "e" [1])) ["d"],
    .manage (some "A") (.savepoint "t" "sp"),
    Sample.inTx "A" "t" (.save (Sample.entity "e" [2])) ["d"],
    Sample.inTx "A" "t" (.delete "d") ["d"]]

theorem entities_keep_ids_saveAndDelete :
    ∃ tr w, PluginRun Sample.spi AnyStep tr w ∧ (w.sys.factory.versions "A" "d").length = 1 ∧
      (w.sys.txs.get "t").any (fun tx => "e" ∈ tx.buffer.keys ∧ "d" ∈ tx.deletes) = true ∧
      Staging w.sys ∧ IdRows w.sys.factory := by
  obtain ⟨tr, w, hrun, hcheck⟩ := exists_run_any Sample.spi
    (fun _ w => (w.sys.factory.versions "A" "d").length = 1 &&
      (w.sys.txs.get "t").any fun tx => "e" ∈ tx.buffer.keys ∧ "d" ∈ tx.deletes)
    saveAndDelete (by decide)
  obtain ⟨hlength, hstaged⟩ := Bool.and_eq_true_iff.mp hcheck
  exact ⟨tr, w, hrun, of_decide_eq_true hlength, hstaged, entities_keep_ids hrun⟩

end CyodaGo.Memory
