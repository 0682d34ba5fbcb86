import CyodaGo.Model.Sqlite.Overlay
import CyodaGo.Verification.Memory.Overlay

/-! # What a SQLite transaction sees of a model

The snapshot query groups the versions of one model, so that it goes on showing an entity whose
later versions belong to another model. -/

namespace CyodaGo.SqliteTx

open Memory (EntityID Entity ModelRef TenantID TxID Time SearchQuery ModelReads overlayOf ownRows idsOf
  hiddenByModel hiddenByAny)

open Memory

/-! ## The committed snapshot -/

section Snapshot

variable {versions : VersionTable} {tid : TenantID} {inner : VersionRow → Bool} {micro : Int}
  {id : EntityID}

theorem mem_visibleVersions {v : Int} : v ∈ visibleVersions versions tid inner micro id ↔
    ∃ row, versions.get (tid, id, v) = some row ∧ inner row = true ∧ row.submitTime ≤ micro := by
  simp only [visibleVersions, List.mem_filterMap]
  constructor
  · rintro ⟨⟨⟨t, i, w⟩, row⟩, hkv, hv⟩
    obtain ⟨⟨rfl, rfl, hinner, htime⟩, hvalue⟩ := Option.ite_none_right_eq_some.mp hv
    cases hvalue
    exact ⟨row, (GoMap.mem_inOrder.mp hkv).2, hinner, htime⟩
  · rintro ⟨row, hrow, hinner, htime⟩
    refine ⟨((tid, id, v), row), GoMap.mem_inOrder.mpr ⟨GoMap.mem_keys_of_get hrow, hrow⟩, ?_⟩
    simp [hinner, htime]

theorem latestLive_eq_some {e : Entity} : latestLive versions tid inner micro id = some e ↔
    ∃ v row, (visibleVersions versions tid inner micro id).max? = some v ∧
      versions.get (tid, id, v) = some row ∧ row.changeType ≠ "DELETED" ∧
      scanVersionEntity id v row = e := by
  simp only [latestLive, Option.bind_eq_some_iff, Option.ite_none_right_eq_some, Option.some.injEq]
  grind

theorem id_of_latestLive (k : EntityID) (e : Entity)
    (h : latestLive versions tid inner micro k = some e) : e.info.id = k := by
  obtain ⟨v, row, -, -, -, rfl⟩ := latestLive_eq_some.mp h
  rfl

/-- If the latest version of an entity belongs to the model, then the query of the model shows
it. -/
theorem latestLive_of_model {modelRef : ModelRef} {e : Entity}
    (h : latestLive versions tid (fun _ => true) micro id = some e)
    (hmodel : e.info.modelRef = modelRef) :
    latestLive versions tid (fun row => row.modelRef = modelRef) micro id = some e := by
  obtain ⟨v, row, hmax, hrow, hlive, rfl⟩ := latestLive_eq_some.mp h
  refine latestLive_eq_some.mpr ⟨v, row, ?_, hrow, hlive, rfl⟩
  rw [List.max?_eq_some_iff] at hmax ⊢
  refine ⟨?_, fun v' hv' => hmax.2 v' ?_⟩
  · obtain ⟨row', hrow', -, htime⟩ := mem_visibleVersions.mp hmax.1
    cases hrow.symm.trans hrow'
    exact mem_visibleVersions.mpr ⟨row, hrow, decide_eq_true hmodel, htime⟩
  · obtain ⟨row', hrow', -, htime⟩ := mem_visibleVersions.mp hv'
    exact mem_visibleVersions.mpr ⟨row', hrow', rfl, htime⟩

theorem model_of_latestLive {modelRef : ModelRef} {e : Entity}
    (h : latestLive versions tid (fun row => row.modelRef = modelRef) micro id = some e) :
    e.info.modelRef = modelRef := by
  obtain ⟨v, row, hmax, hrow, -, rfl⟩ := latestLive_eq_some.mp h
  obtain ⟨row', hrow', hmodel, -⟩ := mem_visibleVersions.mp (List.max?_mem hmax)
  cases hrow.symm.trans hrow'
  exact of_decide_eq_true hmodel

theorem mem_entityIDs_of_latestLive {e : Entity}
    (h : latestLive versions tid inner micro id = some e) : id ∈ entityIDs versions tid := by
  obtain ⟨v, row, -, hrow, -, -⟩ := latestLive_eq_some.mp h
  simp only [entityIDs, List.mem_dedup, List.mem_map, List.mem_filter, decide_eq_true_eq]
  exact ⟨(tid, id, v), ⟨GoMap.mem_keys_of_get hrow, rfl⟩, rfl⟩

theorem mem_searchSnapshotBase_ids_iff (modelRef : ModelRef) (micro : Int) (id : EntityID) :
    id ∈ (searchSnapshotBase versions tid modelRef micro).map (·.info.id) ↔
      (latestLive versions tid (fun row => row.modelRef = modelRef) micro id).isSome := by
  rw [searchSnapshotBase, List.mem_map_filterMap_iff id_of_latestLive, and_iff_right_iff_imp]
  intro hsome
  obtain ⟨e, he⟩ := Option.isSome_iff_exists.mp hsome
  exact mem_entityIDs_of_latestLive he

theorem nodup_searchSnapshotBase_ids (modelRef : ModelRef) (micro : Int) :
    ((searchSnapshotBase versions tid modelRef micro).map (·.info.id)).Nodup :=
  (List.nodup_dedup _).map_filterMap id_of_latestLive

end Snapshot

/-! ## The overlay -/

def overlay (versions : VersionTable) (tid : TenantID) (tx : Memory.TransactionState)
    (modelRef : ModelRef) : Overlay EntityID Entity :=
  overlayOf tx modelRef (fun id => getSnapshot versions tid id tx.snapshotTime)
    (latestLive versions tid (fun row => row.modelRef = modelRef) (timeToMicro tx.snapshotTime))

theorem overlay_showsMembers (versions : VersionTable) (tid : TenantID)
    (tx : Memory.TransactionState) (modelRef : ModelRef) :
    (overlay versions tid tx modelRef).ShowsMembers := by
  intro id e he hmember
  exact Option.isSome_iff_exists.mpr ⟨e, latestLive_of_model he hmember⟩

/-- What `MergeOrdered` is documented to do: the rows that are not deleted and the additions, in
order. -/
def OverlaySpi.MergesOrdered (spi : OverlaySpi) : Prop :=
  ∀ committed adds isDeleted less,
    let kept := committed.filter fun e => !isDeleted e.info.id
    (∀ c ∈ kept, ∀ a ∈ adds, c.info.id ≠ a.info.id) →
    (spi.mergeOrdered committed adds isDeleted less).Perm (kept ++ adds)

section Reads

variable {spi : OverlaySpi} {versions : VersionTable} {tid : TenantID} {txID : TxID}
  {tx : Memory.TransactionState} {modelRef : ModelRef}
  (hbuffer : ∀ eid e, tx.buffer.get eid = some e → e.info.id = eid)

theorem bufferedAdds_eq {pfMatch : Entity → Bool} (hmatch : ∀ e, pfMatch e = true) :
    bufferedAdds tx modelRef pfMatch = ownRows tx modelRef := by
  simp only [bufferedAdds, ownRows, hmatch, Bool.and_true]

/-- The rows of the listing that the overlay stands for. -/
def overlayRows (versions : VersionTable) (tid : TenantID) (tx : Memory.TransactionState)
    (modelRef : ModelRef) : List Entity :=
  (searchSnapshotBase versions tid modelRef (timeToMicro tx.snapshotTime)).filter
    (fun e => !hiddenByModel tx modelRef e.info.id) ++ ownRows tx modelRef

include hbuffer in
theorem openTxOverlay_perm (hordered : spi.MergesOrdered) (proj : Entity → Entity)
    (hproj : ∀ e, (proj e).info.id = e.info.id) :
    (openTxOverlay spi versions tid tx modelRef (fun _ => true) (fun _ => true) proj).Perm
      ((overlayRows versions tid tx modelRef).map proj) := by
  let committed := searchSnapshotBase versions tid modelRef (timeToMicro tx.snapshotTime)
  have hkept : ((sortByOrder lessByID committed).map proj).filter
      (fun e => !hiddenByModel tx modelRef e.info.id) =
      ((sortByOrder lessByID committed).filter
        fun e => !hiddenByModel tx modelRef e.info.id).map proj := by
    rw [List.filter_map]
    congr 1
    exact List.filter_congr fun e _ => by simp [hproj]
  have hown : (sortByOrder lessByID (ownRows tx modelRef)).Perm (ownRows tx modelRef) :=
    sortByOrder_perm _ _
  have hperm := ((sortByOrder_perm lessByID committed).filter
    fun e => !hiddenByModel tx modelRef e.info.id).append hown
  have hmerged := hordered ((sortByOrder lessByID committed).map proj)
    ((sortByOrder lessByID (ownRows tx modelRef)).map proj) (hiddenByModel tx modelRef) lessByID
  dsimp only at hmerged
  rw [hkept, ← List.map_append] at hmerged
  have hstream : openTxOverlay spi versions tid tx modelRef (fun _ => true) (fun _ => true) proj =
      spi.mergeOrdered ((sortByOrder lessByID committed).map proj)
        ((sortByOrder lessByID (ownRows tx modelRef)).map proj) (hiddenByModel tx modelRef)
        lessByID := by
    simp only [openTxOverlay, bufferedAdds_eq fun _ => rfl, List.filter_true]
    rfl
  rw [hstream]
  refine (hmerged ?_).trans (hperm.map proj)
  intro c' hc' a' ha' heq
  obtain ⟨c, hc, rfl⟩ := List.mem_map.mp hc'
  obtain ⟨a, ha, rfl⟩ := List.mem_map.mp ha'
  rw [hproj, hproj] at heq
  have hid := List.mem_map_of_mem (f := fun e : Entity => e.info.id) (hown.mem_iff.mp ha)
  have hhidden := (hidden_of_mem_ownRows hbuffer hid).2
  rw [← heq] at hhidden
  simpa [hhidden] using (List.mem_filter.mp hc).2

include hbuffer in
theorem idsOf_overlayRows : idsOf (overlayRows versions tid tx modelRef) =
    (overlay versions tid tx modelRef).narrow :=
  idsOf_narrow hbuffer (mem_searchSnapshotBase_ids_iff modelRef _)

include hbuffer in
theorem length_countTx (hordered : spi.MergesOrdered) :
    (countTx spi versions tid tx modelRef).length = (overlay versions tid tx modelRef).narrow.ncard := by
  have hnodup : ((overlayRows versions tid tx modelRef).map (·.info.id)).Nodup :=
    nodup_narrow hbuffer (nodup_searchSnapshotBase_ids modelRef _)
  rw [countTx, List.length_map, (openTxOverlay_perm hbuffer hordered idState fun _ => rfl).length_eq,
    List.length_map, ← ncard_idsOf hnodup, idsOf_overlayRows hbuffer]

include hbuffer in
theorem exists_page_searchTxOverlay (hbounded : spi.MergesBounded) {q : SearchQuery}
    (hq : q.MatchesAll modelRef) {planMatch : Entity → Bool} (hplan : ∀ e, planMatch e = true)
    (hlimit : ((overlay versions tid tx modelRef).masked.ncard : Int) ≤ q.limit) :
    ∃ page, spi.mergeBounded
        (sortByOrder q.less ((searchSnapshotBase versions tid q.modelRef
          (timeToMicro tx.snapshotTime)).filter planMatch))
        (sortByOrder q.less (bufferedAdds tx q.modelRef q.pfMatch))
        (fun id => id ∈ tx.deletes || id ∈ tx.buffer.keys) q.less q.limit = .ok page ∧
      idsOf page = (overlay versions tid tx modelRef).masked := by
  rw [List.filter_eq_self.mpr fun e _ => hplan e, bufferedAdds_eq hq.pfMatch, hq.modelRef]
  exact exists_page_masked hbuffer (mem_searchSnapshotBase_ids_iff modelRef _)
    (nodup_searchSnapshotBase_ids modelRef _) hbounded (sortByOrder_perm _ _)
    (sortByOrder_perm _ _) q.less hq.limit hlimit

/-- The reads of the model in the transaction. `plan` is the test that the planner makes of a
query's filter. -/
def readsOf (spi : OverlaySpi) (versions : VersionTable) (tid : TenantID) (txID : TxID)
    (tx : Memory.TransactionState) (plan : SearchQuery → Entity → Bool) (modelRef : ModelRef) :
    ModelReads where
  search q := (searchTxOverlay spi versions tid txID tx (plan q) q).toOption
  getPage limit offset := (getPage spi versions tid txID tx modelRef limit offset).toOption
  count := (count spi versions tid txID tx modelRef).toOption
  countByState := (countByState spi versions tid txID tx modelRef none).toOption

/-- In an open transaction the reads of a model describe what the transaction sees of it exactly
if nothing that the snapshot query shows for the model has been moved away. -/
theorem readsOf_describe_iff (hbounded : spi.MergesBounded) (hordered : spi.MergesOrdered)
    (hopen : tx.rolledBack = false ∧ tx.closed = false)
    (hbuffer : ∀ eid e, tx.buffer.get eid = some e → e.info.id = eid)
    {plan : SearchQuery → Entity → Bool}
    (hplan : ∀ q, (∀ e, q.pfMatch e = true) → ∀ e, plan q e = true) :
    (readsOf spi versions tid txID tx plan modelRef).Describe modelRef
        (overlay versions tid tx modelRef).view ↔
      (overlay versions tid tx modelRef).Settled := by
  have hguard : ∀ op, checkOpen op txID tx = .ok () := by
    intro op
    simp [checkOpen, hopen]
  have hperm : (openTxOverlay spi versions tid tx modelRef (fun _ => true) (fun _ => true) id).Perm
      ((overlayRows versions tid tx modelRef).map id) :=
    openTxOverlay_perm hbuffer hordered id fun _ => rfl
  rw [List.map_id] at hperm
  refine ModelReads.describe_iff (overlay_showsMembers versions tid tx modelRef)
    ((idsOf_perm hperm).trans (idsOf_overlayRows hbuffer)) ?_ ?_
    (length_countTx hbuffer hordered) (by simp [readsOf, count, hguard]; rfl)
    (by simp [readsOf, countByState, hguard]; rfl)
  · intro q hq hlimit
    obtain ⟨page, hpage, hset⟩ := exists_page_searchTxOverlay hbuffer hbounded hq
      (hplan q hq.pfMatch) hlimit
    refine ⟨page, ?_, hset⟩
    simp only [readsOf, searchTxOverlay, Int.not_le.mpr hq.limit, hq.pathsValid, hq.preparable,
      hguard, Bool.not_true, Bool.false_eq_true, if_false, hpage]
    rfl
  · intro limit hlimit k
    simp only [readsOf, getPage, page_bounds hlimit k, if_false, hguard]
    rfl

end Reads

/-! ## Both plugins -/

/-- Inside an open transaction, a search for everything, paging to the end, the count and the sum
of the counts by state describe the entities whose effective version belongs to the model: in the
memory plugin exactly if no committed row of the model stands for an entity that is buffered under
another model, in the SQLite plugin exactly if moreover the snapshot query shows no entity whose
latest version belongs to another model. -/
theorem transaction_reads_agree_iff {spi : OverlaySpi} (hbounded : spi.MergesBounded)
    (hordered : spi.MergesOrdered) :
    (∀ {tr : Memory.Trace} {w : Memory.World}, Memory.PluginRun spi.toSpi AnyStep tr w →
      ∀ {txID tx}, w.sys.txs.get txID = some tx → tx.rolledBack = false ∧ tx.closed = false →
      ∀ {tid order}, order.Perm (w.sys.factory.tenantData tid).keys → ∀ modelRef,
        ((Memory.readsOf spi.toSpi w.sys.factory tid order txID tx modelRef).Describe modelRef
            (Memory.overlay (w.sys.factory.tenantData tid) tx modelRef).view ↔
          Memory.KeepsModel (w.sys.factory.tenantData tid) tx modelRef)) ∧
    (∀ {versions : VersionTable} {tx : Memory.TransactionState} {tid txID},
      (∀ eid e, tx.buffer.get eid = some e → e.info.id = eid) →
      tx.rolledBack = false ∧ tx.closed = false →
      ∀ {plan : SearchQuery → Entity → Bool},
      (∀ q, (∀ e, q.pfMatch e = true) → ∀ e, plan q e = true) → ∀ modelRef,
        ((readsOf spi versions tid txID tx plan modelRef).Describe modelRef
            (overlay versions tid tx modelRef).view ↔
          (overlay versions tid tx modelRef).Settled)) := by
  refine ⟨?_, fun hbuffer hopen _ hplan modelRef =>
    readsOf_describe_iff hbounded hordered hopen hbuffer hplan⟩
  intro tr w hrun txID tx hget hopen tid order horder modelRef
  have hkept := (staging_of_run hrun).records txID tx hget
  rw [← overlay_settled_iff hkept]
  exact Memory.readsOf_describe_iff hbounded modelRef hopen (ownIds_of_run hrun tid) hkept
    horder

namespace Sample

def mergingSpi : OverlaySpi where
  toSpi := Memory.Sample.spi
  mergeOrdered committed adds isDeleted _ :=
    (committed.filter fun e => !isDeleted e.info.id) ++ adds

theorem mergesBounded_mergingSpi : mergingSpi.MergesBounded := fun _ _ _ _ _ _ _ _ => ⟨_, rfl, .refl _⟩

theorem mergesOrdered_mergingSpi : mergingSpi.MergesOrdered := fun _ _ _ _ _ => .refl _

def otherModel : ModelRef := ⟨"invoice", "1"⟩

/-- The order, filed as an invoice. -/
def invoice : Entity :=
  let e := Memory.Sample.entity "e" [1]
  { e with info := { e.info with modelRef := otherModel } }

def everything (modelRef : ModelRef) : SearchQuery where
  modelRef := modelRef
  pathsValid := true
  preparable := true
  pfMatch _ := true
  less := lessByID
  limit := 10
  pointInTime := none
  trackingRead := false

def versionRow (modelRef : ModelRef) (submitTime : Int) : VersionRow where
  modelRef := modelRef
  data := some [1]
  info := .entity (Memory.Sample.entity "e" [1]).info
  changeType := "UPDATED"
  transactionID := "x"
  submitTime := submitTime
  userID := "u"

def filed : VersionTable := (∅ : VersionTable).set ("A", "e", 1) (versionRow Memory.Sample.model 1)

/-- The order was filed as an invoice in its second version. -/
def refiled : VersionTable := filed.set ("A", "e", 2) (versionRow otherModel 2)

/-- A transaction that has written nothing. -/
def idle : Memory.TransactionState := Memory.System.newTransaction "A" 5000

def filedTwice : VersionTable := filed.set ("A", "d", 1) (versionRow Memory.Sample.model 1)

def staged : Memory.TransactionState :=
  { idle with
    buffer := ((∅ : GoMap EntityID Entity).set "e" (Memory.Sample.entity "e" [2])).set "n"
      (Memory.Sample.entity "n" [3])
    deletes := {"d"} }

def staging : List Memory.Action :=
  [Memory.Sample.direct "A" (.save (Memory.Sample.entity "e" [1])) [],
    Memory.Sample.direct "A" (.save (Memory.Sample.entity "d" [1])) ["e"],
    Memory.Sample.begin "A" "t" 5000,
    Memory.Sample.inTx "A" "t" (.save (Memory.Sample.entity "e" [2])) ["e", "d"],
    Memory.Sample.inTx "A" "t" (.save (Memory.Sample.entity "n" [3])) ["e", "d"],
    Memory.Sample.inTx "A" "t" (.delete "d") ["e", "d"]]

/-- An order is committed; a transaction saves it as an invoice. -/
def refiling : List Memory.Action :=
  [Memory.Sample.direct "A" (.save (Memory.Sample.entity "e" [1])) [],
    Memory.Sample.begin "A" "t" 5000, Memory.Sample.inTx "A" "t" (.save invoice) ["e"]]

end Sample

open Memory.Sample

open Sample

/-- Two orders are committed; the transaction has changed one, added a third and staged the delete
of the other. -/
theorem transaction_reads_agree_staged :
    (∃ tr w tx, Memory.PluginRun mergingSpi.toSpi AnyStep tr w ∧ w.sys.txs.get "t" = some tx ∧
      tx.buffer.keys.toFinset = {"e", "n"} ∧ tx.deletes = {"d"} ∧
      let reads := Memory.readsOf mergingSpi.toSpi w.sys.factory "A" ["e", "d"] "t" tx
        model
      reads.count = some 2 ∧ reads.Describe model
        (Memory.overlay (w.sys.factory.tenantData "A") tx model).view) ∧
    let reads := readsOf mergingSpi filedTwice "A" "t" staged (fun _ _ => true)
      model
    reads.count = some 2 ∧ reads.Describe model
      (overlay filedTwice "A" staged model).view := by
  obtain ⟨hmemory, hsqlite⟩ :=
    transaction_reads_agree_iff mergesBounded_mergingSpi mergesOrdered_mergingSpi
  refine ⟨?_, by decide +kernel, ?_⟩
  · obtain ⟨tr, w, hrun, hcheck⟩ := exists_run_any mergingSpi.toSpi
      (fun _ w => ((w.sys.txs.get "t").any fun tx =>
        (!tx.rolledBack && !tx.closed) && (tx.buffer.keys.toFinset = {"e", "n"} && tx.deletes = {"d"} &&
        (Memory.readsOf mergingSpi.toSpi w.sys.factory "A" ["e", "d"] "t" tx
          model).count = some 2 &&
        tx.buffer.keys.all fun id => (tx.buffer.get id).all fun e =>
          e.info.modelRef = model)) &&
        decide (["e", "d"].Perm (w.sys.factory.tenantData "A").keys))
      staging (by decide +kernel)
    simp only [Bool.and_eq_true, Option.any_eq_true, decide_eq_true_eq, Bool.not_eq_true',
      List.all_eq_true] at hcheck
    obtain ⟨⟨tx, hget, hopen, ⟨⟨hbuffer, hdeletes⟩, hcount⟩, hmodel⟩, horder⟩ := hcheck
    refine ⟨tr, w, tx, hrun, hget, hbuffer, hdeletes, hcount,
      (hmemory hrun hget hopen horder _).mpr ?_⟩
    intro id b hb _
    simpa [hb] using hmodel id (GoMap.mem_keys_of_get hb)
  · have hbuffer : ∀ eid e, staged.buffer.get eid = some e →
        e.info.id = eid ∧ e.info.modelRef = model := by
      intro eid e he
      simp only [staged, GoMap.get_set] at he
      split at he
      · next h => exact h ▸ Option.some.inj he ▸ ⟨rfl, rfl⟩
      split at he
      · next h => exact h ▸ Option.some.inj he ▸ ⟨rfl, rfl⟩
      · cases he
    refine (hsqlite (fun eid e he => (hbuffer eid e he).1) ⟨rfl, rfl⟩ (fun _ _ _ => rfl) _).mpr ?_
    intro id _ hshown
    obtain ⟨e, he⟩ := Option.isSome_iff_exists.mp hshown
    show ∃ e ∈ (staged.buffer.get id).or _, _
    cases hb : staged.buffer.get id with
    | some b => exact ⟨b, rfl, (hbuffer id b hb).2⟩
    | none => exact ⟨e, he, model_of_latestLive he⟩

/-- In memory the search no longer finds the order that a transaction saved as an invoice, while
the count and the page still have it. SQLite finds a committed order that became an invoice. -/
theorem transaction_reads_disagree :
    (∃ tr w, Memory.PluginRun mergingSpi.toSpi AnyStep tr w ∧
      ((w.sys.txs.get "t").any fun tx =>
        let reads := Memory.readsOf mergingSpi.toSpi w.sys.factory "A" ["e"] "t" tx model
        reads.search (everything model) = some [] && reads.count = some 1 &&
          (reads.getPage 10 0).map (·.map (·.info.id)) = some ["e"]) = true) ∧
    (getSnapshot refiled "A" "e" idle.snapshotTime).map (·.info.modelRef) =
      some otherModel ∧
    ((readsOf mergingSpi refiled "A" "t" idle (fun _ _ => true)
      model).search (everything model)).map
        (·.map (·.info.id)) = some ["e"] := by
  refine ⟨exists_run_any _ _ refiling (by decide +kernel), by decide +kernel,
    by decide +kernel⟩

end CyodaGo.SqliteTx
