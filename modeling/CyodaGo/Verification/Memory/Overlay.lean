import CyodaGo.Shared.Overlay
import CyodaGo.Verification.Memory.Snapshot
import Mathlib.Algebra.BigOperators.Finprod
import Mathlib.Algebra.Order.BigOperators.Group.Finset

/-! # What a transaction sees of a model

`Search`, `GetPage`, `Count` and `CountByState` each put the transaction's own writes over its
snapshot. They describe the same entities as long as no committed row of the model stands for an
entity that the transaction has moved to another model. -/

namespace CyodaGo.Memory

/-! ## Reads that describe a set -/

/-- The reads of one model inside a transaction, without the errors. -/
structure ModelReads where
  search : SearchQuery → Option (List Entity)
  getPage : Int → Int → Option (List Entity)
  count : Option ℕ
  countByState : Option (String → ℕ)

structure SearchQuery.MatchesAll (q : SearchQuery) (modelRef : ModelRef) : Prop where
  modelRef : q.modelRef = modelRef
  pathsValid : q.pathsValid = true
  preparable : q.preparable = true
  pfMatch : ∀ e, q.pfMatch e = true
  pointInTime : q.pointInTime = none
  limit : 0 < q.limit

def idsOf (rows : List Entity) : Set EntityID := {id | id ∈ rows.map (·.info.id)}

/-- Each of the four reads describes `view`. -/
structure ModelReads.Describe (r : ModelReads) (modelRef : ModelRef) (view : Set EntityID) : Prop where
  search : ∀ q, q.MatchesAll modelRef → (view.ncard : Int) ≤ q.limit →
    ∃ rows, r.search q = some rows ∧ idsOf rows = view
  getPage : ∀ limit : ℕ, 0 < limit → ∃ pages : ℕ → List Entity,
    (∀ k : ℕ, r.getPage limit (k * limit) = some (pages k)) ∧ (⋃ k, idsOf (pages k)) = view
  count : r.count = some view.ncard
  countByState : ∃ counts, r.countByState = some counts ∧ finsum counts = view.ncard

theorem iUnion_idsOf_pages {rows : List Entity} {limit : ℕ} (hlimit : 0 < limit) :
    (⋃ k, idsOf ((rows.drop (k * limit)).take limit)) = idsOf rows := by
  ext id
  simp only [idsOf, Set.mem_iUnion, Set.mem_ofPred_eq, List.map_take, List.map_drop]
  exact List.exists_mem_page_iff hlimit

theorem finsum_tallyByState (states : List String) :
    finsum (tallyByState none states) = states.length := by
  rw [finsum_eq_sum_of_support_subset (s := states.toFinset) _ ?_]
  · exact List.sum_toFinset_count_eq_length states
  · intro st hst
    rw [Function.mem_support] at hst
    simpa using List.count_pos_iff.mp (Nat.pos_of_ne_zero hst)

theorem idsOf_perm {xs ys : List Entity} (h : xs.Perm ys) : idsOf xs = idsOf ys := by
  ext id
  exact (h.map _).mem_iff

theorem ncard_idsOf {rows : List Entity} (h : (rows.map (·.info.id)).Nodup) :
    (idsOf rows).ncard = rows.length := by
  rw [idsOf, h.ncard_setOf_mem, List.length_map]

/-! ## Listings of a model -/

variable (data : GoMap EntityID (List EntityVersion)) (tx : TransactionState) (modelRef : ModelRef)

/-- The overlay of a transaction's writes, over what a store finds under an id and what it shows
for the model. -/
def overlayOf (committed shown : EntityID → Option Entity) : Overlay EntityID Entity where
  deletes := {id | id ∈ tx.deletes}
  buffer := tx.buffer.get
  committed := committed
  shown := shown
  member := fun e => e.info.modelRef = modelRef

theorem page_bounds {limit : ℕ} (hlimit : 0 < limit) (k : ℕ) :
    ¬ (limit : Int) < 1 ∧ ¬ (k : Int) * limit < 0 :=
  ⟨by omega, Int.not_lt.mpr (Int.mul_nonneg (Int.natCast_nonneg k) (Int.natCast_nonneg limit))⟩

/-- Reads that list `rows` and search the masked listing describe what the overlay shows exactly
if it is settled. -/
theorem ModelReads.describe_iff {r : ModelReads} {modelRef : ModelRef} {o : Overlay EntityID Entity}
    {rows : List Entity} {states : List String} (hshows : o.ShowsMembers)
    (hids : idsOf rows = o.narrow)
    (hsearch : ∀ q, q.MatchesAll modelRef → (o.masked.ncard : Int) ≤ q.limit →
      ∃ page, r.search q = some page ∧ idsOf page = o.masked)
    (hpage : ∀ limit : ℕ, 0 < limit → ∀ k : ℕ,
      r.getPage limit (k * limit) = some ((rows.drop (k * limit)).take limit))
    (hstates : states.length = o.narrow.ncard) (hcount : r.count = some states.length)
    (hcounts : r.countByState = some (tallyByState none states)) :
    r.Describe modelRef o.view ↔ o.Settled := by
  constructor
  · intro h
    obtain ⟨pages, hsome, hunion⟩ := h.getPage 1 Nat.one_pos
    rw [← Overlay.narrow_eq_view_iff hshows, ← hunion, ← hids, ← iUnion_idsOf_pages Nat.one_pos]
    refine Set.iUnion_congr fun k => ?_
    rw [Option.some.inj ((hpage 1 Nat.one_pos k).symm.trans (hsome k))]
  · intro hsettled
    have hnarrow := (Overlay.narrow_eq_view_iff hshows).mpr hsettled
    refine ⟨?_, ?_, ?_, _, hcounts, ?_⟩
    · rw [← Overlay.masked_eq_view hshows hsettled]
      exact hsearch
    · intro limit hlimit
      exact ⟨_, hpage limit hlimit, by rw [iUnion_idsOf_pages hlimit, hids, hnarrow]⟩
    · rw [hcount, hstates, hnarrow]
    · rw [finsum_tallyByState, hstates, hnarrow]

section Listings

variable {tx : TransactionState} {modelRef : ModelRef} {committed shown : EntityID → Option Entity}
  {rows : List Entity} (hbuffer : ∀ eid e, tx.buffer.get eid = some e → e.info.id = eid)
  (hrows : ∀ id, id ∈ rows.map (·.info.id) ↔ (shown id).isSome)
  (hnodup : (rows.map (·.info.id)).Nodup)

include hbuffer hrows in
theorem idsOf_masked :
    idsOf (rows.filter (fun e => !hiddenByAny tx e.info.id) ++ ownRows tx modelRef) =
      (overlayOf tx modelRef committed shown).masked := by
  let o := overlayOf tx modelRef committed shown
  refine (Overlay.setOf_mem_listing (o := o) hrows (mem_ownRows_ids_iff hbuffer)).trans ?_
  refine congrArg (· ∪ o.own) ?_
  ext id
  have hnone : id ∉ tx.buffer.keys ↔ tx.buffer.get id = none := by
    rw [GoMap.mem_keys, ← Option.ne_none_iff_exists', not_not]
  simp [o, hiddenByAny, overlayOf, hnone, and_assoc]

include hbuffer hrows in
theorem idsOf_narrow :
    idsOf (rows.filter (fun e => !hiddenByModel tx modelRef e.info.id) ++ ownRows tx modelRef) =
      (overlayOf tx modelRef committed shown).narrow := by
  let o := overlayOf tx modelRef committed shown
  refine (Overlay.setOf_mem_listing (o := o) hrows (mem_ownRows_ids_iff hbuffer)).trans ?_
  refine congrArg (· ∪ o.own) ?_
  ext id
  cases hget : tx.buffer.get id <;> simp [o, hiddenByModel, overlayOf, hget, and_assoc]

include hbuffer hrows hnodup in
/-- A bounded merge of the listing in which every buffered id hides. -/
theorem exists_page_masked {spi : Spi} (hspi : spi.MergesBounded) {own : List Entity}
    {committedRows : List Entity} (hcommitted : committedRows.Perm rows)
    (hown : own.Perm (ownRows tx modelRef)) (less : Entity → Entity → Bool) {limit : Int}
    (hpos : 0 < limit)
    (hlimit : ((overlayOf tx modelRef committed shown).masked.ncard : Int) ≤ limit) :
    ∃ page, spi.mergeBounded committedRows own (hiddenByAny tx) less limit = .ok page ∧
      idsOf page = (overlayOf tx modelRef committed shown).masked := by
  have hids : idsOf (rows.filter (fun e => !hiddenByAny tx e.info.id) ++ ownRows tx modelRef) =
      (overlayOf tx modelRef committed shown).masked := idsOf_masked hbuffer hrows
  rw [← hids, ncard_idsOf (nodup_masked hbuffer hnodup)] at hlimit
  obtain ⟨page, hpage, hperm⟩ := hspi.exists_page hcommitted hown (fun row hrow =>
    (hidden_of_mem_ownRows hbuffer (List.mem_map_of_mem hrow)).1) less hpos hlimit
  exact ⟨page, hpage, (idsOf_perm hperm).trans hids⟩

end Listings

/-! ## The overlay of the memory store -/

def overlay : Overlay EntityID Entity :=
  overlayOf tx modelRef (fun id => (scanned tx.snapshotTime (data.getD id [])).1)
    (snapshotRow data modelRef tx.snapshotTime)

theorem overlay_showsMembers : (overlay data tx modelRef).ShowsMembers := by
  intro id e he hmember
  have hrow : snapshotRow data modelRef tx.snapshotTime id = some e :=
    Option.filter_eq_some_iff.mpr ⟨he, by simpa [overlay, overlayOf] using hmember⟩
  exact Option.isSome_iff_exists.mpr ⟨e, hrow⟩

section Store

variable {data : GoMap EntityID (List EntityVersion)} {tx : TransactionState}
  {modelRef : ModelRef} {order : List EntityID}
  (hids : OwnIds tx.snapshotTime data) (hkept : WellKept tx.buffer tx.deletes)
  (horder : order.Perm data.keys)

include hids horder in
theorem mem_snapshot_ids_iff (id : EntityID) :
    id ∈ (System.getAllSnapshotPointers data order modelRef tx.snapshotTime).map (·.info.id) ↔
      (snapshotRow data modelRef tx.snapshotTime id).isSome := by
  rw [getAllSnapshotPointers_eq, List.mem_map_filterMap_iff hids.snapshotRow,
    horder.mem_iff, and_iff_right_iff_imp]
  intro hsome
  by_contra hnot
  simp [snapshotRow_of_notMem hnot] at hsome

include hids hkept horder in
theorem length_countTx :
    (countTx data order tx modelRef).length = (overlay data tx modelRef).narrow.ncard := by
  rw [countTx_eq, List.length_map, ← ncard_idsOf (nodup_narrow hkept.ids (hids.nodup horder modelRef))]
  congr 1
  exact idsOf_narrow hkept.ids (mem_snapshot_ids_iff hids horder)

include hids hkept horder in
theorem idsOf_mergedRows : idsOf (mergedRows data order tx modelRef) =
    (overlay data tx modelRef).narrow :=
  (idsOf_perm (mergedRows_perm hkept (hids.nodup horder modelRef))).trans
    (idsOf_narrow hkept.ids (mem_snapshot_ids_iff hids horder))

theorem sortByOrder_perm (less : Entity → Entity → Bool) (rows : List Entity) :
    (sortByOrder less rows).Perm rows := List.perm_insertionSort _ rows

include hids hkept horder in
theorem exists_page_searchTx {spi : Spi} (hspi : spi.MergesBounded) {q : SearchQuery}
    (hq : q.MatchesAll modelRef)
    (hlimit : ((overlay data tx modelRef).masked.ncard : Int) ≤ q.limit) :
    ∃ page, (searchTx spi data order tx q).1 = .ok (.page page) ∧
      idsOf page = (overlay data tx modelRef).masked := by
  have hcommitted : (searchStreams data order tx q).1.Perm
      (System.getAllSnapshotPointers data order modelRef tx.snapshotTime) := by
    simp only [searchStreams, hq.modelRef]
    rw [List.filter_eq_self.mpr fun e _ => hq.pfMatch e]
    exact sortByOrder_perm _ _
  have hown : (searchStreams data order tx q).2.Perm (ownRows tx modelRef) := by
    simp only [searchStreams, hq.modelRef, hq.pfMatch, Bool.and_true]
    exact sortByOrder_perm _ _
  obtain ⟨page, hpage, hset⟩ := exists_page_masked hkept.ids (mem_snapshot_ids_iff hids horder)
    (hids.nodup horder modelRef) hspi hcommitted hown q.less hq.limit hlimit
  refine ⟨page, ?_, hset⟩
  change spi.mergeBounded _ _ (fun id => id ∈ tx.deletes || id ∈ tx.buffer.keys) _ _ = _ at hpage
  simp only [searchTx, hpage]

/-- The reads of the model in the transaction. -/
def readsOf (spi : Spi) (f : StoreFactory) (tid : TenantID) (order : List EntityID) (txID : TxID)
    (tx : TransactionState) (modelRef : ModelRef) : ModelReads where
  search q :=
    match (readTx spi f tid order txID tx (.search q)).1 with
    | .ok (.page rows) => some rows
    | _ => none
  getPage limit offset :=
    match (readTx spi f tid order txID tx (.getPage modelRef limit offset none)).1 with
    | .ok (.page rows) => some rows
    | _ => none
  count :=
    match (readTx spi f tid order txID tx (.count modelRef)).1 with
    | .ok (.count n) => some n
    | _ => none
  countByState :=
    match (readTx spi f tid order txID tx (.countByState modelRef none)).1 with
    | .ok (.counts counts) => some counts
    | _ => none

end Store

/-- In an open transaction the reads of a model describe what the transaction sees of it exactly
if nothing that the snapshot shows for the model has been moved away. -/
theorem readsOf_describe_iff {spi : Spi} (hspi : spi.MergesBounded) {f : StoreFactory}
    {tid : TenantID} {order : List EntityID} {txID : TxID} {tx : TransactionState}
    (modelRef : ModelRef) (hopen : tx.rolledBack = false ∧ tx.closed = false)
    (hids : OwnIds tx.snapshotTime (f.tenantData tid)) (hkept : WellKept tx.buffer tx.deletes)
    (horder : order.Perm (f.tenantData tid).keys) :
    (readsOf spi f tid order txID tx modelRef).Describe modelRef
        (overlay (f.tenantData tid) tx modelRef).view ↔
      (overlay (f.tenantData tid) tx modelRef).Settled := by
  have hguard : ∀ op, txGuard op txID tx = none := by
    intro op
    simp [txGuard, hopen]
  have hsorted : ((mergedRows (f.tenantData tid) order tx modelRef).insertionSort
      fun a b => a.info.id ≤ b.info.id).Perm _ := List.perm_insertionSort _ _
  refine ModelReads.describe_iff (overlay_showsMembers (f.tenantData tid) tx modelRef)
    ((idsOf_perm hsorted).trans (idsOf_mergedRows hids hkept horder)) ?_ ?_
    (length_countTx hids hkept horder) (by simp [readsOf, readTx, hguard])
    (by simp [readsOf, readTx, hguard])
  · intro q hq hlimit
    obtain ⟨page, hpage, hset⟩ := exists_page_searchTx hids hkept horder hspi hq hlimit
    refine ⟨page, ?_, hset⟩
    simp only [readsOf, readTx, Int.not_le.mpr hq.limit, hq.pathsValid, hq.preparable, hguard,
      hq.pointInTime, Bool.not_true, Bool.false_eq_true, if_false, hpage]
  · intro limit hlimit k
    simp only [readsOf, readTx, page_bounds hlimit k, if_false, hguard]
    rfl

/-- No committed row of the model stands for an entity that is buffered under another model. -/
def KeepsModel : Prop :=
  ∀ id b, tx.buffer.get id = some b → (snapshotRow data modelRef tx.snapshotTime id).isSome →
    b.info.modelRef = modelRef

theorem overlay_settled_iff {data : GoMap EntityID (List EntityVersion)} {tx : TransactionState}
    (hkept : WellKept tx.buffer tx.deletes) (modelRef : ModelRef) :
    (overlay data tx modelRef).Settled ↔ KeepsModel data tx modelRef := by
  constructor
  · intro h id b hget hshown
    have hdel : id ∉ tx.deletes := fun hdel => hkept.disjoint id hdel (GoMap.mem_keys_of_get hget)
    obtain ⟨e, he, hmember⟩ := h id hdel hshown
    have he : (tx.buffer.get id).or _ = some e := he
    rw [hget, Option.some_or] at he
    exact Option.some.inj he ▸ hmember
  · intro h id _ hshown
    cases hget : tx.buffer.get id with
    | none =>
      obtain ⟨e, he⟩ := Option.isSome_iff_exists.mp hshown
      obtain ⟨hscanned, hmember⟩ := Option.filter_eq_some_iff.mp he
      have hmodel : e.info.modelRef = modelRef := by simpa using hmember
      exact ⟨e, by simpa [overlay, overlayOf, hget] using hscanned, hmodel⟩
    | some b => exact ⟨b, by simp [overlay, overlayOf, hget], h id b hget hshown⟩

end CyodaGo.Memory
