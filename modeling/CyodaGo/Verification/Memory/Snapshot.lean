import CyodaGo.Shared.Overlay
import CyodaGo.Verification.Memory.Staging

/-! # Snapshot stability

Every stamp handed out after a transaction's `Begin` is later than its snapshot, so the
rows it can see are fixed. Every read path selects rows in a loop of its own; each of
them is shown to depend on the visible rows only. -/

namespace CyodaGo.Memory

open Sample

/-! ## Visible rows -/

/-- The newest row stamped at or before `t`. -/
def newestAt (t : Time) (vs : List EntityVersion) : Option EntityVersion :=
  (vs.filter fun v => v.submitTime ≤ t).getLast?

/-- The entity of that row, unless it is a tombstone. -/
def visible (t : Time) (vs : List EntityVersion) : Option Entity :=
  (newestAt t vs).bind fun row => if row.deleted then none else row.entity

open Memory.System

/-- What the scan loops return. -/
def scanned (t : Time) (vs : List EntityVersion) : Option Entity × Bool :=
  scanSnapshot t (none, false) vs

variable {floor t : Time} {vs : List EntityVersion} {data : GoMap EntityID (List EntityVersion)}
  {order : List EntityID} {tid : TenantID} {txID : TxID} {tx : TransactionState} {w w' : World}
  {spi : Spi}

/-- The row of `e` that a scan of a model contributes. -/
def snapshotRow (data : GoMap EntityID (List EntityVersion)) (modelRef : ModelRef) (t : Time)
    (e : EntityID) : Option Entity :=
  (scanned t (data.getD e [])).1.filter fun found => found.info.modelRef = modelRef

open GoMap

theorem getAllSnapshotPointers_eq (data : GoMap EntityID (List EntityVersion))
    (order : List EntityID) (modelRef : ModelRef) (t : Time) :
    getAllSnapshotPointers data order modelRef t =
      order.filterMap (snapshotRow data modelRef t) := by
  unfold getAllSnapshotPointers inOrder
  rw [List.filterMap_filterMap]
  refine List.filterMap_congr fun e _ => ?_
  unfold snapshotRow scanned getD
  cases hget : data.get e with
  | none => rfl
  | some vs =>
    simp only [Option.map_some, Option.bind_some, Option.getD_some]
    cases (scanSnapshot t (none, false) vs).1 with
    | none => rfl
    | some found => simp [Option.filter]

theorem snapshotRow_of_notMem {e : EntityID} (h : e ∉ data.keys) (modelRef : ModelRef) (t : Time) :
    snapshotRow data modelRef t e = none := by
  simp [snapshotRow, getD, get_eq_none_of_notMem h, scanned, scanSnapshot]

/-- What a scan at `t` finds stands under its own id. -/
def OwnIds (t : Time) (data : GoMap EntityID (List EntityVersion)) : Prop :=
  ∀ e ent, (scanned t (data.getD e [])).1 = some ent → ent.info.id = e

theorem OwnIds.snapshotRow (h : OwnIds t data) {modelRef : ModelRef} (k : EntityID) (e : Entity)
    (hrow : snapshotRow data modelRef t k = some e) : e.info.id = k :=
  h k e (Option.filter_eq_some_iff.mp hrow).1

theorem OwnIds.nodup (h : OwnIds t data) (horder : order.Perm data.keys) (modelRef : ModelRef) :
    ((getAllSnapshotPointers data order modelRef t).map (·.info.id)).Nodup := by
  rw [getAllSnapshotPointers_eq]
  exact (horder.nodup_iff.mpr data.keys_nodup).map_filterMap h.snapshotRow

/-! ## Listings of a model -/

/-- The buffered rows of a model. -/
def ownRows (tx : TransactionState) (modelRef : ModelRef) : List Entity :=
  ((tx.buffer.inOrder tx.buffer.keys).filter fun kv =>
    !(kv.1 ∈ tx.deletes) && kv.2.info.modelRef = modelRef).map Prod.snd

/-- Staged deletes and every buffered id. -/
def hiddenByAny (tx : TransactionState) (id : EntityID) : Bool :=
  id ∈ tx.deletes || id ∈ tx.buffer.keys

/-- Staged deletes and what is buffered under the model. -/
def hiddenByModel (tx : TransactionState) (modelRef : ModelRef) (id : EntityID) : Bool :=
  id ∈ tx.deletes || (tx.buffer.get id).any fun b => b.info.modelRef = modelRef

section Listings

variable {tx : TransactionState} {modelRef : ModelRef} {rows : List Entity}
  (hbuffer : ∀ eid e, tx.buffer.get eid = some e → e.info.id = eid)
  (hnodup : (rows.map (·.info.id)).Nodup)

include hbuffer in
theorem mem_ownRows {e : Entity} : e ∈ ownRows tx modelRef ↔
    tx.buffer.get e.info.id = some e ∧ e.info.id ∉ tx.deletes ∧ e.info.modelRef = modelRef := by
  simp only [ownRows, List.mem_map, List.mem_filter, Prod.exists, mem_inOrder, Bool.and_eq_true,
    Bool.not_eq_true', decide_eq_false_iff_not, decide_eq_true_eq]
  constructor
  · rintro ⟨k, e, ⟨⟨-, hget⟩, hcond⟩, rfl⟩
    obtain rfl := hbuffer k e hget
    exact ⟨hget, hcond⟩
  · rintro ⟨hget, hcond⟩
    exact ⟨e.info.id, e, ⟨⟨mem_keys_of_get hget, hget⟩, hcond⟩, rfl⟩

include hbuffer in
theorem mem_ownRows_ids_iff (id : EntityID) :
    id ∈ (ownRows tx modelRef).map (·.info.id) ↔
      id ∉ tx.deletes ∧ ∃ e ∈ tx.buffer.get id, e.info.modelRef = modelRef := by
  simp only [List.mem_map, mem_ownRows hbuffer, Option.mem_def]
  constructor
  · rintro ⟨e, ⟨hget, hdel, hmodel⟩, rfl⟩
    exact ⟨hdel, e, hget, hmodel⟩
  · rintro ⟨hdel, e, hget, hmodel⟩
    obtain rfl := hbuffer id e hget
    exact ⟨e, ⟨hget, hdel, hmodel⟩, rfl⟩

include hbuffer in
theorem nodup_ownRows_ids : ((ownRows tx modelRef).map (·.info.id)).Nodup := by
  have hkeys : (ownRows tx modelRef).map (·.info.id) = ((tx.buffer.inOrder tx.buffer.keys).filter
      fun kv => !(kv.1 ∈ tx.deletes) && kv.2.info.modelRef = modelRef).map Prod.fst := by
    rw [ownRows, List.map_map]
    refine List.map_congr_left fun kv hkv => ?_
    exact hbuffer kv.1 kv.2 (mem_inOrder.mp (List.mem_filter.mp hkv).1).2
  rw [hkeys]
  refine List.Nodup.sublist (List.filter_sublist.map _) ?_
  rw [map_fst_inOrder fun k hk => hk]
  exact tx.buffer.keys_nodup

include hbuffer in
/-- A buffered row of the model hides the committed one in either way. -/
theorem hidden_of_mem_ownRows {id : EntityID} (h : id ∈ (ownRows tx modelRef).map (·.info.id)) :
    hiddenByAny tx id = true ∧ hiddenByModel tx modelRef id = true := by
  obtain ⟨-, e, he, hmember⟩ := (mem_ownRows_ids_iff hbuffer id).mp h
  have he : tx.buffer.get id = some e := he
  simp [hiddenByAny, hiddenByModel, mem_keys_of_get he, he, hmember]

include hbuffer hnodup in
theorem nodup_masked : ((rows.filter (fun e => !hiddenByAny tx e.info.id) ++
    ownRows tx modelRef).map (·.info.id)).Nodup :=
  Overlay.nodup_listing hnodup (nodup_ownRows_ids hbuffer) fun _ hid =>
    (hidden_of_mem_ownRows hbuffer hid).1

include hbuffer hnodup in
theorem nodup_narrow : ((rows.filter (fun e => !hiddenByModel tx modelRef e.info.id) ++
    ownRows tx modelRef).map (·.info.id)).Nodup :=
  Overlay.nodup_listing hnodup (nodup_ownRows_ids hbuffer) fun _ hid =>
    (hidden_of_mem_ownRows hbuffer hid).2

end Listings

/-! ## Each read path depends on the view only -/

section Reads

variable {t : Time} {data data' : GoMap EntityID (List EntityVersion)} {order order' : List EntityID}

variable {tx : TransactionState} {xs ys : List Entity} {m : GoMap EntityID Entity}

def KeyedById (m : GoMap EntityID Entity) : Prop := ∀ k e, m.get k = some e → e.info.id = k

theorem KeyedById.foldl_set {A : Type} (key : A → EntityID) (val : A → Entity) {xs : List A}
    (hxs : ∀ x ∈ xs, (val x).info.id = key x) (h : KeyedById m) :
    KeyedById (xs.foldl (fun m x => m.set (key x) (val x)) m) := by
  refine List.foldlRecOn xs _ h ?_
  intro m hm x hx k e hget
  rw [get_set] at hget
  split at hget
  · rename_i heq
    cases hget
    exact (hxs x hx).trans heq.symm
  · exact hm k e hget

/-- The merged view a page is cut from, filled from the standing rows and the own
writes. -/
def mergedView (standing : List Entity) (own : List (EntityID × Entity)) : GoMap EntityID Entity :=
  own.foldl (fun m kv => m.set kv.1 kv.2) (standing.foldl (fun m e => m.set e.info.id e) ∅)

theorem keyedById_mergedView (standing : List Entity) {own : List (EntityID × Entity)}
    (hown : ∀ kv ∈ own, kv.2.info.id = kv.1) : KeyedById (mergedView standing own) :=
  KeyedById.foldl_set Prod.fst Prod.snd hown
    (KeyedById.foldl_set (fun e : Entity => e.info.id) id (fun _ _ => rfl) nofun)

theorem KeyedById.nodup_rows (h : KeyedById m) :
    (((m.inOrder m.keys).map Prod.snd).map (·.info.id)).Nodup := by
  have hkeys : ((m.inOrder m.keys).map Prod.snd).map (·.info.id) = (m.inOrder m.keys).map Prod.fst := by
    rw [List.map_map]
    exact List.map_congr_left fun kv hkv => h kv.1 kv.2 (mem_inOrder.mp hkv).2
  rw [hkeys, map_fst_inOrder fun k hk => hk]
  exact m.keys_nodup

theorem KeyedById.mem_rows (h : KeyedById m) {e : Entity} :
    e ∈ (m.inOrder m.keys).map Prod.snd ↔ m.get e.info.id = some e := by
  constructor
  · intro he
    obtain ⟨⟨k, e⟩, hkv, rfl⟩ := List.mem_map.mp he
    obtain ⟨-, hget⟩ := mem_inOrder.mp hkv
    rw [h k e hget]
    exact hget
  · intro hget
    exact List.mem_map.mpr
      ⟨(e.info.id, e), mem_inOrder.mpr ⟨mem_keys_of_get hget, hget⟩, rfl⟩

/-- The merged view holds the committed rows that no buffered row of the model hides, and the
buffered ones. -/
theorem mergedRows_perm (hkept : WellKept tx.buffer tx.deletes) {modelRef : ModelRef}
    (hnodup : ((getAllSnapshotPointers data order modelRef
      tx.snapshotTime).map (·.info.id)).Nodup) :
    (mergedRows data order tx modelRef).Perm
      ((getAllSnapshotPointers data order modelRef tx.snapshotTime).filter
        (fun e => !hiddenByModel tx modelRef e.info.id) ++ ownRows tx modelRef) := by
  obtain ⟨rows, hrows⟩ : ∃ rows, getAllSnapshotPointers data order modelRef tx.snapshotTime =
    rows := ⟨_, rfl⟩
  obtain ⟨own, hown⟩ : ∃ own, (tx.buffer.inOrder tx.buffer.keys).filter
    (fun kv => kv.2.info.modelRef = modelRef) = own := ⟨_, rfl⟩
  obtain ⟨view, hview⟩ : ∃ view, mergedView (rows.filter fun e => !(e.info.id ∈ tx.deletes)) own =
    view := ⟨_, rfl⟩
  have hmerged : mergedRows data order tx modelRef = (view.inOrder view.keys).map Prod.snd := by
    rw [← hview, ← hown, ← hrows]
    rfl
  have hmem (k : EntityID) (e : Entity) :
      (k, e) ∈ own ↔ tx.buffer.get k = some e ∧ e.info.modelRef = modelRef := by
    rw [← hown, List.mem_filter, mem_inOrder, decide_eq_true_iff]
    exact and_congr_left fun _ => ⟨fun h => h.2, fun h => ⟨mem_keys_of_get h, h⟩⟩
  have hkeyed : KeyedById view := hview ▸ keyedById_mergedView _ fun kv hkv =>
    hkept.ids kv.1 kv.2 ((hmem kv.1 kv.2).mp hkv).1
  have hownKeys : (own.map Prod.fst).Nodup := by
    rw [← hown]
    refine List.Nodup.sublist (List.filter_sublist.map _) ?_
    rw [map_fst_inOrder fun k hk => hk]
    exact tx.buffer.keys_nodup
  rw [hrows] at hnodup ⊢
  rw [hmerged]
  refine (List.perm_ext_iff_of_nodup hkeyed.nodup_rows.of_map
    (nodup_narrow hkept.ids hnodup).of_map).mpr fun e => ?_
  rw [hkeyed.mem_rows, List.mem_append, List.mem_filter, mem_ownRows hkept.ids, ← hview, mergedView]
  by_cases hbuffered : ∃ b, tx.buffer.get e.info.id = some b ∧ b.info.modelRef = modelRef
  · obtain ⟨b, hget, hmodel⟩ := hbuffered
    have hdel : e.info.id ∉ tx.deletes := fun hdel =>
      hkept.disjoint _ hdel (mem_keys_of_get hget)
    rw [get_foldl_set_of_mem Prod.fst Prod.snd hownKeys _ ((hmem _ b).mpr ⟨hget, hmodel⟩)]
    simp only [hiddenByModel, hget, hdel, hmodel, Option.any_some, Option.some.injEq]
    grind
  · have hnone : e.info.id ∉ own.map Prod.fst := by
      intro hkey
      obtain ⟨kv, hkv, heq⟩ := List.mem_map.mp hkey
      exact hbuffered ⟨kv.2, heq ▸ (hmem kv.1 kv.2).mp hkv⟩
    rw [get_foldl_set_of_notMem Prod.fst Prod.snd _ _ hnone]
    have hstanding : ((rows.filter fun e => !(e.info.id ∈ tx.deletes)).map (·.info.id)).Nodup :=
      hnodup.sublist (List.filter_sublist.map _)
    have hhidden : hiddenByModel tx modelRef e.info.id = decide (e.info.id ∈ tx.deletes) := by
      cases hget : tx.buffer.get e.info.id with
      | none => simp [hiddenByModel, hget]
      | some b =>
        have hmodel : b.info.modelRef ≠ modelRef := fun hmodel => hbuffered ⟨b, hget, hmodel⟩
        simp [hiddenByModel, hget, hmodel]
    rw [hhidden]
    constructor
    · intro hget
      by_cases hkey : e.info.id ∈ (rows.filter fun e => !(e.info.id ∈ tx.deletes)).map (·.info.id)
      · obtain ⟨x, hx, heq⟩ := List.mem_map.mp hkey
        have hfound := get_foldl_set_of_mem (fun e : Entity => e.info.id) id hstanding ∅ hx
        obtain rfl : x = e := Option.some.inj (hfound.symm.trans (heq ▸ hget))
        exact .inl (List.mem_filter.mp hx)
      · rw [get_foldl_set_of_notMem (fun e : Entity => e.info.id) (fun e => e) _ _ hkey] at hget
        simp at hget
    · rintro (⟨he, hdel⟩ | ⟨hget, -, hmodel⟩)
      · exact get_foldl_set_of_mem (fun e : Entity => e.info.id) id hstanding ∅
          (List.mem_filter.mpr ⟨he, hdel⟩)
      · exact absurd ⟨e, hget, hmodel⟩ hbuffered

end Reads

/-- `w'` comes after `w`: histories grew by rows stamped above the floor of `w`, and
records kept their snapshots. -/
structure Later (w w' : World) : Prop where
  floor : w.sys.tm.lastSubmitTime ≤ w'.sys.tm.lastSubmitTime
  rows : ∀ t e, ∃ rows, w'.sys.factory.versions t e = w.sys.factory.versions t e ++ rows ∧
    ∀ row ∈ rows, w.sys.tm.lastSubmitTime < row.submitTime
  records : ∀ t tx, w.sys.txs.get t = some tx →
    ∃ tx', w'.sys.txs.get t = some tx' ∧ tx'.snapshotTime = tx.snapshotTime

theorem Later.refl (w : World) : Later w w :=
  ⟨le_rfl, fun _ _ => ⟨[], by simp, by simp⟩, fun _ tx h => ⟨tx, h, rfl⟩⟩

theorem Later.trans {w1 w2 : World} (h : Later w w1) (h' : Later w1 w2) : Later w w2 where
  floor := h.floor.trans h'.floor
  rows := by
    intro t e
    obtain ⟨rows, hrows, hlt⟩ := h.rows t e
    obtain ⟨rows', hrows', hlt'⟩ := h'.rows t e
    refine ⟨rows ++ rows', by rw [hrows', hrows, List.append_assoc], ?_⟩
    intro row hrow
    rcases List.mem_append.mp hrow with hrow | hrow
    · exact hlt row hrow
    · exact lt_of_le_of_lt h.floor (hlt' row hrow)
  records := by
    intro t tx hget
    obtain ⟨tx1, hget1, hsnap1⟩ := h.records t tx hget
    obtain ⟨tx2, hget2, hsnap2⟩ := h'.records t tx1 hget1
    exact ⟨tx2, hget2, hsnap2.trans hsnap1⟩

theorem Stepped.later {a : Action} {r : Result} (h : Stepped spi w a r w') : Later w w' where
  floor := h.txChange.floor
  rows := by
    intro t e
    cases h.history t e with
    | same hsame => exact ⟨[], by simp [hsame], by simp⟩
    | grown hfloor hext _ =>
      obtain ⟨rows, hrows, hstamp⟩ := hext.append
      exact ⟨rows, hrows, fun row hrow => by rw [hstamp row hrow]; exact hfloor⟩
  records := by
    intro t tx hget
    obtain ⟨tx', hget', -, hsnap, -⟩ := h.txChange.record hget
    exact ⟨tx', hget', hsnap⟩

theorem scanned_mem {ent : Entity} (h : (scanned t vs).1 = some ent) :
    ∃ row ∈ vs, row.entity = some ent := by
  unfold scanned at h
  rw [scanSnapshot_eq_latestAt] at h
  cases hlast : Timeline.latestAt EntityVersion.submitTime t vs with
  | none => simp [hlast] at h
  | some row =>
    have hmem : row ∈ vs := (List.takeWhile_sublist _).mem (List.mem_of_getLast? hlast)
    rw [hlast] at h
    dsimp only at h
    split at h
    · cases h
    · exact ⟨row, hmem, h⟩

theorem ownIds_of_run {allowed : Trace → World → Action → Prop} {tr : Trace}
    (hrun : PluginRun spi allowed tr w) (tid : TenantID) :
    OwnIds t (w.sys.factory.tenantData tid) := by
  intro e ent h
  obtain ⟨row, hrow, hent⟩ := scanned_mem h
  exact (rowIds_of_run hrun).rows tid e row hrow ent hent

/-! ## Entities in a listing -/

/-- What `MergeBounded` is documented to do: the rows that are not hidden and the additions, in
order, if they fit within the limit. -/
def Spi.MergesBounded (spi : Spi) : Prop :=
  ∀ committed adds hidden less limit,
    let kept := committed.filter fun e => !hidden e.info.id
    (∀ c ∈ kept, ∀ a ∈ adds, c.info.id ≠ a.info.id) → 0 < limit →
    ((kept ++ adds).length : Int) ≤ limit →
    ∃ page, spi.mergeBounded committed adds hidden less limit = .ok page ∧ page.Perm (kept ++ adds)

theorem Spi.MergesBounded.exists_page (hspi : spi.MergesBounded)
    {committed adds rows own : List Entity} {hidden : EntityID → Bool}
    (hcommitted : committed.Perm rows) (hadds : adds.Perm own)
    (hown : ∀ row ∈ own, hidden row.info.id = true) (less : Entity → Entity → Bool) {limit : Int}
    (hpos : 0 < limit)
    (hlimit : ((rows.filter (fun e => !hidden e.info.id) ++ own).length : Int) ≤ limit) :
    ∃ page, spi.mergeBounded committed adds hidden less limit = .ok page ∧
      page.Perm (rows.filter (fun e => !hidden e.info.id) ++ own) := by
  have hperm := (hcommitted.filter fun e => !hidden e.info.id).append hadds
  have hdistinct : ∀ c ∈ committed.filter (fun e => !hidden e.info.id), ∀ a ∈ adds,
      c.info.id ≠ a.info.id := by
    intro c hc a ha heq
    have hvisible := (List.mem_filter.mp hc).2
    rw [heq, hown a (hadds.mem_iff.mp ha)] at hvisible
    cases hvisible
  obtain ⟨page, hpage, hpperm⟩ := hspi committed adds hidden less limit hdistinct hpos
    (by rw [hperm.length_eq]; exact hlimit)
  exact ⟨page, hpage, hpperm.trans hperm⟩

theorem countTx_eq (data : GoMap EntityID (List EntityVersion)) (order : List EntityID)
    (tx : TransactionState) (modelRef : ModelRef) : countTx data order tx modelRef =
      ((getAllSnapshotPointers data order modelRef tx.snapshotTime).filter
        (fun e => !hiddenByModel tx modelRef e.info.id) ++ ownRows tx modelRef).map (·.info.state) := by
  simp only [countTx, List.map_append, ownRows, List.map_map, hiddenByModel, Bool.not_or]
  congr 2
  exact List.filter_congr fun kv _ => Bool.and_comm _ _

end CyodaGo.Memory
