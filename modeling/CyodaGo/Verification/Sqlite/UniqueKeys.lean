import CyodaGo.Model.Sqlite.Flush
import CyodaGo.Shared.Holdings

/-! # Unique keys in a flush to SQLite

The flush replaces the claims of one buffered entity after the other, in the order of a map. When
the order does not matter is decided by which entity takes a value that another one still
holds. -/

namespace CyodaGo.SqliteTx

open Memory Holdings

/-! ## Versions -/

section Versions

variable {tx : TransactionState} {id : EntityID} {db : Database}
  {table : GoMap (TenantID × EntityID × Int) VersionRow} {f : TransactionState.Flushing}

/-- No entity has a version beyond its current one. -/
def Consistent (tid : TenantID) (db : Database) : Prop :=
  ∀ id v, (db.versions.get (tid, id, v)).isSome = true →
    ∃ row, db.entities.get (tid, id) = some row ∧ v ≤ row.version

/-- The versions of `id` end at the base version; those of other entities are the table's. -/
structure Ends (tx : TransactionState) (id : EntityID)
    (table : GoMap (TenantID × EntityID × Int) VersionRow) (f : TransactionState.Flushing) :
    Prop where
  le : ∀ v, (f.versions.get (tx.tenantID, id, v)).isSome = true → v ≤ f.baseVersion
  other : ∀ id' v, id' ≠ id →
    f.versions.get (tx.tenantID, id', v) = table.get (tx.tenantID, id', v)

theorem flushVersion_ok (h : Ends tx id table f) (submitTime createdAt : Int) (staged : Entity) :
    ∃ f', tx.flushVersion submitTime id createdAt f staged = .ok f' ∧ Ends tx id table f' ∧
      f'.last.version = f'.baseVersion := by
  have hfree : (f.versions.get (tx.tenantID, id, f.baseVersion + 1)).isSome = false := by
    by_contra hsome
    have := h.le _ (Bool.not_eq_false _ ▸ hsome)
    omega
  refine ⟨_, if_neg (by simp [TransactionState.stamp, hfree]), ⟨fun v hv => ?_, ?_⟩, rfl⟩
  · simp only [TransactionState.stamp, GoMap.get_set, Prod.mk.injEq, true_and] at hv
    split at hv
    · next heq => exact heq.le
    · exact (h.le v hv).trans (Int.le_add_one le_rfl)
  · intro id' v hne
    exact (GoMap.get_set_of_ne _ _ (by simp [hne])).trans (h.other id' v hne)

theorem flushVersions_ok (h : Ends tx id table f) (submitTime createdAt : Int)
    (toFlush : List Entity) :
    ∃ f', toFlush.foldlM (tx.flushVersion submitTime id createdAt) f = .ok f' ∧
      Ends tx id table f' := by
  induction toFlush generalizing f with
  | nil => exact ⟨f, rfl, h⟩
  | cons staged rest ih =>
    obtain ⟨f1, hf1, h1, -⟩ := flushVersion_ok h submitTime createdAt staged
    rw [List.foldlM_cons, hf1]
    exact ih h1

/-- With consistent versions, only claims can stop the flush of an entity. -/
theorem flushEntity_eq (spi : Spi) (submitTime : Int) (h : Consistent tx.tenantID db)
    (id : EntityID) (entity : Entity) :
    ∃ entities versions,
      (∀ claims, Consistent tx.tenantID { db with entities, versions, claims }) ∧
      tx.flushEntity submitTime spi db id entity =
        (replaceClaims spi tx.tenantID entity (tx.uniqueKeys.getD id []) db.claims).map
          fun claims => { db with entities, versions, claims } := by
  let row := db.entities.get (tx.tenantID, id)
  let createdAt := (row.map (·.createdAt)).getD submitTime
  let f : TransactionState.Flushing :=
    ⟨(row.map (·.version)).getD 0, row.isNone, db.versions, entity.info⟩
  have hends : Ends tx id db.versions f := by
    refine ⟨fun v hv => ?_, fun _ _ _ => rfl⟩
    obtain ⟨row', hrow', hle⟩ := h id v hv
    have hrow : row = some row' := hrow'
    simpa [f, hrow] using hle
  obtain ⟨f1, hf1, h1⟩ := flushVersions_ok hends submitTime createdAt (tx.superseded.getD id [])
  obtain ⟨f', hf', h', hlast⟩ := flushVersion_ok h1 submitTime createdAt entity
  refine ⟨db.entities.set (tx.tenantID, id)
    ⟨f'.last.modelRef, f'.last.version, entity.data, f'.last, false, createdAt, submitTime⟩,
    f'.versions, fun claims id' v hv => ?_, ?_⟩
  · by_cases hid : id' = id
    · subst hid
      exact ⟨_, GoMap.get_set_self _ _ _, hlast ▸ h'.le v hv⟩
    obtain ⟨row', hrow', hle⟩ := h id' v (h'.other id' v hid ▸ hv)
    exact ⟨row', (GoMap.get_set_of_ne _ _ (by simp [hid])).trans hrow', hle⟩
  · simp only [f, row, createdAt] at hf1 hf'
    simp only [TransactionState.flushEntity, List.foldlM_append, hf1]
    change (tx.flushVersion _ _ _ _ _ >>= pure) >>= _ = _
    rw [hf']
    cases replaceClaims spi tx.tenantID entity (tx.uniqueKeys.getD id []) db.claims <;> rfl

/-- Along the buffer, too, only claims can stop the flush. -/
theorem flushEntities_claims (spi : Spi) (submitTime : Int) (cs : List (EntityID × Entity))
    (h : Consistent tx.tenantID db) :
    (cs.foldlM (fun db c => tx.flushEntity submitTime spi db c.1 c.2) db).map (·.claims) =
        cs.foldlM (fun claims c => replaceClaims spi tx.tenantID c.2
          (tx.uniqueKeys.getD c.1 []) claims) db.claims ∧
      ∀ db', cs.foldlM (fun db c => tx.flushEntity submitTime spi db c.1 c.2) db = .ok db' →
        Consistent tx.tenantID db' := by
  induction cs generalizing db with
  | nil =>
    refine ⟨rfl, fun db' hdb' => ?_⟩
    cases hdb'
    exact h
  | cons c cs ih =>
    obtain ⟨entities, versions, hconsistent, heq⟩ := flushEntity_eq spi submitTime h c.1 c.2
    rw [List.foldlM_cons, List.foldlM_cons, heq]
    cases replaceClaims spi tx.tenantID c.2 (tx.uniqueKeys.getD c.1 []) db.claims with
    | error err =>
      refine ⟨rfl, fun db' hdb' => ?_⟩
      cases hdb'
    | ok claims => exact ih (hconsistent claims)

theorem flushDelete_ok (submitTime : Int) (committer : WriteAttribution)
    (h : Consistent tx.tenantID db) (id : EntityID) :
    ∃ db', tx.flushDelete submitTime committer db id = .ok db' ∧ Consistent tx.tenantID db' ∧
      db'.claims = db.claims := by
  unfold TransactionState.flushDelete
  split
  · exact ⟨db, rfl, h, rfl⟩
  · next row hrow =>
    have hfree : (db.versions.get (tx.tenantID, id, row.version + 1)).isSome = false := by
      by_contra hsome
      obtain ⟨row', hrow', hle⟩ := h _ _ (Bool.not_eq_false _ ▸ hsome)
      cases hrow.symm.trans hrow'
      omega
    refine ⟨_, if_neg (by simp [hfree]), fun id' v hv => ?_, rfl⟩
    simp only [GoMap.get_set, Prod.mk.injEq, true_and] at hv ⊢
    split at hv
    · next heq =>
      rw [if_pos heq.1]
      exact ⟨_, rfl, heq.2.le⟩
    obtain ⟨row', hrow', hle⟩ := h id' v hv
    split
    · next heq =>
      subst heq
      cases hrow.symm.trans hrow'
      exact ⟨_, rfl, hle.trans (Int.le_add_one le_rfl)⟩
    · exact ⟨row', hrow', hle⟩

theorem flushDeletes_ok (submitTime : Int) (committer : WriteAttribution) (ids : List EntityID)
    (h : Consistent tx.tenantID db) :
    ∃ db', ids.foldlM (tx.flushDelete submitTime committer) db = .ok db' ∧
      db'.claims = db.claims := by
  induction ids generalizing db with
  | nil => exact ⟨db, rfl, rfl⟩
  | cons id ids ih =>
    obtain ⟨db1, hdb1, hconsistent, hclaims⟩ := flushDelete_ok submitTime committer h id
    obtain ⟨db2, hdb2, hclaims2⟩ := ih hconsistent
    refine ⟨db2, ?_, hclaims2.trans hclaims⟩
    rw [List.foldlM_cons, hdb1]
    exact hdb2

end Versions

/-! ## Claims -/

section Claims

variable (spi : Spi) (tx : TransactionState)

/-- The claims of a buffered entity's final data. -/
def claimsOf (id : EntityID) (e : Entity) : Option (List ClaimRow) :=
  if (tx.uniqueKeys.getD id []).isEmpty then some []
  else
    (spi.computeClaims (tx.uniqueKeys.getD id []) e.data).map fun cs =>
      cs.map (claimRow tx.tenantID e)

variable {spi tx} in
theorem owner_claimsOf {id : EntityID} {e : Entity} {rows : List ClaimRow}
    (h : claimsOf spi tx id e = some rows) {r : ClaimRow} (hr : r ∈ rows) :
    r.owner = ⟨tx.tenantID, e.info.id⟩ := by
  unfold claimsOf at h
  split at h
  · cases h
    cases hr
  obtain ⟨cs, -, rfl⟩ := Option.map_eq_some_iff.mp h
  obtain ⟨c, -, rfl⟩ := List.mem_map.mp hr
  rfl

/-- The claims of a buffered entity, unless it has a partial key value. -/
def newClaims (id : EntityID) : Option (List ClaimRow) :=
  (tx.buffer.get id).bind (claimsOf spi tx id)

def batch : Batch EntityID ClaimRow ClaimKey EntityTenantKey where
  value := ClaimRow.value
  owner := ClaimRow.owner
  holder := fun id => ⟨tx.tenantID, id⟩
  rows := fun id => (newClaims spi tx id).getD []
  own := by
    intro id r hr
    cases hrows : newClaims spi tx id with
    | none => simp [hrows] at hr
    | some rows =>
      obtain ⟨e, hget, hclaims⟩ := Option.bind_eq_some_iff.mp hrows
      rw [hrows, Option.getD_some] at hr
      rw [owner_claimsOf hclaims hr, tx.buffered id e hget]
  holder_injective := fun _ _ heq => (EntityTenantKey.mk.inj heq).2

/-- The claims of one entity have distinct keys. -/
def DistinctKeys : Prop := ∀ id rows, newClaims spi tx id = some rows → (rows.map (·.keyID)).Nodup

def keyed (id : EntityID) : Bool := !(tx.uniqueKeys.getD id []).isEmpty

/-- The entity has no partial key value. -/
def complete (id : EntityID) : Bool := (newClaims spi tx id).isSome

/-- What an insertion that only a value can stop returns. -/
def inserted : Option (List ClaimRow) → Except FlushError (List ClaimRow)
  | some t => .ok t
  | none => .error .uniqueViolation

/-- The replacement of an entity's claims. -/
def serve (t : List ClaimRow) (id : EntityID) : Except FlushError (List ClaimRow) :=
  if keyed tx id then
    if complete spi tx id then inserted ((batch spi tx).replace t id)
    else .error (.partialUniqueKey id)
  else .ok t

/-- The entities whose claims are replaced. -/
def takers (ids : List EntityID) : List EntityID :=
  ids.filter fun id => keyed tx id && complete spi tx id

/-- Rows with distinct keys of an owner that holds nothing fail on their values only. -/
theorem insertClaims_eq {o : EntityTenantKey} {rows t : List ClaimRow}
    (hown : ∀ r ∈ rows, r.owner = o) (hkeys : (rows.map (·.keyID)).Nodup)
    (hfree : ∀ c ∈ t, ∀ r ∈ rows, c.owner = o → c.keyID ≠ r.keyID) :
    rows.foldlM insertClaim t = inserted ((batch spi tx).insertAll t rows) := by
  induction rows generalizing t with
  | nil => rfl
  | cons r rows ih =>
    rw [List.map_cons, List.nodup_cons] at hkeys
    have hkey : (t.any fun c' => c'.owner = r.owner ∧ c'.keyID = r.keyID) = false := by
      simp only [List.any_eq_false, decide_eq_true_eq, not_and]
      intro c hc howner
      exact hfree c hc r (by simp) (howner.trans (hown r (by simp)))
    have hany : (t.any fun c' => c'.value = r.value) = true ↔
        (batch spi tx).value r ∈ t.map (batch spi tx).value := by
      simp [batch]
    rw [List.foldlM_cons, insertClaim, if_neg (ne_true_of_eq_false hkey), Batch.insertAll,
      List.foldlM_cons, Batch.insert]
    by_cases hvalue : (batch spi tx).value r ∈ t.map (batch spi tx).value
    · rw [if_pos (hany.mpr hvalue), if_pos hvalue]
      rfl
    rw [if_neg (mt hany.mp hvalue), if_neg hvalue]
    refine ih (fun q hq => hown q (List.mem_cons_of_mem _ hq)) hkeys.2 ?_
    intro c hc q hq howner
    rcases List.mem_append.mp hc with hc | hc
    · exact hfree c hc q (List.mem_cons_of_mem _ hq) howner
    · obtain rfl := List.mem_singleton.mp hc
      exact fun heq => hkeys.1 (heq ▸ List.mem_map_of_mem hq)

/-- Without partial key values the takers decide. -/
theorem foldlM_serve (order : List EntityID) (h : ∀ id ∈ order, complete spi tx id = true)
    (t : List ClaimRow) :
    order.foldlM (serve spi tx) t = inserted ((batch spi tx).replaceAll t (takers spi tx order)) := by
  induction order generalizing t with
  | nil => rfl
  | cons id order ih =>
    have hrest := fun t => ih (fun id' hid' => h id' (List.mem_cons_of_mem _ hid')) t
    rw [List.foldlM_cons, serve, h id (by simp), takers]
    cases hkeyed : keyed tx id with
    | false =>
      rw [List.filter_cons_of_neg (by simp [hkeyed])]
      exact hrest t
    | true =>
      rw [List.filter_cons_of_pos (by simp [hkeyed, h id]), Batch.replaceAll, List.foldlM_cons]
      cases (batch spi tx).replace t id with
      | none => rfl
      | some t1 => exact hrest t1

variable {spi tx}

theorem replaceClaims_eq (hkeys : DistinctKeys spi tx) {id : EntityID} {e : Entity}
    (hget : tx.buffer.get id = some e) (t : List ClaimRow) :
    replaceClaims spi tx.tenantID e (tx.uniqueKeys.getD id []) t = serve spi tx t id := by
  have hid := tx.buffered id e hget
  have hclaims : newClaims spi tx id = claimsOf spi tx id e := by rw [newClaims, hget]; rfl
  unfold replaceClaims serve keyed complete
  cases hempty : (tx.uniqueKeys.getD id []).isEmpty with
  | true => rfl
  | false =>
    rw [claimsOf, hempty] at hclaims
    simp only [Bool.false_eq_true, if_false] at hclaims ⊢
    cases hcs : spi.computeClaims (tx.uniqueKeys.getD id []) e.data with
    | none => simp [hclaims, hcs, hid]
    | some cs =>
      rw [hcs, Option.map_some] at hclaims
      have hrows : (batch spi tx).rows id = cs.map (claimRow tx.tenantID e) := by
        simp [batch, hclaims]
      rw [hclaims, Batch.replace, hrows]
      refine (insertClaims_eq spi tx (o := ⟨tx.tenantID, id⟩) ?_ (hkeys id _ hclaims) ?_).trans ?_
      · intro r hr
        exact (batch spi tx).own (hrows ▸ hr)
      · intro c hc r _ howner
        have hc' : c ∈ (batch spi tx).release t id := hid ▸ hc
        exact absurd howner (Batch.mem_release.mp hc').2
      · rw [← hid]
        rfl

theorem foldlM_replaceClaims (hkeys : DistinctKeys spi tx) {order : List EntityID}
    (horder : ∀ id ∈ order, id ∈ tx.buffer.keys) (t : List ClaimRow) :
    (tx.buffer.inOrder order).foldlM (fun claims c =>
        replaceClaims spi tx.tenantID c.2 (tx.uniqueKeys.getD c.1 []) claims) t =
      order.foldlM (serve spi tx) t := by
  induction order generalizing t with
  | nil => rfl
  | cons id order ih =>
    obtain ⟨e, hget⟩ := (GoMap.mem_keys _ _).mp (horder id (by simp))
    rw [GoMap.inOrder_cons_of_get order hget, List.foldlM_cons, List.foldlM_cons,
      replaceClaims_eq hkeys hget]
    exact bind_congr fun t' => ih (fun id' hid' => horder id' (List.mem_cons_of_mem _ hid')) t'

theorem newClaims_of_unkeyed {id : EntityID} (h : keyed tx id = false) {rows : List ClaimRow}
    (hrows : newClaims spi tx id = some rows) : rows = [] := by
  obtain ⟨e, -, hclaims⟩ := Option.bind_eq_some_iff.mp hrows
  rw [claimsOf, if_pos (by simpa [keyed] using h)] at hclaims
  exact (Option.some.inj hclaims).symm

/-- The first partial key value ends the flush, if it is reached. -/
theorem foldlM_serve_stopped (before after : List EntityID) {id : EntityID}
    (h : ∀ id' ∈ before, complete spi tx id' = true) (hid : id ∈ tx.buffer.keys)
    (hstopped : complete spi tx id = false) (t : List ClaimRow) :
    (before ++ id :: after).foldlM (serve spi tx) t =
      inserted ((batch spi tx).replaceAll t (takers spi tx before)) >>= fun _ =>
        .error (.partialUniqueKey id) := by
  have hkeyed : keyed tx id = true := by
    obtain ⟨e, hget⟩ := (GoMap.mem_keys _ _).mp hid
    rw [keyed, Bool.not_eq_true', Bool.eq_false_iff]
    intro hempty
    simp [complete, newClaims, hget, claimsOf, hempty] at hstopped
  rw [List.foldlM_append, foldlM_serve spi tx before h]
  refine bind_congr fun t1 => ?_
  rw [List.foldlM_cons, serve, if_pos hkeyed, if_neg (by simp [hstopped])]
  rfl

end Claims

/-! ## The whole flush -/

section Flush

variable (spi : Spi) (tx : TransactionState) (submitTime : Int) (committer : WriteAttribution)
  (db : Database)

/-- The claims when the buffered entities are flushed. -/
def released (claims : List ClaimRow) : List ClaimRow :=
  claims.filter fun c => ¬ (c.tenantID = tx.tenantID ∧ c.entityID ∈ tx.deletes)

/-- No entity takes a value that another one holds. -/
def NoHandOver : Prop :=
  ∀ i ∈ takers spi tx tx.buffer.keys, ∀ j ∈ takers spi tx tx.buffer.keys,
    ¬ (batch spi tx).Takes (released tx db.claims) i j

/-- The new claims have distinct values, which no claim of an entity outside the takers has. -/
def Clear : Prop := (batch spi tx).Clear (released tx db.claims) (takers spi tx tx.buffer.keys)

/-- Some entities hand their values over in a ring. -/
def Ring : Prop :=
  ∃ id, Relation.TransGen (Graph.On ((batch spi tx).Takes (released tx db.claims))
    (takers spi tx tx.buffer.keys)) id id

/-- Entities that are saved without keys hold no claim. -/
def UnkeyedHoldNone : Prop :=
  ∀ id ∈ tx.buffer.keys, keyed tx id = false →
    ∀ r ∈ released tx db.claims, r.owner ≠ ⟨tx.tenantID, id⟩

/-- When the order of the buffer does not matter. If some entity has a partial key value, the
others can be served in every order. If none has, then either a conflict is there in every order,
by equal values or by a ring, or there is none and the unkeyed entities leave no claim behind. -/
structure Unambiguous : Prop where
  of_stopped : (∃ id ∈ tx.buffer.keys, complete spi tx id = false) →
    Clear spi tx db ∧ NoHandOver spi tx db
  of_complete : (∀ id ∈ tx.buffer.keys, complete spi tx id = true) → Clear spi tx db →
    Ring spi tx db ∨ NoHandOver spi tx db ∧ UnkeyedHoldNone tx db

/-- The order in which the buffer is visited and the two in which the deletions are. -/
structure Visits where
  order : List EntityID
  releaseOrder : List EntityID
  deleteOrder : List EntityID
  perm : order.Perm tx.buffer.keys
  releases : releaseOrder.toFinset = tx.deletes
  deletes : deleteOrder.toFinset = tx.deletes

variable {tx} in
/-- The claims that the flush leaves, or its error. -/
def Visits.claims (v : Visits tx) : Except FlushError (List ClaimRow) :=
  (tx.flushToSQLite submitTime spi committer v.order v.releaseOrder v.deleteOrder db).map (·.claims)

/-- The claims after the flush: those of entities that are neither buffered nor deleted, and those
of the final data of every buffered entity. -/
def FinalClaim (r : ClaimRow) : Prop :=
  r ∈ db.claims ∧ ¬ (r.tenantID = tx.tenantID ∧
      (r.entityID ∈ tx.deletes ∨ r.entityID ∈ tx.buffer.keys)) ∨
    ∃ id rows, newClaims spi tx id = some rows ∧ r ∈ rows

/-- Every order of the maps succeeds and leaves exactly the claims of the final data, or every
order fails with a unique violation, or every order fails otherwise. -/
def Settled : Prop :=
  (∀ v : Visits tx, ∃ t, v.claims spi submitTime committer db = .ok t ∧
    ∀ r, r ∈ t ↔ FinalClaim spi tx db r) ∨
  (∀ v : Visits tx, v.claims spi submitTime committer db = .error .uniqueViolation) ∨
  ∀ v : Visits tx, ∃ err, v.claims spi submitTime committer db = .error err ∧
    err ≠ .uniqueViolation

theorem nodup_takers : (takers spi tx tx.buffer.keys).Nodup := tx.buffer.keys_nodup.filter _

variable {spi tx db} {order : List EntityID}

theorem foldl_releaseClaims (ids : List EntityID) (claims : List ClaimRow) :
    ids.foldl (releaseClaims tx.tenantID) claims =
      claims.filter fun c => ¬ (c.tenantID = tx.tenantID ∧ c.entityID ∈ ids) := by
  induction ids generalizing claims with
  | nil => simp
  | cons id ids ih =>
    rw [List.foldl_cons, ih, releaseClaims, List.filter_filter]
    refine List.filter_congr fun c _ => ?_
    rw [← Bool.decide_and, decide_eq_decide, ClaimRow.owner, ne_eq, EntityTenantKey.mk.injEq,
      List.mem_cons]
    tauto

theorem Visits.released_eq (v : Visits tx) :
    v.releaseOrder.foldl (releaseClaims tx.tenantID) db.claims = released tx db.claims := by
  rw [foldl_releaseClaims, released]
  refine List.filter_congr fun c _ => ?_
  rw [decide_eq_decide, ← v.releases, List.mem_toFinset]

/-- With consistent versions, the claims of the buffered entities decide. -/
theorem Visits.claims_eq (v : Visits tx) (hversions : Consistent tx.tenantID db)
    (hkeys : DistinctKeys spi tx) :
    v.claims spi submitTime committer db =
      v.order.foldlM (serve spi tx) (released tx db.claims) := by
  have hconsistent : Consistent tx.tenantID { db with claims := released tx db.claims } := hversions
  obtain ⟨hclaims, hkept⟩ :=
    flushEntities_claims spi submitTime (tx.buffer.inOrder v.order) hconsistent
  rw [← foldlM_replaceClaims hkeys fun id hid => v.perm.mem_iff.mp hid, ← hclaims, Visits.claims,
    TransactionState.flushToSQLite, v.released_eq]
  cases hflush : (tx.buffer.inOrder v.order).foldlM
      (fun db c => tx.flushEntity submitTime spi db c.1 c.2)
      { db with claims := released tx db.claims } with
  | error err => rfl
  | ok db1 =>
    obtain ⟨db2, hdb2, hclaims2⟩ :=
      flushDeletes_ok submitTime committer v.deleteOrder (hkept db1 hflush)
    simp only [hdb2, bind, Except.bind]
    exact congrArg Except.ok hclaims2

/-- The deletions are visited in some order. -/
noncomputable def Visits.along (h : order.Perm tx.buffer.keys) : Visits tx :=
  ⟨order, tx.deletes.toList, tx.deletes.toList, h, Finset.toList_toFinset _,
    Finset.toList_toFinset _⟩

/-- Every order of the takers can be followed by the other entities. -/
theorem exists_order {l : List EntityID} (hl : l.Perm (takers spi tx tx.buffer.keys)) :
    ∃ rest, (l ++ rest).Perm tx.buffer.keys ∧ takers spi tx l = l ∧
      takers spi tx (l ++ rest) = l := by
  have htakers : takers spi tx l = l :=
    List.filter_eq_self.mpr fun id hid => (List.mem_filter.mp (hl.mem_iff.mp hid)).2
  refine ⟨tx.buffer.keys.filter fun id => !(keyed tx id && complete spi tx id),
    (hl.append_right _).trans (List.filter_append_perm _ _), htakers, ?_⟩
  rw [takers, List.filter_append, List.filter_filter]
  refine (congrArg₂ _ htakers (List.filter_eq_nil_iff.mpr ?_)).trans (List.append_nil l)
  simp

/-- New claims are those of the takers. -/
theorem mem_rows_iff (horder : order.Perm tx.buffer.keys) {r : ClaimRow} :
    r ∈ (takers spi tx order).flatMap (batch spi tx).rows ↔
      ∃ id rows, newClaims spi tx id = some rows ∧ r ∈ rows := by
  rw [List.mem_flatMap]
  constructor
  · rintro ⟨id, -, hr⟩
    cases hrows : newClaims spi tx id with
    | none => simp [batch, hrows] at hr
    | some rows => exact ⟨id, rows, hrows, by simpa [batch, hrows] using hr⟩
  · rintro ⟨id, rows, hrows, hr⟩
    obtain ⟨e, hget, -⟩ := Option.bind_eq_some_iff.mp hrows
    have hkeyed : keyed tx id = true := by
      by_contra h
      simp [newClaims_of_unkeyed (by simpa using h) hrows] at hr
    refine ⟨id, List.mem_filter.mpr ⟨horder.mem_iff.mpr (GoMap.mem_keys_of_get hget), ?_⟩, ?_⟩
    · simp [hkeyed, complete, hrows]
    · simpa [batch, hrows] using hr

theorem mem_kept_iff (horder : order.Perm tx.buffer.keys) {r : ClaimRow} :
    r ∈ (batch spi tx).kept (released tx db.claims) (takers spi tx order) ↔
      r ∈ released tx db.claims ∧
        ∀ id ∈ tx.buffer.keys, keyed tx id = true → complete spi tx id = true →
          r.owner ≠ ⟨tx.tenantID, id⟩ := by
  rw [Batch.mem_kept]
  refine and_congr_right fun _ => ?_
  simp only [takers, List.mem_filter, horder.mem_iff, Bool.and_eq_true, and_imp]
  rfl

/-- A flush that succeeds leaves the claims of the final data exactly if the unkeyed entities hold
none. -/
theorem final_iff (hcomplete : ∀ id ∈ tx.buffer.keys, complete spi tx id = true)
    (horder : order.Perm tx.buffer.keys) {t : List ClaimRow}
    (ht : (batch spi tx).replaceAll (released tx db.claims) (takers spi tx order) = some t) :
    (∀ r, r ∈ t ↔ FinalClaim spi tx db r) ↔ UnkeyedHoldNone tx db := by
  have hnodup : (takers spi tx order).Nodup := (horder.filter _).nodup_iff.mpr (nodup_takers spi tx)
  have hmem : ∀ r, r ∈ t ↔
      (r ∈ released tx db.claims ∧ ∀ id ∈ tx.buffer.keys, keyed tx id = true →
        complete spi tx id = true → r.owner ≠ ⟨tx.tenantID, id⟩) ∨
      ∃ id rows, newClaims spi tx id = some rows ∧ r ∈ rows := by
    intro r
    rw [(Batch.perm_of_replaceAll hnodup ht).mem_iff, List.mem_append, mem_kept_iff horder,
      mem_rows_iff horder]
  constructor
  · intro hfinal id hid hunkeyed r hr howner
    obtain ⟨htenant, hentity⟩ := EntityTenantKey.mk.inj howner
    have hkept : r ∈ t := by
      refine (hmem r).mpr (.inl ⟨hr, fun id' _ hkeyed _ howner' => ?_⟩)
      obtain ⟨-, rfl⟩ := EntityTenantKey.mk.inj (howner.symm.trans howner')
      cases hunkeyed.symm.trans hkeyed
    rcases (hfinal r).mp hkept with ⟨-, hnot⟩ | ⟨id', rows, hrows, hr'⟩
    · exact hnot ⟨htenant, .inr (hentity ▸ hid)⟩
    · have hr'' : r ∈ (batch spi tx).rows id' := by simpa [batch, hrows] using hr'
      obtain ⟨-, rfl⟩ := EntityTenantKey.mk.inj (howner.symm.trans ((batch spi tx).own hr''))
      simp [newClaims_of_unkeyed hunkeyed hrows] at hr'
  · intro hnone r
    rw [hmem, FinalClaim]
    refine or_congr_left ?_
    have hreleased : r ∈ released tx db.claims ↔
        r ∈ db.claims ∧ ¬ (r.tenantID = tx.tenantID ∧ r.entityID ∈ tx.deletes) := by
      rw [released, List.mem_filter, decide_eq_true_eq]
    constructor
    · rintro ⟨hr, hothers⟩
      obtain ⟨hclaim, hdeleted⟩ := hreleased.mp hr
      refine ⟨hclaim, ?_⟩
      rintro ⟨htenant, hentity | hentity⟩
      · exact hdeleted ⟨htenant, hentity⟩
      have howner : r.owner = ⟨tx.tenantID, r.entityID⟩ := by rw [ClaimRow.owner, htenant]
      cases hkeyed : keyed tx r.entityID with
      | true => exact hothers _ hentity hkeyed (hcomplete _ hentity) howner
      | false => exact hnone _ hentity hkeyed r hr howner
    · rintro ⟨hclaim, hnot⟩
      refine ⟨hreleased.mpr ⟨hclaim, fun h => hnot ⟨h.1, .inl h.2⟩⟩, fun id hid _ _ howner => ?_⟩
      obtain ⟨htenant, hentity⟩ := EntityTenantKey.mk.inj howner
      exact hnot ⟨htenant, .inr (hentity ▸ hid)⟩

variable (hversions : Consistent tx.tenantID db) (hkeys : DistinctKeys spi tx)

include hversions hkeys

theorem settled_of_complete (hcomplete : ∀ id ∈ tx.buffer.keys, complete spi tx id = true) :
    Settled spi tx submitTime committer db ↔
      (Clear spi tx db → Ring spi tx db ∨ NoHandOver spi tx db ∧ UnkeyedHoldNone tx db) := by
  have hnodup := nodup_takers spi tx
  have hflush : ∀ v : Visits tx, v.claims spi submitTime committer db =
      inserted ((batch spi tx).replaceAll (released tx db.claims) (takers spi tx v.order)) :=
    fun v => (v.claims_eq submitTime committer hversions hkeys).trans
      (foldlM_serve spi tx v.order (fun id hid => hcomplete id (v.perm.mem_iff.mp hid)) _)
  -- every order of the takers is that of some flush
  have hvisits : ∀ {l}, l.Perm (takers spi tx tx.buffer.keys) →
      ∃ v : Visits tx, takers spi tx v.order = l := by
    intro l hl
    obtain ⟨rest, hperm, -, htakers⟩ := exists_order hl
    exact ⟨.along hperm, htakers⟩
  have hsome : ∀ {x t}, inserted x = .ok t → x = some t := by
    rintro (_ | t') t h <;> cases h
    rfl
  constructor
  · rintro (hok | hviolation | hother) hclear
    · refine .inr ⟨((Batch.forall_order_iff hnodup).mp fun l hl => ?_).2, ?_⟩
      · obtain ⟨v, rfl⟩ := hvisits hl
        obtain ⟨t, ht, -⟩ := hok v
        exact Option.isSome_of_eq_some (hsome ((hflush v).symm.trans ht))
      · let v := Visits.along (.refl tx.buffer.keys)
        obtain ⟨t, ht, hfinal⟩ := hok v
        exact (final_iff hcomplete v.perm (hsome ((hflush v).symm.trans ht))).mp hfinal
    · refine .inl (by_contra fun hring => ?_)
      obtain ⟨l, hl, h⟩ := (Batch.exists_order_iff hnodup).mpr
        ⟨hclear, fun id hid => hring ⟨id, hid⟩⟩
      obtain ⟨v, rfl⟩ := hvisits hl
      obtain ⟨t, ht⟩ := Option.isSome_iff_exists.mp h
      cases (hviolation v).symm.trans (ht ▸ hflush v)
    · let v := Visits.along (.refl tx.buffer.keys)
      obtain ⟨err, herr, hne⟩ := hother v
      have hinserted := (hflush v).symm.trans herr
      unfold inserted at hinserted
      split at hinserted <;> cases hinserted
      exact absurd rfl hne
  · intro h
    by_cases hok : Clear spi tx db ∧ NoHandOver spi tx db ∧ UnkeyedHoldNone tx db
    · refine .inl fun v => ?_
      obtain ⟨t, ht⟩ := Option.isSome_iff_exists.mp
        ((Batch.forall_order_iff hnodup).mpr ⟨hok.1, hok.2.1⟩ _ (v.perm.filter _))
      exact ⟨t, (hflush v).trans (congrArg inserted ht),
        (final_iff hcomplete v.perm ht).mpr hok.2.2⟩
    refine .inr (.inl fun v => ?_)
    rw [hflush]
    cases ht : (batch spi tx).replaceAll (released tx db.claims) (takers spi tx v.order) with
    | none => rfl
    | some t =>
      obtain ⟨hclear, hacyclic⟩ := (Batch.exists_order_iff hnodup).mp
        ⟨_, v.perm.filter _, Option.isSome_of_eq_some ht⟩
      rcases h hclear with ⟨id, hring⟩ | hsettled
      · exact absurd hring (hacyclic id)
      · exact absurd ⟨hclear, hsettled⟩ hok

theorem settled_of_stopped (hstopped : ∃ id ∈ tx.buffer.keys, complete spi tx id = false) :
    Settled spi tx submitTime committer db ↔ Clear spi tx db ∧ NoHandOver spi tx db := by
  obtain ⟨p, hp, hstopped⟩ := hstopped
  have hflush := fun v : Visits tx => v.claims_eq submitTime committer hversions hkeys
  constructor
  · intro hsettled
    -- The order in which `p` comes first fails with its own error, and so must the others.
    let first := Visits.along (List.perm_cons_erase hp).symm
    have hfirst := (hflush first).trans (foldlM_serve_stopped [] _ (by simp) hp hstopped _)
    have hother := (hsettled.resolve_left fun hok => by
      obtain ⟨t, ht, -⟩ := hok first
      cases hfirst.symm.trans ht).resolve_left fun hviolation => by
        cases hfirst.symm.trans (hviolation first)
    refine (Batch.forall_order_iff (nodup_takers spi tx)).mp fun l hl => ?_
    obtain ⟨rest, hperm, htakers, -⟩ := exists_order hl
    by_contra hnone
    have hcomplete : ∀ id ∈ l, complete spi tx id = true := by
      intro id hid
      rw [← htakers] at hid
      exact (Bool.and_eq_true_iff.mp (List.mem_filter.mp hid).2).2
    have hserve := foldlM_serve spi tx l hcomplete (released tx db.claims)
    rw [htakers, Option.not_isSome_iff_eq_none.mp hnone] at hserve
    obtain ⟨err, herr, hne⟩ := hother (.along hperm)
    rw [hflush, Visits.along, List.foldlM_append, hserve] at herr
    exact hne (Except.error.inj herr).symm
  · rintro ⟨hclear, hno⟩
    refine .inr (.inr fun v => ?_)
    obtain ⟨q, hq⟩ : ∃ q, v.order.find? (fun id => !complete spi tx id) = some q := by
      rw [← Option.isSome_iff_exists, List.find?_isSome]
      exact ⟨p, v.perm.mem_iff.mpr hp, by simp [hstopped]⟩
    obtain ⟨hstopped, before, after, horder, hbefore⟩ := List.find?_eq_some_iff_append.mp hq
    have hperm : (takers spi tx v.order).Perm (takers spi tx tx.buffer.keys) := v.perm.filter _
    have hsub : (takers spi tx before).Sublist (takers spi tx v.order) :=
      horder ▸ (List.sublist_append_left before _).filter _
    obtain ⟨t, ht⟩ := Option.isSome_iff_exists.mp <| Batch.isSome_of_no_takes (hclear.perm hperm)
      (fun i hi j hj => hno i (hperm.mem_iff.mp hi) j (hperm.mem_iff.mp hj))
      (hperm.nodup_iff.mpr (nodup_takers spi tx)) hsub
    have hmem : q ∈ tx.buffer.keys := v.perm.mem_iff.mp (by simp [horder])
    have hserve := foldlM_serve_stopped before after (fun id hid => by simpa using hbefore id hid)
      hmem (by simpa using hstopped) (released tx db.claims)
    rw [ht] at hserve
    exact ⟨_, (hflush v).trans (horder ▸ hserve), fun h => by cases h⟩

end Flush

/-- With distinct keys and consistent versions, the outcome of a flush does not depend on the order
of the maps exactly in the cases of `Unambiguous`. -/
theorem unique_keys_settled (spi : Spi) (tx : TransactionState) (submitTime : Int)
    (committer : WriteAttribution) (db : Database) (hversions : Consistent tx.tenantID db)
    (hkeys : DistinctKeys spi tx) :
    Settled spi tx submitTime committer db ↔ Unambiguous spi tx db := by
  by_cases hcomplete : ∀ id ∈ tx.buffer.keys, complete spi tx id = true
  · rw [settled_of_complete submitTime committer hversions hkeys hcomplete]
    refine ⟨fun h => ⟨?_, fun _ => h⟩, fun h => h.of_complete hcomplete⟩
    rintro ⟨id, hid, hstopped⟩
    cases (hcomplete id hid).symm.trans hstopped
  · have hstopped : ∃ id ∈ tx.buffer.keys, complete spi tx id = false := by simpa using hcomplete
    rw [settled_of_stopped submitTime committer hversions hkeys hstopped]
    exact ⟨fun h => ⟨fun _ => h, fun hall => absurd hall hcomplete⟩, fun h => h.of_stopped hstopped⟩

namespace Sample

/-- The only key's signature is the data; the number 0 stands for a partial value. -/
def spi : Spi where
  computeClaims := fun keys data =>
    if data = [0] then none
    else some (keys.map fun k => ⟨k.id, String.ofList (data.map fun b => Char.ofNat b.toNat)⟩)
  mergeBounded := fun _ _ _ _ _ => .error .conflict

def nobody : Principal := ⟨"", ""⟩

def entity (id : EntityID) (value : UInt8) : Entity :=
  ⟨⟨id, "t", ⟨"m", "1"⟩, "s", 1, 0, 0, "", "", "", "", nobody, ""⟩, [value]⟩

def row (value : UInt8) : EntityRow :=
  ⟨⟨"m", "1"⟩, 1, [value], (entity "a" value).info, false, 0, 0⟩

def claim (id : EntityID) (value : UInt8) : ClaimRow :=
  claimRow "t" (entity id value) ⟨"k", String.ofList [Char.ofNat value.toNat]⟩

/-- A database in which `a` holds the value 1 and `c` the value 4. -/
def database : Database where
  entities := ((∅ : GoMap _ _).set ("t", "a") (row 1)).set ("t", "c") (row 4)
  versions := ∅
  claims := [claim "a" 1, claim "c" 4]
  submitTimes := ∅
  scheduledTasks := ∅

/-- A transaction that gives the values `x` and `y` to `a` and `b`. -/
def transaction (x y : UInt8) (keys : List UniqueKey) : TransactionState where
  id := "tx"
  tenantID := "t"
  buffer := ((∅ : GoMap _ _).set "a" (entity "a" x)).set "b" (entity "b" y)
  deletes := ∅
  deleteAttribution := ∅
  uniqueKeys := ((∅ : GoMap _ _).set "a" keys).set "b" [⟨"k", ["v"]⟩]
  superseded := ∅
  scheduledOps := []
  buffered := by
    intro id e h
    rw [GoMap.get_set, GoMap.get_set] at h
    split at h
    · next hid => obtain rfl := Option.some.inj h; exact hid.symm
    · split at h
      · next hid => obtain rfl := Option.some.inj h; exact hid.symm
      · cases h

theorem get_buffer {x y : UInt8} {keys : List UniqueKey} {id : EntityID} {e : Entity}
    (h : (transaction x y keys).buffer.get id = some e) :
    id = "b" ∧ e = entity "b" y ∨ id = "a" ∧ e = entity "a" x := by
  rw [transaction, GoMap.get_set, GoMap.get_set] at h
  split at h
  · next hid => exact .inl ⟨hid, (Option.some.inj h).symm⟩
  · split at h
    · next hid => exact .inr ⟨hid, (Option.some.inj h).symm⟩
    · cases h

def key : List UniqueKey := [⟨"k", ["v"]⟩]

theorem consistent : Consistent "t" database := fun _ _ hv => by cases hv

theorem distinctKeys (x y : UInt8) : DistinctKeys spi (transaction x y key) := by
  intro id rows hrows
  obtain ⟨e, hget, hclaims⟩ := Option.bind_eq_some_iff.mp hrows
  have hkey : (transaction x y key).uniqueKeys.getD id [] = key := by
    rcases get_buffer hget with ⟨rfl, -⟩ | ⟨rfl, -⟩ <;> rfl
  rw [claimsOf, hkey, if_neg (by decide)] at hclaims
  obtain ⟨cs, hcs, rfl⟩ := Option.map_eq_some_iff.mp hclaims
  simp only [spi] at hcs
  split at hcs
  · cases hcs
  · cases hcs
    exact List.nodup_singleton _

/-- The claims that a flush leaves, or its error. -/
def claims (tx : TransactionState) (order : List EntityID) : Except FlushError (List ClaimRow) :=
  (tx.flushToSQLite 1 spi ⟨nobody, nobody⟩ order [] [] database).map (·.claims)

def failsWith (e : FlushError) : Except FlushError (List ClaimRow) → Bool
  | .error e' => e' = e
  | .ok _ => false

def leaves (rows : List ClaimRow) : Except FlushError (List ClaimRow) → Bool
  | .error _ => false
  | .ok rows' => rows' = rows

end Sample

open SqliteTx.Sample in
/-- New values for `a` and `b`; and a partial value for `a`, with which every order fails. -/
theorem unique_keys_settled_sample :
    Settled spi (transaction 3 2 key) 1 ⟨nobody, nobody⟩ database ∧
      Settled spi (transaction 0 2 key) 1 ⟨nobody, nobody⟩ database := by
  constructor
  · rw [unique_keys_settled _ _ _ _ _ consistent (distinctKeys 3 2)]
    refine ⟨fun h => absurd h (by decide +kernel), fun _ _ => .inr ⟨?_, ?_⟩⟩
    · unfold NoHandOver
      decide +kernel
    · unfold UnkeyedHoldNone
      decide +kernel
  · rw [unique_keys_settled _ _ _ _ _ consistent (distinctKeys 0 2)]
    refine ⟨fun _ => ⟨?_, ?_⟩, fun h => absurd h (by decide +kernel)⟩
    · unfold Clear
      decide +kernel
    · unfold NoHandOver
      decide +kernel

open SqliteTx.Sample in
/-- `a` gives up a value that `b` takes; `a` is saved without keys; `a` has a partial value and
`b` wants a value of `c`. -/
theorem unique_keys_depend_on_order :
    (leaves [claim "c" 4, claim "a" 3, claim "b" 1] (claims (transaction 3 1 key) ["a", "b"]) = true ∧
      failsWith .uniqueViolation (claims (transaction 3 1 key) ["b", "a"]) = true) ∧
    leaves [claim "a" 1, claim "c" 4, claim "b" 2] (claims (transaction 3 2 []) ["a", "b"]) = true ∧
    failsWith (.partialUniqueKey "a") (claims (transaction 0 4 key) ["a", "b"]) = true ∧
      failsWith .uniqueViolation (claims (transaction 0 4 key) ["b", "a"]) = true := by
  decide +kernel

end CyodaGo.SqliteTx
