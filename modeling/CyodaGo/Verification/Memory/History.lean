import CyodaGo.Verification.Memory.Coherence
import CyodaGo.Verification.Memory.Equations

/-! # How histories grow

A step appends to a history some live rows, possibly followed by one tombstone, all
with one stamp above the floor. `Stepped.history` says so for every step and names the
histories it may touch. -/

namespace CyodaGo.Memory

/-- The newest row is a tombstone. -/
def endsDeleted (vs : List EntityVersion) : Bool :=
  match vs.getLast? with
  | none => false
  | some row => row.deleted

/-- A live row appended to `vs`: it repeats its number and its transaction inside the
entity, and takes the number after the newest live row. -/
structure LiveRow (stamp : Time) (vs : List EntityVersion) (row : EntityVersion) (e : Entity) :
    Prop where
  deleted : row.deleted = false
  entity : row.entity = some e
  version : e.info.version = row.version
  transactionID : e.info.transactionID = row.transactionID
  number : row.version = baseVersion vs + 1
  submitTime : row.submitTime = stamp

structure TombstoneRow (stamp : Time) (vs : List EntityVersion) (row : EntityVersion) : Prop where
  deleted : row.deleted = true
  entity : row.entity = none
  number : row.version = baseVersion vs + 1
  submitTime : row.submitTime = stamp

/-- `Extends stamp vs b vs'`: `vs'` is `vs` with live rows appended, and a tombstone
after them when `b` holds. -/
inductive Extends (stamp : Time) (vs : List EntityVersion) : Bool → List EntityVersion → Prop where
  | refl : Extends stamp vs false vs
  | live {vs' : List EntityVersion} {row : EntityVersion} {e : Entity} :
      Extends stamp vs false vs' → LiveRow stamp vs' row e → Extends stamp vs false (vs' ++ [row])
  | tombstone {vs' : List EntityVersion} {row : EntityVersion} :
      Extends stamp vs false vs' → TombstoneRow stamp vs' row →
      Extends stamp vs true (vs' ++ [row])

variable {vs : List EntityVersion}

theorem Extends.append {stamp : Time} {vs' : List EntityVersion} {b : Bool}
    (h : Extends stamp vs b vs') :
    ∃ rows, vs' = vs ++ rows ∧ ∀ row ∈ rows, row.submitTime = stamp := by
  have extend {vs' : List EntityVersion} {row : EntityVersion} (hrow : row.submitTime = stamp)
      (ih : ∃ rows, vs' = vs ++ rows ∧ ∀ row ∈ rows, row.submitTime = stamp) :
      ∃ rows, vs' ++ [row] = vs ++ rows ∧ ∀ row ∈ rows, row.submitTime = stamp := by
    obtain ⟨rows, rfl, hrows⟩ := ih
    refine ⟨rows ++ [row], List.append_assoc _ _ _, fun v hv => ?_⟩
    rcases List.mem_append.mp hv with hv | hv
    · exact hrows v hv
    · rw [List.mem_singleton.mp hv, hrow]
  induction h with
  | refl => exact ⟨[], by simp, by simp⟩
  | live _ hrow ih => exact extend hrow.submitTime ih
  | tombstone _ hrow ih => exact extend hrow.submitTime ih

/-! ## The rows the operations append -/

theorem liveRow_savedVersion (tid : TenantID) (entity : Entity) (now creationDate : Time)
    (changeType : String) (vs : List EntityVersion) :
    LiveRow now vs (savedVersion tid entity (baseVersion vs + 1) now creationDate changeType)
      { entity with info := { entity.info with
          tenantID := tid, version := baseVersion vs + 1, creationDate := creationDate,
          lastModifiedDate := now, changeType := changeType } } :=
  ⟨rfl, rfl, rfl, rfl, rfl, rfl⟩

theorem tombstoneRow_tombstone (txID : TxID) (stamp : Time) (a : WriteAttribution)
    (vs : List EntityVersion) :
    TombstoneRow stamp vs (tombstone (baseVersion vs + 1) txID stamp a) :=
  ⟨rfl, rfl, rfl, rfl⟩

theorem extends_flushRows (txID : TxID) (tid : TenantID) (stamp creationDate : Time)
    (staged : List Entity) (hasPrior : Bool) {vs' : List EntityVersion}
    (h : Extends stamp vs false vs') :
    Extends stamp vs false
      (vs' ++ flushRows txID tid stamp creationDate (baseVersion vs') hasPrior staged) := by
  induction staged generalizing vs' hasPrior with
  | nil => simpa [flushRows] using h
  | cons e staged ih =>
    have hrow : LiveRow stamp vs'
        (flushedVersion txID tid stamp creationDate (baseVersion vs' + 1) hasPrior e) _ :=
      ⟨rfl, rfl, rfl, rfl, rfl, rfl⟩
    have hbase : baseVersion (vs' ++ [_]) = _ := baseVersion_append_live hrow.deleted hrow.entity
    have := ih true (h.live hrow)
    rw [hbase] at this
    simpa [flushRows] using this

theorem flushRows_eq_nil {txID : TxID} {tid : TenantID} {stamp creationDate : Time} {base : Int}
    {hasPrior : Bool} {staged : List Entity} :
    flushRows txID tid stamp creationDate base hasPrior staged = [] ↔ staged = [] := by
  cases staged with
  | nil => simp [flushRows]
  | cons e staged => simp [flushRows]

/-! ## The flush -/

section Flush

variable {txID : TxID} {tid : TenantID} {stamp : Time} {f : StoreFactory}

variable (superseded : GoMap EntityID (List Entity))
  (attributions : GoMap EntityID WriteAttribution) (committer : WriteAttribution)
  (claims : GoMap EntityID (List UniqueClaim))

open StoreFactory

theorem versions_flushEntity (kv : EntityID × Entity) (t : TenantID) (e : EntityID) :
    (f.flushEntity txID tid stamp superseded claims kv).versions t e =
      if t = tid ∧ e = kv.1 then
        f.versions tid kv.1 ++
          rowsFor txID tid stamp (superseded.getD kv.1 []) kv.2 (f.versions tid kv.1)
      else f.versions t e := by
  simp [flushEntity, versions_setVersions]

theorem versions_flushDelete (eid : EntityID) (t : TenantID) (e : EntityID) :
    (f.flushDelete txID tid stamp attributions committer eid).versions t e =
      if t = tid ∧ e = eid then
        f.versions tid eid ++ [tombstone (baseVersion (f.versions tid eid) + 1) txID stamp
          (attributions.getD eid committer)]
      else f.versions t e := by
  simp [flushDelete, versions_setVersions]

theorem versions_foldl_releaseClaims (ids : List EntityID) (f : StoreFactory) (t : TenantID)
    (e : EntityID) :
    (ids.foldl (fun f id => f.releaseClaims tid id) f).versions t e = f.versions t e := by
  induction ids generalizing f with
  | nil => rfl
  | cons id ids ih => simp [ih]

variable {e : EntityID}

theorem versions_flushEntities_of_notMem (kvs : List (EntityID × Entity)) (f : StoreFactory)
    {t : TenantID} (h : t ≠ tid ∨ e ∉ kvs.map Prod.fst) :
    (kvs.foldl (flushEntity txID tid stamp superseded claims) f).versions t e =
      f.versions t e := by
  induction kvs generalizing f with
  | nil => rfl
  | cons kv kvs ih =>
    simp only [List.map_cons, List.mem_cons, not_or] at h
    rw [List.foldl_cons, ih _ (h.imp_right And.right), versions_flushEntity, if_neg]
    rintro ⟨rfl, rfl⟩
    rcases h with h | h
    · exact h rfl
    · exact h.1 rfl

theorem versions_flushDeletes_of_notMem (ids : List EntityID) (f : StoreFactory) {t : TenantID}
    (h : t ≠ tid ∨ e ∉ ids) :
    (ids.foldl (flushDelete txID tid stamp attributions committer) f).versions t e =
      f.versions t e := by
  induction ids generalizing f with
  | nil => rfl
  | cons id ids ih =>
    simp only [List.mem_cons, not_or] at h
    rw [List.foldl_cons, ih _ (h.imp_right And.right), versions_flushDelete, if_neg]
    rintro ⟨rfl, rfl⟩
    rcases h with h | h
    · exact h rfl
    · exact h.1 rfl

/-- The tombstone loop appends one tombstone to each listed history. -/
theorem versions_flushDeletes_of_mem {ids : List EntityID} (hnodup : ids.Nodup) (f : StoreFactory)
    (h : e ∈ ids) :
    (ids.foldl (flushDelete txID tid stamp attributions committer) f).versions tid e =
      f.versions tid e ++ [tombstone (baseVersion (f.versions tid e) + 1) txID stamp
        (attributions.getD e committer)] := by
  induction ids generalizing f with
  | nil => cases h
  | cons id ids ih =>
    obtain ⟨hid, hnodup⟩ := List.nodup_cons.mp hnodup
    rw [List.foldl_cons]
    by_cases heq : e = id
    · subst heq
      rw [versions_flushDeletes_of_notMem _ _ _ _ (.inr hid), versions_flushDelete]
      simp
    · have hmem : e ∈ ids := (List.mem_cons.mp h).resolve_left heq
      have hsame : (f.flushDelete txID tid stamp attributions committer id).versions tid e =
          f.versions tid e := by
        rw [versions_flushDelete, if_neg fun hc => heq hc.2]
      rw [ih hnodup _ hmem, hsame]

/-- The buffer loop appends the rows of each listed entity to its history. -/
theorem versions_flushEntities_of_mem {kvs : List (EntityID × Entity)}
    (hnodup : (kvs.map Prod.fst).Nodup) (f : StoreFactory) {kv : EntityID × Entity} (h : kv ∈ kvs) :
    (kvs.foldl (flushEntity txID tid stamp superseded claims) f).versions tid kv.1 =
      f.versions tid kv.1 ++
        rowsFor txID tid stamp (superseded.getD kv.1 []) kv.2 (f.versions tid kv.1) := by
  induction kvs generalizing f with
  | nil => cases h
  | cons kv0 kvs ih =>
    obtain ⟨hnot, hnodup⟩ := List.nodup_cons.mp hnodup
    rw [List.foldl_cons]
    rcases List.mem_cons.mp h with rfl | h
    · rw [versions_flushEntities_of_notMem _ _ _ _ (.inr hnot), versions_flushEntity]
      simp
    have hne : kv.1 ≠ kv0.1 := fun heq => hnot (heq ▸ List.mem_map_of_mem h)
    have hsame : (f.flushEntity txID tid stamp superseded claims kv0).versions tid kv.1 =
        f.versions tid kv.1 := by
      rw [versions_flushEntity, if_neg fun hc => hne hc.2]
    rw [ih hnodup _ h, hsame]

section Exact

variable {tx : TransactionState} (committer : WriteAttribution) (captured : Captured)
  (claims : GoMap EntityID (List UniqueClaim)) {bufferOrder deleteOrder : List EntityID}

/-- The factory between the two loops of a flush. -/
def StoreFactory.written (txID : TxID) (tx : TransactionState) (captured : Captured)
    (claims : GoMap EntityID (List UniqueClaim)) (stamp : Time)
    (bufferOrder deleteOrder : List EntityID) (f : StoreFactory) : StoreFactory :=
  (tx.buffer.inOrder bufferOrder).foldl
    (flushEntity txID tx.tenantID stamp captured.superseded claims)
    (deleteOrder.foldl (fun f id => f.releaseClaims tx.tenantID id) f)

theorem versions_flush (t : TenantID) (e : EntityID) :
    (f.flush txID tx committer captured claims stamp bufferOrder deleteOrder).versions t e =
      (deleteOrder.foldl (flushDelete txID tx.tenantID stamp tx.deleteAttribution
        committer) (f.written txID tx captured claims stamp bufferOrder deleteOrder)).versions t e :=
  rfl

variable (hbuf : bufferOrder.Perm tx.buffer.keys)

include hbuf

theorem map_fst_buffer : (tx.buffer.inOrder bufferOrder).map Prod.fst = bufferOrder :=
  GoMap.map_fst_inOrder fun _ hk => hbuf.mem_iff.mp hk

variable {eid : EntityID}

theorem versions_written_buffered {entity : Entity}
    (hget : tx.buffer.get eid = some entity) :
    (f.written txID tx captured claims stamp bufferOrder deleteOrder).versions tx.tenantID eid =
      f.versions tx.tenantID eid ++ rowsFor txID tx.tenantID stamp
        (captured.superseded.getD eid []) entity (f.versions tx.tenantID eid) := by
  have hmem : (eid, entity) ∈ tx.buffer.inOrder bufferOrder :=
    GoMap.mem_inOrder.mpr ⟨hbuf.mem_iff.mpr (GoMap.mem_keys_of_get hget), hget⟩
  have hnodup : ((tx.buffer.inOrder bufferOrder).map Prod.fst).Nodup := by
    rw [map_fst_buffer hbuf]
    exact hbuf.nodup_iff.mpr tx.buffer.keys_nodup
  unfold written
  rw [versions_flushEntities_of_mem _ _ hnodup _ hmem, versions_foldl_releaseClaims]

theorem versions_written_of_notMem {t : TenantID}
    {e : EntityID} (h : t ≠ tx.tenantID ∨ e ∉ tx.buffer.keys) :
    (f.written txID tx captured claims stamp bufferOrder deleteOrder).versions t e =
      f.versions t e := by
  unfold written
  rw [versions_flushEntities_of_notMem, versions_foldl_releaseClaims]
  rw [map_fst_buffer hbuf, hbuf.mem_iff]
  exact h

/-- A flush appends the staged rows of a buffered entity that is not also deleted. -/
theorem versions_flush_buffered {entity : Entity}
    (hget : tx.buffer.get eid = some entity) (hdel : eid ∉ deleteOrder) :
    (f.flush txID tx committer captured claims stamp bufferOrder deleteOrder).versions
        tx.tenantID eid =
      f.versions tx.tenantID eid ++ rowsFor txID tx.tenantID stamp
        (captured.superseded.getD eid []) entity (f.versions tx.tenantID eid) := by
  rw [versions_flush, versions_flushDeletes_of_notMem _ _ _ _ (.inr hdel),
    versions_written_buffered _ _ hbuf hget]

/-- A flush appends a tombstone for a deleted entity that is not also buffered. -/
theorem versions_flush_deleted (hnodup : deleteOrder.Nodup)
    (hmem : eid ∈ deleteOrder) (hnot : eid ∉ tx.buffer.keys) :
    (f.flush txID tx committer captured claims stamp bufferOrder deleteOrder).versions
        tx.tenantID eid =
      f.versions tx.tenantID eid ++ [tombstone (baseVersion (f.versions tx.tenantID eid) + 1)
        txID stamp (tx.deleteAttribution.getD eid committer)] := by
  rw [versions_flush, versions_flushDeletes_of_mem _ _ hnodup _ hmem,
    versions_written_of_notMem _ _ hbuf (.inr hnot)]

theorem versions_flush_of_notMem {t : TenantID}
    {e : EntityID} (h : t ≠ tx.tenantID ∨ e ∉ tx.buffer.keys ∧ e ∉ deleteOrder) :
    (f.flush txID tx committer captured claims stamp bufferOrder deleteOrder).versions t e =
      f.versions t e := by
  rw [versions_flush, versions_flushDeletes_of_notMem _ _ _ _ (h.imp_right And.right),
    versions_written_of_notMem _ _ hbuf (h.imp_right And.left)]

end Exact

/-- Which histories a commit's flush extends, and how. -/
theorem flush_history {tx : TransactionState} (captured : Captured)
    (claims : GoMap EntityID (List UniqueClaim)) {bufferOrder deleteOrder : List EntityID}
    (hbuf : bufferOrder.Perm tx.buffer.keys) (hnodup : deleteOrder.Nodup)
    (hdel : deleteOrder.toFinset = tx.deletes) (t : TenantID) (e : EntityID) :
    (f.flush txID tx committer captured claims stamp bufferOrder deleteOrder).versions t e =
        f.versions t e ∨
      ∃ b, Extends stamp (f.versions t e) b
          ((f.flush txID tx committer captured claims stamp bufferOrder deleteOrder).versions t e) ∧
        t = tx.tenantID ∧ (b = false ∧ e ∈ tx.buffer.keys ∨ b = true ∧ e ∈ tx.deletes) := by
  have hmem : e ∈ deleteOrder ↔ e ∈ tx.deletes := by rw [← hdel, List.mem_toFinset]
  by_cases htid : t = tx.tenantID
  · subst htid
    have hlive : Extends stamp (f.versions tx.tenantID e) false
        ((f.written txID tx captured claims stamp bufferOrder deleteOrder).versions
          tx.tenantID e) := by
      cases hget : tx.buffer.get e with
      | none =>
        have hnot : e ∉ tx.buffer.keys := by simp [GoMap.mem_keys, hget]
        rw [versions_written_of_notMem _ _ hbuf (.inr hnot)]
        exact .refl
      | some entity =>
        rw [versions_written_buffered _ _ hbuf hget]
        exact extends_flushRows _ _ _ _ _ _ .refl
    by_cases hd : e ∈ deleteOrder
    · refine .inr ⟨true, ?_, rfl, .inr ⟨rfl, hmem.mp hd⟩⟩
      rw [versions_flush, versions_flushDeletes_of_mem _ _ hnodup _ hd]
      exact hlive.tombstone (tombstoneRow_tombstone _ _ _ _)
    · by_cases hb : e ∈ tx.buffer.keys
      · refine .inr ⟨false, ?_, rfl, .inl ⟨rfl, hb⟩⟩
        rw [versions_flush, versions_flushDeletes_of_notMem _ _ _ _ (.inr hd)]
        exact hlive
      · exact .inl (versions_flush_of_notMem _ _ _ hbuf (.inr ⟨hb, hd⟩))
  · exact .inl (versions_flush_of_notMem _ _ _ hbuf (.inl htid))

end Flush

/-! ## Steps -/

/-- The histories an action may extend from `w`, and whether a tombstone may come
last. -/
inductive Touched (w : World) : Action → TenantID → EntityID → Bool → Prop where
  | saved {tid : TenantID} {ctx : Ctx} {entity : Entity} {clock : Time} {order : List EntityID}
      (htx : ctx.tx = none) :
      Touched w (.store tid ctx (.save entity) clock order) tid entity.info.id false
  | overwritten {a : Action} {tid : TenantID} {eid : EntityID} {b : Bool}
      (hne : w.sys.factory.versions tid eid ≠ [])
      (hlive : endsDeleted (w.sys.factory.versions tid eid) = false) : Touched w a tid eid b
  | flushed {i : Inside} {tx : TransactionState} {clock : Time}
      {bufferOrder deleteOrder : List EntityID} {eid : EntityID} (hin : w.inside = some i)
      (hget : w.sys.txs.get i.txID = some tx) (hmem : eid ∈ tx.buffer.keys) :
      Touched w (.commitApply clock bufferOrder deleteOrder) tx.tenantID eid false
  | tombstoned {i : Inside} {tx : TransactionState} {clock : Time}
      {bufferOrder deleteOrder : List EntityID} {eid : EntityID} (hin : w.inside = some i)
      (hget : w.sys.txs.get i.txID = some tx) (hmem : eid ∈ tx.deletes) :
      Touched w (.commitApply clock bufferOrder deleteOrder) tx.tenantID eid true

/-- What a step from `w` to `w'` does to one history. -/
inductive HistoryStep (w : World) (a : Action) (w' : World) (tid : TenantID) (eid : EntityID) :
    Prop where
  | same (h : w'.sys.factory.versions tid eid = w.sys.factory.versions tid eid)
  | grown {b : Bool} (hfloor : w.sys.tm.lastSubmitTime < w'.sys.tm.lastSubmitTime)
      (hext : Extends w'.sys.tm.lastSubmitTime (w.sys.factory.versions tid eid) b
        (w'.sys.factory.versions tid eid)) (htouched : Touched w a tid eid b)

theorem endsDeleted_of_getLast {row : EntityVersion} (h : vs.getLast? = some row) :
    endsDeleted vs = row.deleted := by
  simp [endsDeleted, h]

theorem ne_nil_of_getLast {row : EntityVersion} (h : vs.getLast? = some row) : vs ≠ [] := by
  rintro rfl
  cases h

theorem CallEffect.factory {free : TxID → Bool} {starts : Option TxID} {s s' : System}
    (h : CallEffect free starts s s') : s'.factory = s.factory := by
  cases h with
  | same h => rw [h]
  | begun _ hfresh hfloor h => rw [h]; rfl
  | edited hfree hget h => exact h.factory
  | released h => rw [h]

/-- A non-empty current transaction id means that the newest row is live. -/
theorem live_of_currentTxID (h : currentTxIDLocked vs ≠ "") :
    ∃ row, vs.getLast? = some row ∧ row.deleted = false := by
  unfold currentTxIDLocked at h
  split at h
  · exact absurd rfl h
  rename_i latest hlast
  split at h
  · exact absurd rfl h
  rename_i hdel
  exact ⟨latest, hlast, by simpa using hdel⟩

theorem versions_task (s : System) (call : TaskCall) (t : TenantID) (e : EntityID) :
    (s.task call).2.factory.versions t e = s.factory.versions t e := by
  obtain ⟨tasks, htasks⟩ := task_factory s call
  rw [htasks]
  rfl

section Direct

variable (spi : Spi) (s : System) (tid : TenantID)

theorem saveUnlocked_history (keys : List UniqueKey) (entity : Entity) (clock : Time)
    (t : TenantID) (e : EntityID) :
    let s' := (s.saveUnlocked spi tid keys entity clock).2
    s'.factory.versions t e = s.factory.versions t e ∨
      s.tm.lastSubmitTime < s'.tm.lastSubmitTime ∧ t = tid ∧ e = entity.info.id ∧
      Extends s'.tm.lastSubmitTime (s.factory.versions t e) false (s'.factory.versions t e) := by
  obtain ⟨r, s1, hrun⟩ : ∃ r s1, s.saveUnlocked spi tid keys entity clock = (r, s1) := ⟨_, _, rfl⟩
  rw [hrun]
  cases saveUnlocked_spec hrun with
  | refused _ _ htm => exact .inl rfl
  | saved =>
    dsimp only
    rw [versions_writeSaved]
    split
    · rename_i heq
      obtain ⟨rfl, rfl⟩ := heq
      exact .inr ⟨lt_nextSubmitTime _ _, rfl, rfl, Extends.refl.live (liveRow_savedVersion ..)⟩
    · exact .inl rfl

theorem deleteDirect_history (id : EntityID) (a : WriteAttribution) (clock : Time) (t : TenantID)
    (e : EntityID) :
    let s' := (s.deleteDirect tid id a clock).2
    s'.factory.versions t e = s.factory.versions t e ∨
      s.tm.lastSubmitTime < s'.tm.lastSubmitTime ∧ s.factory.versions t e ≠ [] ∧
      endsDeleted (s.factory.versions t e) = false ∧
      Extends s'.tm.lastSubmitTime (s.factory.versions t e) true (s'.factory.versions t e) := by
  obtain ⟨r, s1, hrun⟩ : ∃ r s1, s.deleteDirect tid id a clock = (r, s1) := ⟨_, _, rfl⟩
  rw [hrun]
  cases deleteDirect_spec hrun with
  | refused => exact .inl rfl
  | crashed => exact .inl rfl
  | deleted hlast hdel hent =>
    dsimp only
    rw [versions_writeDeleted, ← baseVersion_of_getLast hlast hdel hent]
    split
    · rename_i heq
      obtain ⟨rfl, rfl⟩ := heq
      exact .inr ⟨lt_nextSubmitTime _ _, ne_nil_of_getLast hlast,
        (endsDeleted_of_getLast hlast).trans hdel,
        Extends.refl.tombstone (tombstoneRow_tombstone ..)⟩
    · exact .inl rfl

/-- The sweep leaves a history alone or ends a live one with a tombstone. -/
theorem deleteAllLoop_history (modelRef : ModelRef) (now : Time) (a : WriteAttribution)
    {ids : List EntityID} (hnodup : ids.Nodup) (f : StoreFactory) (t : TenantID) (e : EntityID) :
    let f' := (System.deleteAllLoop tid modelRef now a ids f).2
    f'.versions t e = f.versions t e ∨
      e ∈ ids ∧ f.versions t e ≠ [] ∧ endsDeleted (f.versions t e) = false ∧
      Extends now (f.versions t e) true (f'.versions t e) := by
  induction ids generalizing f with
  | nil => exact .inl rfl
  | cons id ids ih =>
    obtain ⟨hid, hnodup⟩ := List.nodup_cons.mp hnodup
    have hskip := ih hnodup f
    have hweaken : ∀ {p : Prop}, e ∈ ids ∧ p → e ∈ id :: ids ∧ p :=
      fun h => ⟨List.mem_cons_of_mem _ h.1, h.2⟩
    simp only [System.deleteAllLoop]
    split
    · exact hskip.imp_right hweaken
    rename_i latest hlast
    split
    · exact hskip.imp_right hweaken
    rename_i hdel
    split
    · exact .inl rfl
    rename_i ent hent
    split
    · have hdel : latest.deleted = false := by simpa using hdel
      set f1 := f.writeDeleted tid id (ent.info.version + 1) now a with hf1
      have hrest := ih hnodup f1
      by_cases heq : t = tid ∧ e = id
      · obtain ⟨rfl, rfl⟩ := heq
        have hf1v : f1.versions t e = f.versions t e ++
            [tombstone (baseVersion (f.versions t e) + 1) "" now a] := by
          rw [hf1, versions_writeDeleted, baseVersion_of_getLast hlast hdel hent]
          simp
        refine .inr ⟨by simp, ne_nil_of_getLast hlast,
          (endsDeleted_of_getLast hlast).trans hdel, ?_⟩
        rcases hrest with hsame | hmem
        · rw [hsame, hf1v]
          exact Extends.refl.tombstone (tombstoneRow_tombstone _ _ _ _)
        · exact absurd hmem.1 hid
      · have hf1v : f1.versions t e = f.versions t e := by
          rw [hf1, versions_writeDeleted, if_neg heq]
        rw [hf1v] at hrest
        exact hrest.imp_right hweaken
    · exact hskip.imp_right hweaken

variable {spi tid}

theorem storeDirect_history {w : World} {ctx : Ctx} {clock : Time} {order : List EntityID}
    (call : StoreCall) (horder : order.Perm (w.sys.factory.tenantData tid).keys)
    (htx : ctx.tx = none) (t : TenantID) (e : EntityID) :
    HistoryStep w (.store tid ctx call clock order)
      { w with sys := (w.sys.storeDirect spi tid ctx clock order call).2 } t e := by
  cases call with
  | save entity =>
    rcases saveUnlocked_history spi w.sys tid ctx.uniqueKeys entity clock t e with
      hsame | ⟨hfloor, rfl, rfl, hext⟩
    · exact .same hsame
    · exact .grown hfloor hext (.saved htx)
  | compareAndSave entity expectedTxID =>
    by_cases hempty : expectedTxID = ""
    · exact .same (by simp [System.storeDirect, hempty])
    by_cases hcur : currentTxIDLocked (w.sys.factory.versions tid entity.info.id) = expectedTxID
    · have hrun : w.sys.storeDirect spi tid ctx clock order
          (.compareAndSave entity expectedTxID) =
          ((w.sys.saveUnlocked spi tid ctx.uniqueKeys entity clock).1.map .versionNumber,
            (w.sys.saveUnlocked spi tid ctx.uniqueKeys entity clock).2) := by
        simp [System.storeDirect, System.compareAndSaveDirect, hempty, hcur]
      rw [hrun]
      rcases saveUnlocked_history spi w.sys tid ctx.uniqueKeys entity clock t e with
        hsame | ⟨hfloor, rfl, rfl, hext⟩
      · exact .same hsame
      obtain ⟨row, hlast, hdel⟩ := live_of_currentTxID (hcur ▸ hempty)
      exact .grown hfloor hext (.overwritten (ne_nil_of_getLast hlast)
        ((endsDeleted_of_getLast hlast).trans hdel))
    · exact .same (by simp [System.storeDirect, System.compareAndSaveDirect, hempty, hcur])
  | delete id =>
    rcases deleteDirect_history w.sys tid id ctx.attribution clock t e with
      hsame | ⟨hfloor, hne, hlive, hext⟩
    · exact .same hsame
    · exact .grown hfloor hext (.overwritten hne hlive)
  | deleteAll modelRef =>
    have hnodup : order.Nodup := horder.nodup_iff.mpr (GoMap.keys_nodup _)
    rcases deleteAllLoop_history tid modelRef _ ctx.attribution hnodup w.sys.factory t e with
      hsame | ⟨-, hne, hlive, hext⟩
    · exact .same hsame
    · exact .grown (lt_nextSubmitTime _ clock) hext (.overwritten hne hlive)
  | read op => exact .same rfl
  | stage op => exact .same rfl

end Direct

theorem Stepped.history {spi : Spi} {w w' : World} {a : Action} {r : Result}
    (h : Stepped spi w a r w') (t : TenantID) (e : EntityID) : HistoryStep w a w' t e := by
  cases h with
  | manage hmay => exact .same (by rw [(manage_effect _ hmay).factory])
  | direct horder htx hfree => exact storeDirect_history _ horder htx t e
  | inTx horder htx hget hmay => exact .same (by rw [(inTx_effect _ _ hget hmay).factory])
  | task hfree => exact .same (versions_task _ _ t e)
  | flushed hin hstage hget hbuf hnodup hdel hval =>
    rcases flush_history _ _ _ hbuf hnodup hdel t e with
      hsame | ⟨b, hext, rfl, ⟨rfl, hmem⟩ | ⟨rfl, hmem⟩⟩
    · exact .same hsame
    · exact .grown (lt_nextSubmitTime _ _) hext (.flushed hin hget hmem)
    · exact .grown (lt_nextSubmitTime _ _) hext (.tombstoned hin hget hmem)
  | _ => exact .same rfl

end CyodaGo.Memory
