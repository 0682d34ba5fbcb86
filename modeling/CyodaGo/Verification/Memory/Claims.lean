import CyodaGo.Shared.Ownership
import CyodaGo.Verification.Memory.Staging

/-! # Unique claims

`uniqueClaims` and `claimsByEntity` are the two directions of one ownership table. Every
write reassigns the claims of its entity, after a check that no other entity holds one
of them. -/

namespace CyodaGo.Memory

open Ownership

open GoMap

/-! ## The claim table -/

namespace StoreFactory

/-- The ownership table the two claim maps represent. A claim key carries its tenant. -/
def claimTable (f : StoreFactory) : Ownership ClaimKey EntityTenantKey where
  owner k := (f.uniqueClaims.get k).map fun eid => ⟨k.tenant, eid⟩
  held o := f.claimsByEntity.getD o []

theorem claimTable_congr {f f' : StoreFactory} (hu : f'.uniqueClaims = f.uniqueClaims)
    (hc : f'.claimsByEntity = f.claimsByEntity) : f'.claimTable = f.claimTable := by
  unfold claimTable
  rw [hu, hc]

theorem get_foldl_del (ks : List ClaimKey) (m : GoMap ClaimKey EntityID) (k : ClaimKey) :
    (ks.foldl del m).get k = if k ∈ ks then none else m.get k := by
  induction ks generalizing m with
  | nil => simp
  | cons k' ks ih =>
    rw [List.foldl_cons, ih, get_del]
    by_cases hmem : k ∈ ks
    · simp [hmem]
    by_cases heq : k = k'
    · simp [heq]
    · simp [hmem, heq]

theorem get_foldl_claim (ks : List ClaimKey) (m : GoMap ClaimKey EntityID) (eid : EntityID)
    (k : ClaimKey) :
    (ks.foldl (fun m k => m.set k eid) m).get k = if k ∈ ks then some eid else m.get k := by
  induction ks generalizing m with
  | nil => simp
  | cons k' ks ih =>
    rw [List.foldl_cons, ih, get_set]
    by_cases hmem : k ∈ ks
    · simp [hmem]
    by_cases heq : k = k'
    · simp [heq]
    · simp [hmem, heq]

theorem claimTable_releaseClaims (f : StoreFactory) (tid : TenantID) (eid : EntityID) :
    (f.releaseClaims tid eid).claimTable = f.claimTable.release ⟨tid, eid⟩ := by
  unfold claimTable releaseClaims release
  congr 1
  · funext k
    simp only [get_foldl_del]
    split
    · rfl
    · rfl
  · funext o
    by_cases heq : o = ⟨tid, eid⟩
    · subst heq
      simp [getD_del]
    · simp [getD_del, heq]

theorem claimTable_insertClaims (f : StoreFactory) (tid : TenantID) (eid : EntityID)
    (model : ModelRef) (claims : List UniqueClaim) (hnone : f.claimTable.held ⟨tid, eid⟩ = []) :
    (f.insertClaims eid tid model claims).claimTable =
      f.claimTable.assign ⟨tid, eid⟩ (claims.map (claimKey tid model)) := by
  cases hclaims : claims with
  | nil =>
    unfold insertClaims assign
    simp only [if_true, List.map_nil, List.not_mem_nil, if_false]
    rw [← hnone, Function.update_eq_self]
  | cons c cs =>
    unfold claimTable insertClaims assign
    rw [if_neg (by simp)]
    congr 1
    · funext k
      simp only [get_foldl_claim]
      split
      · rename_i hk
        obtain ⟨c', -, rfl⟩ := List.mem_map.mp hk
        rfl
      · rfl
    · funext o
      by_cases heq : o = ⟨tid, eid⟩
      · subst heq
        simp
      · simp [getD_set, heq]

theorem claimTable_reassign (f : StoreFactory) (tid : TenantID) (eid : EntityID) (model : ModelRef)
    (claims : List UniqueClaim) :
    ((f.releaseClaims tid eid).insertClaims eid tid model claims).claimTable =
      f.claimTable.reassign ⟨tid, eid⟩ (claims.map (claimKey tid model)) := by
  rw [claimTable_insertClaims, claimTable_releaseClaims]
  · rfl
  · rw [claimTable_releaseClaims, held_release, if_pos rfl]

theorem claimTable_writeSaved (f : StoreFactory) (tid : TenantID) (entity : Entity) (version : Int)
    (now creationDate : Time) (claims : List UniqueClaim) :
    (f.writeSaved tid entity version now creationDate claims).claimTable =
      f.claimTable.reassign ⟨tid, entity.info.id⟩
        (claims.map (claimKey tid entity.info.modelRef)) := by
  unfold writeSaved
  rw [claimTable_reassign, claimTable_congr (uniqueClaims_recordTxIndex _ _ _ _ _)
    (claimsByEntity_recordTxIndex _ _ _ _ _)]
  rfl

theorem claimTable_writeDeleted (f : StoreFactory) (tid : TenantID) (eid : EntityID) (version : Int)
    (now : Time) (a : WriteAttribution) :
    (f.writeDeleted tid eid version now a).claimTable = f.claimTable.release ⟨tid, eid⟩ := by
  unfold writeDeleted
  rw [claimTable_releaseClaims]
  rfl

theorem claimTable_flushEntity (txID : TxID) (tid : TenantID) (stamp : Time)
    (superseded : GoMap EntityID (List Entity)) (claims : GoMap EntityID (List UniqueClaim))
    (f : StoreFactory) (kv : EntityID × Entity) :
    (f.flushEntity txID tid stamp superseded claims kv).claimTable =
      f.claimTable.reassign ⟨tid, kv.1⟩
        ((claims.getD kv.1 []).map (claimKey tid kv.2.info.modelRef)) := by
  unfold flushEntity
  dsimp only
  rw [claimTable_reassign, claimTable_congr (uniqueClaims_recordTxIndex _ _ _ _ _)
    (claimsByEntity_recordTxIndex _ _ _ _ _)]
  rfl

/-- What a commit's flush assigns: the claims of each buffered entity. -/
def claimBatch (tid : TenantID) (claims : GoMap EntityID (List UniqueClaim))
    (kvs : List (EntityID × Entity)) : List (EntityTenantKey × List ClaimKey) :=
  kvs.map fun kv => (⟨tid, kv.1⟩, (claims.getD kv.1 []).map (claimKey tid kv.2.info.modelRef))

theorem mem_claimBatch {tid : TenantID} {claims : GoMap EntityID (List UniqueClaim)}
    {kvs : List (EntityID × Entity)} {kv : EntityID × Entity} (h : kv ∈ kvs) :
    (⟨tid, kv.1⟩, (claims.getD kv.1 []).map (claimKey tid kv.2.info.modelRef)) ∈
      claimBatch tid claims kvs :=
  List.mem_map.mpr ⟨kv, h, rfl⟩

theorem map_fst_claimBatch {tx : TransactionState} {bufferOrder : List EntityID}
    (hbuf : bufferOrder.Perm tx.buffer.keys) (claims : GoMap EntityID (List UniqueClaim)) :
    (claimBatch tx.tenantID claims (tx.buffer.inOrder bufferOrder)).map Prod.fst =
      bufferOrder.map fun e => (⟨tx.tenantID, e⟩ : EntityTenantKey) := by
  have hfst : ((tx.buffer.inOrder bufferOrder).map Prod.fst).map
      (fun e => (⟨tx.tenantID, e⟩ : EntityTenantKey)) =
      bufferOrder.map fun e => (⟨tx.tenantID, e⟩ : EntityTenantKey) := by rw [map_fst_buffer hbuf]
  rw [← hfst, claimBatch, List.map_map, List.map_map]
  rfl

theorem claimTable_flush (txID : TxID) (tx : TransactionState) (committer : WriteAttribution)
    (captured : Captured) (claims : GoMap EntityID (List UniqueClaim)) (stamp : Time)
    (bufferOrder deleteOrder : List EntityID) (f : StoreFactory) :
    (f.flush txID tx committer captured claims stamp bufferOrder deleteOrder).claimTable =
      (claimBatch tx.tenantID claims (tx.buffer.inOrder bufferOrder)).foldl
        (fun t p => t.reassign p.1 p.2)
        ((deleteOrder.map fun id => (⟨tx.tenantID, id⟩ : EntityTenantKey)).foldl
          release f.claimTable) := by
  have hreleased : ∀ (ids : List EntityID) (f : StoreFactory),
      (ids.foldl (fun f id => f.releaseClaims tx.tenantID id) f).claimTable =
        (ids.map fun id => (⟨tx.tenantID, id⟩ : EntityTenantKey)).foldl release
          f.claimTable := by
    intro ids
    induction ids with
    | nil => intro f; rfl
    | cons id ids ih =>
      intro f
      rw [List.foldl_cons, ih, claimTable_releaseClaims]
      rfl
  have hwritten : ∀ (kvs : List (EntityID × Entity)) (f : StoreFactory),
      (kvs.foldl (flushEntity txID tx.tenantID stamp captured.superseded claims) f).claimTable =
        (claimBatch tx.tenantID claims kvs).foldl (fun t p => t.reassign p.1 p.2) f.claimTable := by
    intro kvs
    induction kvs with
    | nil => intro f; rfl
    | cons kv kvs ih =>
      intro f
      rw [List.foldl_cons, ih, claimTable_flushEntity]
      rfl
  have hdeleted : ∀ (ids : List EntityID) (f : StoreFactory),
      (ids.foldl (flushDelete txID tx.tenantID stamp tx.deleteAttribution committer) f).claimTable =
        f.claimTable := by
    intro ids
    induction ids with
    | nil => intro f; rfl
    | cons id ids ih =>
      intro f
      rw [List.foldl_cons, ih]
      rfl
  rw [← hreleased, ← hwritten]
  exact hdeleted deleteOrder _

end StoreFactory

open StoreFactory

/-! ## Validation -/

section Validation

variable {f : StoreFactory} {toRelease : Finset EntityID}

/-- Whoever holds `k` is `eid` itself or about to release its claims. -/
def Claimable (f : StoreFactory) (toRelease : Finset EntityID) (eid : EntityID) (k : ClaimKey) :
    Prop :=
  ∀ holder, f.uniqueClaims.get k = some holder → holder = eid ∨ holder ∈ toRelease

variable {pending : GoMap ClaimKey EntityID}

theorem mayClaim_iff {eid : EntityID} {k : ClaimKey} :
    mayClaim f toRelease pending eid k = true ↔
      (∀ e, pending.get k = some e → e = eid) ∧ Claimable f toRelease eid k := by
  unfold mayClaim Claimable
  cases pending.get k <;> cases f.uniqueClaims.get k <;> simp

theorem validateEntity_spec {eid : EntityID} {ks : List ClaimKey}
    {pending' : GoMap ClaimKey EntityID}
    (h : validateEntity f toRelease eid ks pending = some pending') :
    (∀ k ∈ ks, (∀ e, pending.get k = some e → e = eid) ∧ Claimable f toRelease eid k) ∧
      ∀ k, pending'.get k = if k ∈ ks then some eid else pending.get k := by
  induction ks generalizing pending with
  | nil =>
    cases h
    simp
  | cons k0 ks ih =>
    simp only [validateEntity] at h
    split at h
    · rename_i hmay
      obtain ⟨hpend, hheld⟩ := mayClaim_iff.mp hmay
      obtain ⟨hks, hget⟩ := ih h
      refine ⟨?_, ?_⟩
      · intro k hk
        rcases List.mem_cons.mp hk with rfl | hk
        · exact ⟨hpend, hheld⟩
        obtain ⟨hpk, hheldk⟩ := hks k hk
        refine ⟨?_, hheldk⟩
        intro e he
        by_cases heq : k = k0
        · subst heq
          exact hpend e he
        · exact hpk e (by rw [get_set_of_ne _ _ heq, he])
      · intro k
        rw [hget k, get_set]
        by_cases hmem : k ∈ ks
        · simp [hmem]
        by_cases heq : k = k0
        · simp [heq]
        · simp [hmem, heq]
    · cases h

/-- What the commit computed for one buffered entity. -/
structure Validated (spi : Spi) (f : StoreFactory) (tid : TenantID) (toRelease : Finset EntityID)
    (keys : GoMap EntityID (List UniqueKey)) (claims : GoMap EntityID (List UniqueClaim))
    (eid : EntityID) (entity : Entity) : Prop where
  computed : spi.computeClaims (keys.getD eid []) entity.data = some (claims.getD eid [])
  claimable : ∀ k ∈ (claims.getD eid []).map (claimKey tid entity.info.modelRef),
    Claimable f toRelease eid k

/-- Two buffered entities never take one claim key. -/
def Apart (tid : TenantID) (claims : GoMap EntityID (List UniqueClaim))
    (p q : EntityID × Entity) : Prop :=
  ∀ k ∈ (claims.getD p.1 []).map (claimKey tid p.2.info.modelRef),
    k ∉ (claims.getD q.1 []).map (claimKey tid q.2.info.modelRef)

theorem validateClaims_spec {spi : Spi} {tid : TenantID} {keys : GoMap EntityID (List UniqueKey)}
    {kvs : List (EntityID × Entity)} (hnodup : (kvs.map Prod.fst).Nodup)
    {computed claims : GoMap EntityID (List UniqueClaim)}
    (h : validateClaims spi f tid toRelease keys kvs pending computed = .ok claims) :
    (∀ e, e ∉ kvs.map Prod.fst → claims.get e = computed.get e) ∧
      (∀ kv ∈ kvs, Validated spi f tid toRelease keys claims kv.1 kv.2 ∧
        ∀ k ∈ (claims.getD kv.1 []).map (claimKey tid kv.2.info.modelRef),
          ∀ e, pending.get k = some e → e = kv.1) ∧
      kvs.Pairwise (Apart tid claims) := by
  induction kvs generalizing pending computed with
  | nil =>
    cases h
    exact ⟨fun _ _ => rfl, nofun, List.Pairwise.nil⟩
  | cons kv kvs ih =>
    obtain ⟨hnot, hnodup⟩ := List.nodup_cons.mp hnodup
    simp only [validateClaims] at h
    split at h
    · cases h
    rename_i cs hcs
    split at h
    · cases h
    rename_i pending' hval
    obtain ⟨hks, hpending'⟩ := validateEntity_spec hval
    obtain ⟨hkeep, hrest, hpair⟩ := ih hnodup h
    have hcs' : claims.getD kv.1 [] = cs := by
      rw [getD, hkeep kv.1 hnot, get_set_self]
      rfl
    refine ⟨?_, ?_, List.pairwise_cons.mpr ⟨?_, hpair⟩⟩
    · intro e he
      simp only [List.map_cons, List.mem_cons, not_or] at he
      rw [hkeep e he.2, get_set_of_ne _ _ he.1]
    · intro q hq
      rcases List.mem_cons.mp hq with rfl | hq
      · rw [hcs']
        exact ⟨⟨by rw [hcs', hcs], fun k hk => (hks k (hcs' ▸ hk)).2⟩, fun k hk => (hks k hk).1⟩
      obtain ⟨hvalid, hfree⟩ := hrest q hq
      refine ⟨hvalid, ?_⟩
      intro k hk e he
      -- a key the head entity took is pending for the head
      by_cases hmem : k ∈ cs.map (claimKey tid kv.2.info.modelRef)
      · have hhead : e = kv.1 := (hks k hmem).1 e he
        have hq1 := hfree k hk kv.1 (by rw [hpending' k, if_pos hmem])
        rw [hhead, hq1]
      · exact hfree k hk e (by rw [hpending' k, if_neg hmem, he])
    · intro q hq k hk hkq
      rw [hcs'] at hk
      have hq1 := (hrest q hq).2 k hkq kv.1 (by rw [hpending' k, if_pos hk])
      exact hnot (hq1 ▸ List.mem_map_of_mem hq)

end Validation

/-! ## Both directions agree in every run -/

section Inverse

variable {f : StoreFactory}

variable {claims : GoMap EntityID (List UniqueClaim)} {tx : TransactionState}
  {keys : GoMap EntityID (List UniqueKey)} {bufferOrder : List EntityID} {e : EntityID}

theorem Apart.symm {tid : TenantID} {p q : EntityID × Entity} (h : Apart tid claims p q) :
    Apart tid claims q p :=
  fun k hk hk' => h k hk' hk

/-- Validated claims can be assigned once the deleted entities have released theirs. -/
theorem assignable_flush {spi : Spi} {deleteOrder : List EntityID} (hinv : f.claimTable.Inverse)
    (hbuf : bufferOrder.Perm tx.buffer.keys) (hdel : deleteOrder.toFinset = tx.deletes)
    (hval : validateClaims spi f tx.tenantID tx.deletes keys
      (tx.buffer.inOrder (tx.buffer.keys.insertionSort (· ≤ ·))) ∅ ∅ = .ok claims) :
    Ownership.Assignable
      ((deleteOrder.map fun id => (⟨tx.tenantID, id⟩ : EntityTenantKey)).foldl release
        f.claimTable)
      (StoreFactory.claimBatch tx.tenantID claims (tx.buffer.inOrder bufferOrder)) := by
  have hsorted : (tx.buffer.keys.insertionSort (· ≤ ·)).Perm tx.buffer.keys :=
    List.perm_insertionSort _ _
  have hperm := tx.buffer.inOrder_perm (hsorted.trans hbuf.symm)
  have hsortedNodup : ((tx.buffer.inOrder (tx.buffer.keys.insertionSort (· ≤ ·))).map
      Prod.fst).Nodup := by
    rw [map_fst_buffer hsorted]
    exact hsorted.nodup_iff.mpr tx.buffer.keys_nodup
  obtain ⟨-, hvalid, hapart⟩ := validateClaims_spec hsortedNodup hval
  refine ⟨?_, ?_⟩
  · intro p hp k hk o howner
    obtain ⟨kv, hkv, rfl⟩ := List.mem_map.mp hp
    have hvalidated := (hvalid kv (hperm.mem_iff.mpr hkv)).1
    have hheld := ((hinv.releaseAll _) k o).mp howner
    have hbase := owner_releaseAll_eq_some howner
    obtain ⟨c, -, rfl⟩ := List.mem_map.mp hk
    obtain ⟨holder, hholder, rfl⟩ := Option.map_eq_some_iff.mp hbase
    rcases hvalidated.claimable _ hk holder hholder with rfl | hrel
    · rfl
    -- the holder is deleted in this transaction, so it holds nothing any more
    have hreleased : (⟨(claimKey tx.tenantID kv.2.info.modelRef c).tenant, holder⟩ :
        EntityTenantKey) ∈ deleteOrder.map fun id => (⟨tx.tenantID, id⟩ : EntityTenantKey) :=
      List.mem_map_of_mem (List.mem_toFinset.mp (hdel ▸ hrel))
    rw [held_releaseAll, if_pos hreleased] at hheld
    cases hheld
  · have hids : (tx.buffer.inOrder bufferOrder).Pairwise fun p q => p.1 ≠ q.1 := by
      have hnodup := hbuf.nodup_iff.mpr tx.buffer.keys_nodup
      rw [← map_fst_buffer hbuf] at hnodup
      exact List.pairwise_map.mp hnodup
    have hclaims := (hperm.pairwise_iff fun h => Apart.symm h).mp hapart
    refine List.pairwise_map.mpr ((hids.and hclaims).imp ?_)
    rintro p q ⟨hne, hdisjoint⟩
    exact ⟨fun heq => hne (EntityTenantKey.mk.inj heq).2, hdisjoint⟩

/-- The claims a validated flush leaves with a buffered entity. -/
theorem held_flush_buffered (txID : TxID) (committer : WriteAttribution) (captured : Captured)
    (claims : GoMap EntityID (List UniqueClaim)) (stamp : Time) (deleteOrder : List EntityID)
    (hbuf : bufferOrder.Perm tx.buffer.keys) {entity : Entity}
    (hget : tx.buffer.get e = some entity) :
    (f.flush txID tx committer captured claims stamp bufferOrder deleteOrder).claimTable.held
        ⟨tx.tenantID, e⟩ =
      (claims.getD e []).map (claimKey tx.tenantID entity.info.modelRef) := by
  have howners : (bufferOrder.map fun e => (⟨tx.tenantID, e⟩ : EntityTenantKey)).Nodup :=
    (hbuf.nodup_iff.mpr tx.buffer.keys_nodup).map fun _ _ heq => (EntityTenantKey.mk.inj heq).2
  have hmem : (e, entity) ∈ tx.buffer.inOrder bufferOrder :=
    mem_inOrder.mpr ⟨hbuf.mem_iff.mpr (mem_keys_of_get hget), hget⟩
  rw [StoreFactory.claimTable_flush]
  exact held_reassignAll_of_mem (StoreFactory.map_fst_claimBatch hbuf claims ▸ howners)
    (StoreFactory.mem_claimBatch hmem) _

/-- Any other entity keeps its claims, unless it is deleted. -/
theorem held_flush_of_notMem (txID : TxID) (committer : WriteAttribution) (captured : Captured)
    (claims : GoMap EntityID (List UniqueClaim)) (stamp : Time) (deleteOrder : List EntityID)
    (hbuf : bufferOrder.Perm tx.buffer.keys) {t : TenantID}
    (h : t ≠ tx.tenantID ∨ e ∉ tx.buffer.keys) :
    (f.flush txID tx committer captured claims stamp bufferOrder deleteOrder).claimTable.held
        ⟨t, e⟩ =
      if t = tx.tenantID ∧ e ∈ deleteOrder then [] else f.claimTable.held ⟨t, e⟩ := by
  have hmem : ∀ ids : List EntityID, (⟨t, e⟩ : EntityTenantKey) ∈
      (ids.map fun e => (⟨tx.tenantID, e⟩ : EntityTenantKey)) ↔ t = tx.tenantID ∧ e ∈ ids := by
    intro ids
    constructor
    · intro hc
      obtain ⟨e', he', heq⟩ := List.mem_map.mp hc
      obtain ⟨rfl, rfl⟩ := EntityTenantKey.mk.inj heq
      exact ⟨rfl, he'⟩
    · rintro ⟨rfl, he⟩
      exact List.mem_map_of_mem he
  have hout : (⟨t, e⟩ : EntityTenantKey) ∉ (StoreFactory.claimBatch tx.tenantID claims
      (tx.buffer.inOrder bufferOrder)).map Prod.fst := by
    rw [StoreFactory.map_fst_claimBatch hbuf, hmem, hbuf.mem_iff]
    rintro ⟨ht, he⟩
    exact h.elim (fun hne => hne ht) fun hne => hne he
  rw [StoreFactory.claimTable_flush, held_reassignAll_of_notMem hout,
    held_releaseAll]
  simp only [hmem]

/-- The claims of a buffered entity were computed from the keys the commit captured. -/
theorem validated_of_flush {spi : Spi}
    (hval : validateClaims spi f tx.tenantID tx.deletes keys
      (tx.buffer.inOrder (tx.buffer.keys.insertionSort (· ≤ ·))) ∅ ∅ = .ok claims) {entity : Entity}
    (hget : tx.buffer.get e = some entity) :
    spi.computeClaims (keys.getD e []) entity.data = some (claims.getD e []) := by
  have hsorted : (tx.buffer.keys.insertionSort (· ≤ ·)).Perm tx.buffer.keys :=
    List.perm_insertionSort _ _
  have hnodup : ((tx.buffer.inOrder (tx.buffer.keys.insertionSort (· ≤ ·))).map Prod.fst).Nodup := by
    rw [map_fst_buffer hsorted]
    exact hsorted.nodup_iff.mpr tx.buffer.keys_nodup
  have hmem : (e, entity) ∈ tx.buffer.inOrder (tx.buffer.keys.insertionSort (· ≤ ·)) :=
    mem_inOrder.mpr ⟨hsorted.mem_iff.mpr (mem_keys_of_get hget), hget⟩
  exact ((validateClaims_spec hnodup hval).2.1 (e, entity) hmem).1.computed

theorem free_of_claimTaken {tid : TenantID} {eid : EntityID} {model : ModelRef}
    {claims : List UniqueClaim} (h : System.claimTaken f tid eid model claims = false) :
    f.claimTable.Free ⟨tid, eid⟩ (claims.map (claimKey tid model)) := by
  intro k hk o howner
  obtain ⟨c, hc, rfl⟩ := List.mem_map.mp hk
  obtain ⟨holder, hholder, rfl⟩ := Option.map_eq_some_iff.mp howner
  unfold System.claimTaken at h
  rw [List.any_eq_false] at h
  have hnot := h c hc
  rw [hholder] at hnot
  have heq : holder = eid := by simpa using hnot
  rw [heq]
  rfl

theorem inverse_swept {tid : TenantID} {now : Time} {a : WriteAttribution} {f' : StoreFactory}
    (h : Swept tid now a f f') (hinv : f.claimTable.Inverse) : f'.claimTable.Inverse := by
  induction h with
  | refl => exact hinv
  | delete eid version _ ih =>
    rw [StoreFactory.claimTable_writeDeleted]
    exact ih.release _

theorem DirectSpec.inverse {spi : Spi} {s s' : System} {tid : TenantID} {ctx : Ctx} {clock : Time}
    {call : StoreCall} {r : Outcome Value} (h : DirectSpec spi s tid ctx clock call r s')
    (hinv : s.factory.claimTable.Inverse) : s'.factory.claimTable.Inverse := by
  cases h with
  | kept _ _ h =>
    subst h
    exact hinv
  | saved _ _ _ hfree h =>
    subst h
    rw [StoreFactory.claimTable_writeSaved]
    exact hinv.reassign (free_of_claimTaken hfree)
  | swept _ hswept h =>
    subst h
    exact inverse_swept hswept hinv

end Inverse

theorem Stepped.inverse {spi : Spi} {w w' : World} {a : Action} {r : Result}
    (h : Stepped spi w a r w') (hinv : w.sys.factory.claimTable.Inverse) :
    w'.sys.factory.claimTable.Inverse := by
  cases h with
  | manage hmay =>
    rw [(manage_effect _ hmay).factory]
    exact hinv
  | direct => exact (storeDirect_spec _ _).inverse hinv
  | inTx _ _ hget hmay =>
    rw [(inTx_effect _ _ hget hmay).factory]
    exact hinv
  | task =>
    obtain ⟨tasks, htasks⟩ := task_factory w.sys _
    rw [htasks]
    exact hinv
  | flushed hin hstage hget hbuf hnodup hdel hval =>
    dsimp only
    rw [StoreFactory.claimTable_flush]
    exact (hinv.releaseAll _).reassignAll (assignable_flush hinv hbuf hdel hval)
  | _ => exact hinv

theorem inverse_of_run {spi : Spi} {allowed : Trace → World → Action → Prop} {tr : Trace}
    {w : World} (h : PluginRun spi allowed tr w) : w.sys.factory.claimTable.Inverse := by
  refine h.inv (I := fun _ w => w.sys.factory.claimTable.Inverse) ?_ ?_
  · intro k o
    simp [World.init, System.empty, empty, StoreFactory.claimTable]
  · exact fun _ _ _ _ _ hw _ hs => (stepped_of_step hs).inverse hw

end CyodaGo.Memory
