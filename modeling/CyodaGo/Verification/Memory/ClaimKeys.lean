import CyodaGo.Verification.Memory.Claims
import CyodaGo.Verification.Memory.Pending

/-! # Claims and the keys captured with a write

Every `Save` and `CompareAndSave` carries the unique keys of its caller. A history
variable records, along a run, the keys captured with each buffered write and with the
newest committed write of each entity. -/

namespace CyodaGo.Memory

/-! ## Captured keys -/

/-- The keys captured with the buffered writes of each transaction, with the buffers its
savepoints remember, and with the newest committed write of each entity. -/
structure Captures where
  buffered : TxID → EntityID → List UniqueKey
  saved : TxID → SavepointID → EntityID → List UniqueKey
  committed : TenantID → EntityID → List UniqueKey

namespace Captures

def empty : Captures := ⟨fun _ _ => [], fun _ _ _ => [], fun _ _ => []⟩

/-- A successful write of `eid`, buffered or direct. -/
def write (g : Captures) (tid : TenantID) (ctx : Ctx) (eid : EntityID) : Captures :=
  match ctx.tx with
  | some txID =>
    { g with buffered := fun t e => if t = txID ∧ e = eid then ctx.uniqueKeys else g.buffered t e }
  | none =>
    { g with committed := fun t e => if t = tid ∧ e = eid then ctx.uniqueKeys else g.committed t e }

/-- A flush turns buffered writes into committed ones. -/
def flush (g : Captures) (txID : TxID) (tx : TransactionState) : Captures :=
  { g with committed := fun t e =>
      if t = tx.tenantID ∧ e ∈ tx.buffer.keys then g.buffered txID e else g.committed t e }

def step (g : Captures) (ev : Event World Action Result) : Captures :=
  match ev.action, ev.result with
  | .store tid ctx (.save entity) _ _, .done (.ok _) => g.write tid ctx entity.info.id
  | .store tid ctx (.compareAndSave entity _) _ _, .done (.ok _) => g.write tid ctx entity.info.id
  | .manage _ (.savepoint txID spID), .done (.ok _) =>
    { g with saved := fun t sp => if t = txID ∧ sp = spID then g.buffered txID else g.saved t sp }
  | .manage _ (.rollbackToSavepoint txID spID), .done (.ok _) =>
    { g with buffered := fun t => if t = txID then g.saved txID spID else g.buffered t }
  | .commitApply _ _ _, .running =>
    match ev.before.inside with
    | some i =>
      match ev.before.sys.txs.get i.txID with
      | some tx => g.flush i.txID tx
      | none => g
    | none => g
  | _, _ => g

end Captures

def captures : Trace → Captures
  | [] => .empty
  | ev :: tr => (captures tr).step ev

/-- The keys the manager recorded for the buffered writes are those captured with
them. -/
def keysMatch (g : Captures) (m : TransactionManager) (txID : TxID) (tx : TransactionState) : Bool :=
  tx.buffer.keys.all fun e => (m.txUniqueKeys.getD txID ∅).getD e [] = g.buffered txID e

/-- A commit is checked only when the recorded keys match its buffer. -/
def keysCurrent (tr : Trace) (w : World) : Action → Bool
  | .commitCheck c =>
    match w.waiting.get c with
    | some (.commit txID _) => (w.sys.txs.get txID).all (keysMatch (captures tr) w.sys.tm txID)
    | _ => true
  | _ => true

/-- The keys a commit took out of the manager are those captured with its buffer. -/
def KeysHeld (g : Captures) (w : World) : Prop :=
  ∀ i captured tx, w.inside = some i → i.stage = .checked captured →
    w.sys.txs.get i.txID = some tx →
    ∀ e ∈ tx.buffer.keys, captured.keys.getD e [] = g.buffered i.txID e

variable {spi : Spi} {w w' : World} {a : Action} {r : Result} {tr : Trace} {tid : TenantID}
  {g : Captures}

/-- While a commit holds the locks nothing changes the keys of its buffer. -/
theorem Stepped.buffered {i : Inside} (h : Stepped spi w a r w') (hin : w.inside = some i)
    (g : Captures) :
    (g.step ⟨w, a, r, w'⟩).buffered i.txID = g.buffered i.txID := by
  have hheld : w.opMuFree i.txID = false := by simp [World.opMuFree, hin]
  cases h with
  | @manage user call hmay =>
    cases call with
    | rollbackToSavepoint txID spID =>
      have hne : i.txID ≠ txID := by
        rintro rfl
        simp [World.mayManage, hheld] at hmay
      cases hres : (w.sys.manage user (.rollbackToSavepoint txID spID)).1 <;>
        simp [Captures.step, hne]
    | savepoint txID spID =>
      cases hres : (w.sys.manage user (.savepoint txID spID)).1 <;> simp [Captures.step]
    | _ => simp [Captures.step]
  | direct _ _ hfree => cases hfree.symm.trans hin
  | @inTx tid ctx call clock order txID tx _ htx hget hmay =>
    have hwrite : ∀ eid, World.takesOpMu call = true →
        (g.write tid ctx eid).buffered i.txID = g.buffered i.txID := by
      intro eid htakes
      have hne : i.txID ≠ txID := by
        rintro rfl
        simp [World.mayStoreTx, htakes, hheld] at hmay
      simp [Captures.write, htx, hne]
    cases call with
    | save entity =>
      cases hres : (w.sys.storeTx spi tid ctx txID tx order (.save entity)).1 <;>
        simp [Captures.step, hwrite entity.info.id rfl]
    | compareAndSave entity expectedTxID =>
      cases hres : (w.sys.storeTx spi tid ctx txID tx order
        (.compareAndSave entity expectedTxID)).1 <;>
        simp [Captures.step, hwrite entity.info.id rfl]
    | _ => simp [Captures.step]
  | task => simp [Captures.step]
  | flushed hin' hstage hget => simp [Captures.step, hin', hget, Captures.flush]
  | _ => simp [Captures.step]

theorem Stepped.keysHeld (h : Stepped spi w a r w') (hallowed : keysCurrent tr w a = true)
    (hmem : ∀ i, w.inside = some i → i.txID ∈ w.sys.txs.keys) (hold : KeysHeld (captures tr) w) :
    KeysHeld (captures (⟨w, a, r, w'⟩ :: tr)) w' := by
  intro i captured tx hin hstage hget
  cases hw : w.inside with
  | some i0 =>
    have hsame := h.sameTx hw hin (hmem i0 hw)
    have hbuffered := h.buffered hw (captures tr)
    rcases h.stillInside hw hin with rfl | ⟨stamp, rfl⟩
    · rw [hsame.record] at hget
      intro e he
      rw [hold i captured tx hw hstage hget e he, captures, hbuffered]
    · cases hstage
  | none =>
    obtain ⟨rfl, hcaptured, hsys, hwait⟩ := h.enters hw hin
    obtain rfl := CommitStage.checked.inj (hcaptured.symm.trans hstage)
    rw [hsys] at hget
    simp only [keysCurrent, hwait, hget, Option.all_some, keysMatch, List.all_eq_true,
      decide_eq_true_eq] at hallowed
    intro e he
    exact hallowed e he

/-! ## Claims of live entities -/

variable (txID : TxID) (vs : List EntityVersion)

/-- The entity of the newest row, unless it is a tombstone. -/
def liveEntity : Option Entity :=
  vs.getLast?.bind fun row => if row.deleted then none else row.entity

open StoreFactory

/-- `held` is what the keys `keys` claim for the newest version of a history. -/
def Claimed (spi : Spi) (keys : List UniqueKey) (tid : TenantID) (vs : List EntityVersion)
    (held : List ClaimKey) : Prop :=
  match liveEntity vs with
  | none => held = []
  | some e => ∃ claims, spi.computeClaims keys e.data = some claims ∧
      held = claims.map (claimKey tid e.info.modelRef)

theorem liveEntity_append_live (row : EntityVersion) {e : Entity} (hdel : row.deleted = false)
    (hent : row.entity = some e) :
    liveEntity (vs ++ [row]) = some e := by
  simp [liveEntity, hdel, hent]

theorem liveEntity_append_deleted {row : EntityVersion} (hdel : row.deleted = true) :
    liveEntity (vs ++ [row]) = none := by
  simp [liveEntity, hdel]

theorem claimed_of_live {keys : List UniqueKey} {vs : List EntityVersion} {e : Entity}
    (hlive : liveEntity vs = some e) {claims : List UniqueClaim}
    (hclaims : spi.computeClaims keys e.data = some claims) :
    Claimed spi keys tid vs (claims.map (claimKey tid e.info.modelRef)) := by
  unfold Claimed
  rw [hlive]
  exact ⟨claims, hclaims, rfl⟩

theorem claimed_of_deleted {keys : List UniqueKey} {vs : List EntityVersion}
    (hlive : liveEntity vs = none) : Claimed spi keys tid vs [] := by
  unfold Claimed
  rw [hlive]

/-- The last row of a flushed entity holds its final save. -/
theorem flushRows_concat (tid : TenantID) (stamp creationDate : Time) (base : Int) (hasPrior : Bool)
    (staged : List Entity) (entity : Entity) :
    ∃ rows n prior, flushRows txID tid stamp creationDate base hasPrior (staged ++ [entity]) =
      rows ++ [flushedVersion txID tid stamp creationDate n prior entity] := by
  induction staged generalizing base hasPrior with
  | nil => exact ⟨[], base + 1, hasPrior, rfl⟩
  | cons e staged ih =>
    obtain ⟨rows, n, prior, hrows⟩ := ih (base + 1) true
    exact ⟨_ :: rows, n, prior, by rw [List.cons_append, flushRows, hrows, List.cons_append]⟩

theorem liveEntity_rowsFor (tid : TenantID) (stamp : Time) (superseded : List Entity)
    (entity : Entity) (vs : List EntityVersion) :
    ∃ e, liveEntity (vs ++ rowsFor txID tid stamp superseded entity vs) = some e ∧
      e.data = entity.data ∧ e.info.modelRef = entity.info.modelRef := by
  obtain ⟨rows, n, prior, hrows⟩ := flushRows_concat txID tid stamp (priorCreationDate vs)
    (baseVersion vs) (!vs.isEmpty) superseded entity
  unfold rowsFor
  rw [hrows, ← List.append_assoc]
  exact ⟨_, liveEntity_append_live _ _ rfl rfl, rfl, rfl⟩

/-- Every entity of the store holds what it claims. -/
def AllClaimed (spi : Spi) (keys : TenantID → EntityID → List UniqueKey) (f : StoreFactory) : Prop :=
  ∀ t e, Claimed spi (keys t e) t (f.versions t e) (f.claimTable.held ⟨t, e⟩)

section Writes

variable {spi : Spi} {keys : TenantID → EntityID → List UniqueKey} {f : StoreFactory}

theorem AllClaimed.writeSaved (h : AllClaimed spi keys f) (tid : TenantID) (entity : Entity)
    (version : Int) (now creationDate : Time) {claims : List UniqueClaim} {ks : List UniqueKey}
    (hclaims : spi.computeClaims ks entity.data = some claims) :
    AllClaimed spi (fun t e => if t = tid ∧ e = entity.info.id then ks else keys t e)
      (f.writeSaved tid entity version now creationDate claims) := by
  intro t e
  rw [versions_writeSaved, claimTable_writeSaved, Ownership.held_reassign]
  by_cases heq : t = tid ∧ e = entity.info.id
  · obtain ⟨rfl, rfl⟩ := heq
    simp only [and_self, if_true]
    have hlive := liveEntity_append_live (f.versions t entity.info.id)
      (savedVersion t entity version now creationDate
        (deriveChangeType entity.info.changeType (!(f.versions t entity.info.id).isEmpty))) rfl rfl
    exact claimed_of_live hlive hclaims
  · have hkey : (⟨t, e⟩ : EntityTenantKey) ≠ ⟨tid, entity.info.id⟩ :=
      fun hc => heq (EntityTenantKey.mk.inj hc)
    simp only [heq, hkey, if_false]
    exact h t e

theorem AllClaimed.writeDeleted (h : AllClaimed spi keys f) (tid : TenantID) (eid : EntityID)
    (version : Int) (now : Time) (a : WriteAttribution) :
    AllClaimed spi keys (f.writeDeleted tid eid version now a) := by
  intro t e
  rw [versions_writeDeleted, claimTable_writeDeleted, Ownership.held_release]
  by_cases heq : t = tid ∧ e = eid
  · obtain ⟨rfl, rfl⟩ := heq
    simp only [and_self, if_true]
    exact claimed_of_deleted (liveEntity_append_deleted _ rfl)
  · rw [if_neg heq, if_neg fun hc => heq (EntityTenantKey.mk.inj hc)]
    exact h t e

theorem AllClaimed.swept {now : Time} {a : WriteAttribution} {f' : StoreFactory}
    (h : AllClaimed spi keys f) (hswept : Swept tid now a f f') : AllClaimed spi keys f' := by
  induction hswept with
  | refl => exact h
  | delete eid version _ ih => exact ih.writeDeleted tid eid version now a

/-- A validated flush, with the keys its claims were computed from. -/
theorem AllClaimed.flush (h : AllClaimed spi keys f) (txID : TxID) (committer : WriteAttribution)
    (stamp : Time) {tx : TransactionState} {captured : Captured}
    {claims : GoMap EntityID (List UniqueClaim)} {bufferOrder deleteOrder : List EntityID} (hkept : WellKept tx.buffer tx.deletes)
    (hbuf : bufferOrder.Perm tx.buffer.keys) (hnodup : deleteOrder.Nodup)
    (hdel : deleteOrder.toFinset = tx.deletes)
    (hval : validateClaims spi f tx.tenantID tx.deletes captured.keys
      (tx.buffer.inOrder (tx.buffer.keys.insertionSort (· ≤ ·))) ∅ ∅ = .ok claims) :
    AllClaimed spi (fun t e => if t = tx.tenantID ∧ e ∈ tx.buffer.keys then captured.keys.getD e []
        else keys t e)
      (f.flush txID tx committer captured claims stamp bufferOrder deleteOrder) := by
  have hmemDel : ∀ e, e ∈ deleteOrder ↔ e ∈ tx.deletes := fun e => by
    rw [← hdel, List.mem_toFinset]
  intro t e
  by_cases hmem : t = tx.tenantID ∧ e ∈ tx.buffer.keys
  · obtain ⟨rfl, hkey⟩ := hmem
    obtain ⟨entity, hget⟩ := (GoMap.mem_keys _ _).mp hkey
    have hnotDel : e ∉ deleteOrder := fun hd => hkept.disjoint e ((hmemDel e).mp hd) hkey
    obtain ⟨live, hlive, hdata, hmodel⟩ := liveEntity_rowsFor txID tx.tenantID stamp
      (captured.superseded.getD e []) entity (f.versions tx.tenantID e)
    rw [versions_flush_buffered _ _ _ hbuf hget hnotDel, held_flush_buffered _ _ _ _ _ _ hbuf hget]
    simp only [hkey, and_self, if_true]
    rw [← hmodel]
    exact claimed_of_live hlive (hdata ▸ validated_of_flush hval hget)
  · have hout : t ≠ tx.tenantID ∨ e ∉ tx.buffer.keys := not_and_or.mp hmem
    rw [held_flush_of_notMem _ _ _ _ _ _ hbuf hout]
    simp only [hmem, if_false]
    by_cases hd : t = tx.tenantID ∧ e ∈ deleteOrder
    · rw [if_pos hd]
      obtain ⟨rfl, hd⟩ := hd
      rw [versions_flush_deleted _ _ _ hbuf hnodup hd (hout.resolve_left fun hne => hne rfl)]
      exact claimed_of_deleted (liveEntity_append_deleted _ rfl)
    · have hnone : t ≠ tx.tenantID ∨ e ∉ tx.buffer.keys ∧ e ∉ deleteOrder := by
        by_cases ht : t = tx.tenantID
        · exact .inr ⟨hout.resolve_left fun hne => hne ht, fun hdel => hd ⟨ht, hdel⟩⟩
        · exact .inl ht
      rw [if_neg hd, versions_flush_of_notMem _ _ _ hbuf hnone]
      exact h t e

end Writes

/-! ## Steps -/

/-- A direct save captures its keys exactly when it succeeds. -/
theorem Stepped.allClaimed_direct {ctx : Ctx} {call : StoreCall} {clock : Time}
    {order : List EntityID} (h : AllClaimed spi g.committed w.sys.factory) (htx : ctx.tx = none) :
    AllClaimed spi
      (g.step ⟨w, .store tid ctx call clock order,
        .done (w.sys.storeDirect spi tid ctx clock order call).1, w'⟩).committed
      (w.sys.storeDirect spi tid ctx clock order call).2.factory := by
  have hspec : DirectSpec spi w.sys tid ctx clock call _ _ := storeDirect_spec order call
  generalize w.sys.storeDirect spi tid ctx clock order call = p at hspec ⊢
  obtain ⟨r, s'⟩ := p
  cases hspec with
  | kept hr _ hs =>
    subst hs
    have hsame : (g.step ⟨w, .store tid ctx call clock order, .done r, w'⟩).committed =
        g.committed := by
      cases call <;> cases r <;> simp_all [Captures.step, StoreCall.saves]
    rw [hsame]
    exact h
  | @saved entity claims _ v hcall hr hclaims _ hs =>
    subst hs hr
    have hwrite : (g.step ⟨w, .store tid ctx call clock order, .done (.ok v), w'⟩).committed =
        (g.write tid ctx entity.info.id).committed := by
      cases call <;> simp_all [Captures.step, StoreCall.saves]
    rw [hwrite]
    simp only [Captures.write, htx]
    exact h.writeSaved tid _ _ _ _ hclaims
  | swept hcall hswept hs =>
    subst hs
    have hsame : (g.step ⟨w, .store tid ctx call clock order, .done r, w'⟩).committed =
        g.committed := by
      cases call <;> simp_all [Captures.step, StoreCall.saves]
    rw [hsame]
    exact h.swept hswept

theorem Stepped.allClaimed (hstep : Stepped spi w a r w') (hst : Staging w.sys)
    (hkeys : KeysHeld g w) (h : AllClaimed spi g.committed w.sys.factory) :
    AllClaimed spi (g.step ⟨w, a, r, w'⟩).committed w'.sys.factory := by
  cases hstep with
  | @manage user call hmay =>
    rw [(manage_effect _ hmay).factory]
    have hsame : (g.step ⟨w, .manage user call, .done (w.sys.manage user call).1,
        { w with sys := (w.sys.manage user call).2 }⟩).committed = g.committed := by
      cases call with
      | savepoint txID spID =>
        cases hres : (w.sys.manage user (.savepoint txID spID)).1 <;> simp [Captures.step]
      | rollbackToSavepoint txID spID =>
        cases hres : (w.sys.manage user (.rollbackToSavepoint txID spID)).1 <;>
          simp [Captures.step]
      | _ => rfl
    rw [hsame]
    exact h
  | direct horder htx hfree => exact Stepped.allClaimed_direct h htx
  | @inTx tid ctx call clock order txID tx _ htx hget hmay =>
    rw [(inTx_effect _ _ hget hmay).factory]
    have hwrite : ∀ eid, (g.write tid ctx eid).committed = g.committed := by
      intro eid
      simp [Captures.write, htx]
    cases call with
    | save entity =>
      cases hres : (w.sys.storeTx spi tid ctx txID tx order (.save entity)).1 <;>
        simpa [Captures.step, hwrite] using h
    | compareAndSave entity expectedTxID =>
      cases hres : (w.sys.storeTx spi tid ctx txID tx order
        (.compareAndSave entity expectedTxID)).1 <;> simpa [Captures.step, hwrite] using h
    | _ => exact h
  | task =>
    obtain ⟨tasks, htasks⟩ := task_factory w.sys _
    rw [htasks]
    exact h
  | @flushed i captured tx clock bufferOrder deleteOrder claims hin hstage hget hbuf hnodup hdel hval =>
    have hflush := h.flush i.txID i.committer (w.sys.tm.nextSubmitTime clock).1
      (hst.records i.txID tx hget) hbuf hnodup hdel hval
    simp only [Captures.step, hin, hget, Captures.flush]
    intro t e
    have hte := hflush t e
    by_cases hmem : t = tx.tenantID ∧ e ∈ tx.buffer.keys
    · simp only [hmem, and_self, if_true] at hte ⊢
      rw [← hkeys i captured tx hin hstage hget e hmem.2]
      exact hte
    · simp only [hmem, if_false] at hte ⊢
      exact hte
  | _ => exact h

/-! ## The claim table over runs -/

theorem inside_mem_keys {allowed : Trace → World → Action → Prop} (h : PluginRun spi allowed tr w)
    (i : Inside) (hin : w.inside = some i) :
    i.txID ∈ w.sys.txs.keys :=
  (pending_of_run h).record i.call i.txID (.inr ⟨i, hin, rfl, rfl⟩)

theorem claims_of_run (h : PluginRun spi (PassingWith keysCurrent) tr w) :
    KeysHeld (captures tr) w ∧ AllClaimed spi (captures tr).committed w.sys.factory := by
  induction h with
  | nil => exact ⟨nofun, fun _ _ => claimed_of_deleted rfl⟩
  | cons a hrun ha hs ih =>
    have hstep := stepped_of_step hs
    exact ⟨hstep.keysHeld ha.2 (inside_mem_keys hrun) ih.1,
      hstep.allClaimed (staging_of_run hrun) ih.1 ih.2⟩

/-- In every run whose commits are checked with the keys captured with their buffered
writes: the two claim maps are inverse to each other; an entity holds exactly the claims
that the keys captured with its newest version compute from it, and none when it is not
live; and no two live entities of one tenant and model compute a common claim. -/
theorem unique_claim_table (spi : Spi) :
    ∀ tr w, PluginRun spi (PassingWith keysCurrent) tr w →
      (∀ k e, w.sys.factory.uniqueClaims.get k = some e ↔
        k ∈ w.sys.factory.claimsByEntity.getD ⟨k.tenant, e⟩ []) ∧
      (∀ t e, match liveEntity (w.sys.factory.versions t e) with
        | none => w.sys.factory.claimsByEntity.getD ⟨t, e⟩ [] = []
        | some ent => ∃ claims,
            spi.computeClaims ((captures tr).committed t e) ent.data = some claims ∧
            w.sys.factory.claimsByEntity.getD ⟨t, e⟩ [] =
              claims.map (claimKey t ent.info.modelRef)) ∧
      ∀ t e e' ent ent' claims claims', liveEntity (w.sys.factory.versions t e) = some ent →
        liveEntity (w.sys.factory.versions t e') = some ent' →
        ent.info.modelRef = ent'.info.modelRef →
        spi.computeClaims ((captures tr).committed t e) ent.data = some claims →
        spi.computeClaims ((captures tr).committed t e') ent'.data = some claims' →
        (∃ c ∈ claims, c ∈ claims') → e = e' := by
  intro tr w hrun
  have hinv := inverse_of_run hrun
  have hall := (claims_of_run hrun).2
  refine ⟨?_, hall, ?_⟩
  · intro k e
    have hk := hinv k ⟨k.tenant, e⟩
    simpa [claimTable] using hk
  · intro t e e' ent ent' claims claims' hlive hlive' hmodel hclaims hclaims' hcommon
    obtain ⟨c, hc, hc'⟩ := hcommon
    have hheld := hall t e
    have hheld' := hall t e'
    simp only [Claimed, hlive] at hheld
    simp only [Claimed, hlive'] at hheld'
    obtain ⟨cs, hcs, hk⟩ := hheld
    obtain ⟨cs', hcs', hk'⟩ := hheld'
    cases hcs.symm.trans hclaims
    cases hcs'.symm.trans hclaims'
    have hmem : claimKey t ent.info.modelRef c ∈
        w.sys.factory.claimTable.held ⟨t, e⟩ := hk ▸ List.mem_map_of_mem hc
    have hmem' : claimKey t ent.info.modelRef c ∈
        w.sys.factory.claimTable.held ⟨t, e'⟩ := by
      rw [hk', hmodel]
      exact List.mem_map_of_mem hc'
    exact (EntityTenantKey.mk.inj (hinv.owner_unique hmem hmem')).2

namespace Sample

def key : UniqueKey := ⟨"k", ["name"]⟩

def saveWith (tenant : TenantID) (tx : Option TxID) (keys : List UniqueKey) (e : Entity)
    (order : List EntityID) : Action :=
  .store tenant (ctx tenant tx keys) (.save e) 0 order

end Sample

open Sample

/-- A claim is taken in a transaction and passes to another entity in a batch. -/
def movedClaim : List Action :=
  [Sample.saveWith "A" none [Sample.key] (entity "e" [1]) [],
    begin "A" "t" 0,
    inTx "A" "t" (.delete "e") ["e"],
    Sample.saveWith "A" (some "t") [Sample.key] (entity "e'" [1]) ["e"],
    commitMark 0 "A" "t",
    .commitCheck 0,
    .commitApply 0 ["e'"] ["e"],
    .commitFinish 0 []]

theorem unique_claim_table_movedClaim :
    ∃ tr w, PluginRun Sample.spi (PassingWith keysCurrent) tr w ∧
      w.sys.factory.uniqueClaims.get ⟨"A", "order", "1", "k", "\x01"⟩ = some "e'" ∧
      (⟨"A", "order", "1", "k", "\x01"⟩ : ClaimKey) ∈
        w.sys.factory.claimsByEntity.getD ⟨"A", "e'"⟩ [] := by
  obtain ⟨tr, w, hrun, hcheck⟩ := exists_run_passingWith Sample.spi keysCurrent
    (fun _ w => w.sys.factory.uniqueClaims.get ⟨"A", "order", "1", "k", "\x01"⟩ = some "e'")
    movedClaim (by decide)
  have howner := of_decide_eq_true hcheck
  exact ⟨tr, w, hrun, howner, ((unique_claim_table Sample.spi tr w hrun).1 _ _).mp howner⟩

/-- A savepoint is rolled back after the entity was saved again without keys. -/
def keysLostBySavepoint : List Action :=
  [begin "A" "t" 0,
    Sample.saveWith "A" (some "t") [Sample.key] (entity "e" [1]) [],
    .manage (some "A") (.savepoint "t" "s"),
    Sample.saveWith "A" (some "t") [] (entity "e" [2]) [],
    .manage (some "A") (.rollbackToSavepoint "t" "s"),
    commitMark 0 "A" "t",
    .commitCheck 0,
    .commitApply 0 ["e"] [],
    .commitFinish 0 [],
    Sample.saveWith "A" none [Sample.key] (entity "e'" [1]) ["e"]]

/-- Rolling back to a savepoint restores the buffered entity but not the keys captured
with it: the entity is committed without its claim, and another one takes it. -/
theorem savepoint_loses_claim :
    ∃ tr w, PluginRun Sample.spi AnyStep tr w ∧
      (captures tr).committed "A" "e" = [Sample.key] ∧
      (captures tr).committed "A" "e'" = [Sample.key] ∧
      (liveEntity (w.sys.factory.versions "A" "e")).map Entity.data = some [1] ∧
      (liveEntity (w.sys.factory.versions "A" "e'")).map Entity.data = some [1] ∧
      w.sys.factory.claimsByEntity.getD ⟨"A", "e"⟩ [] = [] ∧
      w.sys.factory.uniqueClaims.get ⟨"A", "order", "1", "k", "\x01"⟩ = some "e'" := by
  obtain ⟨tr, w, hrun, hcheck⟩ := exists_run_any Sample.spi
    (fun tr w => (captures tr).committed "A" "e" = [Sample.key] &&
      ((captures tr).committed "A" "e'" = [Sample.key] &&
      ((liveEntity (w.sys.factory.versions "A" "e")).map Entity.data = some [1] &&
      ((liveEntity (w.sys.factory.versions "A" "e'")).map Entity.data = some [1] &&
      (w.sys.factory.claimsByEntity.getD ⟨"A", "e"⟩ [] = [] &&
      w.sys.factory.uniqueClaims.get ⟨"A", "order", "1", "k", "\x01"⟩ = some "e'")))))
    keysLostBySavepoint (by decide)
  simp only [Bool.and_eq_true, decide_eq_true_eq] at hcheck
  exact ⟨tr, w, hrun, hcheck⟩

end CyodaGo.Memory
