import CyodaGo.Model.Memory.Machine
import CyodaGo.Shared.Run

/-! # What a step can do

`Stepped` lists the effects of a step once, guards included; every invariant is proved
by cases on it. -/

namespace CyodaGo.Memory

abbrev Trace := List (Event World Action Result)

/-- Runs of the plugin from the empty store in which no step cuts a list beyond its length. -/
abbrev PluginRun (spi : Spi) (allowed : Trace → World → Action → Prop) : Trace → World → Prop :=
  Run (step spi) (fun tr w a => w.cutsWithin a = true ∧ allowed tr w a) World.init

/-- The condition that every step of a run passes a test on the state before it. -/
def Passing (ok : World → Action → Bool) (_ : Trace) (w : World) (a : Action) : Prop := ok w a = true

/-- The same with a test that may also look at the record of the run. -/
def PassingWith (ok : Trace → World → Action → Bool) (tr : Trace) (w : World) (a : Action) : Prop :=
  ok tr w a = true

theorem exists_run_passingWith (spi : Spi) (ok : Trace → World → Action → Bool)
    (check : Trace → World → Bool) (as : List Action)
    (h : (execute (step spi) (fun tr w a => w.cutsWithin a && ok tr w a) [] World.init as).any
      (fun p => check p.1 p.2) = true) :
    ∃ tr w, PluginRun spi (PassingWith ok) tr w ∧ check tr w = true :=
  exists_run_of_execute (fun _ _ _ hok => Bool.and_eq_true_iff.mp hok) as h

theorem exists_run_passing (spi : Spi) (ok : World → Action → Bool) (check : Trace → World → Bool)
    (as : List Action)
    (h : (execute (step spi) (fun _ w a => w.cutsWithin a && ok w a) [] World.init as).any
      (fun p => check p.1 p.2) = true) :
    ∃ tr w, PluginRun spi (Passing ok) tr w ∧ check tr w = true :=
  exists_run_of_execute (fun _ _ _ hok => Bool.and_eq_true_iff.mp hok) as h

theorem exists_run_any (spi : Spi) (check : Trace → World → Bool) (as : List Action)
    (h : (execute (step spi) (fun _ w a => w.cutsWithin a) [] World.init as).any
      (fun p => check p.1 p.2) = true) :
    ∃ tr w, PluginRun spi AnyStep tr w ∧ check tr w = true :=
  exists_run_of_execute (fun _ _ _ hok => ⟨hok, trivial⟩) as h

/-- The record of the transaction whose commit holds the locks. -/
def World.insideTx (w : World) : Option TransactionState :=
  w.inside.bind fun i => w.sys.txs.get i.txID

inductive Stepped (spi : Spi) (w : World) : Action → Result → World → Prop where
  | manage {user : Option TenantID} {call : ManagerCall} (hmay : w.mayManage call = true) :
      Stepped spi w (.manage user call) (.done (w.sys.manage user call).1)
        { w with sys := (w.sys.manage user call).2 }
  | direct {tid : TenantID} {ctx : Ctx} {call : StoreCall} {clock : Time} {order : List EntityID}
      (horder : order.Perm (w.sys.factory.tenantData tid).keys) (htx : ctx.tx = none)
      (hfree : w.inside = none) :
      Stepped spi w (.store tid ctx call clock order)
        (.done (w.sys.storeDirect spi tid ctx clock order call).1)
        { w with sys := (w.sys.storeDirect spi tid ctx clock order call).2 }
  | inTx {tid : TenantID} {ctx : Ctx} {call : StoreCall} {clock : Time} {order : List EntityID}
      {txID : TxID} {tx : TransactionState}
      (horder : order.Perm (w.sys.factory.tenantData tid).keys) (htx : ctx.tx = some txID)
      (hget : w.sys.txs.get txID = some tx) (hmay : w.mayStoreTx txID tx call = true) :
      Stepped spi w (.store tid ctx call clock order)
        (.done (w.sys.storeTx spi tid ctx txID tx order call).1)
        { w with sys := (w.sys.storeTx spi tid ctx txID tx order call).2 }
  | task {call : TaskCall} (hfree : w.inside = none) :
      Stepped spi w (.task call) (.done (w.sys.task call).1)
        { w with sys := (w.sys.task call).2 }
  | markRefused {c : CallID} {ctx : Ctx} {txID : TxID} {e : Err} :
      Stepped spi w (.commitMark c ctx txID) (.done (.err e)) w
  | marked {c : CallID} {ctx : Ctx} {txID : TxID} {tx : TransactionState}
      (hfresh : w.freshCall c = true) (hactive : txID ∈ w.sys.tm.active)
      (hget : w.sys.txs.get txID = some tx) (huser : ctx.user = some tx.tenantID)
      (hnot : txID ∉ w.sys.tm.committing) :
      Stepped spi w (.commitMark c ctx txID) .running
        { w with
          sys := { w.sys with
            tm := { w.sys.tm with committing := insert txID w.sys.tm.committing } }
          waiting := w.waiting.set c (.commit txID ctx.attribution) }
  | conflict {c : CallID} {txID : TxID} {committer : WriteAttribution} {tx : TransactionState}
      (hwait : w.waiting.get c = some (.commit txID committer)) (hfree : w.inside = none)
      (hget : w.sys.txs.get txID = some tx) (hconf : conflicts w.sys.tm txID tx = true) :
      Stepped spi w (.commitCheck c) (.done (.err .conflict))
        { w with sys := (w.sys.forget txID).close txID tx, waiting := w.waiting.del c }
  | checked {c : CallID} {txID : TxID} {committer : WriteAttribution} {tx : TransactionState}
      (hwait : w.waiting.get c = some (.commit txID committer)) (hfree : w.inside = none)
      (hget : w.sys.txs.get txID = some tx) (hconf : conflicts w.sys.tm txID tx = false) :
      Stepped spi w (.commitCheck c) .running
        { w with
          waiting := w.waiting.del c
          inside := some ⟨c, txID, committer, .checked (capture w.sys.tm txID)⟩ }
  | aborted {i : Inside} {captured : Captured} {tx : TransactionState} {clock : Time}
      {bufferOrder deleteOrder : List EntityID} {e : Err}
      (hin : w.inside = some i) (hstage : i.stage = .checked captured)
      (hget : w.sys.txs.get i.txID = some tx)
      (hval : validateClaims spi w.sys.factory tx.tenantID tx.deletes captured.keys
        (tx.buffer.inOrder (tx.buffer.keys.insertionSort (· ≤ ·))) ∅ ∅ = .error e) :
      Stepped spi w (.commitApply clock bufferOrder deleteOrder) (.done (.err e))
        { w with sys := (w.sys.forget i.txID).close i.txID tx, inside := none }
  | flushed {i : Inside} {captured : Captured} {tx : TransactionState} {clock : Time}
      {bufferOrder deleteOrder : List EntityID} {claims : GoMap EntityID (List UniqueClaim)}
      (hin : w.inside = some i) (hstage : i.stage = .checked captured)
      (hget : w.sys.txs.get i.txID = some tx) (hbuf : bufferOrder.Perm tx.buffer.keys)
      (hnodup : deleteOrder.Nodup) (hdel : deleteOrder.toFinset = tx.deletes)
      (hval : validateClaims spi w.sys.factory tx.tenantID tx.deletes captured.keys
        (tx.buffer.inOrder (tx.buffer.keys.insertionSort (· ≤ ·))) ∅ ∅ = .ok claims) :
      Stepped spi w (.commitApply clock bufferOrder deleteOrder) .running
        { w with
          sys := { w.sys with
            tm := (w.sys.tm.nextSubmitTime clock).2
            factory := w.sys.factory.flush i.txID tx i.committer captured claims
              (w.sys.tm.nextSubmitTime clock).1 bufferOrder deleteOrder }
          inside := some { i with stage := .flushed (w.sys.tm.nextSubmitTime clock).1 } }
  | finished {i : Inside} {submitTime : Time} {tx : TransactionState} {clock : Time}
      {activeOrder : List TxID}
      (hin : w.inside = some i) (hstage : i.stage = .flushed submitTime)
      (hget : w.sys.txs.get i.txID = some tx) (hnodup : activeOrder.Nodup)
      (horder : activeOrder.toFinset = w.sys.tm.active.erase i.txID) :
      Stepped spi w (.commitFinish clock activeOrder) (.done (.ok .unit))
        { w with
          sys := w.sys.commitFinish i.txID tx submitTime clock activeOrder
          inside := none }
  | rollbackRefused {c : CallID} {user : Option TenantID} {txID : TxID} {e : Err} :
      Stepped spi w (.rollbackMark c user txID) (.done (.err e)) w
  | rollbackMarked {c : CallID} {user : Option TenantID} {txID : TxID} {tx : TransactionState}
      (hfresh : w.freshCall c = true) (hactive : txID ∈ w.sys.tm.active)
      (hget : w.sys.txs.get txID = some tx) (huser : user = some tx.tenantID) :
      Stepped spi w (.rollbackMark c user txID) .running
        { w with waiting := w.waiting.set c (.rollback txID) }
  | rolledBack {c : CallID} {txID : TxID} {tx : TransactionState}
      (hwait : w.waiting.get c = some (.rollback txID)) (hget : w.sys.txs.get txID = some tx)
      (hfree : w.opMuFree txID = true) :
      Stepped spi w (.rollbackFinish c) (.done (.ok .unit))
        { w with sys := w.sys.rollbackFinish txID tx, waiting := w.waiting.del c }

theorem activeTx_eq_some {s : System} {txID : TxID} {tx : TransactionState} :
    s.activeTx txID = some tx ↔ txID ∈ s.tm.active ∧ s.txs.get txID = some tx := by
  unfold System.activeTx
  split <;> simp_all

theorem tenantMatches_iff {user : Option TenantID} {tx : TransactionState} :
    System.tenantMatches user tx = true ↔ user = some tx.tenantID := by
  simp [System.tenantMatches]

section Inversion

variable {spi : Spi} {w w' : World} {r : Result}

variable {c : CallID} {txID : TxID}

theorem stepped_commitMark {ctx : Ctx} (hfresh : w.freshCall c = true)
    (h : w.markCommit c ctx txID = (r, w')) :
    Stepped spi w (.commitMark c ctx txID) r w' := by
  unfold World.markCommit System.commitMark at h
  cases hact : w.sys.activeTx txID with
  | none =>
    simp only [hact] at h
    cases h
    exact .markRefused
  | some tx =>
    obtain ⟨hmem, hget⟩ := activeTx_eq_some.mp hact
    by_cases huser : System.tenantMatches ctx.user tx = true
    · by_cases hnot : txID ∈ w.sys.tm.committing
      · simp only [hact, huser, hnot] at h
        cases h
        exact .markRefused
      · simp only [hact, huser, hnot] at h
        cases h
        exact .marked hfresh hmem hget (tenantMatches_iff.mp huser) hnot
    · simp only [hact, huser] at h
      cases h
      exact .markRefused

theorem stepped_commitCheck {committer : WriteAttribution} {tx : TransactionState}
    (hwait : w.waiting.get c = some (.commit txID committer)) (hfree : w.inside = none)
    (hget : w.sys.txs.get txID = some tx) (h : w.checkCommit c txID committer tx = (r, w')) :
    Stepped spi w (.commitCheck c) r w' := by
  unfold World.checkCommit System.commitCheck at h
  cases hconf : conflicts w.sys.tm txID tx with
  | true =>
    simp only [hconf, if_true] at h
    cases h
    exact .conflict hwait hfree hget hconf
  | false =>
    simp only [hconf] at h
    cases h
    exact .checked hwait hfree hget hconf

theorem stepped_commitApply {i : Inside} {captured : Captured} {tx : TransactionState}
    {clock : Time} {bufferOrder deleteOrder : List EntityID} (hin : w.inside = some i)
    (hstage : i.stage = .checked captured) (hget : w.sys.txs.get i.txID = some tx)
    (hbuf : bufferOrder.Perm tx.buffer.keys) (hnodup : deleteOrder.Nodup)
    (hdel : deleteOrder.toFinset = tx.deletes)
    (h : w.applyCommit spi i captured tx clock bufferOrder deleteOrder = (r, w')) :
    Stepped spi w (.commitApply clock bufferOrder deleteOrder) r w' := by
  unfold World.applyCommit System.commitApply at h
  cases hval : validateClaims spi w.sys.factory tx.tenantID tx.deletes captured.keys
      (tx.buffer.inOrder (tx.buffer.keys.insertionSort (· ≤ ·))) ∅ ∅ with
  | error e =>
    simp only [hval] at h
    cases h
    exact .aborted hin hstage hget hval
  | ok claims =>
    simp only [hval] at h
    cases h
    exact .flushed hin hstage hget hbuf hnodup hdel hval

theorem stepped_rollbackMark {user : Option TenantID} (hfresh : w.freshCall c = true)
    (h : w.markRollback c user txID = (r, w')) :
    Stepped spi w (.rollbackMark c user txID) r w' := by
  unfold World.markRollback System.rollbackMark at h
  cases hact : w.sys.activeTx txID with
  | none =>
    simp only [hact] at h
    cases h
    exact .rollbackRefused
  | some tx =>
    obtain ⟨hmem, hget⟩ := activeTx_eq_some.mp hact
    by_cases huser : System.tenantMatches user tx = true
    · simp only [hact, huser, if_true] at h
      cases h
      exact .rollbackMarked hfresh hmem hget (tenantMatches_iff.mp huser)
    · simp only [hact, huser] at h
      cases h
      exact .rollbackRefused

theorem stepped_store {tid : TenantID} {ctx : Ctx} {call : StoreCall} {clock : Time}
    {order : List EntityID} (h : step spi w (.store tid ctx call clock order) = some (r, w')) :
    Stepped spi w (.store tid ctx call clock order) r w' := by
  simp only [step] at h
  split at h
  · rename_i horder
    split at h
    · rename_i htx
      split at h
      · rename_i hfree
        cases h
        exact .direct horder htx (Option.isNone_iff_eq_none.mp hfree)
      · cases h
    · rename_i txID htx
      split at h
      · cases h
      rename_i tx hget
      split at h
      · rename_i hmay
        cases h
        exact .inTx horder htx hget hmay
      · cases h
  · cases h

/-- Every step is one of the listed ones. -/
theorem stepped_of_step {a : Action} (h : step spi w a = some (r, w')) : Stepped spi w a r w' := by
  cases a with
  | manage user call =>
    simp only [step] at h
    split at h
    · rename_i hmay
      cases h
      exact .manage hmay
    · cases h
  | store tid ctx call clock order => exact stepped_store h
  | task call =>
    simp only [step] at h
    split at h
    · rename_i hfree
      cases h
      exact .task (Option.isNone_iff_eq_none.mp hfree)
    · cases h
  | commitMark c ctx txID =>
    simp only [step] at h
    split at h
    · rename_i hfresh
      exact stepped_commitMark hfresh (Option.some.inj h)
    · cases h
  | commitCheck c =>
    simp only [step] at h
    split at h
    · rename_i txID committer hwait hfree
      obtain ⟨tx, hget, hcheck⟩ := Option.map_eq_some_iff.mp h
      exact stepped_commitCheck hwait hfree hget hcheck
    · cases h
  | commitApply clock bufferOrder deleteOrder =>
    simp only [step] at h
    split at h
    · rename_i i hin
      split at h
      · rename_i captured tx hstage hget
        split at h
        · rename_i horders
          exact stepped_commitApply hin hstage hget horders.1 horders.2.1 horders.2.2
            (Option.some.inj h)
        · cases h
      · cases h
    · cases h
  | commitFinish clock activeOrder =>
    simp only [step] at h
    split at h
    · rename_i i hin
      split at h
      · rename_i submitTime tx hstage hget
        split at h
        · rename_i horder
          cases h
          exact .finished hin hstage hget horder.1 horder.2
        · cases h
      · cases h
    · cases h
  | rollbackMark c user txID =>
    simp only [step] at h
    split at h
    · rename_i hfresh
      exact stepped_rollbackMark hfresh (Option.some.inj h)
    · cases h
  | rollbackFinish c =>
    simp only [step] at h
    split at h
    · rename_i txID hwait
      split at h
      · rename_i tx hget
        split at h
        · rename_i hfree
          cases h
          exact .rolledBack hwait hget hfree
        · cases h
      · cases h
    · cases h

end Inversion

/-! ## Concrete inputs -/

namespace Sample

/-- Every key claims the whole of the data. -/
def spi : Spi where
  computeClaims keys data :=
    some (keys.map fun k => ⟨k.id, String.ofList (data.map fun b => Char.ofNat b.toNat)⟩)
  mergeBounded committed adds hidden _ _ :=
    .ok ((committed.filter fun e => !hidden e.info.id) ++ adds)

def model : ModelRef := ⟨"order", "1"⟩

def user : Principal := ⟨"u", "user"⟩

def attribution : WriteAttribution := ⟨user, user⟩

def entity (id : EntityID) (data : List UInt8) : Entity where
  info :=
    { id := id
      tenantID := ""
      modelRef := model
      state := "OPEN"
      version := 0
      creationDate := 0
      lastModifiedDate := 0
      transactionID := ""
      changeType := ""
      changeUser := "u"
      changeUserKind := "user"
      changeExecutor := user
      transitionForLatestSave := "" }
  data := data

def ctx (tenant : TenantID) (tx : Option TxID) (keys : List UniqueKey) : Ctx :=
  ⟨some tenant, tx, keys, attribution⟩

/-- A call of the tenant `tenant` outside any transaction. -/
def direct (tenant : TenantID) (call : StoreCall) (order : List EntityID) : Action :=
  .store tenant (ctx tenant none []) call 0 order

/-- A call of the tenant `tenant` inside `tx`. -/
def inTx (tenant : TenantID) (tx : TxID) (call : StoreCall) (order : List EntityID) : Action :=
  .store tenant (ctx tenant (some tx) []) call 0 order

def begin (tenant : TenantID) (tx : TxID) (now : Time) : Action :=
  .manage (some tenant) (.begin tx now)

def commitMark (c : CallID) (tenant : TenantID) (tx : TxID) : Action :=
  .commitMark c (ctx tenant none []) tx

end Sample

end CyodaGo.Memory
