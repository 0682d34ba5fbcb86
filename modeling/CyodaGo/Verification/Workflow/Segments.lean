import CyodaGo.Verification.Workflow.Boundary

/-! # Who owns which transaction

The caller enters with an open transaction. Every transaction that the engine begins after
it is the engine's until a successful return hands the last one over. -/

namespace CyodaGo.Workflow

open Memory (TxID)

abbrev Trace := List (Exchange Call Call.Answer)

/-! ## Transactions in a trace -/

inductive TxEffect where
  | opened (t : TxID)
  | committed (t : TxID)
  | ended (t : TxID)
  | rolledBack (t : TxID)
  | nothing
  deriving DecidableEq

/-- A rollback ends its transaction; an error of it says that the transaction had ended. -/
def txEffect : Exchange Call Call.Answer → TxEffect
  | ⟨.begin, r⟩ =>
    match (r : Except ServiceError TxID) with
    | .ok t => .opened t
    | .error _ => .nothing
  | ⟨.commit t, r⟩ =>
    match (r : CommitAnswer) with
    | .committed => .committed t
    | .refused _ stillOpen => if stillOpen then .nothing else .ended t
  | ⟨.rollback t, _⟩ => .rolledBack t
  | _ => .nothing

/-- The transactions of a cascade: those open now, those the engine has begun, and those that
were committed and rolled back. -/
structure Ledger where
  live : List TxID
  begun : List TxID
  committed : List TxID
  rolledBack : List TxID
  deriving DecidableEq

def Ledger.after (L : Ledger) : TxEffect → Ledger
  | .opened t => { L with live := t :: L.live, begun := t :: L.begun }
  | .committed t =>
    { L with live := L.live.filter (· ≠ t), committed := t :: L.committed }
  | .ended t => { L with live := L.live.filter (· ≠ t) }
  | .rolledBack t => { L with live := L.live.filter (· ≠ t), rolledBack := t :: L.rolledBack }
  | .nothing => L

/-- The ledger of a trace that began with `entry` open. -/
def ledger (entry : TxID) : Trace → Ledger
  | [] => ⟨[entry], [], [], []⟩
  | x :: tr => (ledger entry tr).after (txEffect x)

variable (entry : TxID) (tr : Trace) (q : Call)

/-- The transaction manager never gives an id out twice. -/
def freshIDs (r : q.Answer) : Prop :=
  ∀ t, txEffect ⟨q, r⟩ = .opened t → t ≠ "" ∧ t ≠ entry ∧ t ∉ (ledger entry tr).begun

/-! ## The cursor -/

/-- What is known of the cursor's transaction `t` at any time. -/
structure Ledger.Knows (L : Ledger) (entry t : TxID) : Prop where
  known : t = entry ∨ t ∈ L.begun
  named : "" ∉ L.begun
  entryNotBegun : entry ∉ L.begun
  entryKept : entry ∉ L.rolledBack

/-- The transaction under the cursor is the only one of the cascade that is open. -/
structure Ledger.Holds (L : Ledger) (entry t : TxID) : Prop extends L.Knows entry t where
  only : L.live = [t]
  segmented : t ≠ entry ↔ L.committed ≠ []

/-- An error is on its way up, and at most `t` is open. -/
structure Ledger.Fails (L : Ledger) (entry t : TxID) : Prop extends L.Knows entry t where
  atMost : ∀ x ∈ L.live, x = t

/-- `t` has been committed and nothing is open. -/
structure Ledger.Between (L : Ledger) (entry t : TxID) : Prop extends L.Knows entry t where
  nothing : L.live = []
  segmented : L.committed ≠ []

/-- `t` has been committed and `t'` begun, which is the only one open. -/
structure Ledger.Opened (L : Ledger) (entry t t' : TxID) : Prop extends L.Knows entry t where
  only : L.live = [t']
  begun : t' ∈ L.begun
  segmented : L.committed ≠ []

/-- Nothing that the engine began is open, and the entry transaction was not rolled back. -/
structure Ledger.Released (L : Ledger) (entry : TxID) : Prop where
  closed : ∀ t ∈ L.begun, t ∉ L.live
  entryKept : entry ∉ L.rolledBack

namespace Ledger

variable {L : Ledger} {entry t t' : TxID}

theorem Knows.name_ne (h : L.Knows entry t) (hentry : entry ≠ "") : t ≠ "" := by
  rcases h.known with rfl | hmem
  · exact hentry
  rintro rfl
  exact h.named hmem

theorem Holds.fails (h : L.Holds entry t) : L.Fails entry t where
  toKnows := h.toKnows
  atMost := by simp [h.only]

theorem Between.fails (h : L.Between entry t) : L.Fails entry t where
  toKnows := h.toKnows
  atMost := by simp [h.nothing]

/-- `TX_pre` is committed and so is what it stood for. -/
theorem Holds.commit (h : L.Holds entry t) : (L.after (.committed t)).Between entry t where
  known := h.known
  named := h.named
  entryNotBegun := h.entryNotBegun
  entryKept := h.entryKept
  nothing := by simp [after, h.only]
  segmented := by simp [after]

theorem Holds.ended (h : L.Holds entry t) : (L.after (.ended t)).Fails entry t where
  known := h.known
  named := h.named
  entryNotBegun := h.entryNotBegun
  entryKept := h.entryKept
  atMost := by simp [after, h.only]

theorem Between.begin (h : L.Between entry t) (hname : t' ≠ "") (hentry : t' ≠ entry) :
    (L.after (.opened t')).Opened entry t t' where
  known := h.known.imp_right fun hmem => List.mem_cons_of_mem _ hmem
  named := by simp [after, h.named, hname.symm]
  entryNotBegun := by simp [after, h.entryNotBegun, hentry.symm]
  entryKept := h.entryKept
  only := by simp [after, h.nothing]
  begun := by simp [after]
  segmented := h.segmented

/-- The cursor moves to `TX_post` once the result has been saved there. -/
theorem Opened.holds (h : L.Opened entry t t') : L.Holds entry t' where
  known := .inr h.begun
  named := h.named
  entryNotBegun := h.entryNotBegun
  entryKept := h.entryKept
  only := h.only
  segmented := by
    refine ⟨fun _ => h.segmented, fun _ heq => ?_⟩
    exact h.entryNotBegun (heq ▸ h.begun)

theorem Opened.rollback (h : L.Opened entry t t') : (L.after (.rolledBack t')).Fails entry t where
  known := h.known
  named := h.named
  entryNotBegun := h.entryNotBegun
  entryKept := by
    have hne : entry ≠ t' := fun heq => h.entryNotBegun (heq ▸ h.begun)
    simp [after, h.entryKept, hne]
  atMost := by simp [after, h.only]

theorem Fails.rollback (h : L.Fails entry t) (hne : t ≠ entry) :
    (L.after (.rolledBack t)).Released entry where
  closed := by
    intro x _ hlive
    obtain ⟨hmem, hx⟩ := List.mem_filter.mp hlive
    exact absurd (h.atMost x hmem) (by simpa using hx)
  entryKept := by simp [after, h.entryKept, hne.symm]

theorem Fails.released (h : L.Fails entry entry) : L.Released entry where
  closed := fun x hbegun hlive => h.entryNotBegun (h.atMost x hlive ▸ hbegun)
  entryKept := h.entryKept

end Ledger

/-! ## The engine -/

section Rules

variable {entry : TxID}

theorem txEffect_of_plain {q : Call} (hq : q.plain = true) (r : q.Answer) :
    txEffect ⟨q, r⟩ = .nothing := by
  cases q <;> first | rfl | simp [Call.plain] at hq

/-- An exchange that begins and ends no transaction leaves the ledger as it is. -/
theorem leads_quiet {q : Call} (hq : ∀ r, txEffect ⟨q, r⟩ = .nothing) (P : Ledger → Prop) :
    Leads (recorded (freshIDs entry)) (fun _ _ => True) q (fun tr => P (ledger entry tr))
      (fun tr => P (ledger entry tr)) := by
  rintro tr _ r _ hP rfl ⟨-, rfl⟩
  exact ⟨trivial, by simpa [ledger, Ledger.after, hq r] using hP⟩

/-- Exchanges that a segment boundary can have: events only of an abort, which carry `p`. -/
def AtBoundary (p : TxID) : Call → Prop
  | .record recorder _ ev => recorder = .recordAbort ∧ ev.transactionID = p
  | _ => True

theorem atBoundary_of_plain {p : TxID} {q : Call} (hq : q.plain = true) : AtBoundary p q := by
  cases q <;> trivial

/-- The ledger at a segment boundary, next to whatever its exchanges keep. -/
theorem segmentRules (hentry : entry ≠ "") (p : TxID) {X : Trace → Prop}
    (hX : ∀ q (r : q.Answer) tr, AtBoundary p q → X tr → X (⟨q, r⟩ :: tr)) :
    SegmentRules (recorded (freshIDs entry)) (fun _ _ => True) p
      (fun _ t _ tr => (ledger entry tr).Holds entry t ∧ X tr)
      (fun _ _ t _ tr => (ledger entry tr).Holds entry t ∧ X tr)
      (fun _ t _ tr => (ledger entry tr).Holds entry t ∧ X tr)
      (fun t _ tr => (ledger entry tr).Between entry t ∧ X tr)
      (fun t _ t' _ tr => (ledger entry tr).Opened entry t t' ∧ X tr)
      (fun t tr => (ledger entry tr).Fails entry t ∧ X tr) := by
  have hquiet : ∀ {q : Call} (P : Ledger → Prop), AtBoundary p q →
      (∀ r, txEffect ⟨q, r⟩ = .nothing) →
      Leads (recorded (freshIDs entry)) (fun _ _ => True) q
        (fun tr => P (ledger entry tr) ∧ X tr) (fun tr => P (ledger entry tr) ∧ X tr) := by
    rintro q P hat hq tr _ r _ ⟨hP, hx⟩ rfl ⟨-, rfl⟩
    refine ⟨trivial, ?_, hX q r tr hat hx⟩
    simpa [ledger, Ledger.after, hq r] using hP
  have hplain : ∀ {q : Call} (P : Ledger → Prop), q.plain = true →
      Leads (recorded (freshIDs entry)) (fun _ _ => True) q
        (fun tr => P (ledger entry tr) ∧ X tr) (fun tr => P (ledger entry tr) ∧ X tr) :=
    fun P hq => hquiet P (atBoundary_of_plain hq) (txEffect_of_plain hq)
  constructor
  case consume => exact fun _ _ _ _ h => h
  case ready_plain => exact fun _ _ t _ _ hq => hplain (·.Holds entry t) hq
  case flushed_plain => exact fun _ t _ _ hq => hplain (·.Holds entry t) hq
  case between_plain => exact fun t _ _ hq => hplain (·.Between entry t) hq
  case opened_plain => exact fun t _ t' _ _ hq => hplain (·.Opened entry t t') hq
  case failed_plain => exact fun t _ hq => hplain (·.Fails entry t) hq
  case failed_lookup => exact fun t _ => hquiet (·.Fails entry t) trivial fun _ => rfl
  case failed_note =>
    exact fun t _ _ hid => hquiet (·.Fails entry t) ⟨rfl, hid⟩ fun _ => rfl
  case ready_fail => exact fun _ _ _ _ _ h => ⟨h.1.fails, h.2⟩
  case flushed_fail => exact fun _ _ _ _ h => ⟨h.1.fails, h.2⟩
  case between_fail => exact fun _ _ _ h => ⟨h.1.fails, h.2⟩
  case opened_fail =>
    rintro t _ t' _ _ hskip ⟨h, hx⟩
    have hname := h.holds.name_ne hentry
    rcases hskip with rfl | rfl
    · exact absurd rfl hname
    · exact ⟨⟨h.toKnows, by simp [h.only]⟩, hx⟩
  case save =>
    rintro c t f tr _ r _ ⟨h, hx⟩ rfl ⟨-, rfl⟩
    have hx' := hX (.save c.tx f.entity) r tr trivial hx
    cases r with
    | ok _ => exact ⟨trivial, h, hx'⟩
    | error err => exact ⟨trivial, h.fails, hx'⟩
  case compare =>
    rintro x c t f tr _ r _ ⟨h, hx⟩ rfl ⟨-, rfl⟩
    have hx' := hX (.compareAndSave c.tx f.entity x) r tr trivial hx
    cases r with
    | ok _ => exact ⟨trivial, h, hx'⟩
    | error err => exact ⟨trivial, h.fails, hx'⟩
  case commit =>
    rintro _ t _ tr _ r _ ⟨h, hx⟩ rfl ⟨-, rfl⟩
    have hx' := hX (.commit t) r tr trivial hx
    refine ⟨trivial, ?_⟩
    cases r with
    | committed => exact ⟨h.commit, hx'⟩
    | refused err stillOpen =>
      cases stillOpen with
      | true => exact ⟨h.fails, hx'⟩
      | false => exact ⟨h.ended, hx'⟩
  case start =>
    rintro _ t _ tr _ r _ ⟨h, hx⟩ rfl ⟨hfresh, rfl⟩
    have hx' := hX .begin r tr trivial hx
    refine ⟨trivial, ?_⟩
    cases r with
    | ok t' => exact ⟨h.begin (hfresh t' rfl).1 (hfresh t' rfl).2.1, hx'⟩
    | error err => exact ⟨h.fails, hx'⟩
  case data => exact fun _ _ _ _ _ _ h => h
  case apply =>
    rintro t c' t' f tr _ r _ ⟨h, hx⟩ rfl ⟨-, rfl⟩
    have hx' := hX (.compareAndSave c'.tx f.entity t) r tr trivial hx
    cases r with
    | ok _ => exact ⟨trivial, h.holds, hx'⟩
    | error err => exact ⟨trivial, h, hx'⟩
  case give_up =>
    rintro t _ t' _ _ _ tr _ r _ ⟨h, hx⟩ rfl ⟨-, rfl⟩
    exact ⟨trivial, h.rollback, hX _ r tr trivial hx⟩

theorem engineRules (hentry : entry ≠ "") (e : Engine) (recorder : Recorder) (o : TxID) :
    EngineRules e (recorded (freshIDs entry)) (fun _ _ => True) recorder o
      (fun _ t _ tr => (ledger entry tr).Holds entry t)
      (fun _ t _ tr => (ledger entry tr).Holds entry t)
      (fun t tr => (ledger entry tr).Fails entry t) (fun _ _ => True) where
  held_plain _ t _ _ hq := leads_quiet (txEffect_of_plain hq) (·.Holds entry t)
  mark_stable _ _ _ _ _ _ _ _ _ := trivial
  pause _ t _ _ _ _ _ :=
    (leads_quiet (fun _ => rfl) (·.Holds entry t)).mono (fun _ h => h) fun _ h => ⟨h, trivial⟩
  result _ t _ _ _ _ _ _ :=
    (leads_quiet (fun _ => rfl) (·.Holds entry t)).mono (fun _ h => h.1) fun _ h => h
  result_failed t _ _ _ _ _ :=
    (leads_quiet (fun _ => rfl) (·.Fails entry t)).mono (fun _ h => h.1) fun _ h => h
  segment _ _ _ p proc workflow transition _ h _ := by
    refine ((segmentRules hentry p (X := fun _ => True) fun _ _ _ _ h => h).executeCommitBeforeDispatch
      proc workflow transition ⟨h, trivial⟩).mono ?_
    intro r _ _ h
    cases r with
    | ok cursor => exact h.1
    | error err => exact h.1
  outer _ t _ _ _ _ _ := leads_quiet (fun _ => rfl) (·.Holds entry t)
  outer_failed t _ _ _ _ := leads_quiet (fun _ => rfl) (·.Fails entry t)
  made _ t _ _ _ _ _ := leads_quiet (fun _ => rfl) (·.Holds entry t)
  data _ _ _ _ _ h := h
  state _ _ _ _ _ h := h
  fail _ _ _ _ h := h.fails

theorem entryRules (hentry : entry ≠ "") (e : Engine) :
    EntryRules e (recorded (freshIDs entry)) (fun _ _ => True) entry
      (fun _ t _ tr => (ledger entry tr).Holds entry t)
      (fun _ t _ tr => (ledger entry tr).Holds entry t)
      (fun _ _ t _ tr => (ledger entry tr).Holds entry t)
      (fun _ t tr => (ledger entry tr).Fails entry t)
      (fun t tr => (ledger entry tr).Fails entry t)
      (fun t tr => (ledger entry tr).Holds entry t)
      (fun tr => (ledger entry tr).Released entry) (fun _ _ => True) where
  fire := engineRules hentry e _ _
  cascade o := engineRules hentry e _ o
  fail _ _ _ h := h
  enter _ _ _ h := h
  enter_moved _ _ _ _ h := h
  initial _ _ _ _ h := h
  note _ _ _ _ _ _ _ := leads_quiet (fun _ => rfl) (·.Holds entry entry)
  reconcile _ _ t _ _ _ := leads_quiet (fun _ => rfl) (·.Holds entry t)
  note_reconciled _ _ t _ _ _ _ := leads_quiet (fun _ => rfl) (·.Holds entry t)
  finish _ _ t _ _ _ _ := leads_quiet (fun _ => rfl) (·.Holds entry t)
  close _ _ _ h := h
  give_up _ _ hne := by
    rintro tr _ r _ h rfl ⟨-, rfl⟩
    exact ⟨trivial, h.rollback hne⟩
  given_up _ _ hskip h := by
    rcases hskip with rfl | rfl
    · exact absurd rfl (h.name_ne hentry)
    · exact h.released

end Rules

/-- A test for `freshIDs`. -/
def freshIDsTest (r : q.Answer) : Bool :=
  match txEffect ⟨q, r⟩ with
  | .opened t => t ≠ "" && t ≠ entry && t ∉ (ledger entry tr).begun
  | _ => true

theorem freshIDs_of_test (r : q.Answer) (h : freshIDsTest entry tr q r = true) :
    freshIDs entry tr q r := by
  intro t ht
  simpa [freshIDsTest, ht, and_assoc] using h

/-- When an entry point returns an error, nothing that the engine began is open and the
caller's transaction was not rolled back; when it succeeds, the transaction it names is the
only one open, and it says that it segmented exactly when something was committed. -/
theorem segment_ownership (e : Engine) (ctx : Ctx) (call : EntryCall) (f f' : Frame)
    (hentry : f.entity.info.transactionID ≠ "") (tr : Trace)
    (result : Except EngineError EngineResult)
    (h : Program.Executes (recorded (freshIDs f.entity.info.transactionID))
      (call.routine e ctx f) [] (result, f') tr) :
    match result with
    | .error _ =>
      (∀ t ∈ (ledger f.entity.info.transactionID tr).begun,
        t ∉ (ledger f.entity.info.transactionID tr).live) ∧
      f.entity.info.transactionID ∉ (ledger f.entity.info.transactionID tr).rolledBack
    | .ok res =>
      (ledger f.entity.info.transactionID tr).live = [res.finalTxID] ∧
      (res.segmented = true ↔ (ledger f.entity.info.transactionID tr).committed ≠ []) := by
  have hstart : (ledger f.entity.info.transactionID []).Holds f.entity.info.transactionID
      f.entity.info.transactionID :=
    ⟨⟨.inl rfl, by simp [ledger], by simp [ledger], by simp [ledger]⟩, rfl, by simp [ledger]⟩
  have hpost := ((entryRules hentry e).routine hentry rfl call hstart (c := ctx)).of_executes h
  cases result with
  | error err => exact ⟨hpost.closed, hpost.entryKept⟩
  | ok res => exact ⟨hpost.1.only, hpost.2.trans hpost.1.segmented⟩

/-! ## A cascade with two segments -/

namespace Sample

def processor (name : String) (executionMode : ExecutionMode) : ProcessorDefinition where
  name := name
  type := .externalized
  executionMode := executionMode
  startNewTxOnDispatch := none

def transition (name next : String) (processors : List ProcessorDefinition) :
    TransitionDefinition where
  name := name
  next := next
  manual := false
  disabled := false
  criterion := none
  processors := processors
  schedule := none

/-- `check` segments, then `price` runs a processor in the new transaction. -/
def workflow : WorkflowDefinition where
  name := "orders"
  initialState := "new"
  active := true
  criterion := none
  states := ((GoMap.set ∅ "new" ⟨[transition "check" "checked"
      [processor "audit" .commitBeforeDispatch]]⟩).set
    "checked" ⟨[transition "price" "priced" [processor "tariff" .sync]]⟩).set "priced" ⟨[]⟩

def engine : Engine where
  extProc := true
  maxStateVisits := 10
  defaultWorkflows := []
  expiryGraceMs := 100
  digest := id

def principal : Memory.Principal := ⟨"alice", "user"⟩

def ctx : Ctx := ⟨some "tx", true, principal⟩

def frame : Frame where
  entity :=
    { info :=
        { id := "e", tenantID := "t", modelRef := ⟨"order", "1"⟩, state := "", version := 0,
          creationDate := 0, lastModifiedDate := 0, transactionID := "tx", changeType := "CREATED",
          changeUser := "alice", changeUserKind := "user", changeExecutor := principal,
          transitionForLatestSave := "" }
      data := [] }
  ifMatch := ""

/-- Every call succeeds; the transactions begun are named by their number. -/
def answer (tr : Trace) : (q : Call) → q.Answer
  | .stateMachineAuditStore _ | .workflowStore _ | .entityStore _ | .scheduledTaskStore _
  | .checkProcessorData .. | .save .. | .compareAndSave .. | .rollbackToSavepoint ..
  | .releaseSavepoint .. | .rollback _ => .ok ()
  | .record .. => ()
  | .getWorkflows .. => .ok [workflow]
  | .matchInline .. => .ok true
  | .dispatchCriteria .. => .ok (true, "")
  | .dispatchProcessor .. => .ok none
  | .dispatchFunction .. => .ok ⟨"Schedule", some ⟨some 0, none, none, none⟩⟩
  | .getEntity .. => .ok frame.entity
  | .savepoint _ => .ok "sp"
  | .contextErr => none
  | .begin => .ok ("tx" ++ String.ofList (List.replicate ((ledger "tx" tr).begun.length + 1) 'i'))
  | .commit _ => .committed
  | .now => (0 : Int)
  | .newTimeUUID => "uuid"
  | .getTask .. => .ok none
  | .deleteTask .. => .ok true
  | .reconcileForEntity .. => .ok []

end Sample

/-- In the sample the cascade segments, and hands the second transaction over. -/
theorem segment_ownership_sample : ∃ res tr f',
    Program.Executes (recorded (freshIDs "tx"))
      ((EntryCall.execute "").routine Sample.engine Sample.ctx Sample.frame) []
      (.ok res, f') tr ∧ res.segmented = true ∧ (ledger "tx" tr).live = [res.finalTxID] ∧
    (res.segmented = true ↔ (ledger "tx" tr).committed ≠ []) := by
  obtain ⟨⟨result, f'⟩, tr, hrun, hcheck⟩ := Program.exists_executes_of_play Sample.answer
    (freshIDs_of_test "tx") ((EntryCall.execute "").routine Sample.engine Sample.ctx Sample.frame)
    (fun x _ =>
      match x.1 with
      | .ok res => res.segmented
      | .error _ => false) (by decide +kernel)
  cases result with
  | error err => simp at hcheck
  | ok res =>
    have hown := segment_ownership Sample.engine Sample.ctx (.execute "") Sample.frame f'
      (by decide) tr (.ok res) hrun
    exact ⟨res, tr, f', hrun, hcheck, hown⟩

end CyodaGo.Workflow
