import CyodaGo.Model.Workflow.Engine

/-! # Reasoning about engine code

One rule for each engine function. What is known while the cursor of the cascade stands on a
transaction is a parameter: `held` in general, `moved` right after a transition was made,
`failed` once an error is on its way up, and `mark` about the transaction that a pipeline was
entered with. -/

namespace CyodaGo.Workflow

open Memory (TxID Entity)
open Routine

variable {σ : Type} {w : Surroundings Call Call.Answer σ} {kept : σ → σ → Prop}

/-- Calls that neither record an event nor write to a transaction or end one. -/
def Call.plain : Call → Bool
  | .record .. | .getEntity .. | .save .. | .compareAndSave .. | .begin | .commit _ | .rollback _
  | .deleteTask .. | .reconcileForEntity .. => false
  | _ => true

/-- Whatever the answer to `q`, it leads from `P` to `P'`. -/
def Leads (w : Surroundings Call Call.Answer σ) (kept : σ → σ → Prop) (q : Call)
    (P P' : σ → Prop) : Prop :=
  ∀ s s1 r s2, P s → w.interference s s1 → w.exchange s1 q r s2 → kept s1 s2 ∧ P' s2

variable {q : Call} {P P' : σ → Prop} {s : σ}

theorem Leads.mono {R R' : σ → Prop} (h : Leads w kept q P P') (hpre : ∀ s, R s → P s)
    (hpost : ∀ s, P' s → R' s) : Leads w kept q R R' := by
  intro s s1 r s2 hs h1 h2
  obtain ⟨hkept, hs2⟩ := h s s1 r s2 (hpre s hs) h1 h2
  exact ⟨hkept, hpost s2 hs2⟩

theorem Leads.and_stable {R : σ → Prop} (h : Leads w kept q P P')
    (hR : ∀ s s1 q r s2, R s → w.interference s s1 → w.exchange s1 q r s2 → R s2) :
    Leads w kept q (fun s => P s ∧ R s) (fun s => P' s ∧ R s) := by
  intro s s1 r s2 hs h1 h2
  obtain ⟨hkept, hs2⟩ := h s s1 r s2 hs.1 h1 h2
  exact ⟨hkept, hs2, hR s s1 q r s2 hs.2 h1 h2⟩

/-- A stable assertion that an exchange starts from is still there after it. -/
theorem Leads.keep {R : σ → Prop} (h : Leads w kept q (fun s => P s ∧ R s) P')
    (hR : ∀ s s1 q r s2, R s → w.interference s s1 → w.exchange s1 q r s2 → R s2) :
    Leads w kept q (fun s => P s ∧ R s) (fun s => P' s ∧ R s) := by
  intro s s1 r s2 hs h1 h2
  obtain ⟨hkept, hs2⟩ := h s s1 r s2 hs h1 h2
  exact ⟨hkept, hs2, hR s s1 q r s2 hs.2 h1 h2⟩

theorem ensures_of_leads (h : Leads w kept q P P') {f : Frame} (hs : P s) :
    Ensures w kept (ask q) (fun _ f' s' => f' = f ∧ P' s') f s :=
  ensures_ask fun s1 h1 r s2 h2 =>
    ⟨(h s s1 r s2 hs h1 h2).1, rfl, (h s s1 r s2 hs h1 h2).2⟩

/-- Recording an event is one exchange that leaves the frame as it is. -/
theorem recordEvent_leads {who : Recorder} {type : EventType} {c : Ctx} {id : TxID}
    (hlead : ∀ tx ev, ev.eventType = type → ev.transactionID = id →
      Leads w kept (.record who tx ev) P P') {f : Frame} (hs : P s) :
    Ensures w kept (recordEvent who c id type) (fun _ f' s' => f' = f ∧ P' s') f s := by
  refine ensures_bind (ensures_get ?_)
  exact ensures_of_leads (hlead _ _ rfl rfl) hs

/-! ## Criteria and workflow selection -/

section Keeps

variable {P : σ → Prop} (hplain : ∀ q, q.plain = true → Leads w kept q P P) {f : Frame} {s : σ}

include hplain

theorem contextErr_keeps (c : Ctx) (hs : P s) :
    Ensures w kept (contextErr c) (fun _ f' s' => f' = f ∧ P s') f s := by
  obtain ⟨tx, cancellable, origin⟩ := c
  cases cancellable with
  | true => exact ensures_of_leads (hplain .contextErr rfl) hs
  | false => exact ensures_pure ⟨rfl, hs⟩

theorem dispatchProcessor_keeps (e : Engine) (tx : Option TxID) (proc : ProcessorDefinition)
    (workflow transition : String) (txID : TxID) (hs : P s) :
    Ensures w kept (dispatchProcessor e tx proc workflow transition txID)
      (fun _ f' s' => f' = f ∧ P s') f s := by
  unfold dispatchProcessor
  split
  · refine ensures_bind (ensures_get ?_)
    exact ensures_of_leads (hplain _ rfl) hs
  · exact ensures_pure ⟨rfl, hs⟩

theorem evaluateOptional_keeps (e : Engine) (criterion : Option Criterion) (cc : CriterionContext)
    (hs : P s) :
    Ensures w kept (evaluateOptional e criterion cc) (fun _ f' s' => f' = f ∧ P s') f s := by
  cases criterion with
  | none => exact ensures_pure ⟨rfl, hs⟩
  | some criterion =>
    refine ensures_bind (ensures_get ?_)
    cases criterion with
    | malformed text => exact ensures_pure ⟨rfl, hs⟩
    | function text =>
      simp only
      split
      · refine ensures_seq (ensures_of_leads (hplain _ rfl) hs) fun r s' hs => ?_
        cases r with
        | error err => exact ensures_pure ⟨rfl, hs⟩
        | ok answer => exact ensures_pure ⟨rfl, hs⟩
      · exact ensures_pure ⟨rfl, hs⟩
    | inline text =>
      refine ensures_seq (ensures_of_leads (hplain _ rfl) hs) fun r s' hs => ?_
      cases r with
      | error err => exact ensures_pure ⟨rfl, hs⟩
      | ok matched => exact ensures_pure ⟨rfl, hs⟩

/-- What arming a transition can give: a task for it, or the id of one that must go. -/
inductive ArmedFor (e : Engine) (c : Ctx) (f : Frame) (armMs : Int) (tr : TransitionDefinition) :
    ArmOutcome → Prop where
  | armed (scheduledTime : Int) (timeoutMs : Option Int) :
      ArmedFor e c f armMs tr (.arm (newTask e c f tr.name scheduledTime timeoutMs armMs))
  | expired : ArmedFor e c f armMs tr
      (.expire (taskID e f.entity.info.tenantID f.entity.info.id f.entity.info.state tr.name))

theorem armTransition_keeps (e : Engine) (c : Ctx) (wf : WorkflowDefinition)
    (tr : TransitionDefinition) (schedule : Schedule) (armMs : Int) (id : TxID) (hs : P s) :
    Ensures w kept (armTransition e c wf tr.name schedule armMs id)
      (fun r f' s' => f' = f ∧ P s' ∧ ∀ outcome, r = .ok outcome → ArmedFor e c f armMs tr outcome)
      f s := by
  unfold armTransition
  split
  · unfold armViaFunction
    split
    · refine ensures_bind (ensures_get ?_)
      refine ensures_seq (ensures_of_leads (hplain _ rfl) hs) fun r s' hs => ?_
      cases r with
      | error err => exact ensures_pure ⟨rfl, hs, by simp⟩
      | ok res =>
        simp only
        split
        · split
          · exact ensures_pure ⟨rfl, hs, by simp⟩
          · exact ensures_pure ⟨rfl, hs, fun _ h => Except.ok.inj h ▸ .expired⟩
          · exact ensures_pure ⟨rfl, hs, fun _ h => Except.ok.inj h ▸ .armed _ _⟩
        · exact ensures_pure ⟨rfl, hs, by simp⟩
    · exact ensures_pure ⟨rfl, hs, by simp⟩
  · refine ensures_bind (ensures_get ?_)
    exact ensures_pure ⟨rfl, hs, fun _ h => Except.ok.inj h ▸ .armed _ _⟩

theorem armTransitions_keeps (e : Engine) (c : Ctx) (wf : WorkflowDefinition)
    (transitions : List TransitionDefinition) (armMs : Int) (id : TxID) (hs : P s) :
    Ensures w kept (armTransitions e c wf armMs id transitions)
      (fun r f' s' => f' = f ∧ P s' ∧ ∀ outcomes, r = .ok outcomes →
        List.Forall₂ (ArmedFor e c f armMs) (transitions.filter (·.armable)) outcomes) f s := by
  induction transitions generalizing s with
  | nil => exact ensures_pure ⟨rfl, hs, fun _ h => Except.ok.inj h ▸ .nil⟩
  | cons tr rest ih =>
    unfold armTransitions
    split
    · next hnone => simpa [TransitionDefinition.armable, hnone] using ih hs
    · next schedule hschedule =>
      split
      · next hskip =>
        have hnot : tr.armable = false := by
          cases hm : tr.manual <;> simp_all [TransitionDefinition.armable]
        simpa [hnot] using ih hs
      · next hskip =>
        have harmable : tr.armable = true := by
          cases hm : tr.manual <;> simp_all [TransitionDefinition.armable]
        refine ensures_seq (armTransition_keeps hplain e c wf tr schedule armMs id hs) ?_
        rintro r s' ⟨hs, hr⟩
        cases r with
        | error err => exact ensures_pure ⟨rfl, hs, by simp⟩
        | ok outcome =>
          refine ensures_seq (ih hs) ?_
          rintro r s'' ⟨hs, hrest⟩
          cases r with
          | error err => exact ensures_pure ⟨rfl, hs, by simp⟩
          | ok outcomes =>
            refine ensures_pure ⟨rfl, hs, fun _ h => Except.ok.inj h ▸ ?_⟩
            rw [List.filter_cons_of_pos harmable]
            exact .cons (hr outcome rfl) (hrest outcomes rfl)

variable {id : TxID}
  (hrecord : ∀ tx ev, ev.transactionID = id → Leads w kept (.record .selectWorkflow tx ev) P P)

include hrecord

theorem selectWorkflow_keeps (e : Engine) (c : Ctx) (workflows : List WorkflowDefinition)
    (hs : P s) :
    Ensures w kept (selectWorkflow e c id workflows) (fun _ f' s' => f' = f ∧ P s') f s := by
  have hevent : ∀ type {s}, P s → Ensures w kept (recordEvent .selectWorkflow c id type)
      (fun _ f' s' => f' = f ∧ P s') f s := fun type {s} hs =>
    recordEvent_leads (fun tx ev _ hid => hrecord tx ev hid) hs
  induction workflows generalizing s with
  | nil =>
    change Ensures w kept (selectDefault e c id) _ f s
    unfold selectDefault
    split
    · refine ensures_seq (hevent _ hs) fun _ s' hs => ?_
      exact ensures_pure ⟨rfl, hs⟩
    · refine ensures_bind (ensures_get ?_)
      refine ensures_seq (hevent _ hs) fun _ s' hs => ?_
      exact ensures_pure ⟨rfl, hs⟩
  | cons wf rest ih =>
    unfold selectWorkflow
    split
    · refine ensures_seq (evaluateOptional_keeps hplain e wf.criterion _ hs) fun r s' hs => ?_
      rcases r with err | ⟨_ | _, reason⟩
      · exact ensures_pure ⟨rfl, hs⟩
      · refine ensures_seq (hevent _ hs) fun _ s'' hs => ?_
        exact ih hs
      · refine ensures_seq (hevent _ hs) fun _ s'' hs => ?_
        exact ensures_pure ⟨rfl, hs⟩
    · exact ih hs

theorem resolveWorkflow_keeps (e : Engine) (c : Ctx) (hs : P s) :
    Ensures w kept (resolveWorkflow e c id) (fun _ f' s' => f' = f ∧ P s') f s := by
  refine ensures_seq (ensures_of_leads (hplain _ rfl) hs) fun r s' hs => ?_
  cases r with
  | error err => exact ensures_pure ⟨rfl, hs⟩
  | ok _ =>
    refine ensures_bind (ensures_get ?_)
    refine ensures_seq (ensures_of_leads (hplain _ rfl) hs) fun r s'' hs => ?_
    change Except ServiceError (List WorkflowDefinition) at r
    rcases r with err | (_ | ⟨wf, rest⟩)
    · cases err with
      | notFound => exact selectWorkflow_keeps hplain hrecord e c _ hs
      | _ => exact ensures_pure ⟨rfl, hs⟩
    · exact selectWorkflow_keeps hplain hrecord e c _ hs
    · exact selectWorkflow_keeps hplain hrecord e c _ hs

end Keeps

theorem recordScheduled_keeps {id : TxID} {f : Frame}
    (hrecord : ∀ tx ev, ev.transactionID = id →
      Leads w kept (.record .reconcileScheduledTasks tx ev) P P) (c : Ctx)
    (entityID : Memory.EntityID) (events : List (EventType × String)) (hs : P s) :
    Ensures w kept (recordScheduled c id entityID events) (fun _ f' s' => f' = f ∧ P s') f s := by
  induction events generalizing s with
  | nil => exact ensures_pure ⟨rfl, hs⟩
  | cons event rest ih =>
    refine ensures_seq (ensures_of_leads (hrecord c.tx _ rfl) hs) fun _ s' hs => ?_
    exact ih hs

/-- The request that a settled entity makes of the task store. -/
structure Requested (e : Engine) (c : Ctx) (wf : WorkflowDefinition) (f : Frame)
    (req : ReconcileRequest) : Prop where
  tenantID : req.tenantID = f.entity.info.tenantID
  entityID : req.entityID = f.entity.info.id
  currentState : req.currentState = f.entity.info.state
  outcomes : ∃ armMs outcomes, req.arm = outcomes.filterMap ArmOutcome.task? ∧
    req.cancel = outcomes.filterMap ArmOutcome.cancelID? ∧
    List.Forall₂ (ArmedFor e c f armMs)
      ((wf.transitionsOf f.entity.info.state).filter (·.armable)) outcomes

/-- A workflow without schedules asks nothing of the task store. -/
theorem reconcileScheduledTasks_rule {F : σ → Prop} {e : Engine} {c : Ctx} {wf : WorkflowDefinition}
    {id : TxID} {f : Frame} (hplain : ∀ q, q.plain = true → Leads w kept q P P)
    (hfail : ∀ s, P s → F s)
    (hstore : ∀ req, Requested e c wf f req → ∀ s s1 r s2, P s → w.interference s s1 →
      w.exchange s1 (.reconcileForEntity c.tx req) r s2 → kept s1 s2 ∧
        (match (r : Except ServiceError (List Memory.ScheduledTask)) with
        | .error _ => F s2
        | .ok _ => P' s2))
    (hrecord : ∀ tx ev, ev.transactionID = id →
      Leads w kept (.record .reconcileScheduledTasks tx ev) P' P') (suppress : String) (hs : P s) :
    Ensures w kept (reconcileScheduledTasks e c wf id suppress)
      (fun err f' s' => f' = f ∧
        match err with
        | some _ => F s'
        | none => if workflowHasSchedule wf then P' s' else P s') f s := by
  unfold reconcileScheduledTasks
  split
  · next hschedule =>
    refine ensures_seq (ensures_of_leads (hplain _ rfl) hs) fun armMs s' hs => ?_
    refine ensures_bind (ensures_get ?_)
    refine ensures_seq (armTransitions_keeps hplain e c wf _ armMs id hs) ?_
    rintro r s'' ⟨hs, houtcomes⟩
    cases r with
    | error err => exact ensures_pure ⟨rfl, hfail _ hs⟩
    | ok outcomes =>
      refine ensures_seq (ensures_of_leads (hplain _ rfl) hs) fun r s' hs => ?_
      cases r with
      | error err => exact ensures_pure ⟨rfl, hfail _ hs⟩
      | ok _ =>
        refine ensures_bind (ensures_ask ?_)
        intro s1 h1 r s2 h2
        obtain ⟨hkept, hnext⟩ := hstore _ ⟨rfl, rfl, rfl, armMs, outcomes, rfl, rfl,
          houtcomes outcomes rfl⟩ _ s1 r s2 hs h1 h2
        refine ⟨hkept, ?_⟩
        cases r with
        | error err => exact ensures_pure ⟨rfl, hnext⟩
        | ok cancelled =>
          refine ensures_seq (recordScheduled_keeps hrecord c _ _ hnext) fun _ s'' hs => ?_
          exact ensures_pure ⟨rfl, by simpa [hschedule] using hs⟩
  · next hschedule => exact ensures_pure ⟨rfl, by simpa [hschedule] using hs⟩

/-! ## What the rules need -/

/-- What a `COMMIT_BEFORE_DISPATCH` processor leaves behind when it started on `t`. -/
def Segmented (held : Ctx → TxID → Frame → σ → Prop) (failed : TxID → σ → Prop) (t : TxID)
    (r : Except EngineError (Ctx × TxID)) (f : Frame) (s : σ) : Prop :=
  match r with
  | .ok (c', t') => held c' t' f s
  | .error _ => failed t s

/-- What the rules need to know of the assertions. `o` is the transaction that the events of
`recorder` carry. -/
structure EngineRules (e : Engine) (w : Surroundings Call Call.Answer σ) (kept : σ → σ → Prop)
    (recorder : Recorder) (o : TxID) (held moved : Ctx → TxID → Frame → σ → Prop)
    (failed : TxID → σ → Prop) (mark : TxID → σ → Prop) : Prop where
  held_plain : ∀ c t f q, q.plain = true → Leads w kept q (held c t f) (held c t f)
  mark_stable : ∀ p s s1 q r s2, mark p s → w.interference s s1 → w.exchange s1 q r s2 → mark p s2
  pause : ∀ c t f tx ev, ev.eventType = .processingPaused → ev.transactionID = t →
    Leads w kept (.record .executeProcessors tx ev) (held c t f)
      (fun s => held c t f s ∧ mark t s)
  result : ∀ c t f p tx ev, ev.eventType = .stateProcessResult → ev.transactionID = p →
    Leads w kept (.record .executeProcessors tx ev) (fun s => held c t f s ∧ mark p s)
      (held c t f)
  result_failed : ∀ t p tx ev, ev.eventType = .stateProcessResult → ev.transactionID = p →
    Leads w kept (.record .executeProcessors tx ev) (fun s => failed t s ∧ mark p s) (failed t)
  segment : ∀ c t f p proc workflow transition s, held c t f s → mark p s →
    Ensures w kept (executeCommitBeforeDispatch e c proc workflow transition t p)
      (Segmented held failed t) f s
  outer : ∀ c t f tx ev, ev.eventType ≠ .transitionMade → ev.transactionID = o →
    Leads w kept (.record recorder tx ev) (held c t f) (held c t f)
  outer_failed : ∀ t tx ev, ev.eventType ≠ .transitionMade → ev.transactionID = o →
    Leads w kept (.record recorder tx ev) (failed t) (failed t)
  made : ∀ c t f tx ev, ev.eventType = .transitionMade → ev.transactionID = o →
    Leads w kept (.record recorder tx ev) (held c t f) (moved c t f)
  data : ∀ c t f data s, held c t f s → held c t (f.withData data) s
  state : ∀ c t f state s, moved c t f s → moved c t (f.withState state) s
  fail : ∀ c t f s, held c t f s → failed t s

namespace EngineRules

variable {e : Engine} {recorder : Recorder} {o : TxID}
  {held moved : Ctx → TxID → Frame → σ → Prop} {failed : TxID → σ → Prop} {mark : TxID → σ → Prop}
  (R : EngineRules e w kept recorder o held moved failed mark)
  {c : Ctx} {t p : TxID} {f : Frame} {s : σ}

include R

/-- What a plain call keeps while a pipeline runs. -/
theorem piped_plain {q : Call} (hq : q.plain = true) :
    Leads w kept q (fun s => held c t f s ∧ mark p s) (fun s => held c t f s ∧ mark p s) :=
  (R.held_plain c t f q hq).and_stable (R.mark_stable p)

/-! ## Processors -/

theorem applyPending (h : held c t f s) (hm : mark p s) (pending : Option (List UInt8)) :
    Ensures w kept (Workflow.applyPending c pending)
      (fun _ f' s' => held c t f' s' ∧ mark p s') f s := by
  cases pending with
  | none => exact ensures_pure ⟨h, hm⟩
  | some data =>
    refine ensures_bind (ensures_get ?_)
    refine ensures_seq (ensures_of_leads (R.piped_plain rfl) ⟨h, hm⟩) ?_
    rintro r s' ⟨h, hm⟩
    cases r with
    | error err => exact ensures_pure ⟨h, hm⟩
    | ok _ =>
      refine ensures_bind (ensures_modify ?_)
      exact ensures_pure ⟨R.data c t f data s' h, hm⟩

theorem dispatchProcessor (h : held c t f s) (hm : mark p s) (tx : Option TxID)
    (proc : ProcessorDefinition) (workflow transition : String) (txID : TxID) :
    Ensures w kept (Workflow.dispatchProcessor e tx proc workflow transition txID)
      (fun _ f' s' => f' = f ∧ held c t f s' ∧ mark p s') f s :=
  dispatchProcessor_keeps (fun _ hq => R.piped_plain hq) e tx proc workflow transition txID ⟨h, hm⟩

theorem executeSyncProcessor (h : held c t f s) (hm : mark p s) (proc : ProcessorDefinition)
    (workflow transition : String) :
    Ensures w kept (Workflow.executeSyncProcessor e c proc workflow transition t)
      (fun _ f' s' => held c t f' s' ∧ mark p s') f s := by
  refine ensures_seq (R.dispatchProcessor h hm c.tx proc workflow transition t) ?_
  rintro r s' ⟨h, hm⟩
  cases r with
  | error err => exact ensures_pure ⟨h, hm⟩
  | ok pending => exact R.applyPending h hm pending

theorem executeAsyncNewTx (h : held c t f s) (hm : mark p s) (proc : ProcessorDefinition)
    (workflow transition : String) :
    Ensures w kept (Workflow.executeAsyncNewTx e c proc workflow transition t)
      (fun _ f' s' => held c t f' s' ∧ mark p s') f s := by
  unfold Workflow.executeAsyncNewTx
  split
  · refine ensures_seq (ensures_of_leads (R.piped_plain rfl) ⟨h, hm⟩) ?_
    rintro r s' ⟨h, hm⟩
    cases r with
    | error err => exact ensures_pure ⟨h, hm⟩
    | ok sp =>
      refine ensures_seq (R.dispatchProcessor h hm c.tx proc workflow transition t) ?_
      rintro r s' ⟨h, hm⟩
      cases r with
      | error err =>
        refine ensures_seq (ensures_of_leads (R.piped_plain rfl) ⟨h, hm⟩) ?_
        rintro _ s' ⟨h, hm⟩
        exact ensures_pure ⟨h, hm⟩
      | ok _ =>
        refine ensures_seq (ensures_of_leads (R.piped_plain rfl) ⟨h, hm⟩) ?_
        rintro r s' ⟨h, hm⟩
        cases r with
        | error err => exact ensures_pure ⟨h, hm⟩
        | ok _ => exact ensures_pure ⟨h, hm⟩
  · exact ensures_pure ⟨h, hm⟩

/-- A failed segment leaves the cursor on its transaction, whatever became of it. -/
theorem executeProcessor (h : held c t f s) (hm : mark p s) (proc : ProcessorDefinition)
    (workflow transition : String) :
    Ensures w kept (Workflow.executeProcessor e workflow transition p c t proc)
      (fun handed f' s' => mark p s' ∧
        (held handed.ctx handed.txID f' s' ∨
          failed handed.txID s' ∧ (fatalError proc handed.err).isSome = true)) f s := by
  unfold Workflow.executeProcessor
  split
  · refine ensures_bind ((R.executeAsyncNewTx h hm proc workflow transition).mono ?_)
    rintro err f' s' ⟨h, hm⟩
    exact ensures_pure ⟨hm, .inl h⟩
  · rename_i hmode
    refine ensures_bind (((R.segment c t f p proc workflow transition s h hm).and_stable
      (R.mark_stable p) hm).mono ?_)
    rintro r f' s' ⟨h, hm⟩
    cases r with
    | error err => exact ensures_pure ⟨hm, .inr ⟨h, by simp [fatalError, hmode]⟩⟩
    | ok cursor => exact ensures_pure ⟨hm, .inl h⟩
  all_goals
    refine ensures_bind ((R.executeSyncProcessor h hm proc workflow transition).mono ?_)
    rintro err f' s' ⟨h, hm⟩
    exact ensures_pure ⟨hm, .inl h⟩

/-- What a pipeline or a transition leaves behind, by the error it hands back. -/
def Settled (held : Ctx → TxID → Frame → σ → Prop) (failed : TxID → σ → Prop) (handed : Handed)
    (f : Frame) (s : σ) : Prop :=
  match handed.err with
  | none => held handed.ctx handed.txID f s
  | some _ => failed handed.txID s

theorem runProcessors (processors : List ProcessorDefinition) (workflow transition : String)
    (h : held c t f s) (hm : mark p s) :
    Ensures w kept (Workflow.runProcessors e workflow transition p c t processors)
      (Settled held failed) f s := by
  induction processors generalizing c t f s with
  | nil => exact ensures_pure h
  | cons proc rest ih =>
    unfold Workflow.runProcessors
    split
    · refine ensures_seq (recordEvent_leads (R.result c t f p) ⟨h, hm⟩) fun _ s' h => ?_
      exact ensures_pure (R.fail c t f s' h)
    · refine ensures_bind ((R.executeProcessor h hm proc workflow transition).mono ?_)
      rintro handed f' s' ⟨hm, h | ⟨h, hfatal⟩⟩
      · refine ensures_seq (recordEvent_leads (fun tx ev htype hid =>
          (R.result _ _ f' p tx ev htype hid).keep (R.mark_stable p)) ⟨h, hm⟩) ?_
        rintro _ s'' ⟨h, hm⟩
        split
        · exact ensures_pure (R.fail _ _ f' s'' h)
        · exact ih h hm
      · refine ensures_seq (recordEvent_leads (R.result_failed _ p) ⟨h, hm⟩) fun _ s'' h => ?_
        split
        · exact ensures_pure h
        · next hnone => simp [hnone] at hfatal

theorem executeProcessors (processors : List ProcessorDefinition) (workflow transition : String)
    (h : held c t f s) :
    Ensures w kept (Workflow.executeProcessors e c processors workflow transition t)
      (Settled held failed) f s := by
  cases processors with
  | nil => exact ensures_pure h
  | cons proc rest =>
    refine ensures_seq (recordEvent_leads (R.pause c t f) h) ?_
    rintro _ s' ⟨h, hm⟩
    exact R.runProcessors (proc :: rest) workflow transition h hm

/-! ## Transitions -/

theorem runTransition (wf : WorkflowDefinition) (tr : TransitionDefinition) (h : held c t f s) :
    Ensures w kept (Workflow.runTransition e recorder wf tr c o t) (Settled moved failed) f s := by
  refine ensures_bind ((R.executeProcessors tr.processors wf.name tr.name h).mono ?_)
  intro handed f' s' h
  cases herr : handed.err with
  | some err =>
    simp only [Settled, herr] at h
    refine ensures_seq (recordEvent_leads (fun tx ev htype hid =>
      R.outer_failed handed.txID tx ev (by simp [htype]) hid) h) fun _ s'' h => ?_
    exact ensures_pure (by simpa [Settled, herr] using h)
  | none =>
    simp only [Settled, herr] at h
    refine ensures_seq (recordEvent_leads (R.made handed.ctx handed.txID f') h) fun _ s'' h => ?_
    refine ensures_bind (ensures_modify ?_)
    refine ensures_pure ?_
    simpa [Settled, herr] using R.state _ _ _ tr.next _ h

theorem evaluateOptional (h : held c t f s) (criterion : Option Criterion)
    (cc : CriterionContext) :
    Ensures w kept (Workflow.evaluateOptional e criterion cc)
      (fun _ f' s' => f' = f ∧ held c t f s') f s :=
  evaluateOptional_keeps (R.held_plain c t f) e criterion cc h

theorem fireTransition (hrec : recorder = .fireTransition) (wf : WorkflowDefinition)
    (tr : TransitionDefinition) (h : held c o f s) :
    Ensures w kept (Workflow.fireTransition e c wf tr o) (Settled moved failed) f s := by
  subst hrec
  refine ensures_seq (R.evaluateOptional h tr.criterion _) fun r s' h => ?_
  rcases r with err | ⟨_ | _, reason⟩
  · exact ensures_pure (R.fail c o f s' h)
  · refine ensures_seq (recordEvent_leads (fun tx ev htype hid =>
      R.outer c o f tx ev (by simp [htype]) hid) h) fun _ s'' h => ?_
    exact ensures_pure (R.fail c o f s'' h)
  · exact R.runTransition wf tr h

theorem attemptTransition (hrec : recorder = .fireTransition)
    (hattempt : ∀ c f tx ev, ev.transactionID = o →
      Leads w kept (.record .attemptTransition tx ev) (held c o f) (held c o f))
    (wf : WorkflowDefinition) (transitionName : String) (h : held c o f s) :
    Ensures w kept (Workflow.attemptTransition e c wf transitionName o) (Settled moved failed)
      f s := by
  have hrefuse : ∀ err, Ensures w kept (refuseTransition c o err) (Settled moved failed) f s := by
    intro err
    refine ensures_seq (recordEvent_leads (fun tx ev _ hid => hattempt c f tx ev hid) h) ?_
    exact fun _ s' h => ensures_pure (R.fail c o f s' h)
  refine ensures_bind (ensures_get ?_)
  split
  · exact ensures_pure (R.fail c o f s h)
  split
  · exact hrefuse _
  split
  · exact hrefuse _
  split
  · exact hrefuse _
  · exact R.fireTransition hrec wf _ h

omit R

variable (C : EngineRules e w kept .cascadeAutomated o held held failed mark)

include C

/-- What one round of the cascade leaves behind. -/
def Rounded (held : Ctx → TxID → Frame → σ → Prop) (failed : TxID → σ → Prop) (c : Ctx) (t : TxID)
    (round : Automated) (f : Frame) (s : σ) : Prop :=
  match round with
  | .fired c' t' => held c' t' f s
  | .stable => held c t f s
  | .failed handed => handed.err.isSome = true ∧ failed handed.txID s

theorem fireAutomated (wf : WorkflowDefinition) (transitions : List TransitionDefinition)
    (h : held c t f s) :
    Ensures w kept (Workflow.fireAutomated e wf o c t transitions) (Rounded held failed c t)
      f s := by
  induction transitions generalizing s with
  | nil => exact ensures_pure h
  | cons tr rest ih =>
    unfold Workflow.fireAutomated
    split
    · exact ih h
    refine ensures_seq (C.evaluateOptional h tr.criterion _) fun r s' h => ?_
    rcases r with err | ⟨_ | _, reason⟩
    · exact ensures_pure ⟨rfl, C.fail c t f s' h⟩
    · refine ensures_seq (recordEvent_leads (fun tx ev htype hid =>
        C.outer c t f tx ev (by simp [htype]) hid) h) fun _ s'' h => ?_
      exact ih h
    · refine ensures_bind ((C.runTransition wf tr h).mono ?_)
      intro handed f'' s'' h
      cases herr : handed.err with
      | some err =>
        simp only [Settled, herr] at h
        exact ensures_pure ⟨by simp [herr], h⟩
      | none =>
        simp only [Settled, herr] at h
        exact ensures_pure h

theorem cascadeFrom (wf : WorkflowDefinition) (left : ℕ) (visits : GoMap String ℕ)
    (h : held c t f s) :
    Ensures w kept (Workflow.cascadeFrom e wf o left visits c t) (Settled held failed) f s := by
  have hcancel : ∀ {c t f s}, held c t f s →
      Ensures w kept (recordEvent .cascadeAutomated c o .cancelled)
        (fun _ f' s' => f' = f ∧ held c t f s') f s := fun {c t f s} h =>
    recordEvent_leads (fun tx ev htype hid => C.outer c t f tx ev (by simp [htype]) hid) h
  induction left generalizing visits c t f s with
  | zero =>
    refine ensures_bind (ensures_get ?_)
    exact ensures_seq (hcancel h) fun _ s' h => ensures_pure (C.fail c t f s' h)
  | succ left ih =>
    refine ensures_seq (contextErr_keeps (C.held_plain c t f) c h) fun err s' h => ?_
    cases err with
    | some err => exact ensures_pure (C.fail c t f s' h)
    | none =>
      refine ensures_bind (ensures_get ?_)
      simp only
      split
      · exact ensures_seq (hcancel h) fun _ s'' h => ensures_pure (C.fail c t f s'' h)
      · split
        · exact ensures_pure h
        refine ensures_bind ((C.fireAutomated wf _ h).mono ?_)
        intro round f'' s'' h
        cases round with
        | fired c' t' => exact ih _ h
        | stable => exact ensures_pure h
        | failed handed =>
          obtain ⟨herr, h⟩ := h
          obtain ⟨err, herr⟩ := Option.isSome_iff_exists.mp herr
          exact ensures_pure (by simpa [Settled, herr] using h)

theorem cascadeAutomated (wf : WorkflowDefinition) (h : held c o f s) :
    Ensures w kept (Workflow.cascadeAutomated e c wf o) (Settled held failed) f s :=
  C.cascadeFrom wf maxCascadeDepth ∅ h

end EngineRules

/-! ## Entry points -/

/-- What the entry points need: `held` up to the named transition, `settling o` in a cascade
whose events carry `o`, `closed` at a successful return, `failing o` and `failed` while an error
is on its way up, and `gone` when it is returned. -/
structure EntryRules (e : Engine) (w : Surroundings Call Call.Answer σ) (kept : σ → σ → Prop)
    (entry : TxID) (held moved : Ctx → TxID → Frame → σ → Prop)
    (settling : TxID → Ctx → TxID → Frame → σ → Prop) (failing : TxID → TxID → σ → Prop)
    (failed closed : TxID → σ → Prop) (gone : σ → Prop) (mark : TxID → σ → Prop) : Prop where
  fire : EngineRules e w kept .fireTransition entry held moved failed mark
  cascade : ∀ o, EngineRules e w kept .cascadeAutomated o (settling o) (settling o) (failing o) mark
  fail : ∀ o t s, failing o t s → failed t s
  enter : ∀ c f s, held c entry f s → settling entry c entry f s
  enter_moved : ∀ c t f s, moved c t f s → settling t c t f s
  initial : ∀ c f state s, held c entry f s → held c entry (f.withState state) s
  note : ∀ c f who tx ev, who ∈ [Recorder.entryPoint, .selectWorkflow, .attemptTransition] →
    ev.transactionID = entry → Leads w kept (.record who tx ev) (held c entry f) (held c entry f)
  reconcile : ∀ o c t f tx req, Leads w kept (.reconcileForEntity tx req) (settling o c t f)
    (settling o c t f)
  note_reconciled : ∀ o c t f tx ev, ev.transactionID = t →
    Leads w kept (.record .reconcileScheduledTasks tx ev) (settling o c t f) (settling o c t f)
  finish : ∀ o c t f tx ev, ev.transactionID = entry →
    Leads w kept (.record .entryPoint tx ev) (settling o c t f) (closed t)
  close : ∀ c f s, held c entry f s → closed entry s
  give_up : ∀ t, t ≠ "" → t ≠ entry → Leads w kept (.rollback t) (failed t) gone
  given_up : ∀ t s, t = "" ∨ t = entry → failed t s → gone s

namespace EntryRules

variable {e : Engine} {entry : TxID} {held moved : Ctx → TxID → Frame → σ → Prop}
  {settling : TxID → Ctx → TxID → Frame → σ → Prop} {failing : TxID → TxID → σ → Prop}
  {failed closed : TxID → σ → Prop} {gone : σ → Prop} {mark : TxID → σ → Prop}
  (R : EntryRules e w kept entry held moved settling failing failed closed gone mark)
  {c : Ctx} {t : TxID} {f : Frame} {s : σ}

include R

/-- What an entry point leaves behind, by its result. -/
def Returned (entry : TxID) (closed : TxID → σ → Prop) (gone : σ → Prop) :
    Except EngineError EngineResult → Frame → σ → Prop
  | .error _, _, s => gone s
  | .ok res, _, s => closed res.finalTxID s ∧ (res.segmented = true ↔ res.finalTxID ≠ entry)

theorem abandon (h : failed t s) (err : EngineError) :
    Ensures w kept (Workflow.abandon t entry err) (Returned entry closed gone) f s := by
  have hrollback : Ensures w kept (rollbackSegment t entry) (fun _ _ s' => gone s') f s := by
    unfold rollbackSegment
    split
    · next hskip => exact ensures_pure (R.given_up t s hskip h)
    · next hskip =>
      rw [not_or] at hskip
      refine ensures_bind ((ensures_of_leads (R.give_up t hskip.1 hskip.2) h).mono ?_)
      exact fun _ _ _ h => ensures_pure h.2
  refine ensures_bind (hrollback.mono ?_)
  exact fun _ _ _ h => ensures_pure h

theorem settle (wf : WorkflowDefinition) (h : settling t c t f s) :
    Ensures w kept (Workflow.settle e wf entry c t) (Returned entry closed gone) f s := by
  refine ensures_bind (((R.cascade t).cascadeAutomated wf h).mono ?_)
  intro handed f' s' h
  cases herr : handed.err with
  | some err =>
    simp only [EngineRules.Settled, herr] at h
    exact R.abandon (R.fail _ _ _ h) err
  | none =>
    simp only [EngineRules.Settled, herr] at h
    have hfail : ∀ s, settling t handed.ctx handed.txID f' s → failed handed.txID s :=
      fun s h => R.fail t _ s ((R.cascade t).fail _ _ _ s h)
    refine ensures_bind ((reconcileScheduledTasks_rule ((R.cascade t).held_plain _ _ _) hfail
      (fun req _ s s1 r s2 hs h1 h2 => ?_) (R.note_reconciled t handed.ctx _ f') "" h).mono ?_)
    · obtain ⟨hkept, hs2⟩ := R.reconcile t _ _ f' _ req s s1 r s2 hs h1 h2
      refine ⟨hkept, ?_⟩
      cases r with
      | error err => exact hfail _ hs2
      | ok _ => exact hs2
    · rintro err f'' s'' ⟨rfl, h⟩
      cases err with
      | some err => exact R.abandon h err
      | none =>
        simp only [ite_self] at h
        refine ensures_bind ((recordEvent_leads (fun tx ev _ hid =>
          R.finish t _ _ f'' tx ev hid) h).mono ?_)
        rintro _ _ s' ⟨rfl, hclosed⟩
        refine ensures_bind (ensures_get ?_)
        exact ensures_pure ⟨hclosed, by simp⟩

theorem transitionAndSettle (wf : WorkflowDefinition) (transitionName : String)
    (h : held c entry f s) :
    Ensures w kept (Workflow.transitionAndSettle e wf entry c transitionName)
      (Returned entry closed gone) f s := by
  refine ensures_bind ((R.fire.attemptTransition rfl
    (fun c f tx ev hid => R.note c f _ tx ev (by simp) hid) wf transitionName h).mono ?_)
  intro handed f' s' h
  cases herr : handed.err with
  | some err =>
    simp only [EngineRules.Settled, herr] at h
    exact R.abandon h err
  | none =>
    simp only [EngineRules.Settled, herr] at h
    exact R.settle wf (R.enter_moved _ _ _ _ h)

theorem begun (hentry : entry ≠ "") (hf : f.entity.info.transactionID = entry)
    (body : WorkflowDefinition → TxID → EngineM (Except EngineError EngineResult))
    (hbody : ∀ wf s, held c entry f s →
      Ensures w kept (body wf entry) (Returned entry closed gone) f s)
    (h : held c entry f s) :
    Ensures w kept (Workflow.begun e c body) (Returned entry closed gone) f s := by
  have hgone : ∀ s, held c entry f s → gone s := fun s h =>
    R.given_up entry s (.inr rfl) (R.fire.fail _ _ _ _ h)
  have hnote : ∀ type {s}, held c entry f s →
      Ensures w kept (recordEvent .entryPoint c entry type)
        (fun _ f' s' => f' = f ∧ held c entry f s') f s := fun type {s} h =>
    recordEvent_leads (fun tx ev _ hid => R.note c f _ tx ev (by simp) hid) h
  refine ensures_seq (ensures_of_leads (R.fire.held_plain c entry f _ rfl) h) fun r s' h => ?_
  cases r with
  | error err => exact ensures_pure (hgone _ h)
  | ok _ =>
    refine ensures_bind (ensures_get ?_)
    have hid : resolveAuditTxID f.entity = pure entry := by
      rw [resolveAuditTxID, hf, if_pos hentry]
    rw [hid]
    refine ensures_bind (ensures_pure ?_)
    refine ensures_seq (hnote _ h) fun _ s'' h => ?_
    refine ensures_seq (resolveWorkflow_keeps (R.fire.held_plain c entry f)
      (fun tx ev hid => R.note c f _ tx ev (by simp) hid) e c h) fun r s' h => ?_
    cases r with
    | error err => exact R.abandon (R.fire.fail _ _ _ _ h) err
    | ok wf => exact hbody wf _ h

/-- Every entry point, whatever the workflow and whatever the answers. -/
theorem routine (hentry : entry ≠ "") (hf : f.entity.info.transactionID = entry) (call : EntryCall)
    (h : held c entry f s) :
    Ensures w kept (call.routine e c) (Returned entry closed gone) f s := by
  cases call with
  | execute transitionName =>
    refine R.begun hentry hf _ (fun wf s h => ?_) h
    refine ensures_bind (ensures_modify ?_)
    split
    · exact R.transitionAndSettle wf transitionName (R.initial _ _ _ _ h)
    · exact R.settle wf (R.enter _ _ _ (R.initial _ _ _ _ h))
  | manualTransition transitionName =>
    exact R.begun hentry hf _ (fun wf s h => R.transitionAndSettle wf transitionName h) h
  | loopback =>
    refine R.begun hentry hf _ (fun wf s h => ?_) h
    refine ensures_bind (ensures_get ?_)
    split
    · refine ensures_seq (recordEvent_leads (fun tx ev _ hid =>
        R.note c f _ tx ev (by simp) hid) h) fun _ s' h => ?_
      refine ensures_seq (recordEvent_leads (fun tx ev _ hid =>
        R.note c f _ tx ev (by simp) hid) h) fun _ s'' h => ?_
      exact ensures_pure ⟨R.close _ _ _ h, by simp⟩
    · exact R.settle wf (R.enter _ _ _ h)

end EntryRules

end CyodaGo.Workflow
