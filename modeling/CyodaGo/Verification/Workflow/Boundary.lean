import CyodaGo.Verification.Workflow.Logic

/-! # Reasoning about segment boundaries

A `COMMIT_BEFORE_DISPATCH` processor goes through fixed stages: the entity is flushed into
the open transaction `TX_pre`, `TX_pre` commits, the processor is called, and `TX_post` takes
its result. What is known at each stage is a parameter. -/

namespace CyodaGo.Workflow

open Memory (TxID)
open Routine

variable {σ : Type} {w : Surroundings Call Call.Answer σ} {kept : σ → σ → Prop}

/-- The If-Match value that the next flush compares with, if any. -/
def Frame.expected (f : Frame) : Option TxID := if f.ifMatch = "" then none else some f.ifMatch

/-- What the stages need: `ready` to flush, `flushed`, `between` the two transactions, `opened`
in `TX_post` before the comparison with `TX_pre`. Events of an abort carry `p`. -/
structure SegmentRules (w : Surroundings Call Call.Answer σ) (kept : σ → σ → Prop) (p : TxID)
    (held : Ctx → TxID → Frame → σ → Prop)
    (ready : Option TxID → Ctx → TxID → Frame → σ → Prop)
    (flushed : Ctx → TxID → Frame → σ → Prop) (between : TxID → Frame → σ → Prop)
    (opened : TxID → Ctx → TxID → Frame → σ → Prop) (failed : TxID → σ → Prop) : Prop where
  consume : ∀ c t f s, held c t f s → ready f.expected c t { f with ifMatch := "" } s
  ready_plain : ∀ x c t f q, q.plain = true → Leads w kept q (ready x c t f) (ready x c t f)
  flushed_plain : ∀ c t f q, q.plain = true → Leads w kept q (flushed c t f) (flushed c t f)
  between_plain : ∀ t f q, q.plain = true → Leads w kept q (between t f) (between t f)
  opened_plain : ∀ t c' t' f q, q.plain = true →
    Leads w kept q (opened t c' t' f) (opened t c' t' f)
  failed_plain : ∀ t q, q.plain = true → Leads w kept q (failed t) (failed t)
  failed_lookup : ∀ t id, Leads w kept (.getEntity none id) (failed t) (failed t)
  failed_note : ∀ t tx ev, ev.transactionID = p →
    Leads w kept (.record .recordAbort tx ev) (failed t) (failed t)
  ready_fail : ∀ x c t f s, ready x c t f s → failed t s
  flushed_fail : ∀ c t f s, flushed c t f s → failed t s
  between_fail : ∀ t f s, between t f s → failed t s
  opened_fail : ∀ t c' t' f s, t' = "" ∨ t' = t → opened t c' t' f s → failed t s
  save : ∀ c t f s s1 (r : Except ServiceError Unit) s2, ready none c t f s → w.interference s s1 →
    w.exchange s1 (.save c.tx f.entity) r s2 → kept s1 s2 ∧
      match r with
      | .ok _ => flushed c t f s2
      | .error _ => failed t s2
  compare : ∀ x c t f s s1 (r : Except ServiceError Unit) s2, ready (some x) c t f s →
    w.interference s s1 → w.exchange s1 (.compareAndSave c.tx f.entity x) r s2 → kept s1 s2 ∧
      match r with
      | .ok _ => flushed c t f s2
      | .error _ => failed t s2
  commit : ∀ c t f s s1 (r : CommitAnswer) s2, flushed c t f s → w.interference s s1 →
    w.exchange s1 (.commit t) r s2 → kept s1 s2 ∧
      match r with
      | .committed => between t f s2
      | .refused _ _ => failed t s2
  start : ∀ (c : Ctx) t f s s1 (r : Except ServiceError TxID) s2, between t f s →
    w.interference s s1 →
    w.exchange s1 .begin r s2 → kept s1 s2 ∧
      match r with
      | .ok t' => opened t { c with tx := some t', cancellable := false } t' f s2
      | .error _ => failed t s2
  data : ∀ t c' t' f data s, opened t c' t' f s → opened t c' t' (f.withData data) s
  apply : ∀ t c' t' f s s1 (r : Except ServiceError Unit) s2, opened t c' t' f s →
    w.interference s s1 → w.exchange s1 (.compareAndSave c'.tx f.entity t) r s2 → kept s1 s2 ∧
      match r with
      | .ok _ => held c' t' f s2
      | .error _ => opened t c' t' f s2
  give_up : ∀ t c' t' f, t' ≠ "" → t' ≠ t → Leads w kept (.rollback t') (opened t c' t' f) (failed t)

namespace SegmentRules

variable {p : TxID} {held : Ctx → TxID → Frame → σ → Prop}
  {ready : Option TxID → Ctx → TxID → Frame → σ → Prop}
  {flushed : Ctx → TxID → Frame → σ → Prop} {between : TxID → Frame → σ → Prop}
  {opened : TxID → Ctx → TxID → Frame → σ → Prop} {failed : TxID → σ → Prop}
  (R : SegmentRules w kept p held ready flushed between opened failed)
  {e : Engine} {c c' : Ctx} {t t' : TxID} {f : Frame} {s : σ}

include R

variable (expected : Option TxID)

theorem flushSegment (h : ready expected c t f s) :
    Ensures w kept (Workflow.flushSegment c expected)
      (fun err f' s' => f' = f ∧
        match err with
        | none => flushed c t f s'
        | some _ => failed t s') f s := by
  refine ensures_bind (ensures_get ?_)
  cases expected with
  | some x =>
    refine ensures_bind (ensures_ask ?_)
    intro s1 h1 r s2 h2
    obtain ⟨hkept, hnext⟩ := R.compare x c t f s s1 r s2 h h1 h2
    refine ⟨hkept, ?_⟩
    cases r with
    | ok _ => exact ensures_pure ⟨rfl, hnext⟩
    | error err =>
      simp only
      split
      · exact ensures_pure ⟨rfl, hnext⟩
      · exact ensures_pure ⟨rfl, hnext⟩
  | none =>
    refine ensures_bind (ensures_ask ?_)
    intro s1 h1 r s2 h2
    obtain ⟨hkept, hnext⟩ := R.save c t f s s1 r s2 h h1 h2
    refine ⟨hkept, ?_⟩
    cases r with
    | ok _ => exact ensures_pure ⟨rfl, hnext⟩
    | error err => exact ensures_pure ⟨rfl, hnext⟩

theorem flushAndCommitSegment (h : ready expected c t f s) :
    Ensures w kept (Workflow.flushAndCommitSegment c t expected)
      (fun err f' s' => f' = f ∧
        match err with
        | none => between t f s'
        | some _ => failed t s') f s := by
  refine ensures_seq (ensures_of_leads (R.ready_plain expected c t f _ rfl) h) fun r s' h => ?_
  cases r with
  | error err => exact ensures_pure ⟨rfl, R.ready_fail _ _ _ _ _ h⟩
  | ok _ =>
    refine ensures_seq (R.flushSegment expected h) fun err s'' h => ?_
    cases err with
    | some err => exact ensures_pure ⟨rfl, h⟩
    | none =>
      refine ensures_seq (contextErr_keeps (R.flushed_plain c t _) c h) fun err s' h => ?_
      cases err with
      | some err => exact ensures_pure ⟨rfl, R.flushed_fail _ _ _ _ h⟩
      | none =>
        refine ensures_bind (ensures_ask ?_)
        intro s1 h1 r s2 h2
        obtain ⟨hkept, hnext⟩ := R.commit c t _ _ s1 r s2 h h1 h2
        refine ⟨hkept, ?_⟩
        cases r with
        | committed => exact ensures_pure ⟨rfl, hnext⟩
        | refused err stillOpen => exact ensures_pure ⟨rfl, hnext⟩

theorem beginPost (h : between t f s) :
    Ensures w kept (Workflow.beginPost c)
      (fun r f' s' => f' = f ∧
        match r with
        | .ok (c', t') => opened t c' t' f s'
        | .error _ => failed t s') f s := by
  refine ensures_bind (ensures_ask ?_)
  intro s1 h1 r s2 h2
  obtain ⟨hkept, hnext⟩ := R.start c t f s s1 r s2 h h1 h2
  refine ⟨hkept, ?_⟩
  cases r with
  | ok t' => exact ensures_pure ⟨rfl, hnext⟩
  | error err => exact ensures_pure ⟨rfl, hnext⟩

theorem abandonSegment (err : EngineError) (h : opened t c' t' f s) :
    Ensures w kept (Workflow.abandonSegment t' t err) (Segmented held failed t) f s := by
  have hrollback : Ensures w kept (rollbackSegment t' t) (fun _ _ s' => failed t s') f s := by
    unfold rollbackSegment
    split
    · next hskip => exact ensures_pure (R.opened_fail t c' t' f s hskip h)
    · next hskip =>
      rw [not_or] at hskip
      refine ensures_bind ((ensures_of_leads (R.give_up t c' t' f hskip.1 hskip.2) h).mono ?_)
      exact fun _ _ _ h => ensures_pure h.2
  refine ensures_bind (hrollback.mono ?_)
  exact fun _ _ _ h => ensures_pure h

theorem applyPending (pending : Option (List UInt8)) (h : opened t c' t' f s) :
    Ensures w kept (Workflow.applyPending c' pending) (fun _ f' s' => opened t c' t' f' s')
      f s := by
  cases pending with
  | none => exact ensures_pure h
  | some data =>
    refine ensures_bind (ensures_get ?_)
    refine ensures_seq (ensures_of_leads (R.opened_plain t c' t' f _ rfl) h) fun r s' h => ?_
    cases r with
    | error err => exact ensures_pure h
    | ok _ =>
      refine ensures_bind (ensures_modify ?_)
      exact ensures_pure (R.data t c' t' f data s' h)

theorem applyResult (pending : Option (List UInt8)) (h : opened t c' t' f s) :
    Ensures w kept (Workflow.applyResult c' t' t pending) (Segmented held failed t) f s := by
  refine ensures_bind ((R.applyPending pending h).mono ?_)
  intro err f' s' h
  cases err with
  | some err => exact R.abandonSegment err h
  | none =>
    refine ensures_seq (ensures_of_leads (R.opened_plain t c' t' f' _ rfl) h) fun r s'' h => ?_
    cases r with
    | error err => exact R.abandonSegment _ h
    | ok _ =>
      refine ensures_bind (ensures_get ?_)
      refine ensures_bind (ensures_ask ?_)
      intro s1 h1 r s2 h2
      obtain ⟨hkept, hnext⟩ := R.apply t c' t' f' _ s1 r s2 h h1 h2
      refine ⟨hkept, ?_⟩
      cases r with
      | ok _ => exact ensures_pure hnext
      | error err => exact R.abandonSegment _ hnext

theorem flushFailed (err : EngineError) (h : failed t s) :
    Ensures w kept (Workflow.flushFailed c p expected err) (Segmented held failed t) f s := by
  have hnote : ∀ {s}, failed t s → Ensures w kept (recordEvent .recordAbort c p .transitionAborted)
      (fun _ _ s' => failed t s') f s := fun {s} h =>
    (recordEvent_leads (fun tx ev _ hid => R.failed_note t tx ev hid) h).mono
      fun _ _ _ h => h.2
  have habort : Ensures w kept (recordAbortForIfMatchConflict c p) (fun _ _ s' => failed t s')
      f s := by
    refine ensures_bind (ensures_get ?_)
    refine ensures_seq (ensures_of_leads (R.failed_plain t _ rfl) h) fun r s' h => ?_
    cases r with
    | error err => exact hnote h
    | ok _ =>
      refine ensures_seq (ensures_of_leads (R.failed_lookup t _) h) fun _ s'' h => ?_
      exact hnote h
  unfold Workflow.flushFailed
  split
  · refine ensures_bind (habort.mono ?_)
    exact fun _ _ _ h => ensures_pure h
  · exact ensures_pure h

theorem executeCommitBeforeDispatch (proc : ProcessorDefinition) (workflow transition : String)
    (h : held c t f s) :
    Ensures w kept (Workflow.executeCommitBeforeDispatch e c proc workflow transition t p)
      (Segmented held failed t) f s := by
  have hready := R.consume c t f s h
  refine ensures_bind ?_
  refine ensures_bind (ensures_get ?_)
  refine ensures_bind (ensures_modify ?_)
  refine ensures_pure ?_
  change Ensures w kept (if proc.startNewTxOnDispatch = some true then _ else _) _ _ _
  split
  · refine ensures_bind ?_
    refine ensures_seq (R.flushAndCommitSegment f.expected hready) fun err s' h => ?_
    cases err with
    | some err => exact R.flushFailed f.expected err h
    | none =>
      refine (R.beginPost h).mono ?_
      rintro r f'' s'' ⟨rfl, h⟩
      cases r with
      | error err => exact R.flushFailed f.expected err h
      | ok cursor =>
        refine ensures_bind ((dispatchProcessor_keeps (R.opened_plain t cursor.1 cursor.2 _)
          e _ proc workflow transition _ h).mono ?_)
        rintro r f' s' ⟨rfl, h⟩
        cases r with
        | error err => exact R.abandonSegment _ h
        | ok pending => exact R.applyResult pending h
  · refine ensures_seq (R.flushAndCommitSegment f.expected hready) fun err s' h => ?_
    cases err with
    | some err => exact R.flushFailed f.expected err h
    | none =>
      refine ensures_bind ((dispatchProcessor_keeps (R.between_plain t _) e none proc workflow
        transition "" h).mono ?_)
      rintro r f'' s'' ⟨rfl, h⟩
      cases r with
      | error err => exact ensures_pure (R.between_fail _ _ _ h)
      | ok pending =>
        refine ensures_seq (R.beginPost h) fun r s' h => ?_
        cases r with
        | error err => exact ensures_pure h
        | ok cursor => exact R.applyResult pending h

end SegmentRules

end CyodaGo.Workflow
