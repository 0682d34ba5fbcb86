import CyodaGo.Verification.Workflow.Segments

/-! # Which transaction an audit event carries

Events of a cascade are meant to carry the transaction that the caller entered with. Pipelines
and the reconcile pass take the id of the transaction under the cursor instead, and so does the
cascade that follows a named transition. -/

namespace CyodaGo.Workflow

open Memory (TxID)

/-! ## Events in a trace -/

def auditEvent? : Exchange Call Call.Answer → Option StateMachineEvent
  | ⟨.record _ _ ev, _⟩ => some ev
  | _ => none

variable (entry : TxID) (tr : Trace)

def auditIn : List StateMachineEvent := tr.filterMap auditEvent?

/-- Every event so far carries the entry transaction. -/
def Correlated : Prop := ∀ ev ∈ auditIn tr, ev.transactionID = entry

/-- Whether the named transition had committed a segment when it was made. -/
def namedSegmented (entry : TxID) : Trace → Bool
  | [] => false
  | ⟨.record .fireTransition _ ev, _⟩ :: tr =>
    if ev.eventType = .transitionMade then (ledger entry tr).committed ≠ []
    else namedSegmented entry tr
  | _ :: tr => namedSegmented entry tr

/-- A step that records under the entry transaction: no pipeline starts and nothing is
reconciled after a commit, and the cascade records nothing after a named transition that
committed. -/
def BeforeSegments : Call → Prop
  | .record .executeProcessors _ ev =>
    ev.eventType = .processingPaused → (ledger entry tr).committed = []
  | .record .reconcileScheduledTasks _ _ => (ledger entry tr).committed = []
  | .record .cascadeAutomated _ _ => namedSegmented entry tr = false
  | _ => True

/-- `P` holds of every step of a trace and of what was before it. -/
def AllSteps (P : Trace → Call → Prop) : Trace → Prop
  | [] => True
  | x :: tr => P tr x.1 ∧ AllSteps P tr

/-- The events are right exactly when all steps so far met the condition. -/
def Fair : Prop := Correlated entry tr ↔ AllSteps (BeforeSegments entry) tr

section Steps

variable {entry : TxID} {tr : Trace} {q : Call} {r : q.Answer}

theorem correlated_record {who : Recorder} {tx : Option TxID} {ev : StateMachineEvent}
    {r : (Call.record who tx ev).Answer} :
    Correlated entry (⟨.record who tx ev, r⟩ :: tr) ↔
      ev.transactionID = entry ∧ Correlated entry tr := by
  simp [Correlated, auditIn, auditEvent?]

def Call.isRecord : Call → Bool
  | .record .. => true
  | _ => false

theorem correlated_other (hq : q.isRecord = false) :
    Correlated entry (⟨q, r⟩ :: tr) ↔ Correlated entry tr := by
  have hnone : auditEvent? ⟨q, r⟩ = none := by
    cases q <;> first | rfl | cases hq
  simp [Correlated, auditIn, hnone]

theorem Correlated.tail {x : Exchange Call Call.Answer} (h : Correlated entry (x :: tr)) :
    Correlated entry tr := by
  intro ev hev
  refine h ev ?_
  rw [auditIn, List.filterMap_cons]
  split
  · exact hev
  · exact List.mem_cons_of_mem _ hev

theorem Fair.other (h : Fair entry tr) (hq : q.isRecord = false) : Fair entry (⟨q, r⟩ :: tr) := by
  have hstep : BeforeSegments entry tr q := by
    cases q <;> trivial
  rw [Fair, correlated_other hq]
  exact h.trans ⟨fun hall => ⟨hstep, hall⟩, fun hall => hall.2⟩

/-- An event keeps the balance when, among right events, it is right exactly when its step
meets the condition. -/
theorem Fair.record {who : Recorder} {tx : Option TxID} {ev : StateMachineEvent}
    {r : (Call.record who tx ev).Answer} (h : Fair entry tr)
    (hstep : Correlated entry tr →
      (ev.transactionID = entry ↔ BeforeSegments entry tr (.record who tx ev))) :
    Fair entry (⟨.record who tx ev, r⟩ :: tr) := by
  rw [Fair, correlated_record]
  constructor
  · rintro ⟨hid, hcorr⟩
    exact ⟨(hstep hcorr).mp hid, h.mp hcorr⟩
  · rintro ⟨hbefore, hall⟩
    have hcorr := h.mpr hall
    exact ⟨(hstep hcorr).mpr hbefore, hcorr⟩

theorem namedSegmented_of_ne
    (hq : ∀ tx ev, q = .record .fireTransition tx ev → ev.eventType ≠ .transitionMade) :
    namedSegmented entry (⟨q, r⟩ :: tr) = namedSegmented entry tr := by
  cases q with
  | record who tx ev =>
    cases who with
    | fireTransition => exact if_neg (hq tx ev rfl)
    | _ => rfl
  | _ => rfl

end Steps

/-! ## The engine -/

section Rules

variable {entry : TxID}

/-- What is known beside the ledger: the events are fair, and `N` is known of the named
transition. -/
def Noted (entry : TxID) (N : Bool → Prop) (tr : Trace) : Prop :=
  Fair entry tr ∧ N (namedSegmented entry tr)

/-- The pipeline entered with `p` is right if everything before is. -/
def Marked (entry p : TxID) (tr : Trace) : Prop := Correlated entry tr → p = entry

variable {N : Bool → Prop} {tr : Trace}

theorem Noted.other {q : Call} {r : q.Answer} (h : Noted entry N tr) (hq : q.isRecord = false) :
    Noted entry N (⟨q, r⟩ :: tr) := by
  refine ⟨h.1.other hq, ?_⟩
  rw [namedSegmented_of_ne]
  · exact h.2
  · rintro tx ev rfl
    cases hq

theorem Noted.record {who : Recorder} {tx : Option TxID} {ev : StateMachineEvent}
    {r : (Call.record who tx ev).Answer} (h : Noted entry N tr)
    (hmade : who = .fireTransition → ev.eventType ≠ .transitionMade)
    (hstep : Correlated entry tr →
      (ev.transactionID = entry ↔ BeforeSegments entry tr (.record who tx ev))) :
    Noted entry N (⟨.record who tx ev, r⟩ :: tr) := by
  refine ⟨h.1.record hstep, ?_⟩
  rw [namedSegmented_of_ne]
  · exact h.2
  · rintro tx' ev' heq
    cases heq
    exact hmade rfl

theorem isRecord_of_plain {q : Call} (hq : q.plain = true) : q.isRecord = false := by
  cases q <;> first | rfl | cases hq

theorem leads_noted {q : Call} (hq : q.isRecord = false) (htx : ∀ r, txEffect ⟨q, r⟩ = .nothing)
    (P : Ledger → Prop) :
    Leads (recorded (freshIDs entry)) (fun _ _ => True) q
      (fun tr => P (ledger entry tr) ∧ Noted entry N tr)
      (fun tr => P (ledger entry tr) ∧ Noted entry N tr) := by
  rintro tr _ r _ ⟨hP, hN⟩ rfl ⟨-, rfl⟩
  refine ⟨trivial, ?_, hN.other hq⟩
  simpa [ledger, Ledger.after, htx r] using hP

/-- An event that is right exactly when its step meets the condition, given what is known. -/
theorem leads_record {who : Recorder} {tx : Option TxID} {ev : StateMachineEvent}
    (hmade : who = .fireTransition → ev.eventType ≠ .transitionMade) {P : Ledger → Prop}
    {M : Trace → Prop}
    (hstep : ∀ tr, P (ledger entry tr) → Noted entry N tr → M tr → Correlated entry tr →
      (ev.transactionID = entry ↔ BeforeSegments entry tr (.record who tx ev))) :
    Leads (recorded (freshIDs entry)) (fun _ _ => True) (.record who tx ev)
      (fun tr => (P (ledger entry tr) ∧ Noted entry N tr) ∧ M tr)
      (fun tr => P (ledger entry tr) ∧ Noted entry N tr) := by
  rintro tr _ r _ ⟨⟨hP, hN⟩, hM⟩ rfl ⟨-, rfl⟩
  exact ⟨trivial, hP, hN.record hmade (hstep tr hP hN hM)⟩

theorem noted_atBoundary {p : TxID} (q : Call) (r : q.Answer) (tr : Trace)
    (hat : AtBoundary p q) (h : Noted entry N tr ∧ Marked entry p tr) :
    Noted entry N (⟨q, r⟩ :: tr) ∧ Marked entry p (⟨q, r⟩ :: tr) := by
  refine ⟨?_, fun hcorr => h.2 hcorr.tail⟩
  cases q with
  | record who tx ev =>
    obtain ⟨rfl, hid⟩ := hat
    refine h.1.record (by simp) fun hcorr => ?_
    simp [BeforeSegments, hid, h.2 hcorr]
  | _ => exact h.1.other rfl

/-- The cursor's rules. A pipeline starts right exactly when nothing was committed; `houter`
says when the events of the function around it are right. Less may be known of the named
transition once an error is on its way up. -/
theorem auditRules (hentry : entry ≠ "") (e : Engine) {recorder : Recorder} {o : TxID}
    {F : Bool → Prop} {moved : TxID → Trace → Prop} (hfail : ∀ b, N b → F b)
    (houter : ∀ tr tx ev, ev.transactionID = o → F (namedSegmented entry tr) →
      (o = entry ↔ BeforeSegments entry tr (.record recorder tx ev)))
    (hmade : ∀ t tx ev, ev.eventType = .transitionMade → ev.transactionID = o →
      Leads (recorded (freshIDs entry)) (fun _ _ => True) (.record recorder tx ev)
        (fun tr => (ledger entry tr).Holds entry t ∧ Noted entry N tr) (moved t)) :
    EngineRules e (recorded (freshIDs entry)) (fun _ _ => True) recorder o
      (fun _ t _ tr => (ledger entry tr).Holds entry t ∧ Noted entry N tr)
      (fun _ t _ tr => moved t tr)
      (fun t tr => (ledger entry tr).Fails entry t ∧ Noted entry F tr)
      (fun p tr => Marked entry p tr) where
  held_plain _ t _ _ hq :=
    leads_noted (isRecord_of_plain hq) (txEffect_of_plain hq) (·.Holds entry t)
  mark_stable p tr _ q r _ h h1 h2 := by
    obtain rfl := h1
    obtain ⟨-, rfl⟩ := h2
    exact fun hcorr => h hcorr.tail
  pause _ t _ tx ev htype hid := by
    rintro tr _ r _ ⟨hP, hN⟩ rfl ⟨-, rfl⟩
    refine ⟨trivial, ⟨hP, hN.record (by simp) fun _ => ?_⟩, fun hcorr => ?_⟩
    · rw [hid]
      simpa [BeforeSegments, htype] using not_iff_not.mp hP.segmented
    · exact hid.symm.trans (correlated_record.mp hcorr).1
  result _ t _ p tx ev htype hid :=
    leads_record (by simp) (P := (·.Holds entry t)) fun tr _ _ hM hcorr => by
      simp [BeforeSegments, htype, hid, hM hcorr]
  result_failed t p tx ev htype hid :=
    leads_record (by simp) (P := (·.Fails entry t)) fun tr _ _ hM hcorr => by
      simp [BeforeSegments, htype, hid, hM hcorr]
  segment _ _ _ p proc workflow transition _ h hm := by
    refine ((segmentRules hentry p (X := fun tr => Noted entry N tr ∧ Marked entry p tr)
      noted_atBoundary).executeCommitBeforeDispatch proc workflow transition
        ⟨h.1, h.2, hm⟩).mono ?_
    intro r _ _ h
    cases r with
    | ok cursor => exact ⟨h.1, h.2.1⟩
    | error err => exact ⟨h.1, h.2.1.1, hfail _ h.2.1.2⟩
  outer _ t _ tx ev htype hid :=
    (leads_record (fun _ => htype) (P := (·.Holds entry t)) (M := fun _ => True)
      fun tr _ hN _ _ => hid ▸ houter tr tx ev hid (hfail _ hN.2)).mono
        (fun _ h => ⟨h, trivial⟩) fun _ h => h
  outer_failed t tx ev htype hid :=
    (leads_record (fun _ => htype) (P := (·.Fails entry t)) (M := fun _ => True)
      fun tr _ hN _ _ => hid ▸ houter tr tx ev hid hN.2).mono (fun _ h => ⟨h, trivial⟩) fun _ h => h
  made _ t _ tx ev htype hid := hmade t tx ev htype hid
  data _ _ _ _ _ h := h
  state _ _ _ _ _ h := h
  fail _ _ _ _ h := ⟨h.1.fails, h.2.1, hfail _ h.2.2⟩

/-- The named transition records under the entry transaction, and decides what the cascade
after it records under. -/
theorem made_decides (t : TxID) (tx : Option TxID) (ev : StateMachineEvent)
    (htype : ev.eventType = .transitionMade) (hid : ev.transactionID = entry) :
    Leads (recorded (freshIDs entry)) (fun _ _ => True) (.record .fireTransition tx ev)
      (fun tr => (ledger entry tr).Holds entry t ∧ Noted entry (· = false) tr)
      (fun tr => (ledger entry tr).Holds entry t ∧
        Noted entry (fun b => t = entry ↔ b = false) tr) := by
  rintro tr _ r _ ⟨hP, hN⟩ rfl ⟨-, rfl⟩
  have hfair : Fair entry (⟨.record .fireTransition tx ev, r⟩ :: tr) :=
    hN.1.record fun _ => by simp [BeforeSegments, hid]
  refine ⟨trivial, hP, hfair, ?_⟩
  have hsegmented := not_iff_not.mp hP.segmented
  simpa [namedSegmented, htype] using hsegmented

/-- What the cascade after `o` knows of the named transition. -/
abbrev After (entry o : TxID) (tr : Trace) : Prop := Noted entry (fun b => o = entry ↔ b = false) tr

theorem auditEntryRules (hentry : entry ≠ "") (e : Engine) :
    EntryRules e (recorded (freshIDs entry)) (fun _ _ => True) entry
      (fun _ t _ tr => (ledger entry tr).Holds entry t ∧ Noted entry (· = false) tr)
      (fun _ t _ tr => (ledger entry tr).Holds entry t ∧ After entry t tr)
      (fun o _ t _ tr => (ledger entry tr).Holds entry t ∧ After entry o tr)
      (fun o t tr => (ledger entry tr).Fails entry t ∧ After entry o tr)
      (fun t tr => (ledger entry tr).Fails entry t ∧ Noted entry (fun _ => True) tr)
      (fun _ tr => Fair entry tr) (Fair entry) (fun p tr => Marked entry p tr) where
  fire := auditRules hentry e (fun _ _ => trivial) (fun _ _ _ _ _ => by simp [BeforeSegments])
    made_decides
  cascade o := auditRules hentry e (fun _ h => h)
    (fun _ _ _ _ h => by simpa [BeforeSegments] using h) fun t tx ev _ hid =>
      (leads_record (by simp) (P := (·.Holds entry t)) (M := fun _ => True)
        fun tr _ hN _ _ => by simpa [BeforeSegments, hid] using hN.2).mono
          (fun _ h => ⟨h, trivial⟩) fun _ h => h
  fail _ _ _ h := ⟨h.1, h.2.1, trivial⟩
  enter _ _ _ h := ⟨h.1, h.2.1, by simp [h.2.2]⟩
  enter_moved _ _ _ _ h := h
  initial _ _ _ _ h := h
  note _ _ who tx ev hwho hid :=
    (leads_record (by rintro rfl; simp at hwho) (P := (·.Holds entry entry)) (M := fun _ => True)
      fun tr _ _ _ _ => by
        rcases List.mem_cons.mp hwho with rfl | hwho
        · simp [BeforeSegments, hid]
        rcases List.mem_cons.mp hwho with rfl | hwho
        · simp [BeforeSegments, hid]
        rw [List.mem_singleton.mp hwho]
        simp [BeforeSegments, hid]).mono (fun _ h => ⟨h, trivial⟩) fun _ h => h
  reconcile _ _ t _ _ _ := leads_noted rfl (fun _ => rfl) (·.Holds entry t)
  note_reconciled _ _ t _ tx ev hid :=
    (leads_record (by simp) (P := (·.Holds entry t)) (M := fun _ => True)
      fun tr hP _ _ _ => by
        rw [hid]
        simpa [BeforeSegments] using not_iff_not.mp hP.segmented).mono
          (fun _ h => ⟨h, trivial⟩) fun _ h => h
  finish _ _ t _ tx ev hid :=
    (leads_record (by simp) (P := (·.Holds entry t)) (M := fun _ => True)
      fun tr _ _ _ _ => by simp [BeforeSegments, hid]).mono
        (fun _ h => ⟨h, trivial⟩) fun _ h => h.2.1
  close _ _ _ h := h.2.1
  give_up _ _ _ := by
    rintro tr _ r _ ⟨-, hN⟩ rfl ⟨-, rfl⟩
    exact ⟨trivial, hN.1.other rfl⟩
  given_up _ _ _ h := h.2.1

end Rules

/-- The events of an entry point all carry the caller's transaction exactly when none of its
steps comes after a commit that moved the cursor. -/
theorem audit_correlation (e : Engine) (ctx : Ctx) (call : EntryCall) (f f' : Frame)
    (hentry : f.entity.info.transactionID ≠ "") (tr : Trace)
    (result : Except EngineError EngineResult)
    (h : Program.Executes (recorded (freshIDs f.entity.info.transactionID))
      (call.routine e ctx f) [] (result, f') tr) :
    (∀ ev ∈ auditIn tr, ev.transactionID = f.entity.info.transactionID) ↔
      AllSteps (BeforeSegments f.entity.info.transactionID) tr := by
  have hledger : (ledger f.entity.info.transactionID []).Holds f.entity.info.transactionID
      f.entity.info.transactionID :=
    ⟨⟨.inl rfl, by simp [ledger], by simp [ledger], by simp [ledger]⟩, rfl, by simp [ledger]⟩
  have hnoted : Noted f.entity.info.transactionID (· = false) [] :=
    ⟨by simp [Fair, Correlated, auditIn, AllSteps], rfl⟩
  have hpost := ((auditEntryRules hentry e).routine hentry rfl call ⟨hledger, hnoted⟩
    (c := ctx)).of_executes h
  cases result with
  | error err => exact hpost
  | ok res => exact hpost.1

open Sample

/-- In the sample, the pipeline of `price` starts after the commit that `check` made, and its
events carry the transaction that was begun then. -/
theorem audit_correlation_sample : ∃ result tr f',
    Program.Executes (recorded (freshIDs "tx"))
      ((EntryCall.execute "").routine engine ctx frame) [] (result, f') tr ∧
    ¬ (∀ ev ∈ auditIn tr, ev.transactionID = "tx") := by
  obtain ⟨⟨result, f'⟩, tr, hrun, hcheck⟩ := Program.exists_executes_of_play answer
    (freshIDs_of_test "tx") ((EntryCall.execute "").routine engine ctx frame)
    (fun _ tr => !(auditIn tr).all (fun ev => ev.transactionID == "tx")) (by decide +kernel)
  refine ⟨result, tr, f', hrun, fun hall => ?_⟩
  have htrue : (auditIn tr).all (fun ev => ev.transactionID == "tx") = true :=
    List.all_eq_true.mpr fun ev hev => by simp [hall ev hev]
  simp [htrue] at hcheck

instance decidableBeforeSegments (entry : TxID) (tr : Trace) (q : Call) :
    Decidable (BeforeSegments entry tr q) := by
  unfold BeforeSegments
  split <;> infer_instance

instance decidableAllSteps (P : Trace → Call → Prop) [∀ tr q, Decidable (P tr q)] :
    (tr : Trace) → Decidable (AllSteps P tr)
  | [] => isTrue trivial
  | x :: tr =>
    have := decidableAllSteps P tr
    inferInstanceAs (Decidable (P tr x.1 ∧ AllSteps P tr))

namespace Sample

/-- The second transition segments instead of the first one. -/
def lateSegment : WorkflowDefinition :=
  { workflow with
    states := ((GoMap.set ∅ "new" ⟨[transition "check" "checked" [processor "audit" .sync]]⟩).set
      "checked" ⟨[transition "price" "priced" [processor "tariff" .commitBeforeDispatch]]⟩).set
      "priced" ⟨[]⟩ }

def lateAnswer (tr : Trace) : (q : Call) → q.Answer
  | .getWorkflows .. => .ok [lateSegment]
  | q => answer tr q

end Sample

/-- A loopback with two pipelines, the second of which commits the caller's transaction: both had
started before, so all events carry it. -/
theorem audit_correlation_loopback : ∃ result tr f',
    Program.Executes (recorded (freshIDs "tx"))
      (EntryCall.loopback.routine engine ctx (frame.withState "new")) []
      (result, f') tr ∧
    (ledger "tx" tr).committed = ["tx"] ∧ (auditIn tr).length = 9 ∧
    ∀ ev ∈ auditIn tr, ev.transactionID = "tx" := by
  obtain ⟨⟨result, f'⟩, tr, hrun, hcheck⟩ := Program.exists_executes_of_play lateAnswer
    (freshIDs_of_test "tx")
    (EntryCall.loopback.routine engine ctx (frame.withState "new"))
    (fun _ tr => (ledger "tx" tr).committed = ["tx"] ∧ (auditIn tr).length = 9 ∧
      AllSteps (BeforeSegments "tx") tr) (by decide +kernel)
  obtain ⟨hcommitted, hlength, hsteps⟩ := of_decide_eq_true hcheck
  exact ⟨result, tr, f', hrun, hcommitted, hlength,
    (audit_correlation engine ctx .loopback (frame.withState "new") f'
      (by decide) tr result hrun).mpr hsteps⟩

end CyodaGo.Workflow
