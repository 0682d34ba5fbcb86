import CyodaGo.Verification.Workflow.Segments

/-! # What a cascade does

A cascade is a path: in each round one transition fires, the first automated one of the current
state whose criterion holds. The surroundings answer as they like, so a statement about all
executions is one about every criterion, processor and store. -/

namespace CyodaGo.Workflow

open Memory (TxID)
open Routine

variable {σ : Type}

/-- Where a cascade stands: its cursor, what its functions share, and the surroundings. -/
structure Position (σ : Type) where
  ctx : Ctx
  txID : TxID
  frame : Frame
  world : σ

namespace Position

def state (c : Position σ) : String := c.frame.entity.info.state

/-- The surroundings went on, the cascade did not. -/
def later (c : Position σ) (world : σ) : Position σ := { c with world }

end Position

def TransitionDefinition.automated (tr : TransitionDefinition) : Bool :=
  !(tr.disabled || tr.manual || tr.schedule.isSome)

section Rounds

variable (w : Surroundings Call Call.Answer σ) (e : Engine) (wf : WorkflowDefinition) (txID : TxID)

/-- The criterion of the transition, evaluated on the entity as it is at `c`. -/
def Evaluates (c : Position σ) (tr : TransitionDefinition)
    (result : Except EngineError (Bool × String)) (world : σ) : Prop :=
  Runs w (evaluateOptional e tr.criterion ⟨c.ctx.tx, c.txID, wf.name, some tr.name⟩)
    c.frame c.world result c.frame world

/-- No transition of the list fires: each is not automated or its criterion does not hold. -/
inductive PassedOver : Position σ → List TransitionDefinition → σ → Prop
  | nil (c : Position σ) : PassedOver c [] c.world
  | skipped {c : Position σ} {tr : TransitionDefinition} {rest : List TransitionDefinition} {s : σ}
      (h : tr.automated = false) (hrest : PassedOver c rest s) : PassedOver c (tr :: rest) s
  | noMatch {c : Position σ} {tr : TransitionDefinition} {rest : List TransitionDefinition}
      {reason : String} {s1 s2 s : σ} (h : tr.automated = true)
      (hcriterion : Evaluates w e wf c tr (.ok (false, reason)) s1)
      (hrecord : Runs w (recordEvent .cascadeAutomated c.ctx txID .transitionCriterionNoMatch)
        c.frame s1 () c.frame s2)
      (hrest : PassedOver (c.later s2) rest s) : PassedOver c (tr :: rest) s

/-- `tr` is the first automated transition of the list that has not been passed over. -/
inductive Reaches (c : Position σ) (trs : List TransitionDefinition) (tr : TransitionDefinition)
    (s : σ) : Prop
  | intro {before after : List TransitionDefinition} (hsplit : trs = before ++ tr :: after)
      (hpassed : PassedOver w e wf txID c before s) (hautomated : tr.automated = true)

/-- `tr` is the first automated transition of the list whose criterion holds, and it is made. -/
inductive Made (c : Position σ) (trs : List TransitionDefinition) (tr : TransitionDefinition)
    (c' : Position σ) : Prop
  | intro {reason : String} {s1 s2 : σ} (hreaches : Reaches w e wf txID c trs tr s1)
      (hholds : Evaluates w e wf (c.later s1) tr (.ok (true, reason)) s2)
      (hrun : Runs w (runTransition e .cascadeAutomated wf tr c.ctx txID c.txID) c.frame s2
        ⟨c'.ctx, c'.txID, none⟩ c'.frame c'.world)

/-- A criterion cannot be evaluated, or a transition that is to be made fails. -/
inductive Breaks (c : Position σ) (trs : List TransitionDefinition) : Handed → Frame → σ → Prop
  | criterion {tr : TransitionDefinition} {err : EngineError} {s1 s : σ}
      (hreaches : Reaches w e wf txID c trs tr s1)
      (hfails : Evaluates w e wf (c.later s1) tr (.error err) s) :
      Breaks c trs ⟨c.ctx, c.txID, some (.transitionCriterion err)⟩ c.frame s
  | transition {tr : TransitionDefinition} {reason : String} {handed : Handed} {err : EngineError}
      {f : Frame} {s1 s2 s : σ} (hreaches : Reaches w e wf txID c trs tr s1)
      (hholds : Evaluates w e wf (c.later s1) tr (.ok (true, reason)) s2)
      (hrun : Runs w (runTransition e .cascadeAutomated wf tr c.ctx txID c.txID) c.frame s2
        handed f s)
      (herr : handed.err = some err) : Breaks c trs handed f s

/-- A round of the cascade that fires `tr`. -/
inductive Fires (c : Position σ) (tr : TransitionDefinition) (c' : Position σ) : Prop
  | intro {stateDef : StateDefinition} {s : σ}
      (hlive : Runs w (contextErr c.ctx) c.frame c.world none c.frame s)
      (hdeclared : wf.states.get c.state = some stateDef)
      (hmade : Made w e wf txID (c.later s) stateDef.transitions tr c')

/-- The cascade goes from `c` through rounds that fire these transitions. -/
inductive Path : Position σ → List TransitionDefinition → Position σ → Prop
  | stop (c : Position σ) : Path c [] c
  | step {c c' c'' : Position σ} {tr : TransitionDefinition} {trs : List TransitionDefinition}
      (hfires : Fires w e wf txID c tr c') (hrest : Path c' trs c'') : Path c (tr :: trs) c''

/-- Nothing is left to do at `c`: the workflow does not declare the state, or no automated
transition of it has a criterion that holds. -/
inductive AtRest (c : Position σ) : σ → Prop
  | undeclared {s : σ} (hlive : Runs w (contextErr c.ctx) c.frame c.world none c.frame s)
      (h : wf.states.get c.state = none) : AtRest c s
  | passedOver {stateDef : StateDefinition} {s1 s : σ}
      (hlive : Runs w (contextErr c.ctx) c.frame c.world none c.frame s1)
      (h : wf.states.get c.state = some stateDef)
      (hpassed : PassedOver w e wf txID (c.later s1) stateDef.transitions s) : AtRest c s

/-- How the cascade goes on from `c` to its end without firing anything more, with `left` rounds
left and after `visits` rounds in this state: what it hands back, the frame and the
surroundings. -/
inductive Ends (left visits : ℕ) (c : Position σ) : Handed → Frame → σ → Prop
  | depth {s : σ} (h : left = 0)
      (hrecord : Runs w (recordEvent .cascadeAutomated c.ctx txID .cancelled) c.frame c.world ()
        c.frame s) :
      Ends left visits c ⟨c.ctx, c.txID, some (.cascadeDepth maxCascadeDepth c.state)⟩ c.frame s
  | cancelled {err : ServiceError} {s : σ} (h : 0 < left)
      (hexpired : Runs w (contextErr c.ctx) c.frame c.world (some err) c.frame s) :
      Ends left visits c ⟨c.ctx, c.txID, some (.cascadeAborted err)⟩ c.frame s
  | visits {s1 s : σ} (h : 0 < left) (hlimit : e.maxStateVisits ≤ visits)
      (hlive : Runs w (contextErr c.ctx) c.frame c.world none c.frame s1)
      (hrecord : Runs w (recordEvent .cascadeAutomated c.ctx txID .cancelled) c.frame s1 ()
        c.frame s) :
      Ends left visits c ⟨c.ctx, c.txID, some (.stateVisits c.state (visits + 1) e.maxStateVisits)⟩
        c.frame s
  | atRest {s : σ} (h : 0 < left) (hlimit : visits < e.maxStateVisits)
      (hrest : AtRest w e wf txID c s) : Ends left visits c ⟨c.ctx, c.txID, none⟩ c.frame s
  | failed {stateDef : StateDefinition} {handed : Handed} {f : Frame} {s1 s : σ} (h : 0 < left)
      (hlimit : visits < e.maxStateVisits)
      (hlive : Runs w (contextErr c.ctx) c.frame c.world none c.frame s1)
      (hdeclared : wf.states.get c.state = some stateDef)
      (hbreaks : Breaks w e wf txID (c.later s1) stateDef.transitions handed f s) :
      Ends left visits c handed f s

end Rounds

variable {w : Surroundings Call Call.Answer σ} {e : Engine} {wf : WorkflowDefinition} {txID : TxID}

/-! ## What the functions of a round do -/

variable {q : Call} {f' : Frame} {s s' : σ} {tr : TransitionDefinition} {handed : Handed}
  {c : Position σ}

/-- Answers do not change the frame: only the code does. -/
theorem runs_ask {r : q.Answer} {f : Frame} (h : Runs w (ask q) f s r f' s') : f' = f := by
  cases h with
  | ask _ _ hdone =>
    cases hdone
    rfl

theorem runs_recordEvent {recorder : Recorder} {ctx : Ctx} {type : EventType} {u : Unit} {f : Frame}
    (h : Runs w (recordEvent recorder ctx txID type) f s u f' s') :
    f' = f :=
  runs_ask (runs_get h)

/-- Nothing is asked of the surroundings here. -/
theorem leads_anywhere (q : Call) (_ : q.plain = true) :
    Leads w (fun _ _ => True) q (fun _ => True) (fun _ => True) :=
  fun _ _ _ _ _ _ _ => ⟨trivial, trivial⟩

theorem runs_contextErr {ctx : Ctx} {r : Option ServiceError} {f : Frame}
    (h : Runs w (contextErr ctx) f s r f' s') : f' = f :=
  (h.of_ensures (contextErr_keeps leads_anywhere ctx trivial)).1

theorem runs_evaluateOptional {criterion : Option Criterion} {cc : CriterionContext}
    {r : Except EngineError (Bool × String)} {f : Frame}
    (h : Runs w (evaluateOptional e criterion cc) f s r f' s') : f' = f :=
  (h.of_ensures (evaluateOptional_keeps leads_anywhere e criterion cc trivial)).1

theorem runs_runTransition {recorder : Recorder} {ctx : Ctx} {pipelineTxID : TxID} {f : Frame}
    (h : Runs w (runTransition e recorder wf tr ctx txID pipelineTxID) f s handed f' s')
    (hok : handed.err = none) : f'.entity.info.state = tr.next := by
  obtain ⟨ran, f1, s1, -, h⟩ := runs_bind h
  cases hran : ran.err with
  | some err =>
    simp only [hran] at h
    obtain ⟨_, f2, s2, -, h⟩ := runs_bind h
    simp [(runs_pure.mp h).1, hran] at hok
  | none =>
    simp only [hran] at h
    obtain ⟨_, f2, s2, -, h⟩ := runs_bind h
    obtain ⟨_, f3, s3, hset, h⟩ := runs_bind h
    cases hset
    rw [(runs_pure.mp h).2.1]
    rfl

theorem Fires.state_eq {c' : Position σ} (h : Fires w e wf txID c tr c') : c'.state = tr.next := by
  obtain ⟨-, -, hmade⟩ := h
  obtain ⟨-, -, hrun⟩ := hmade
  exact runs_runTransition hrun rfl

/-- What the loop over the transitions of a state comes to. -/
inductive Tried (w : Surroundings Call Call.Answer σ) (e : Engine) (wf : WorkflowDefinition)
    (txID : TxID) (c : Position σ) (trs : List TransitionDefinition) :
    Automated → Frame → σ → Prop
  | stable {s : σ} (h : PassedOver w e wf txID c trs s) : Tried w e wf txID c trs .stable c.frame s
  | fired {tr : TransitionDefinition} {c' : Position σ} (h : Made w e wf txID c trs tr c') :
      Tried w e wf txID c trs (.fired c'.ctx c'.txID) c'.frame c'.world
  | failed {handed : Handed} {f : Frame} {s : σ} (h : Breaks w e wf txID c trs handed f s) :
      Tried w e wf txID c trs (.failed handed) f s

/-- One more transition in front that is passed over. -/
theorem Tried.cons {rest : List TransitionDefinition} {r : Automated} {f : Frame} {s0 : σ}
    (hpass : ∀ {before s}, PassedOver w e wf txID (c.later s0) before s →
      PassedOver w e wf txID c (tr :: before) s) (h : Tried w e wf txID (c.later s0) rest r f s) :
    Tried w e wf txID c (tr :: rest) r f s := by
  have hreach {next : TransitionDefinition} {s1 : σ} :
      Reaches w e wf txID (c.later s0) rest next s1 → Reaches w e wf txID c (tr :: rest) next s1 := by
    rintro ⟨hsplit, hpassed, hautomated⟩
    exact ⟨congrArg (tr :: ·) hsplit, hpass hpassed, hautomated⟩
  cases h with
  | stable hpassed => exact .stable (hpass hpassed)
  | fired hmade =>
    obtain ⟨hreaches, hholds, hrun⟩ := hmade
    exact .fired ⟨hreach hreaches, hholds, hrun⟩
  | failed hbreaks =>
    cases hbreaks with
    | criterion hreaches hfails => exact .failed (.criterion (hreach hreaches) hfails)
    | transition hreaches hholds hrun herr =>
      exact .failed (.transition (hreach hreaches) hholds hrun herr)

theorem fireAutomated_tried {trs : List TransitionDefinition} {r : Automated} {f : Frame}
    (h : Runs w (fireAutomated e wf txID c.ctx c.txID trs) c.frame c.world r f s) :
    Tried w e wf txID c trs r f s := by
  induction trs generalizing c with
  | nil =>
    obtain ⟨rfl, rfl, rfl⟩ := runs_pure.mp h
    exact .stable (.nil c)
  | cons tr rest ih =>
    by_cases hskip : (tr.disabled || tr.manual || tr.schedule.isSome) = true
    · rw [fireAutomated, if_pos hskip] at h
      have hmanual : tr.automated = false := by simp [TransitionDefinition.automated, hskip]
      have htried : Tried w e wf txID (c.later c.world) rest r f s := ih h
      exact htried.cons (.skipped hmanual)
    · rw [fireAutomated, if_neg hskip] at h
      have hautomated : tr.automated = true := by
        simpa [TransitionDefinition.automated] using hskip
      obtain ⟨result, f1, s1, hcriterion, h⟩ := runs_bind h
      obtain rfl := runs_evaluateOptional hcriterion
      have hreaches : Reaches w e wf txID c (tr :: rest) tr c.world :=
        ⟨(List.nil_append _).symm, .nil c, hautomated⟩
      match result with
      | .error err =>
        obtain ⟨rfl, rfl, rfl⟩ := runs_pure.mp h
        exact .failed (.criterion hreaches hcriterion)
      | .ok (false, reason) =>
        obtain ⟨_, f2, s2, hrecord, h⟩ := runs_bind h
        obtain rfl := runs_recordEvent hrecord
        exact .cons (.noMatch hautomated hcriterion hrecord) (ih (c := c.later s2) h)
      | .ok (true, reason) =>
        obtain ⟨handed, f2, s2, hrun, h⟩ := runs_bind h
        obtain ⟨ctx', txID', err⟩ := handed
        cases err with
        | some err =>
          obtain ⟨rfl, rfl, rfl⟩ := runs_pure.mp h
          exact .failed (.transition hreaches hcriterion hrun rfl)
        | none =>
          obtain ⟨rfl, rfl, rfl⟩ := runs_pure.mp h
          have hmade : Made w e wf txID c (tr :: rest) tr ⟨ctx', txID', f, s⟩ :=
            ⟨hreaches, hcriterion, hrun⟩
          exact .fired hmade

/-! ## Whole cascades -/

/-- The states in which these transitions fire, one after the other. -/
def departures (state : String) : List TransitionDefinition → List String
  | [] => []
  | tr :: trs => state :: departures tr.next trs

theorem departures_append (state : String) (trs : List TransitionDefinition) :
    departures state trs ++ [(trs.map (·.next)).getLastD state] = state :: trs.map (·.next) := by
  induction trs generalizing state with
  | nil => rfl
  | cons tr trs ih =>
    rw [departures, List.map_cons, List.getLastD_cons, List.cons_append, ih]

theorem Path.state_eq {c' : Position σ} {trs : List TransitionDefinition}
    (h : Path w e wf txID c trs c') : c'.state = (trs.map (·.next)).getLastD c.state := by
  induction h with
  | stop c => rfl
  | step hfires _ ih => rw [ih, hfires.state_eq, List.map_cons, List.getLastD_cons]

/-- One more visit is one more departure. -/
theorem getD_visited (visits : GoMap String ℕ) (here state : String) (ds : List String) :
    (visits.set here (visits.getD here 0 + 1)).getD state 0 + ds.count state =
      visits.getD state 0 + (here :: ds).count state := by
  rw [GoMap.getD_set, List.count_cons]
  by_cases heq : state = here
  · subst heq
    simp
    omega
  · simp [heq, Ne.symm heq]

/-- `visits` counts the earlier rounds in each state. -/
theorem cascadeFrom_path {left : ℕ} {visits : GoMap String ℕ} {f : Frame}
    (hvisits : ∀ state, visits.getD state 0 ≤ e.maxStateVisits)
    (h : Runs w (cascadeFrom e wf txID left visits c.ctx c.txID) c.frame c.world handed f s) :
    ∃ fired c', Path w e wf txID c fired c' ∧ fired.length ≤ left ∧
      (∀ state, visits.getD state 0 + (departures c.state fired).count state ≤ e.maxStateVisits) ∧
      Ends w e wf txID (left - fired.length)
        (visits.getD c'.state 0 + (departures c.state fired).count c'.state) c' handed f s := by
  induction left generalizing visits c with
  | zero =>
    obtain ⟨_, f1, s1, hrecord, h⟩ := runs_bind (runs_get h)
    obtain rfl := runs_recordEvent hrecord
    obtain ⟨rfl, rfl, rfl⟩ := runs_pure.mp h
    exact ⟨[], c, .stop c, by simp, by simpa [departures] using hvisits, .depth (by simp) hrecord⟩
  | succ left ih =>
    -- A cascade that ends in this round fires nothing more.
    have hstop (hends : Ends w e wf txID (left + 1) (visits.getD c.state 0) c handed f s) :
        ∃ fired c', Path w e wf txID c fired c' ∧ fired.length ≤ left + 1 ∧
          (∀ state, visits.getD state 0 + (departures c.state fired).count state ≤
            e.maxStateVisits) ∧
          Ends w e wf txID (left + 1 - fired.length)
            (visits.getD c'.state 0 + (departures c.state fired).count c'.state) c' handed f s :=
      ⟨[], c, .stop c, by simp, by simpa [departures] using hvisits, by simpa [departures] using hends⟩
    obtain ⟨expired, f1, s1, hlive, h⟩ := runs_bind h
    obtain rfl := runs_contextErr hlive
    cases expired with
    | some err =>
      obtain ⟨rfl, rfl, rfl⟩ := runs_pure.mp h
      exact hstop (.cancelled (by simp) hlive)
    | none =>
      replace h := runs_get h
      by_cases hlimit : e.maxStateVisits < visits.getD c.frame.entity.info.state 0 + 1
      · simp only [if_pos hlimit] at h
        obtain ⟨_, f1, s2, hrecord, h⟩ := runs_bind h
        obtain rfl := runs_recordEvent hrecord
        obtain ⟨rfl, rfl, rfl⟩ := runs_pure.mp h
        exact hstop (.visits (by simp) (Nat.lt_succ_iff.mp hlimit) hlive hrecord)
      · simp only [if_neg hlimit] at h
        have hbelow : visits.getD c.state 0 < e.maxStateVisits := Nat.not_lt.mp hlimit
        cases hstate : wf.states.get c.frame.entity.info.state with
        | none =>
          simp only [hstate] at h
          obtain ⟨rfl, rfl, rfl⟩ := runs_pure.mp h
          exact hstop (.atRest (by simp) hbelow (.undeclared hlive hstate))
        | some stateDef =>
          simp only [hstate] at h
          obtain ⟨tried, f1, s2, htried, h⟩ := runs_bind h
          cases fireAutomated_tried (c := c.later s1) htried with
          | stable hpassed =>
            obtain ⟨rfl, rfl, rfl⟩ := runs_pure.mp h
            exact hstop (.atRest (by simp) hbelow (.passedOver hlive hstate hpassed))
          | failed hbreaks =>
            obtain ⟨rfl, rfl, rfl⟩ := runs_pure.mp h
            exact hstop (.failed (by simp) hbelow hlive hstate hbreaks)
          | @fired tr c' hmade =>
            have hfires : Fires w e wf txID c tr c' := ⟨hlive, hstate, hmade⟩
            have hvisits' (state : String) :
                (visits.set c.state (visits.getD c.state 0 + 1)).getD state 0 ≤
                  e.maxStateVisits := by
              rw [GoMap.getD_set]
              split
              · exact hbelow
              · exact hvisits state
            obtain ⟨fired, last, hpath, hlength, hbound, hends⟩ := ih (c := c') hvisits' h
            rw [hfires.state_eq] at hbound hends
            refine ⟨tr :: fired, last, .step hfires hpath, by simpa using hlength, ?_, ?_⟩
            · intro state
              rw [departures, ← getD_visited]
              exact hbound state
            · rw [departures, ← getD_visited]
              simpa using hends

/-- A state is entered once more than it is left, if it is the last one. -/
theorem count_entries_le (state0 state : String) (trs : List TransitionDefinition) :
    (trs.map (·.next)).count state ≤ (departures state0 trs).count state +
      if (trs.map (·.next)).getLastD state0 = state then 1 else 0 := by
  have hcount := congrArg (List.count state) (departures_append state0 trs)
  simp only [List.count_append, List.count_cons, List.count_nil, Nat.zero_add, beq_iff_eq] at hcount
  omega

/-! ## What the trace says -/

/-- The state in which the cascade made a transition, if the exchange records that. -/
def madeState : Exchange Call Call.Answer → Option String
  | ⟨.record .cascadeAutomated _ ev, _⟩ =>
    if ev.eventType = .transitionMade then some ev.state else none
  | _ => none

/-- The states of the `TransitionMade` events of a cascade, oldest first. -/
def madeStates (tr : Trace) : List String := (tr.filterMap madeState).reverse

def Call.ofCascade : Call → Bool
  | .record .cascadeAutomated .. => true
  | _ => false

theorem madeStates_cons (x : Exchange Call Call.Answer) (tr : Trace) :
    madeStates (x :: tr) = madeStates tr ++ (madeState x).toList := by
  cases h : madeState x <;> simp [madeStates, h]

theorem madeStates_other (hq : q.ofCascade = false) (r : q.Answer) (tr : Trace) :
    madeStates (⟨q, r⟩ :: tr) = madeStates tr := by
  have hnone : madeState ⟨q, r⟩ = none := by
    cases q with
    | record recorder => cases recorder <;> first | rfl | simp [Call.ofCascade] at hq
    | _ => rfl
  simp [madeStates_cons, hnone]

theorem ofCascade_of_plain (hq : q.plain = true) : q.ofCascade = false := by
  cases q <;> first | rfl | simp [Call.plain] at hq

section Recorded

variable {allowed : Trace → (q : Call) → q.Answer → Prop} {M : List String}

theorem leads_other {q : Call} (hq : q.ofCascade = false) :
    Leads (recorded allowed) (fun _ _ => True) q (madeStates · = M) (madeStates · = M) := by
  rintro tr _ r _ htr rfl ⟨-, rfl⟩
  exact ⟨trivial, (madeStates_other hq r tr).trans htr⟩

/-- While the frame stays in one state. -/
theorem leads_other_in {q : Call} (hq : q.ofCascade = false) (p : Prop) :
    Leads (recorded allowed) (fun _ _ => True) q (fun tr => madeStates tr = M ∧ p)
      (fun tr => madeStates tr = M ∧ p) :=
  (leads_other hq).and_stable fun _ _ _ _ _ h _ _ => h

theorem pipeline_segmentRules (p : TxID) (state : String) :
    SegmentRules (recorded allowed) (fun _ _ => True) p
      (fun _ _ f tr => madeStates tr = M ∧ f.entity.info.state = state)
      (fun _ _ _ f tr => madeStates tr = M ∧ f.entity.info.state = state)
      (fun _ _ f tr => madeStates tr = M ∧ f.entity.info.state = state)
      (fun _ f tr => madeStates tr = M ∧ f.entity.info.state = state)
      (fun _ _ _ f tr => madeStates tr = M ∧ f.entity.info.state = state)
      (fun _ tr => madeStates tr = M) where
  consume _ _ _ _ h := h
  ready_plain _ _ _ _ _ hq := leads_other_in (ofCascade_of_plain hq) _
  flushed_plain _ _ _ _ hq := leads_other_in (ofCascade_of_plain hq) _
  between_plain _ _ _ hq := leads_other_in (ofCascade_of_plain hq) _
  opened_plain _ _ _ _ _ hq := leads_other_in (ofCascade_of_plain hq) _
  failed_plain _ _ hq := leads_other (ofCascade_of_plain hq)
  failed_lookup _ _ := leads_other rfl
  failed_note _ _ _ _ := leads_other rfl
  ready_fail _ _ _ _ _ h := h.1
  flushed_fail _ _ _ _ h := h.1
  between_fail _ _ _ h := h.1
  opened_fail _ _ _ _ _ _ h := h.1
  save _ _ _ tr s1 r s2 h h1 h2 := by
    obtain ⟨-, h⟩ := leads_other_in (q := .save _ _) rfl _ tr s1 r s2 h h1 h2
    cases r with
    | ok _ => exact ⟨trivial, h⟩
    | error _ => exact ⟨trivial, h.1⟩
  compare _ _ _ _ tr s1 r s2 h h1 h2 := by
    obtain ⟨-, h⟩ := leads_other_in (q := .compareAndSave _ _ _) rfl _ tr s1 r s2 h h1 h2
    cases r with
    | ok _ => exact ⟨trivial, h⟩
    | error _ => exact ⟨trivial, h.1⟩
  commit _ _ _ tr s1 r s2 h h1 h2 := by
    obtain ⟨-, h⟩ := leads_other_in (q := .commit _) rfl _ tr s1 r s2 h h1 h2
    cases r with
    | committed => exact ⟨trivial, h⟩
    | refused _ _ => exact ⟨trivial, h.1⟩
  start _ _ _ tr s1 r s2 h h1 h2 := by
    obtain ⟨-, h⟩ := leads_other_in (q := .begin) rfl _ tr s1 r s2 h h1 h2
    cases r with
    | ok _ => exact ⟨trivial, h⟩
    | error _ => exact ⟨trivial, h.1⟩
  data _ _ _ _ _ _ h := h
  apply _ _ _ _ tr s1 r s2 h h1 h2 := by
    obtain ⟨-, h⟩ := leads_other_in (q := .compareAndSave _ _ _) rfl _ tr s1 r s2 h h1 h2
    cases r with
    | ok _ => exact ⟨trivial, h⟩
    | error _ => exact ⟨trivial, h⟩
  give_up _ _ _ _ _ _ := (leads_other_in rfl _).mono (fun _ h => h) fun _ h => h.1

variable (allowed M) in
/-- A pipeline makes no transition and leaves the state of the entity as it is. -/
theorem pipelineRules (e : Engine) (state : String) (o : TxID) :
    EngineRules e (recorded allowed) (fun _ _ => True) .executeProcessors o
      (fun _ _ f tr => madeStates tr = M ∧ f.entity.info.state = state) (fun _ _ _ _ => True)
      (fun _ tr => madeStates tr = M) (fun _ _ => True) where
  held_plain _ _ _ _ hq := leads_other_in (ofCascade_of_plain hq) _
  mark_stable _ _ _ _ _ _ _ _ _ := trivial
  pause _ _ _ _ _ _ _ := (leads_other_in rfl _).mono (fun _ h => h) fun _ h => ⟨h, trivial⟩
  result _ _ _ _ _ _ _ _ := (leads_other_in rfl _).mono (fun _ h => h.1) fun _ h => h
  result_failed _ _ _ _ _ _ := (leads_other rfl).mono (fun _ h => h.1) fun _ h => h
  segment _ _ _ p proc workflow transition _ h _ := by
    refine ((pipeline_segmentRules p state).executeCommitBeforeDispatch proc workflow transition
      h).mono ?_
    intro r _ _ h
    cases r with
    | ok cursor => exact h
    | error err => exact h
  outer _ _ _ _ _ _ _ := leads_other_in rfl _
  outer_failed _ _ _ _ _ := leads_other rfl
  made _ _ _ _ _ _ _ := (leads_other_in rfl _).mono (fun _ h => h) fun _ _ => trivial
  data _ _ _ _ _ h := h
  state _ _ _ _ _ _ := trivial
  fail _ _ _ _ h := h.1

variable {f f' : Frame} {tr tr' : Trace} {ctx : Ctx}

theorem contextErr_made {r : Option ServiceError}
    (h : Runs (recorded allowed) (contextErr ctx) f tr r f' tr') : madeStates tr' = madeStates tr :=
  (h.of_ensures (contextErr_keeps (fun _ hq => leads_other (ofCascade_of_plain hq)) ctx rfl)).2

theorem evaluateOptional_made {criterion : Option Criterion} {cc : CriterionContext}
    {r : Except EngineError (Bool × String)}
    (h : Runs (recorded allowed) (evaluateOptional e criterion cc) f tr r f' tr') :
    madeStates tr' = madeStates tr :=
  (h.of_ensures (evaluateOptional_keeps (fun _ hq => leads_other (ofCascade_of_plain hq)) e criterion
    cc rfl)).2

theorem recordEvent_made {type : EventType} {u : Unit}
    (h : Runs (recorded allowed) (recordEvent .cascadeAutomated ctx txID type) f tr u f' tr') :
    madeStates tr' = madeStates tr ++ if type = .transitionMade then [f.entity.info.state] else [] := by
  cases runs_get h with
  | ask hnext hrecord hdone =>
    obtain rfl : _ = _ := hnext
    obtain ⟨-, rfl⟩ := hrecord
    cases hdone
    rw [madeStates_cons]
    by_cases htype : type = .transitionMade <;> simp [madeState, htype]

variable {handed : Handed}

theorem runTransition_made {d : TransitionDefinition} {pipelineTxID : TxID}
    (h : Runs (recorded allowed) (runTransition e .cascadeAutomated wf d ctx txID pipelineTxID) f tr
      handed f' tr') :
    madeStates tr' = madeStates tr ++ if handed.err = none then [f.entity.info.state] else [] := by
  obtain ⟨ran, f1, tr1, hpipeline, h⟩ := runs_bind h
  have hrules := pipelineRules allowed (madeStates tr) e f.entity.info.state txID
  have hsettled := hpipeline.of_ensures (hrules.executeProcessors d.processors wf.name d.name ⟨rfl, rfl⟩)
  cases hran : ran.err with
  | some err =>
    simp only [EngineRules.Settled, hran] at h hsettled
    obtain ⟨_, f2, tr2, hrecord, h⟩ := runs_bind h
    obtain ⟨rfl, -, rfl⟩ := runs_pure.mp h
    rw [recordEvent_made hrecord, hsettled]
    simp [hran]
  | none =>
    simp only [EngineRules.Settled, hran] at h hsettled
    obtain ⟨_, f2, tr2, hrecord, h⟩ := runs_bind h
    obtain ⟨_, f3, tr3, hset, h⟩ := runs_bind h
    cases hset
    obtain ⟨rfl, -, rfl⟩ := runs_pure.mp h
    rw [recordEvent_made hrecord, hsettled.1, hsettled.2]
    simp [hran]

variable {c c' : Position Trace} {trs : List TransitionDefinition} {d : TransitionDefinition}

theorem PassedOver.made (h : PassedOver (recorded allowed) e wf txID c trs tr) :
    madeStates tr = madeStates c.world := by
  induction h with
  | nil c => rfl
  | skipped _ _ ih => exact ih
  | noMatch _ hcriterion hrecord _ ih =>
    simpa [ih, Position.later, evaluateOptional_made hcriterion] using recordEvent_made hrecord

theorem Reaches.made (h : Reaches (recorded allowed) e wf txID c trs d tr) :
    madeStates tr = madeStates c.world := by
  obtain ⟨-, hpassed, -⟩ := h
  exact hpassed.made

theorem Fires.made (h : Fires (recorded allowed) e wf txID c d c') :
    madeStates c'.world = madeStates c.world ++ [c.state] := by
  obtain ⟨hlive, -, hreaches, hholds, hrun⟩ := h
  have hmade := runTransition_made hrun
  rw [evaluateOptional_made hholds] at hmade
  simpa [Position.later, Position.state, hreaches.made, contextErr_made hlive] using hmade

theorem Path.made (h : Path (recorded allowed) e wf txID c trs c') :
    madeStates c'.world = madeStates c.world ++ departures c.state trs := by
  induction h with
  | stop c => simp [departures]
  | step hfires _ ih => rw [ih, hfires.made, hfires.state_eq, departures, List.append_assoc]; rfl

theorem Breaks.made (h : Breaks (recorded allowed) e wf txID c trs handed f tr) :
    madeStates tr = madeStates c.world := by
  cases h with
  | criterion hreaches hfails => exact (evaluateOptional_made hfails).trans hreaches.made
  | transition hreaches hholds hrun herr =>
    have hmade := runTransition_made hrun
    rw [evaluateOptional_made hholds] at hmade
    simpa [Position.later, hreaches.made, herr] using hmade

theorem Ends.made {left visits : ℕ}
    (h : Ends (recorded allowed) e wf txID left visits c handed f tr) :
    madeStates tr = madeStates c.world := by
  cases h with
  | depth _ hrecord => simpa using recordEvent_made hrecord
  | cancelled _ hexpired => exact contextErr_made hexpired
  | visits _ _ hlive hrecord => simpa [contextErr_made hlive] using recordEvent_made hrecord
  | atRest _ _ hrest =>
    cases hrest with
    | undeclared hlive => exact contextErr_made hlive
    | passedOver hlive _ hpassed => exact hpassed.made.trans (contextErr_made hlive)
  | failed _ _ hlive _ hbreaks => exact hbreaks.made.trans (contextErr_made hlive)

end Recorded

/-- The execution of a cascade that returned: it fired these transitions, which are the ones that
its events name, and came to `c`, where it ended. -/
structure Executed (allowed : Trace → (q : Call) → q.Answer → Prop) (e : Engine)
    (wf : WorkflowDefinition) (ctx : Ctx) (txID : TxID) (f : Frame) (handed : Handed) (f' : Frame)
    (tr : Trace) (fired : List TransitionDefinition) (c : Position Trace) : Prop where
  path : Path (recorded allowed) e wf txID ⟨ctx, txID, f, []⟩ fired c
  events : madeStates tr = departures f.entity.info.state fired
  ends : Ends (recorded allowed) e wf txID (maxCascadeDepth - fired.length)
    ((departures f.entity.info.state fired).count c.state) c handed f' tr

/-- Every run of a cascade is an execution within its limits. -/
theorem cascadeAutomated_executed {allowed : Trace → (q : Call) → q.Answer → Prop} {ctx : Ctx}
    {f : Frame} {tr : Trace}
    (h : Runs (recorded allowed) (cascadeAutomated e ctx wf txID) f [] handed f' tr) :
    ∃ fired c, Executed allowed e wf ctx txID f handed f' tr fired c ∧
      fired.length ≤ maxCascadeDepth ∧
      ∀ state, (departures f.entity.info.state fired).count state ≤ e.maxStateVisits := by
  obtain ⟨fired, c, hpath, hlength, hbound, hends⟩ :=
    cascadeFrom_path (c := ⟨ctx, txID, f, []⟩) (by simp [GoMap.getD]) h
  have hstart : (⟨ctx, txID, f, []⟩ : Position Trace).state = f.entity.info.state := rfl
  simp only [GoMap.getD, GoMap.get_empty, Option.getD_none, Nat.zero_add, hstart] at hbound hends
  exact ⟨fired, c, ⟨hpath, hends.made.trans hpath.made, hends⟩, hlength, hbound⟩

/-- The errors by which a cascade gives up, apart from failures of what it calls. -/
def Aborted : Option EngineError → Prop
  | some (.cascadeDepth ..) | some (.stateVisits ..) | some (.cascadeAborted _) => True
  | _ => False

/-- A cascade whose questions are answered returns, and what it has done then is a path of at most
a hundred rounds, those of its `TransitionMade` events. No state is left more often than
`maxStateVisits` says, so none is entered more than once more than that, and after that entry the
cascade aborts. It returns without an error only where nothing is left to do, and with one where a
limit stops it. -/
theorem cascade_path_within_limits (allowed : Trace → (q : Call) → q.Answer → Prop) (e : Engine)
    (wf : WorkflowDefinition) (ctx : Ctx) (txID : TxID) (f : Frame) :
    ((∀ tr q, ∃ r, allowed tr q r) → ∃ handed f' tr,
      Runs (recorded allowed) (cascadeAutomated e ctx wf txID) f [] handed f' tr) ∧
    ∀ handed f' tr, Runs (recorded allowed) (cascadeAutomated e ctx wf txID) f [] handed f' tr →
      ∃ fired c, Executed allowed e wf ctx txID f handed f' tr fired c ∧
        fired.length ≤ maxCascadeDepth ∧
        (∀ state, (departures f.entity.info.state fired).count state ≤ e.maxStateVisits) ∧
        (∀ state, (fired.map (·.next)).count state ≤ e.maxStateVisits + 1) ∧
        (∀ state, e.maxStateVisits < (fired.map (·.next)).count state →
          c.state = state ∧ f' = c.frame ∧ Aborted handed.err) ∧
        (handed.err = none → f' = c.frame ∧ AtRest (recorded allowed) e wf txID c tr) ∧
        (fired.length = maxCascadeDepth → f' = c.frame ∧
          handed.err = some (.cascadeDepth maxCascadeDepth c.state)) ∧
        (fired.length < maxCascadeDepth →
          (departures f.entity.info.state fired).count c.state = e.maxStateVisits → f' = c.frame ∧
          (handed.err = some (.stateVisits c.state (e.maxStateVisits + 1) e.maxStateVisits) ∨
            ∃ err, handed.err = some (.cascadeAborted err))) := by
  refine ⟨fun hallowed => ?_, fun handed f' tr h => ?_⟩
  · have hanswers (tr : Trace) (q : Call) : ∃ tr1 r tr2,
        (recorded allowed).interference tr tr1 ∧ (recorded allowed).exchange tr1 q r tr2 := by
      obtain ⟨r, hr⟩ := hallowed tr q
      exact ⟨tr, r, _, rfl, hr, rfl⟩
    obtain ⟨⟨handed, f'⟩, tr, hexec⟩ :=
      Program.exists_executes hanswers (cascadeAutomated e ctx wf txID f) []
    exact ⟨handed, f', tr, hexec⟩
  · obtain ⟨fired, c, hexecuted, hlength, hbound⟩ := cascadeAutomated_executed h
    have hlast : c.state = (fired.map (·.next)).getLastD f.entity.info.state :=
      hexecuted.path.state_eq
    have hends := hexecuted.ends
    have hentries (state : String) := count_entries_le f.entity.info.state state fired
    refine ⟨fired, c, hexecuted, hlength, hbound, ?_, ?_, ?_, ?_, ?_⟩
    · intro state
      have := hbound state
      have := hentries state
      split at this <;> omega
    · intro state hmany
      have hdeparted := hbound state
      have hentered := hentries state
      split at hentered
      · next heq =>
        rw [← hlast] at heq
        subst heq
        refine ⟨rfl, ?_⟩
        cases hends with
        | depth | cancelled | visits => exact ⟨rfl, trivial⟩
        | atRest _ hlimit => omega
        | failed _ hlimit => omega
      · omega
    · intro hnone
      cases hends with
      | depth | cancelled | visits => cases hnone
      | atRest _ _ hrest => exact ⟨rfl, hrest⟩
      | failed _ _ _ _ hbreaks =>
        cases hbreaks with
        | criterion => cases hnone
        | transition _ _ _ herr => rw [herr] at hnone; cases hnone
    · intro hfull
      rw [hfull, Nat.sub_self] at hends
      cases hends with
      | depth => exact ⟨rfl, rfl⟩
      | cancelled | visits | atRest | failed => omega
    · intro hleft hlimit
      rw [hlimit] at hends
      cases hends with
      | depth h => omega
      | @cancelled err => exact ⟨rfl, .inr ⟨err, rfl⟩⟩
      | visits => exact ⟨rfl, .inl rfl⟩
      | atRest _ h => omega
      | failed _ h => omega

namespace Sample

/-- Both transitions lead to `busy`, where the second one can fire again and again. -/
def looping : WorkflowDefinition :=
  { workflow with
    states := (GoMap.set ∅ "new" ⟨[transition "start" "busy" []]⟩).set
      "busy" ⟨[transition "repeat" "busy" []]⟩ }

def oneVisit : Engine := { engine with maxStateVisits := 1 }

def anyAnswer (_ : Trace) (q : Call) (_ : q.Answer) : Prop := True

theorem anyAnswer_of_test (tr : Trace) (q : Call) (r : q.Answer)
    (_ : (fun _ _ _ => true : Trace → (q : Call) → q.Answer → Bool) tr q r = true) :
    anyAnswer tr q r := trivial

end Sample

open Sample in
theorem cascade_path_within_limits_orders : ∃ handed tr f',
    Runs (recorded anyAnswer) (cascadeAutomated engine ctx workflow "tx") (frame.withState "new") []
      handed f' tr ∧ madeStates tr = ["new", "checked"] ∧
    ∃ fired c, Executed anyAnswer engine workflow ctx "tx" (frame.withState "new") handed f' tr
        fired c ∧ departures "new" fired = ["new", "checked"] ∧ c.state = "priced" ∧
      AtRest (recorded anyAnswer) engine workflow "tx" c tr := by
  obtain ⟨⟨handed, f'⟩, tr, hrun, hcheck⟩ := Program.exists_executes_of_play answer
    anyAnswer_of_test (cascadeAutomated engine ctx workflow "tx" (frame.withState "new"))
    (fun x tr => madeStates tr = ["new", "checked"] ∧ x.1.err = none ∧
      x.2.entity.info.state = "priced") (by decide +kernel)
  obtain ⟨hmade, hok, hpriced⟩ := of_decide_eq_true hcheck
  obtain ⟨fired, c, hexecuted, -, -, -, -, hend, -⟩ :=
    (cascade_path_within_limits anyAnswer engine workflow ctx "tx" (frame.withState "new")).2
      handed f' tr hrun
  obtain ⟨rfl, hrest⟩ := hend hok
  exact ⟨handed, tr, _, hrun, hmade, fired, c, hexecuted, hexecuted.events.symm.trans hmade, hpriced,
    hrest⟩

open Sample in
/-- With a limit of one visit, `busy` is entered twice before the cascade aborts: from `new` and
from `busy`. -/
theorem entered_beyond_limit : ∃ handed tr f',
    Runs (recorded anyAnswer) (cascadeAutomated oneVisit ctx looping "tx")
      (frame.withState "new") [] handed f' tr ∧
    oneVisit.maxStateVisits = 1 ∧ looping.states.keys = ["busy", "new"] ∧
    looping.states.get "new" = some ⟨[transition "start" "busy" []]⟩ ∧
    looping.states.get "busy" = some ⟨[transition "repeat" "busy" []]⟩ ∧
    madeStates tr = ["new", "busy"] ∧ handed.err = some (.stateVisits "busy" 2 1) := by
  obtain ⟨⟨handed, f'⟩, tr, hrun, hcheck⟩ := Program.exists_executes_of_play answer
    anyAnswer_of_test (cascadeAutomated oneVisit ctx looping "tx" (frame.withState "new"))
    (fun x tr => madeStates tr = ["new", "busy"] ∧ x.1.err = some (.stateVisits "busy" 2 1))
    (by decide +kernel)
  exact ⟨handed, tr, f', hrun, rfl, by decide, by decide, by decide, of_decide_eq_true hcheck⟩

end CyodaGo.Workflow
