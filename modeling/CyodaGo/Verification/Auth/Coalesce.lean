import CyodaGo.Model.Auth.Coalesce
import Mathlib.Data.List.Count

/-! # No trigger is lost

The runner is idle, or exactly one goroutine serves it. A trigger that is not yet served is
recorded in the runner or in that goroutine, and every step of the goroutine brings the run
that serves it closer. -/

namespace CyodaGo.Coalesce

open Coalesce.System

variable {F : Type}

/-! ## The runner as one worker -/

inductive Stage (F : Type) where
  | spawning (run : F)
  | ready (job : F)
  | executing (job : F)
  | finished

def Stage.goroutine : Stage F → Goroutine F
  | .spawning run => .spawning run
  | .ready job => .ready (some job)
  | .executing job => .executing job
  | .finished => .finished

theorem Stage.goroutine_injective : Function.Injective (Stage.goroutine (F := F)) := by
  intro stage stage' h
  cases stage <;> cases stage' <;> cases h <;> rfl

/-- Nothing to do, or one worker with at most one function to run next. -/
inductive Phase (F : Type) where
  | idle
  | busy (c : ℕ) (stage : Stage F) (pending : Option F)

def Phase.Describes : Phase F → System F → Prop
  | .idle, s => s.runner = .new ∧ ∀ c, s.goroutines.get c = none
  | .busy c stage pending, s => s.runner = ⟨true, pending.isSome, pending⟩ ∧
      ∀ c', s.goroutines.get c' = if c' = c then some stage.goroutine else none

inductive Next : Phase F → Action F → Note F → Phase F → Prop where
  | start (c run) : Next .idle (.trigger c run) (.triggered run) (.busy c (.spawning run) none)
  | mark (c stage pending c' run) :
      Next (.busy c stage pending) (.trigger c' run) (.triggered run) (.busy c stage (some run))
  | spawn (c run pending) :
      Next (.busy c (.spawning run) pending) (.spawn c) .silent (.busy c (.ready run) pending)
  | begin (c job pending) : Next (.busy c (.ready job) pending) (.begin c) (.started c job)
      (.busy c (.executing job) pending)
  | finish (c job pending) : Next (.busy c (.executing job) pending) (.finish c) (.returned c job)
      (.busy c .finished pending)
  | again (c job) :
      Next (.busy c .finished (some job)) (.handOver c) .silent (.busy c (.ready job) none)
  | stop (c) : Next (.busy c .finished none) (.handOver c) .silent .idle

section Simulation

variable {s s' : System F} {p : Phase F} {c : ℕ} {stage : Stage F} {pending : Option F}

theorem describes_set {m : GoMap ℕ (Goroutine F)}
    (hget : ∀ c', m.get c' = if c' = c then some stage.goroutine else none) (stage' : Stage F)
    (pending : Option F) :
    (Phase.busy c stage' pending).Describes
      ⟨⟨true, pending.isSome, pending⟩, m.set c stage'.goroutine⟩ := by
  refine ⟨rfl, fun c' => ?_⟩
  change (m.set c stage'.goroutine).get c' = _
  rw [GoMap.get_set]
  split
  · rfl
  · next hne => rw [hget, if_neg hne]

variable {note : Note F}

theorem next_of_trigger {run : F} {c' : ℕ} (h : p.Describes s)
    (hstep : s.step (.trigger c' run) = some (note, s')) :
    ∃ p', Next p (.trigger c' run) note p' ∧ p'.Describes s' := by
  obtain ⟨-, heq⟩ := Option.ite_none_right_eq_some.mp hstep
  cases heq
  obtain ⟨runner, m⟩ := s
  cases p with
  | idle =>
    obtain ⟨rfl, hget⟩ := h
    refine ⟨_, .start c' run, rfl, fun c => ?_⟩
    change (m.set c' (.spawning run)).get c = _
    rw [GoMap.get_set, hget]
    rfl
  | busy c stage pending =>
    obtain ⟨rfl, hget⟩ := h
    exact ⟨_, .mark c stage pending c' run, rfl, hget⟩

/-- A goroutine that exists is the worker. -/
theorem busy_of_get {s : System F} {p : Phase F} {c : ℕ} (stage : Stage F) (h : p.Describes s)
    (hget : s.goroutines.get c = some stage.goroutine) :
    ∃ pending, p = .busy c stage pending ∧ s.runner = ⟨true, pending.isSome, pending⟩ ∧
      ∀ c', s.goroutines.get c' = if c' = c then some stage.goroutine else none := by
  cases p with
  | idle => exact nomatch (h.2 c).symm.trans hget
  | busy c' stage' pending =>
    have hself := hget
    rw [h.2] at hself
    obtain ⟨rfl, hstage⟩ := Option.ite_none_right_eq_some.mp hself
    obtain rfl := Stage.goroutine_injective (Option.some.inj hstage)
    exact ⟨pending, rfl, h⟩

theorem next_of_handOver {c' : ℕ} (h : p.Describes s)
    (hstep : s.step (.handOver c') = some (note, s')) :
    ∃ p', Next p (.handOver c') note p' ∧ p'.Describes s' := by
  rw [step] at hstep
  split at hstep
  · next hget =>
    cases hstep
    obtain ⟨pending, rfl, hrunner, honly⟩ := busy_of_get .finished h hget
    rw [hrunner]
    cases pending with
    | none =>
      refine ⟨_, .stop c', rfl, fun c => ?_⟩
      change (s.goroutines.del c').get c = none
      rw [GoMap.get_del]
      split
      · rfl
      · next hne => exact (honly c).trans (if_neg hne)
    | some job => exact ⟨_, .again c' job, describes_set honly (.ready job) none⟩
  · cases hstep

/-- The steps of the code are steps of the one worker. -/
theorem next_of_step {a : Action F} (h : p.Describes s) (hstep : s.step a = some (note, s')) :
    ∃ p', Next p a note p' ∧ p'.Describes s' := by
  cases a with
  | trigger c' run => exact next_of_trigger h hstep
  | handOver c' => exact next_of_handOver h hstep
  | spawn c' =>
    rw [step] at hstep
    split at hstep
    · next run hget =>
      cases hstep
      obtain ⟨pending, rfl, hrunner, honly⟩ := busy_of_get (.spawning run) h hget
      rw [hrunner]
      exact ⟨_, .spawn c' run pending, describes_set honly (.ready run) pending⟩
    · cases hstep
  | begin c' =>
    rw [step] at hstep
    split at hstep
    · next job hget =>
      cases hstep
      obtain ⟨pending, rfl, hrunner, honly⟩ := busy_of_get (.ready job) h hget
      rw [hrunner]
      exact ⟨_, .begin c' job pending, describes_set honly (.executing job) pending⟩
    · cases hstep
  | finish c' =>
    rw [step] at hstep
    split at hstep
    · next job hget =>
      cases hstep
      obtain ⟨pending, rfl, hrunner, honly⟩ := busy_of_get (.executing job) h hget
      rw [hrunner]
      exact ⟨_, .finish c' job pending, describes_set honly .finished pending⟩
    · cases hstep

/-- The worker is never stuck. -/
theorem exists_step_of_busy (h : (Phase.busy c stage pending).Describes s) :
    ∃ a, (∀ c' run, a ≠ .trigger c' run) ∧ (s.step a).isSome := by
  have hget : s.goroutines.get c = some stage.goroutine := (h.2 c).trans (if_pos rfl)
  cases stage with
  | spawning run => exact ⟨.spawn c, by simp, by simp [step, hget, Stage.goroutine]⟩
  | ready job => exact ⟨.begin c, by simp, by simp [step, hget, Stage.goroutine]⟩
  | executing job => exact ⟨.finish c, by simp, by simp [step, hget, Stage.goroutine]⟩
  | finished => exact ⟨.handOver c, by simp, by simp [step, hget, Stage.goroutine]⟩

end Simulation

section Runs

abbrev Trace (F : Type) := List (Event (System F) (Action F) (Note F))

variable {tr newer older : Trace F} {s : System F} {p p' : Phase F} {run : F}
  {ev : Event (System F) (Action F) (Note F)}

/-- What every step of the worker keeps holds all along a run. -/
theorem exists_phase_of_run {J : Trace F → Phase F → Prop} (h0 : J [] .idle)
    (hnext : ∀ tr p (ev : Event (System F) (Action F) (Note F)) p', J tr p →
      Next p ev.action ev.result p' → J (ev :: tr) p')
    (hrun : Run step AnyStep .new tr s) : ∃ p, p.Describes s ∧ J tr p := by
  refine hrun.inv (I := fun tr s => ∃ p : Phase F, p.Describes s ∧ J tr p) ?_ ?_
  · exact ⟨.idle, ⟨rfl, fun _ => rfl⟩, h0⟩
  · rintro tr x a note y ⟨p, hp, hJ⟩ - hstep
    obtain ⟨p', hp', hy⟩ := next_of_step hp hstep
    exact ⟨p', hy, hnext tr p ⟨x, a, note, y⟩ p' hJ hp'⟩

/-! ## A trigger until it is served -/

/-- A function passed by the call that passed `run`, or by one of those recorded since. -/
def SinceThen (run : F) (newer : Trace F) (job : F) : Prop :=
  job = run ∨ ∃ e ∈ newer, e.result = .triggered job

/-- The run of `job` that the goroutine `c` is executing started for the call. -/
def StartedFor (run : F) (newer : Trace F) (c : ℕ) (job : F) : Prop :=
  ∃ since ev before, newer = since ++ ev :: before ∧ ev.result = .started c job ∧
    SinceThen run before job ∧ ∀ e ∈ since, ∀ job', e.result ≠ .started c job'

/-- After the call a run of a function passed then or later has started and returned. -/
def Served (run : F) (newer : Trace F) : Prop :=
  ∃ since ev before c job, newer = since ++ ev :: before ∧ ev.result = .returned c job ∧
    StartedFor run before c job

def Action.isTrigger : Action F → Bool
  | .trigger .. => true
  | _ => false

/-- The steps that are not calls of `Trigger`. -/
def workSteps (tr : Trace F) : ℕ := tr.countP fun e => !e.action.isTrigger

def Stage.left : Stage F → ℕ
  | .spawning _ => 4
  | .ready _ => 3
  | .executing _ => 2
  | .finished => 1

theorem Stage.left_le (stage : Stage F) : stage.left ≤ 4 := by
  cases stage <;> simp [left]

/-- The number of steps that the worker needs until the call is served. -/
inductive Left (run : F) (newer : Trace F) : Phase F → ℕ → Prop where
  | recorded (c stage job) : SinceThen run newer job →
      Left run newer (.busy c stage (some job)) (stage.left + 2)
  | spawning (c job pending) : SinceThen run newer job →
      Left run newer (.busy c (.spawning job) pending) 3
  | ready (c job pending) : SinceThen run newer job →
      Left run newer (.busy c (.ready job) pending) 2
  | executing (c job pending) : StartedFor run newer c job →
      Left run newer (.busy c (.executing job) pending) 1

theorem SinceThen.cons {job : F} (h : SinceThen run newer job) : SinceThen run (ev :: newer) job :=
  h.imp_right fun ⟨e, he, hresult⟩ => ⟨e, List.mem_cons_of_mem _ he, hresult⟩

variable {c : ℕ}

theorem StartedFor.cons {job : F} (h : StartedFor run newer c job)
    (hev : ∀ job', ev.result ≠ .started c job') : StartedFor run (ev :: newer) c job := by
  obtain ⟨since, e, before, rfl, hstarted, hthen, hsince⟩ := h
  refine ⟨ev :: since, e, before, rfl, hstarted, hthen, ?_⟩
  intro e' he'
  obtain rfl | he' := List.mem_cons.mp he'
  · exact hev
  · exact hsince e' he'

theorem Served.cons (h : Served run newer) : Served run (ev :: newer) := by
  obtain ⟨since, e, before, c, job, rfl, hrest⟩ := h
  exact ⟨ev :: since, e, before, c, job, rfl, hrest⟩

/-- A step of the worker brings the run closer, further triggers do not hold it up. -/
theorem Left.step {k : ℕ} (h : Left run newer p k) (hnext : Next p ev.action ev.result p') :
    Served run (ev :: newer) ∨
      ∃ k', Left run (ev :: newer) p' k' ∧ k' + workSteps [ev] ≤ k := by
  obtain ⟨before, action, note, after⟩ := ev
  dsimp only at hnext
  cases hnext with
  | start c run' => cases h
  | mark c stage pending c' run' =>
    refine .inr ?_
    cases h with
    | recorded _ _ job hjob =>
      exact ⟨_, .recorded c stage run' (.inr ⟨_, List.mem_cons_self, rfl⟩), le_rfl⟩
    | spawning _ job _ hjob => exact ⟨3, .spawning c job _ hjob.cons, le_rfl⟩
    | ready _ job _ hjob => exact ⟨2, .ready c job _ hjob.cons, le_rfl⟩
    | executing _ job _ hjob => exact ⟨1, .executing c job _ (hjob.cons fun _ h => nomatch h), le_rfl⟩
  | spawn c job pending =>
    refine .inr ?_
    cases h with
    | recorded _ _ job' hjob => exact ⟨_, .recorded c _ job' hjob.cons, le_rfl⟩
    | spawning _ _ _ hjob => exact ⟨2, .ready c job pending hjob.cons, le_rfl⟩
  | begin c job pending =>
    refine .inr ?_
    cases h with
    | recorded _ _ job' hjob => exact ⟨_, .recorded c _ job' hjob.cons, le_rfl⟩
    | ready _ _ _ hjob =>
      refine ⟨1, .executing c job pending ?_, le_rfl⟩
      exact ⟨[], _, newer, rfl, rfl, hjob, fun _ he => nomatch he⟩
  | finish c job pending =>
    cases h with
    | recorded _ _ job' hjob => exact .inr ⟨_, .recorded c _ job' hjob.cons, le_rfl⟩
    | executing _ _ _ hjob => exact .inl ⟨[], _, newer, c, job, rfl, rfl, hjob⟩
  | again c job =>
    cases h with
    | recorded _ _ _ hjob => exact .inr ⟨2, .ready c job none hjob.cons, le_rfl⟩
  | stop c => cases h

/-- Served, or on the way to be served within six steps of the worker. -/
def Awaits (run : F) (newer : Trace F) (p : Phase F) : Prop :=
  Served run newer ∨ ∃ k, Left run newer p k ∧ k + workSteps newer ≤ 6

theorem Awaits.step (h : Awaits run newer p) (hnext : Next p ev.action ev.result p') :
    Awaits run (ev :: newer) p' := by
  obtain h | ⟨k, hleft, hk⟩ := h
  · exact .inl h.cons
  · refine (hleft.step hnext).imp_right ?_
    rintro ⟨k', hleft', hk'⟩
    refine ⟨k', hleft', ?_⟩
    have hcount : workSteps (ev :: newer) = workSteps [ev] + workSteps newer := by
      rw [workSteps, workSteps, workSteps, ← List.countP_append]
      rfl
    omega

theorem awaits_of_trigger (hev : ev.action = .trigger c run) (hnext : Next p ev.action ev.result p')
    : Awaits run [] p' := by
  rw [hev] at hnext
  generalize ev.result = note at hnext
  cases hnext with
  | start => exact .inr ⟨3, .spawning c run none (.inl rfl), by simp [workSteps]⟩
  | mark c' stage pending =>
    exact .inr ⟨_, .recorded c' stage run (.inl rfl), Nat.add_le_add_right stage.left_le 2⟩

theorem exists_awaits_of_run (hev : ev.action = .trigger c run)
    (hrun : Run step AnyStep .new (newer ++ ev :: older) s) :
    ∃ p : Phase F, p.Describes s ∧ Awaits run newer p := by
  have hawaits : ∃ p : Phase F, p.Describes s ∧
      ∀ newer', newer ++ ev :: older = newer' ++ ev :: older → Awaits run newer' p := by
    refine exists_phase_of_run
      (J := fun tr p => ∀ newer', tr = newer' ++ ev :: older → Awaits run newer' p) (by simp)
      ?_ hrun
    intro tr p e p' hJ hnext newer' heq
    cases newer' with
    | nil =>
      obtain ⟨rfl, -⟩ := List.cons.inj heq
      exact awaits_of_trigger hev hnext
    | cons e' newer' =>
      obtain ⟨rfl, rfl⟩ := List.cons.inj heq
      exact (hJ newer' rfl).step hnext
  obtain ⟨p, hp, h⟩ := hawaits
  exact ⟨p, hp, h newer rfl⟩

/-! ## Counting runs -/

def Note.isStart : Note F → Bool
  | .started .. => true
  | _ => false

def Stage.toStart : Stage F → ℕ
  | .spawning _ | .ready _ => 1
  | .executing _ | .finished => 0

/-- The runs that will start without a further trigger. -/
def Phase.owed : Phase F → ℕ
  | .idle => 0
  | .busy _ stage pending => stage.toStart + pending.isSome.toNat

theorem Next.owed_le {a : Action F} {note : Note F} (h : Next p a note p') :
    note.isStart.toNat + p'.owed ≤ a.isTrigger.toNat + p.owed := by
  cases h with
  | mark c stage pending c' run =>
    simp only [Note.isStart, Action.isTrigger, Phase.owed, Bool.toNat_false, Bool.toNat_true,
      Option.isSome_some]
    omega
  | _ => simp [Note.isStart, Action.isTrigger, Phase.owed, Stage.toStart]

theorem starts_le_triggers (hrun : Run step AnyStep .new tr s) :
    (tr.countP fun e => e.result.isStart) ≤ tr.countP fun e => e.action.isTrigger := by
  obtain ⟨p, -, h⟩ := exists_phase_of_run
    (J := fun tr p => (tr.countP fun e => e.result.isStart) + p.owed ≤
      tr.countP fun e => e.action.isTrigger) le_rfl
    (fun tr p ev p' hJ hnext => by
      have hle := hnext.owed_le
      rw [List.countP_cons, List.countP_cons]
      simp only [Bool.toNat, Bool.cond_eq_ite] at hle
      omega) hrun
  exact (Nat.le_add_right _ _).trans h

/-! ## The whole contract -/

theorem exists_phase (hrun : Run step AnyStep .new tr s) : ∃ p : Phase F, p.Describes s := by
  obtain ⟨p, hp, -⟩ := exists_phase_of_run (J := fun _ _ => True) trivial
    (fun _ _ _ _ _ _ => trivial) hrun
  exact ⟨p, hp⟩

/-- When the goroutine has ended nothing runs and nothing is left to run. -/
theorem quiet_of_ended (hrun : Run step AnyStep .new (newer ++ ev :: older) s)
    (hev : ev.action = .handOver c) (hended : ev.after.goroutines.get c = none) :
    ev.after.runner = .new ∧ ∀ c', ev.after.goroutines.get c' = none := by
  obtain ⟨hbefore, -, hstep⟩ := hrun.of_append
  obtain ⟨p, hp⟩ := exists_phase hbefore
  obtain ⟨p', hnext, hp'⟩ := next_of_step hp hstep
  rw [hev] at hnext
  generalize ev.result = note at hnext
  cases hnext with
  | again _ job =>
    rw [hp'.2, if_pos rfl] at hended
    cases hended
  | stop => exact hp'

/-- At most one run executes at a time; a trigger is served by a run that starts after it, at
the latest when the goroutine has taken six steps; there are no more runs than triggers; and an
ended goroutine leaves nothing to do. -/
theorem trigger_never_lost (hrun : Run step AnyStep .new tr s) :
    (∀ c c' job job', s.goroutines.get c = some (.executing job) →
      s.goroutines.get c' = some (.executing job') → c = c') ∧
    (∀ newer ev older c run, tr = newer ++ ev :: older → ev.action = .trigger c run →
      Served run newer ∨ workSteps newer < 6 ∧
        ∃ a, (∀ c' run', a ≠ .trigger c' run') ∧ (s.step a).isSome) ∧
    ((tr.countP fun e => e.result.isStart) ≤ tr.countP fun e => e.action.isTrigger) ∧
    (∀ newer ev older c, tr = newer ++ ev :: older → ev.action = .handOver c →
      ev.after.goroutines.get c = none →
      ev.after.runner.running = false ∧ ev.after.runner.dirty = false) ∧
    ((∀ c, s.goroutines.get c = none) → s.runner.running = false ∧ s.runner.dirty = false) := by
  obtain ⟨p, hp⟩ := exists_phase hrun
  refine ⟨?_, ?_, starts_le_triggers hrun, ?_, ?_⟩
  · intro c c' job job' hc hc'
    obtain ⟨pending, rfl, -, honly⟩ := busy_of_get (.executing job) hp hc
    rw [honly] at hc'
    exact (Option.ite_none_right_eq_some.mp hc').1.symm
  · rintro newer ev older c run rfl hev
    obtain ⟨p, hp, hawaits⟩ := exists_awaits_of_run hev hrun
    refine hawaits.imp_right ?_
    rintro ⟨k, hleft, hk⟩
    have hbusy : 0 < k ∧ ∃ c' stage pending, p = .busy c' stage pending := by
      cases hleft <;> exact ⟨Nat.succ_pos _, _, _, _, rfl⟩
    obtain ⟨hpos, c', stage, pending, rfl⟩ := hbusy
    exact ⟨by omega, exists_step_of_busy hp⟩
  · rintro newer ev older c rfl hev hended
    rw [(quiet_of_ended hrun hev hended).1]
    exact ⟨rfl, rfl⟩
  · intro hnone
    cases p with
    | idle =>
      rw [hp.1]
      exact ⟨rfl, rfl⟩
    | busy c stage pending => exact nomatch (hnone c).symm.trans ((hp.2 c).trans (if_pos rfl))

end Runs

namespace Sample

/-- A second trigger arrives while the function of the first one runs. -/
def overlapping : List (Action ℕ) :=
  [.trigger 0 7, .spawn 0, .begin 0, .trigger 1 8, .finish 0, .handOver 0, .begin 0, .finish 0,
    .handOver 0]

end Sample

theorem trigger_never_lost_while_running : ∃ (tr : Trace ℕ) (s : System ℕ),
    Run step AnyStep .new tr s ∧ (tr.countP fun e => e.result.isStart) = 2 ∧ s.runner.running = false ∧
    s.runner.dirty = false := by
  have hexecuted : ∃ (tr : Trace ℕ) (s : System ℕ), Run step AnyStep .new tr s ∧
      (decide ((tr.countP fun e => e.result.isStart) = 2) && s.goroutines.keys.isEmpty) = true :=
    exists_any_of_execute Sample.overlapping (by decide +kernel)
  obtain ⟨tr, s, hrun, hcheck⟩ := hexecuted
  obtain ⟨hcount, hkeys⟩ := (Bool.and_eq_true_iff).mp hcheck
  have hnone : ∀ c, s.goroutines.get c = none := by
    intro c
    apply GoMap.get_eq_none_of_notMem
    simp [List.isEmpty_iff.mp hkeys]
  obtain ⟨-, -, -, -, hquiet⟩ := trigger_never_lost hrun
  exact ⟨tr, s, hrun, of_decide_eq_true hcount, hquiet hnone⟩

end CyodaGo.Coalesce
