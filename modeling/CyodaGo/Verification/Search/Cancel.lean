import CyodaGo.Model.Search.Service
import CyodaGo.Verification.Search.Fencing

/-! # What a cancelled call was told

The store keeps a terminal status for good, so an answer is truthful as soon as it is right when it
is given. -/

namespace CyodaGo.Search

abbrev ServiceEv := Event Service ServiceAction ServiceReply

namespace Service

def status (x : Service) (k : JobKey) : Option JobStatus := (x.sys.entry k).map (·.job.status)

variable {k : JobKey} {x y : Service} {a : ServiceAction} {r : ServiceReply} {st : JobStatus}

/-! ## One step -/

theorem status_of_store {a : Action} {r : Reply} {sys : System}
    (h : x.sys.step a = some (r, sys)) (hst : x.status k = some st)
    (hterminal : terminalStatuses st = true) : (sys.entry k).map (·.job.status) = some st := by
  obtain ⟨e, he, rfl⟩ := Option.map_eq_some_iff.mp hst
  obtain ⟨e', he', hevolves⟩ := step_entry h he
  simp [he', hevolves.status_of_terminal hterminal]

theorem status_getJob (call : Nat) : (x.getJob call k).2.sys = x.sys := by
  unfold getJob
  split
  · rfl
  · split <;> rfl

/-- To the store, the second half of `CancelAsync` is a call of `Cancel`. -/
theorem step_cancelJob (call : Nat) (t : Int) :
    ∃ r, x.sys.step (.cancel k t) = some (r, (x.cancelJob call k t).2.sys) := by
  cases hcancel : x.sys.store.cancel k t with
  | error e => exact ⟨.error e, by simp [System.step, System.reply, cancelJob, hcancel]⟩
  | ok store => exact ⟨.ok, by simp [System.step, System.reply, cancelJob, hcancel]⟩

/-- A terminal status is kept by every step. -/
theorem status_step (h : x.step a = some (r, y)) (hst : x.status k = some st)
    (hterminal : terminalStatuses st = true) : y.status k = some st := by
  cases a with
  | store a =>
    obtain ⟨⟨r', sys⟩, hsys, heq⟩ := Option.map_eq_some_iff.mp h
    cases heq
    exact status_of_store hsys hst hterminal
  | getJob call k' =>
    simp only [step, Option.ite_none_left_eq_some, Option.some.injEq] at h
    obtain rfl : (x.getJob call k').2 = y := by rw [h.2]
    rw [status, status_getJob]
    exact hst
  | cancelJob call t =>
    obtain ⟨k', -, heq⟩ := Option.map_eq_some_iff.mp h
    obtain rfl : (x.cancelJob call k' t).2 = y := by rw [heq]
    obtain ⟨r', hsys⟩ := step_cancelJob (k := k') call t
    exact status_of_store hsys hst hterminal

theorem status_of_cancelJob (call : Nat) (t : Int) {res : CancelResult} {k' : JobKey}
    (h : (x.cancelJob call k t).1 = .answered k' res) :
    k' = k ∧ res = ⟨true, .cancelled⟩ ∧ ∃ st, x.status k = some st ∧
      (x.cancelJob call k t).2.status k =
        some (if terminalStatuses st then st else .cancelled) := by
  unfold cancelJob AsyncSearchStore.cancel AsyncSearchStore.findEntryLocked at h ⊢
  cases hget : x.sys.store.data.get k with
  | none => simp [hget, bind, Except.bind] at h
  | some e =>
    have hst : x.status k = some e.job.status := by simp [status, System.entry, hget]
    by_cases hterminal : terminalStatuses e.job.status = true
    · simp only [hget, bind, Except.bind, hterminal, if_true] at h ⊢
      cases h
      exact ⟨rfl, rfl, _, hst, by rw [if_pos hterminal]; exact hst⟩
    · simp only [hget, bind, Except.bind, hterminal] at h ⊢
      cases h
      exact ⟨rfl, rfl, _, hst, by simp [status, System.entry, AsyncSearchStore.put, hterminal]⟩

end Service

/-! ## Answers -/

/-- The job's status is the reported one, which is CANCELLED if the job is said to be. -/
def Truthful (x : Service) (ev : ServiceEv) : Prop :=
  ∀ k res, ev.result = .answered k res →
    x.status k = some res.currentStatus ∧ (res.cancelled = true → res.currentStatus = .cancelled)

/-- When a call gets to cancel the job in the store, no executor has finished the job. -/
def inTime (ev : ServiceEv) : Bool :=
  match ev.action with
  | .cancelJob call _ =>
    (ev.before.cancels.get call).all fun k =>
      ev.before.status k ≠ some .successful ∧ ev.before.status k ≠ some .failed
  | _ => true

section Answers

variable {ev : ServiceEv} {x : Service}

theorem terminal_of_ne {st : JobStatus} (h : st ≠ .running) : terminalStatuses st = true := by
  cases st <;> simp_all [terminalStatuses]

/-- An answer is about a job in a terminal status, which only a late cancel misreports. -/
theorem answered_status (h : ev.before.step ev.action = some (ev.result, ev.after)) {k : JobKey}
    {res : CancelResult} (hanswer : ev.result = .answered k res) :
    ∃ st, ev.after.status k = some st ∧ terminalStatuses st = true ∧
      (res.cancelled = true → res.currentStatus = .cancelled) ∧
      (st = res.currentStatus ↔ inTime ev = true) := by
  obtain ⟨x, a, r, y⟩ := ev
  dsimp only at h hanswer ⊢
  subst hanswer
  cases a with
  | store a =>
    obtain ⟨_, -, heq⟩ := Option.map_eq_some_iff.mp h
    cases heq
  | getJob call k' =>
    simp only [Service.step, Option.ite_none_left_eq_some, Option.some.injEq] at h
    obtain ⟨-, h⟩ := h
    unfold Service.getJob AsyncSearchStore.findEntryLocked at h
    cases hget : x.sys.store.data.get k' with
    | none => simp [hget] at h
    | some e =>
      by_cases hrunning : e.job.status = .running
      · simp [hget, hrunning] at h
      simp only [hget, ne_eq, hrunning, not_false_eq_true, if_true] at h
      cases h
      exact ⟨e.job.status, by simp [Service.status, System.entry, hget],
        terminal_of_ne hrunning, by simp, iff_of_true rfl rfl⟩
  | cancelJob call t =>
    obtain ⟨k', hk', heq⟩ := Option.map_eq_some_iff.mp h
    obtain ⟨rfl, rfl, st, hst, hafter⟩ := Service.status_of_cancelJob call t (congrArg Prod.fst heq)
    rw [heq] at hafter
    refine ⟨_, hafter, ?_, fun _ => rfl, ?_⟩
    · split
      · assumption
      · rfl
    · cases st <;> simp [inTime, hk', hst, terminalStatuses]

/-- Every answer of a run is truthful if and only if no cancel came too late: the status that a
call reports is the one the job has in every later state. -/
theorem cancel_answers_truthful_iff (x₀ : Service) {allowed : List ServiceEv → Service →
    ServiceAction → Prop} {tr : List ServiceEv} (h : Run Service.step allowed x₀ tr x) :
    (∀ ev ∈ tr, Truthful x ev) ↔
      ∀ ev ∈ tr, ∀ k res, ev.result = .answered k res → inTime ev = true := by
  refine forall₂_congr fun ev hev => forall₃_congr fun k res hanswer => ?_
  obtain ⟨newer, older, rfl, hrun, hallowed, hstep⟩ := h.split hev
  obtain ⟨st, hst, hterminal, hcancelled, hiff⟩ := answered_status hstep hanswer
  have hlater : x.status k = some st :=
    Run.stable_of_append (P := fun y => y.status k = some st)
      (fun _ _ _ _ hx hs => Service.status_step hs hx hterminal)
      (.cons ev.action hrun hallowed hstep) hst h
  rw [← hiff, hlater]
  simpa using fun _ => hcancelled

end Answers

namespace Sample

def service : Service := ⟨⟨empty.createJob key job, ∅⟩, ∅⟩

def finish : ServiceAction := .store (.updateJobStatus key 1 .successful 0 "" (some 5) 1)

def told (st : JobStatus) (tr : List ServiceEv) (x : Service) : Bool :=
  (tr.any fun ev => ev.result = .answered key ⟨true, .cancelled⟩) && x.status key = some st

end Sample

open Sample in
theorem cancel_answers_truthful_sample :
    ∃ tr x, Run Service.step AnyStep service tr x ∧ told .cancelled tr x = true ∧
      ∀ ev ∈ tr, Truthful x ev := by
  have hrun : ∃ tr x, Run Service.step AnyStep service tr x ∧
      (told .cancelled tr x && tr.all inTime) = true :=
    exists_any_of_execute [.getJob 0 key, .cancelJob 0 4, finish] (by decide +kernel)
  obtain ⟨tr, x, hrun, hcheck⟩ := hrun
  simp only [Bool.and_eq_true, List.all_eq_true] at hcheck
  exact ⟨tr, x, hrun, hcheck.1,
    (cancel_answers_truthful_iff service hrun).mpr fun ev hev _ _ _ => hcheck.2 ev hev⟩

open Sample in
/-- The executor finishes the job between the two calls to the store. -/
theorem cancel_answer_untrue :
    ∃ tr x, Run Service.step AnyStep service tr x ∧ told .successful tr x = true :=
  exists_any_of_execute [.getJob 0 key, finish, .cancelJob 0 6] (by decide +kernel)

end CyodaGo.Search
