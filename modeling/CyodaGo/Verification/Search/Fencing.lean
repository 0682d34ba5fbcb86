import CyodaGo.Model.Search.AsyncStore

/-! # Fencing of asynchronous search jobs

Every claim of a job starts a new epoch, and writes carry the epoch of their caller. What a step
does to one job is said once, in `Evolves`; the rest follows from it along every run. -/

namespace CyodaGo.Search

open AsyncSearchStore

open Search.System

abbrev Ev := Event System Action Reply

def System.entry (x : System) (k : JobKey) : Option SearchJobEntry := x.store.data.get k

/-! ## What an event says about a job -/

section Observations

variable (k : JobKey)

/-- The epochs that a claim returns for the job. -/
def claimedIn : Reply → List Int
  | .claimed jobs => (jobs.filter fun c => c.1 = k).map (·.2.epoch)
  | _ => []

/-- The epoch and the identifiers of a chunk that was appended to the job's results. -/
def savedIn (x : System) (a : Action) (r : Reply) : Option (Int × List String) :=
  match a, r with
  | .saveChunk call, .ok =>
    match x.saves.get call with
    | some c => if c.key = k then some (c.epoch, c.chunks.headD []) else none
    | none => none
  | _, _ => none

/-- The epoch claimed by the caller of `ClearResults`. -/
def clearedIn : Action → Option Int
  | .clearResults k' claimed => if k' = k then some claimed else none
  | _ => none

/-- The epoch that a fenced write to the job carries. -/
def writeIn (x : System) : Action → Option Int
  | .updateJobStatus k' epoch .. => if k' = k then some epoch else none
  | .heartbeat k' epoch _ => if k' = k then some epoch else none
  | .release k' epoch => if k' = k then some epoch else none
  | .saveChunk call =>
    match x.saves.get call with
    | some c => if c.key = k then some c.epoch else none
    | none => none
  | _ => none

def claimedEpochs (tr : List Ev) : List Int := tr.flatMap fun ev => claimedIn k ev.result

def clearedEpochs (tr : List Ev) : List Int := tr.filterMap fun ev => clearedIn k ev.action

/-- The identifiers saved under an epoch, in the order in which they were saved. -/
def savedUnder (epoch : Int) : List Ev → List String
  | [] => []
  | ev :: tr =>
    match savedIn k ev.before ev.action ev.result with
    | some (e, chunk) => if e = epoch then savedUnder epoch tr ++ chunk else savedUnder epoch tr
    | none => savedUnder epoch tr

/-- What a step of the system makes of a job's entry. -/
inductive Evolves (x : System) (a : Action) (r : Reply) (e : SearchJobEntry) :
    SearchJobEntry → Prop where
  | same (hclaimed : claimedIn k r = []) (hsaved : savedIn k x a r = none)
      (hcleared : clearedIn k a = none) : Evolves x a r e e
  | write {e' : SearchJobEntry} (hlive : terminalStatuses e.job.status = false)
      (hepoch : e'.job.epoch = e.job.epoch) (hids : e'.entityIDs = e.entityIDs)
      (hsuccess : e'.job.status = .successful → e.job.status ≠ .successful →
        ∃ n msg t c, a = .updateJobStatus k e.job.epoch .successful n msg t c)
      (hclaimed : claimedIn k r = []) (hsaved : savedIn k x a r = none)
      (hcleared : clearedIn k a = none) : Evolves x a r e e'
  | append (chunk : List String) (hlive : terminalStatuses e.job.status = false)
      (hsaved : savedIn k x a r = some (e.job.epoch, chunk))
      (hclaimed : claimedIn k r = []) (hcleared : clearedIn k a = none) :
      Evolves x a r e { e with entityIDs := e.entityIDs ++ chunk }
  | claim (now : Int) (hrunning : e.job.status = .running)
      (hclaimed : claimedIn k r = [e.job.epoch + 1]) (hsaved : savedIn k x a r = none)
      (hcleared : clearedIn k a = none) : Evolves x a r e (e.claim now)
  | clear (claimed : Int) (haction : a = .clearResults k claimed)
      (hclaimed : claimedIn k r = []) (hsaved : savedIn k x a r = none) :
      Evolves x a r e { e with entityIDs := [] }

end Observations

/-! ## Steps -/

section Steps

variable {k k' : JobKey} {s : AsyncSearchStore} {x y : System} {a : Action} {r : Reply}
  {e : SearchJobEntry}

variable {epoch : Int} {order : List JobKey} {cs : List (JobKey × SearchJobEntry)}

theorem guardWrite_ok (h : s.guardWrite k epoch = .ok e) :
    s.data.get k = some e ∧ terminalStatuses e.job.status = false ∧ e.job.epoch = epoch := by
  unfold guardWrite findEntryLocked at h
  cases hget : s.data.get k with
  | none => rw [hget] at h; cases h
  | some e' =>
    simp only [hget, bind, Except.bind] at h
    split at h
    · cases h
    · next hlive =>
      split at h
      · cases h
      · next hepoch =>
        cases h
        exact ⟨rfl, by simpa using hlive, by simpa using (not_not.mp hepoch).symm⟩

theorem guardWrite_stale (hget : s.data.get k = some e) (hepoch : epoch ≠ e.job.epoch) :
    ∃ err, s.guardWrite k epoch = .error err := by
  cases hguard : s.guardWrite k epoch with
  | error err => exact ⟨err, rfl⟩
  | ok e' =>
    obtain ⟨hget', -, hepoch'⟩ := guardWrite_ok hguard
    cases hget.symm.trans hget'
    exact absurd hepoch'.symm hepoch

/-- A guarded change of one entry, as all fenced writes make it. -/
def guarded (s : AsyncSearchStore) (k : JobKey) (epoch : Int)
    (f : SearchJobEntry → SearchJobEntry) : Except StoreError AsyncSearchStore := do
  let entry ← s.guardWrite k epoch
  .ok (s.put k (f entry))

theorem reply_guarded {f : SearchJobEntry → SearchJobEntry}
    (h : x.reply (guarded x.store k' epoch f) = (r, y)) :
    (∃ err, r = .error err ∧ y = x) ∨
      ∃ e', x.entry k' = some e' ∧ terminalStatuses e'.job.status = false ∧
        e'.job.epoch = epoch ∧ r = .ok ∧ y = { x with store := x.store.put k' (f e') } := by
  unfold guarded at h
  cases hguard : x.store.guardWrite k' epoch with
  | error err =>
    rw [hguard] at h
    cases h
    exact .inl ⟨err, rfl, rfl⟩
  | ok e' =>
    rw [hguard] at h
    cases h
    obtain ⟨hget, hlive, hepoch⟩ := guardWrite_ok hguard
    exact .inr ⟨e', hget, hlive, hepoch, rfl, rfl⟩

theorem entry_put (e' : SearchJobEntry) :
    (entry { x with store := x.store.put k' e' } k) =
      if k = k' then some e' else x.entry k :=
  x.store.data.get_set k' k e'

/-- A fenced write that does not touch epoch and results. -/
theorem evolves_guarded {f : SearchJobEntry → SearchJobEntry}
    (h : x.reply (guarded x.store k' epoch f) = (r, y)) (he : x.entry k = some e)
    (hf : ∀ e, (f e).job.epoch = e.job.epoch ∧ (f e).entityIDs = e.entityIDs)
    (hsuccess : ∀ e, k' = k → e.job.epoch = epoch → (f e).job.status = .successful →
      e.job.status ≠ .successful →
        ∃ n msg t c, a = .updateJobStatus k epoch .successful n msg t c)
    (hsaved : ∀ r, savedIn k x a r = none) (hcleared : clearedIn k a = none) :
    ∃ e', y.entry k = some e' ∧ Evolves k x a r e e' := by
  rcases reply_guarded h with ⟨err, rfl, rfl⟩ | ⟨e', hget, hlive, rfl, rfl, rfl⟩
  · exact ⟨e, he, .same rfl (hsaved _) hcleared⟩
  rw [entry_put]
  by_cases hk : k = k'
  · subst hk
    cases he.symm.trans hget
    exact ⟨f e, if_pos rfl, .write hlive (hf e).1 (hf e).2 (hsuccess e rfl rfl) rfl (hsaved _)
      hcleared⟩
  · exact ⟨e, (if_neg hk).trans he, .same rfl (hsaved _) hcleared⟩

theorem evolves_cancel {t : Int} (h : x.step (.cancel k' t) = some (r, y))
    (he : x.entry k = some e) :
    ∃ e', y.entry k = some e' ∧ Evolves k x (.cancel k' t) r e e' := by
  have hreply := Option.some.inj h
  unfold cancel findEntryLocked at hreply
  cases hget : x.store.data.get k' with
  | none =>
    rw [hget] at hreply
    cases hreply
    exact ⟨e, he, .same rfl rfl rfl⟩
  | some e' =>
    simp only [hget, bind, Except.bind] at hreply
    split at hreply
    · cases hreply
      exact ⟨e, he, .same rfl rfl rfl⟩
    · next hlive =>
      cases hreply
      rw [entry_put]
      by_cases hk : k = k'
      · subst hk
        cases he.symm.trans hget
        refine ⟨_, if_pos rfl, .write (by simpa using hlive) rfl rfl ?_ rfl rfl rfl⟩
        intro hstatus
        cases hstatus
      · exact ⟨e, (if_neg hk).trans he, .same rfl rfl rfl⟩

theorem evolves_clearResults {c : Int} (h : x.step (.clearResults k' c) = some (r, y))
    (he : x.entry k = some e) :
    ∃ e', y.entry k = some e' ∧ Evolves k x (.clearResults k' c) r e e' := by
  cases h
  by_cases hk : k = k'
  · subst hk
    refine ⟨{ e with entityIDs := [] }, ?_, .clear c rfl rfl rfl⟩
    have hget : x.store.data.get k = some e := he
    simp [entry, clearResults, findEntryLocked, hget,
      put]
  · refine ⟨e, ?_, .same rfl rfl (if_neg (Ne.symm hk))⟩
    unfold entry clearResults
    cases x.store.findEntryLocked k' with
    | error err => exact he
    | ok e' => exact (x.store.data.get_set_of_ne _ hk).trans he

theorem evolves_saveChunk {call : Nat} (h : x.step (.saveChunk call) = some (r, y))
    (he : x.entry k = some e) :
    ∃ e', y.entry k = some e' ∧ Evolves k x (.saveChunk call) r e e' := by
  obtain ⟨c, hcall, hchunk⟩ := Option.bind_eq_some_iff.mp h
  unfold saveChunk at hchunk
  split at hchunk
  · cases hchunk
  · next chunk chunks hchunks =>
    unfold guardAndAppend at hchunk
    cases hguard : x.store.guardWrite c.key c.epoch with
    | error err =>
      rw [hguard] at hchunk
      cases hchunk
      exact ⟨e, he, .same rfl rfl rfl⟩
    | ok e' =>
      rw [hguard] at hchunk
      cases hchunk
      obtain ⟨hget, hlive, hepoch⟩ := guardWrite_ok hguard
      by_cases hk : k = c.key
      · subst hk
        cases he.symm.trans hget
        refine ⟨_, x.store.data.get_set_self _ _, .append chunk hlive ?_ rfl rfl⟩
        simp [savedIn, hcall, hchunks, hepoch]
      · refine ⟨e, (x.store.data.get_set_of_ne _ hk).trans he, .same rfl ?_ rfl⟩
        simp [savedIn, hcall, Ne.symm hk]

/-- A claim takes a job at most once. -/
theorem nodup_claimed (cutoff limit : Int) (h : order.Perm s.data.keys) :
    ((s.claimed cutoff limit order).map Prod.fst).Nodup := by
  have hnodup : ((s.data.inOrder order).map Prod.fst).Nodup := by
    rw [GoMap.map_fst_inOrder fun k hk => h.mem_iff.mp hk]
    exact h.nodup_iff.mpr s.data.keys_nodup
  have hfilter := hnodup.sublist ((List.filter_sublist (p := fun c : JobKey × SearchJobEntry =>
    c.2.claimable cutoff)).map Prod.fst)
  have hperm := (List.perm_insertionSort (fun a b => olderJob a b = true)
    ((s.data.inOrder order).filter fun c => c.2.claimable cutoff)).map Prod.fst
  have hsort := hperm.nodup_iff.mpr hfilter
  exact hsort.sublist ((List.take_sublist _ _).map Prod.fst)

theorem get_of_mem_claimed {cutoff limit : Int} (h : (k, e) ∈ s.claimed cutoff limit order) :
    s.data.get k = some e ∧ e.claimable cutoff = true := by
  have hsorted := List.mem_of_mem_take h
  rw [List.mem_insertionSort, List.mem_filter, GoMap.mem_inOrder] at hsorted
  exact ⟨hsorted.1.2, hsorted.2⟩

theorem claimedIn_map_of_notMem (now : Int) (h : k ∉ cs.map Prod.fst) :
    claimedIn k (.claimed (cs.map fun c => (c.1, (c.2.claim now).job))) = [] := by
  rw [claimedIn, List.map_eq_nil_iff, List.filter_eq_nil_iff]
  intro c hc
  obtain ⟨c', hc', rfl⟩ := List.mem_map.mp hc
  simpa using fun heq => h (List.mem_map.mpr ⟨c', hc', heq⟩)

theorem claimedIn_map_of_mem {now : Int} (hnodup : (cs.map Prod.fst).Nodup) (h : (k, e) ∈ cs) :
    claimedIn k (.claimed (cs.map fun c => (c.1, (c.2.claim now).job))) = [e.job.epoch + 1] := by
  induction cs with
  | nil => cases h
  | cons c cs ih =>
    obtain ⟨hc, hnodup⟩ := List.nodup_cons.mp hnodup
    rcases List.mem_cons.mp h with rfl | h
    · have hrest := claimedIn_map_of_notMem now hc
      simp only [claimedIn] at hrest ⊢
      simp only [List.map_cons, List.filter_cons, decide_true, if_true, hrest]
      rfl
    · have hne : c.1 ≠ k := by
        rintro rfl
        exact hc (List.mem_map.mpr ⟨_, h, rfl⟩)
      have hrest := ih hnodup h
      simp only [claimedIn] at hrest ⊢
      simpa [hne] using hrest

theorem evolves_claimStale {now : Int} {staleAfter : Duration} {limit : Int}
    (h : x.step (.claimStale now staleAfter limit order) = some (r, y)) (he : x.entry k = some e) :
    ∃ e', y.entry k = some e' ∧ Evolves k x (.claimStale now staleAfter limit order) r e e' := by
  simp only [step] at h
  split at h
  · cases h
  · next hperm =>
    have hnodup := nodup_claimed (timeAdd now (-staleAfter)) limit (not_not.mp hperm)
    unfold claimStale at h
    split at h
    · next err herr =>
      cases h
      exact ⟨e, he, .same rfl rfl rfl⟩
    · next jobs store hok =>
      cases h
      split at hok
      · cases hok
      obtain ⟨rfl, rfl⟩ := Prod.mk.inj (Except.ok.inj hok)
      by_cases hk : k ∈ (x.store.claimed (timeAdd now (-staleAfter)) limit order).map Prod.fst
      · obtain ⟨⟨_, e'⟩, hmem, rfl⟩ := List.mem_map.mp hk
        obtain ⟨hget, hclaimable⟩ := get_of_mem_claimed hmem
        cases he.symm.trans hget
        refine ⟨e.claim now, ?_, .claim now ?_ (claimedIn_map_of_mem hnodup hmem) rfl rfl⟩
        · exact GoMap.get_foldl_set_of_mem Prod.fst (fun c => SearchJobEntry.claim c.2 now)
            hnodup _ hmem
        · simp only [SearchJobEntry.claimable, Bool.and_eq_true, decide_eq_true_eq] at hclaimable
          exact hclaimable.1
      · refine ⟨e, ?_, .same (claimedIn_map_of_notMem now hk) rfl rfl⟩
        exact (GoMap.get_foldl_set_of_notMem Prod.fst (fun c => SearchJobEntry.claim c.2 now)
          _ _ hk).trans he

/-- The one place where the steps of the system are taken apart. -/
theorem step_entry (h : x.step a = some (r, y)) (he : x.entry k = some e) :
    ∃ e', y.entry k = some e' ∧ Evolves k x a r e e' := by
  cases a with
  | updateJobStatus k' epoch status n msg t c =>
    have hreply : x.reply (guarded x.store k' epoch fun entry => { entry with
        job := { entry.job with
          status := status, resultCount := n, error := msg, finishTime := t,
          calcTimeMs := c } }) = (r, y) := Option.some.inj h
    refine evolves_guarded hreply he (fun _ => ⟨rfl, rfl⟩) ?_ (fun _ => rfl) rfl
    rintro e rfl - hstatus -
    obtain rfl : status = .successful := hstatus
    exact ⟨n, msg, t, c, rfl⟩
  | heartbeat k' epoch now =>
    have hreply : x.reply (guarded x.store k' epoch fun entry => { entry with
        job := { entry.job with heartbeatTime := some now } }) = (r, y) := Option.some.inj h
    exact evolves_guarded hreply he (fun _ => ⟨rfl, rfl⟩)
      (fun _ _ _ hstatus hne => absurd hstatus hne) (fun _ => rfl) rfl
  | release k' epoch =>
    have hreply : x.reply (guarded x.store k' epoch fun entry => { entry with
        released := true }) = (r, y) := Option.some.inj h
    exact evolves_guarded hreply he (fun _ => ⟨rfl, rfl⟩)
      (fun _ _ _ hstatus hne => absurd hstatus hne) (fun _ => rfl) rfl
  | cancel k' t => exact evolves_cancel h he
  | clearResults k' c => exact evolves_clearResults h he
  | claimStale now staleAfter limit order => exact evolves_claimStale h he
  | saveResults call k' epoch ids =>
    simp only [step] at h
    split at h
    · cases h
    cases h
    exact ⟨e, he, .same rfl rfl rfl⟩
  | saveChunk call => exact evolves_saveChunk h he
  | saveCancelled call =>
    simp only [step] at h
    split at h
    · cases h
    cases h
    exact ⟨e, he, .same rfl rfl rfl⟩

end Steps

/-! ## One step -/

section Step

variable {k : JobKey} {x y : System} {a : Action} {r : Reply} {e e' : SearchJobEntry}

theorem Evolves.epoch_le (h : Evolves k x a r e e') : e.job.epoch ≤ e'.job.epoch := by
  cases h with
  | write _ hepoch => omega
  | claim now => exact Int.le_add_of_nonneg_right (by decide)
  | _ => exact le_rfl

/-- A claim returns the new epoch, which no earlier one has reached. -/
theorem Evolves.claimed (h : Evolves k x a r e e') :
    claimedIn k r = [] ∨ claimedIn k r = [e'.job.epoch] ∧ e.job.epoch < e'.job.epoch := by
  cases h with
  | claim now hrunning hclaimed => exact .inr ⟨hclaimed, Int.lt_succ _⟩
  | same hclaimed => exact .inl hclaimed
  | write _ _ _ _ hclaimed => exact .inl hclaimed
  | append _ _ _ hclaimed => exact .inl hclaimed
  | clear _ _ hclaimed => exact .inl hclaimed

theorem Evolves.status_of_terminal (h : Evolves k x a r e e')
    (hterminal : terminalStatuses e.job.status = true) : e'.job.status = e.job.status := by
  cases h with
  | write hlive => rw [hterminal] at hlive; cases hlive
  | _ => rfl

theorem Evolves.ids_of_terminal (h : Evolves k x a r e e') (hcleared : clearedIn k a = none)
    (hterminal : terminalStatuses e.job.status = true) : e'.entityIDs = e.entityIDs := by
  cases h with
  | append chunk hlive => rw [hterminal] at hlive; cases hlive
  | write _ _ hids => exact hids
  | clear claimed haction => simp [haction, clearedIn] at hcleared
  | _ => rfl

theorem stale_reply {epoch : Int} {f : SearchJobEntry → SearchJobEntry} (he : x.entry k = some e)
    (hepoch : epoch ≠ e.job.epoch) (h : x.reply (guarded x.store k epoch f) = (r, y)) :
    (∃ err, r = .error err) ∧ y.store = x.store := by
  rcases reply_guarded h with ⟨err, rfl, rfl⟩ | ⟨e', hget, -, rfl, -, -⟩
  · exact ⟨⟨err, rfl⟩, rfl⟩
  cases he.symm.trans hget
  exact absurd rfl hepoch

/-- A fenced write at another epoch fails and leaves the store as it was. -/
theorem step_stale (h : x.step a = some (r, y)) (he : x.entry k = some e) {epoch : Int}
    (hwrite : writeIn k x a = some epoch) (hepoch : epoch ≠ e.job.epoch) :
    (∃ err, r = .error err) ∧ y.store = x.store := by
  cases a with
  | updateJobStatus k' epoch' status n msg t c =>
    obtain ⟨rfl, heq⟩ := Option.ite_none_right_eq_some.mp hwrite
    cases heq
    exact stale_reply he hepoch (Option.some.inj h)
  | heartbeat k' epoch' now =>
    obtain ⟨rfl, heq⟩ := Option.ite_none_right_eq_some.mp hwrite
    cases heq
    exact stale_reply he hepoch (Option.some.inj h)
  | release k' epoch' =>
    obtain ⟨rfl, heq⟩ := Option.ite_none_right_eq_some.mp hwrite
    cases heq
    exact stale_reply he hepoch (Option.some.inj h)
  | saveChunk call =>
    obtain ⟨c, hcall, hchunk⟩ := Option.bind_eq_some_iff.mp h
    rw [writeIn, hcall] at hwrite
    obtain ⟨rfl, heq⟩ := Option.ite_none_right_eq_some.mp hwrite
    cases heq
    obtain ⟨err, herr⟩ := guardWrite_stale he hepoch
    unfold saveChunk guardAndAppend at hchunk
    rw [herr] at hchunk
    split at hchunk
    · cases hchunk
    cases hchunk
    exact ⟨⟨err, rfl⟩, rfl⟩
  | _ => cases hwrite

end Step

/-! ## Runs -/

/-- A job has just been created, and no call of `SaveResults` is under way. -/
def start (s : AsyncSearchStore) (k : JobKey) (job : SearchJob) : System := ⟨s.createJob k job, ∅⟩

variable (k : JobKey) (ev : Ev)

/-- The executor of the first epoch has nothing to clear; a claimer has cleared the results. -/
def ready (tr : List Ev) (epoch : Int) : Bool := epoch = 1 || epoch ∈ clearedEpochs k tr

/-- A claimer clears the results once, after its claim, and saves results and reports success only
after that. -/
def sweepLike (tr : List Ev) : Action → Bool
  | .clearResults k' claimed =>
    k' ≠ k || (claimed ∈ claimedEpochs k tr && claimed ∉ clearedEpochs k tr)
  | .saveResults _ k' epoch _ => k' ≠ k || ready k tr epoch
  | .updateJobStatus k' epoch .successful .. => k' ≠ k || ready k tr epoch
  | _ => true

/-- The results are cleared by the holder of the current epoch, while the job is live. -/
def timely (x : System) (a : Action) : Bool :=
  match clearedIn k a, x.entry k with
  | some claimed, some e => claimed = e.job.epoch && !terminalStatuses e.job.status
  | _, _ => true

/-- What holds of every event: the epoch does not decrease, a write at another epoch fails and
changes nothing, and a terminal status stays. -/
def Fenced : Prop :=
  ∃ e e', ev.before.entry k = some e ∧ ev.after.entry k = some e' ∧ e.job.epoch ≤ e'.job.epoch ∧
    (∀ epoch, writeIn k ev.before ev.action = some epoch → epoch ≠ e.job.epoch →
      (∃ err, ev.result = .error err) ∧ ev.after.store = ev.before.store) ∧
    (terminalStatuses e.job.status = true → e'.job.status = e.job.status)

/-- The results of a job in a terminal status stay. -/
def Settled : Prop :=
  ∃ e e', ev.before.entry k = some e ∧ ev.after.entry k = some e' ∧
    (terminalStatuses e.job.status = true → e'.entityIDs = e.entityIDs)

/-- A job becomes successful with exactly the results saved under the epoch that reports it. -/
def Finishes (older : List Ev) : Prop :=
  ∃ e e', ev.before.entry k = some e ∧ ev.after.entry k = some e' ∧
    (e.job.status ≠ .successful → e'.job.status = .successful →
      (∃ n msg t c, ev.action = .updateJobStatus k e.job.epoch .successful n msg t c) ∧
        e'.entityIDs = savedUnder k e.job.epoch older)

section Runs

variable {k : JobKey} {s : AsyncSearchStore} {job : SearchJob} {tr : List Ev} {x : System}
  {allowed : List Ev → System → Action → Prop}

theorem entry_start :
    (start s k job).entry k = some ⟨{ job with epoch := 1, staleClaims := 0 }, [], false⟩ :=
  s.data.get_set_self k _

theorem entry_of_run (h : Run step allowed (start s k job) tr x) : ∃ e, x.entry k = some e := by
  refine h.inv (I := fun _ x => ∃ e, x.entry k = some e) ⟨_, entry_start⟩ ?_
  rintro - x a r y ⟨e, he⟩ - hstep
  obtain ⟨e', he', -⟩ := step_entry hstep he
  exact ⟨e', he'⟩

/-- Claimed epochs are distinct and lie between the first epoch and the current one. -/
structure Claims (k : JobKey) (tr : List Ev) (e : SearchJobEntry) : Prop where
  nodup : (claimedEpochs k tr).Nodup
  range : ∀ c ∈ claimedEpochs k tr, 1 < c ∧ c ≤ e.job.epoch
  first : 1 ≤ e.job.epoch

variable {a : Action} {r : Reply} {y : System} {e : SearchJobEntry} {ev : Ev} {c : Int}

theorem Claims.step {e' : SearchJobEntry} (h : Claims k tr e) (hevolves : Evolves k x a r e e') :
    Claims k (⟨x, a, r, y⟩ :: tr) e' := by
  have hle := hevolves.epoch_le
  have hfirst := h.first
  have hcons : claimedEpochs k (⟨x, a, r, y⟩ :: tr) = claimedIn k r ++ claimedEpochs k tr := rfl
  rcases hevolves.claimed with hnone | ⟨hclaimed, hlt⟩
  · rw [hnone, List.nil_append] at hcons
    refine ⟨hcons ▸ h.nodup, fun c hc => ?_, by omega⟩
    obtain ⟨hone, hc⟩ := h.range c (hcons ▸ hc)
    exact ⟨hone, by omega⟩
  · rw [hclaimed, List.singleton_append] at hcons
    refine ⟨?_, fun c hc => ?_, by omega⟩
    · rw [hcons, List.nodup_cons]
      refine ⟨fun hmem => ?_, h.nodup⟩
      have := (h.range _ hmem).2
      omega
    · rw [hcons, List.mem_cons] at hc
      rcases hc with rfl | hc
      · exact ⟨by omega, le_rfl⟩
      obtain ⟨hone, hc⟩ := h.range c hc
      exact ⟨hone, by omega⟩

theorem claims_of_run (h : Run step allowed (start s k job) tr x) :
    ∃ e, x.entry k = some e ∧ Claims k tr e := by
  refine h.inv (I := fun tr x => ∃ e, x.entry k = some e ∧ Claims k tr e) ?_ ?_
  · exact ⟨_, entry_start, List.nodup_nil, fun c hc => absurd hc List.not_mem_nil, le_rfl⟩
  · rintro tr x a r y ⟨e, he, hclaims⟩ - hstep
    obtain ⟨e', he', hevolves⟩ := step_entry hstep he
    exact ⟨e', he', hclaims.step hevolves⟩

theorem fenced_of_run (h : Run step allowed (start s k job) tr x) (hev : ev ∈ tr) :
    Fenced k ev := by
  obtain ⟨older, hrun, -, hstep⟩ := h.of_mem hev
  obtain ⟨e, he⟩ := entry_of_run hrun
  obtain ⟨e', he', hevolves⟩ := step_entry hstep he
  exact ⟨e, e', he, he', hevolves.epoch_le,
    fun epoch hwrite hepoch => step_stale hstep he hwrite hepoch, hevolves.status_of_terminal⟩

theorem settled_of_run (h : Run step allowed (start s k job) tr x)
    (htimely : ∀ tr x a, allowed tr x a → timely k x a = true) (hev : ev ∈ tr) :
    Settled k ev := by
  obtain ⟨older, hrun, hallowed, hstep⟩ := h.of_mem hev
  obtain ⟨e, he⟩ := entry_of_run hrun
  obtain ⟨e', he', hevolves⟩ := step_entry hstep he
  refine ⟨e, e', he, he', fun hterminal => hevolves.ids_of_terminal ?_ hterminal⟩
  have htime := htimely _ _ _ hallowed
  rw [timely, he] at htime
  cases hcleared : clearedIn k ev.action with
  | none => rfl
  | some claimed => simp [hcleared, hterminal] at htime

/-! ## The results of an epoch -/

/-- Under an epoch nothing is saved before its holder has cleared the results, and from then on
the results are what was saved under it. -/
structure Fresh (k : JobKey) (tr : List Ev) (x : System) (e : SearchJobEntry) : Prop where
  claims : Claims k tr e
  cleared : ∀ c ∈ clearedEpochs k tr, c ∈ claimedEpochs k tr
  saved : ∀ c, ready k tr c = false → savedUnder k c tr = []
  calls : ∀ call c, x.saves.get call = some c → c.key = k → ready k tr c.epoch = true
  ids : ready k tr e.job.epoch = true → e.entityIDs = savedUnder k e.job.epoch tr

theorem saves_step (h : x.step a = some (r, y)) {call : Nat} {c : SaveCall}
    (hcall : y.saves.get call = some c) :
    (∃ c', x.saves.get call = some c' ∧ c'.key = c.key ∧ c'.epoch = c.epoch) ∨
      ∃ ids, a = .saveResults call c.key c.epoch ids := by
  have hreply : ∀ res, x.reply res = (r, y) → y.saves = x.saves := by
    rintro (err | store) hres <;> obtain ⟨rfl, rfl⟩ := Prod.mk.inj hres <;> rfl
  have hsame : y.saves = x.saves →
      ∃ c', x.saves.get call = some c' ∧ c'.key = c.key ∧ c'.epoch = c.epoch :=
    fun hsaves => ⟨c, hsaves ▸ hcall, rfl, rfl⟩
  have hdel : ∀ n, y.saves = x.saves.del n →
      ∃ c', x.saves.get call = some c' ∧ c'.key = c.key ∧ c'.epoch = c.epoch := by
    intro n hsaves
    rw [hsaves, GoMap.get_del] at hcall
    split at hcall
    · cases hcall
    · exact ⟨c, hcall, rfl, rfl⟩
  cases a with
  | saveResults n k' epoch ids =>
    simp only [step] at h
    split at h
    · cases h
    cases h
    rw [GoMap.get_set] at hcall
    split at hcall
    · next heq =>
      cases hcall
      exact .inr ⟨ids, by rw [heq]⟩
    · exact .inl ⟨c, hcall, rfl, rfl⟩
  | saveChunk n =>
    refine .inl ?_
    obtain ⟨c', hcall', hchunk⟩ := Option.bind_eq_some_iff.mp h
    unfold saveChunk at hchunk
    split at hchunk
    · cases hchunk
    · next chunk chunks hchunks =>
      split at hchunk
      · cases hchunk
        exact hdel n rfl
      cases hchunk
      cases hlast : chunks.isEmpty with
      | true => exact hdel n (if_pos hlast)
      | false =>
        simp only [hlast, Bool.false_eq_true, if_false, GoMap.get_set] at hcall
        split at hcall
        · next heq =>
          cases hcall
          exact ⟨c', heq ▸ hcall', rfl, rfl⟩
        · exact ⟨c, hcall, rfl, rfl⟩
  | saveCancelled n =>
    simp only [step] at h
    split at h
    · cases h
    cases h
    exact .inl (hdel n rfl)
  | claimStale now staleAfter limit order =>
    simp only [step] at h
    split at h
    · cases h
    split at h <;> obtain ⟨rfl, rfl⟩ := Prod.mk.inj (Option.some.inj h) <;>
      exact .inl (hsame rfl)
  | clearResults k' c =>
    cases h
    exact .inl (hsame rfl)
  | _ => exact .inl (hsame (hreply _ (Option.some.inj h)))

theorem savedIn_some {epoch : Int} {chunk : List String} (h : savedIn k x a r = some (epoch, chunk)) :
    ∃ call c, x.saves.get call = some c ∧ c.key = k ∧ c.epoch = epoch := by
  unfold savedIn at h
  split at h
  · next call =>
    split at h
    · next c hcall =>
      obtain ⟨hkey, heq⟩ := Option.ite_none_right_eq_some.mp h
      exact ⟨call, c, hcall, hkey, (Prod.mk.inj (Option.some.inj heq)).1⟩
    · cases h
  · cases h

theorem ready_iff : ready k tr c = true ↔ c = 1 ∨ c ∈ clearedEpochs k tr := by
  simp [ready]

theorem ready_cons (ev : Ev) (h : ready k tr c = true) : ready k (ev :: tr) c = true := by
  refine ready_iff.mpr ((ready_iff.mp h).imp_right fun hmem => ?_)
  obtain ⟨ev', hev', heq⟩ := List.mem_filterMap.mp hmem
  exact List.mem_filterMap.mpr ⟨ev', List.mem_cons_of_mem _ hev', heq⟩

theorem clearedEpochs_cons_none (h : clearedIn k ev.action = none) :
    clearedEpochs k (ev :: tr) = clearedEpochs k tr :=
  List.filterMap_cons_none h

theorem savedUnder_cons_none (h : savedIn k ev.before ev.action ev.result = none) (c : Int) :
    savedUnder k c (ev :: tr) = savedUnder k c tr := by
  rw [savedUnder, h]

/-- A claimer that clears the results has saved nothing yet. -/
theorem Fresh.saved_of_clear (h : Fresh k tr x e)
    (hsweep : sweepLike k tr (.clearResults k c) = true) : savedUnder k c tr = [] := by
  simp only [sweepLike, ne_eq, not_true, decide_false, Bool.false_or, Bool.and_eq_true,
    decide_eq_true_eq] at hsweep
  have hone := (h.claims.range c hsweep.1).1
  refine h.saved c ?_
  simp only [ready, Bool.or_eq_false_iff, decide_eq_false_iff_not]
  exact ⟨by omega, hsweep.2⟩

theorem Fresh.calls_step (h : Fresh k tr x e) (hsweep : sweepLike k tr a = true)
    (hstep : x.step a = some (r, y)) {call : Nat} {c : SaveCall} (hcall : y.saves.get call = some c)
    (hkey : c.key = k) :
    ready k (⟨x, a, r, y⟩ :: tr) c.epoch = true := by
  apply ready_cons
  rcases saves_step hstep hcall with ⟨c', hcall', hkey', hepoch⟩ | ⟨ids, rfl⟩
  · exact hepoch ▸ h.calls call c' hcall' (hkey'.trans hkey)
  · simpa [sweepLike, hkey] using hsweep

theorem Fresh.step {e' : SearchJobEntry} (h : Fresh k tr x e) (he : x.entry k = some e)
    (hsweep : sweepLike k tr a = true) (htimely : timely k x a = true)
    (hstep : x.step a = some (r, y)) (hevolves : Evolves k x a r e e') :
    Fresh k (⟨x, a, r, y⟩ :: tr) y e' := by
  have hclaims : Claims k (⟨x, a, r, y⟩ :: tr) e' := h.claims.step hevolves
  have hmem : ∀ c ∈ claimedEpochs k tr, c ∈ claimedEpochs k (⟨x, a, r, y⟩ :: tr) :=
    fun c hc => List.mem_append_right _ hc
  -- Everything but `ids` when the step neither clears nor saves.
  have hquiet : clearedIn k a = none → savedIn k x a r = none →
      (ready k tr e'.job.epoch = true → e'.entityIDs = savedUnder k e'.job.epoch tr) →
      Fresh k (⟨x, a, r, y⟩ :: tr) y e' := by
    intro hcleared hsaved hids
    have hready : ∀ c, ready k (⟨x, a, r, y⟩ :: tr) c = ready k tr c := by
      intro c
      rw [ready, ready, clearedEpochs_cons_none hcleared]
    refine ⟨hclaims, ?_, ?_, fun _ _ => h.calls_step hsweep hstep, ?_⟩
    · rw [clearedEpochs_cons_none hcleared]
      exact fun c hc => hmem c (h.cleared c hc)
    · intro c hc
      rw [savedUnder_cons_none hsaved]
      exact h.saved c (hready c ▸ hc)
    · rw [hready, savedUnder_cons_none hsaved]
      exact hids
  cases hevolves with
  | same hclaimed hsaved hcleared => exact hquiet hcleared hsaved h.ids
  | write hlive hepoch hids hsuccess hclaimed hsaved hcleared =>
    refine hquiet hcleared hsaved fun hready => ?_
    rw [hepoch] at hready ⊢
    exact hids.trans (h.ids hready)
  | claim now hrunning hclaimed hsaved hcleared =>
    -- Nobody can have cleared the results under an epoch that is new.
    refine hquiet hcleared hsaved fun hready => ?_
    exfalso
    have hfirst := h.claims.first
    have hnew : e.job.epoch + 1 = 1 ∨ e.job.epoch + 1 ∈ clearedEpochs k tr := ready_iff.mp hready
    rcases hnew with hone | hmem
    · omega
    have := (h.claims.range _ (h.cleared _ hmem)).2
    omega
  | append chunk hlive hsaved hclaimed hcleared =>
    obtain ⟨call, c, hcall, hkey, hepoch⟩ := savedIn_some hsaved
    have hready : ready k tr e.job.epoch = true := hepoch ▸ h.calls call c hcall hkey
    have hsavedUnder : ∀ c, savedUnder k c (⟨x, a, r, y⟩ :: tr) =
        if e.job.epoch = c then savedUnder k c tr ++ chunk else savedUnder k c tr := by
      intro c
      rw [savedUnder, hsaved]
    have hreadyCons : ∀ c, ready k (⟨x, a, r, y⟩ :: tr) c = ready k tr c := by
      intro c
      rw [ready, ready, clearedEpochs_cons_none hcleared]
    refine ⟨hclaims, ?_, ?_, fun _ _ => h.calls_step hsweep hstep, fun _ => ?_⟩
    · rw [clearedEpochs_cons_none hcleared]
      exact fun c hc => hmem c (h.cleared c hc)
    · intro c hc
      rw [hreadyCons] at hc
      have hne : e.job.epoch ≠ c := by
        rintro rfl
        cases hready.symm.trans hc
      rw [hsavedUnder, if_neg hne]
      exact h.saved c hc
    · rw [hsavedUnder, if_pos rfl, h.ids hready]
  | clear claimed haction hclaimed hsaved =>
    subst haction
    have hnone := h.saved_of_clear hsweep
    have hcleared : clearedEpochs k (⟨x, .clearResults k claimed, r, y⟩ :: tr) =
        claimed :: clearedEpochs k tr :=
      List.filterMap_cons_some (if_pos rfl)
    have htime : claimed = e.job.epoch := by
      simp only [timely, clearedIn, he, if_true, Bool.and_eq_true, decide_eq_true_eq] at htimely
      exact htimely.1
    refine ⟨hclaims, ?_, ?_, fun _ _ => h.calls_step hsweep hstep, fun _ => ?_⟩
    · intro c hc
      rw [hcleared, List.mem_cons] at hc
      rcases hc with rfl | hc
      · simp only [sweepLike, ne_eq, not_true, decide_false, Bool.false_or, Bool.and_eq_true,
          decide_eq_true_eq] at hsweep
        exact hmem _ hsweep.1
      · exact hmem c (h.cleared c hc)
    · intro c hc
      rw [savedUnder_cons_none hsaved]
      refine h.saved c ?_
      by_contra hready
      rw [Bool.not_eq_false] at hready
      cases (ready_cons _ hready).symm.trans hc
    · rw [savedUnder_cons_none hsaved]
      exact (htime ▸ hnone).symm

theorem fresh_of_run
    (h : Run step (fun tr x a => sweepLike k tr a = true ∧ timely k x a = true)
      (start s k job) tr x) : ∃ e, x.entry k = some e ∧ Fresh k tr x e := by
  refine h.inv (I := fun tr x => ∃ e, x.entry k = some e ∧ Fresh k tr x e) ?_ ?_
  · refine ⟨_, entry_start, ?_, fun c hc => absurd hc List.not_mem_nil, fun c _ => rfl, ?_,
      fun _ => rfl⟩
    · exact ⟨List.nodup_nil, fun c hc => absurd hc List.not_mem_nil, le_rfl⟩
    · intro call c hcall
      cases hcall
  · rintro tr x a r y ⟨e, he, hfresh⟩ ⟨hsweep, htimely⟩ hstep
    obtain ⟨e', he', hevolves⟩ := step_entry hstep he
    exact ⟨e', he', hfresh.step he hsweep htimely hstep hevolves⟩

theorem finishes_of_run {newer older : List Ev}
    (h : Run step (fun tr x a => sweepLike k tr a = true ∧ timely k x a = true)
      (start s k job) (newer ++ ev :: older) x) : Finishes k ev older := by
  obtain ⟨hrun, ⟨hsweep, -⟩, hstep⟩ := h.of_append
  obtain ⟨e, he, hfresh⟩ := fresh_of_run hrun
  obtain ⟨e', he', hevolves⟩ := step_entry hstep he
  refine ⟨e, e', he, he', fun hbefore hafter => ?_⟩
  cases hevolves with
  | write hlive hepoch hids hsuccess =>
    obtain ⟨n, msg, t, c, haction⟩ := hsuccess hafter hbefore
    refine ⟨⟨n, msg, t, c, haction⟩, hids.trans (hfresh.ids ?_)⟩
    rw [haction] at hsweep
    simpa [sweepLike] using hsweep
  | _ => exact absurd hafter hbefore

end Runs

theorem flatten_chunksFrom (ids buf : List String) : (chunksFrom buf ids).flatten = buf ++ ids := by
  induction ids generalizing buf with
  | nil => simp [chunksFrom]
  | cons id ids ih =>
    simp only [chunksFrom]
    split
    · rw [List.flatten_cons, ih, List.nil_append, List.append_assoc, List.singleton_append]
    · rw [ih, List.append_assoc, List.singleton_append]

/-- In every run the epoch never decreases, no two claims return the same epoch, a write at
another epoch fails and changes nothing, and a terminal status stays. If results are cleared only
by the holder of the current epoch of a live job, the results of a job in a terminal status stay
as well; and if moreover claimers behave as the reclaim sweep does, a job becomes successful with
exactly the results saved under the finishing epoch. The chunks of a call of `SaveResults` are its
identifiers, each once and in order. -/
theorem search_job_fencing (s : AsyncSearchStore) (k : JobKey) (job : SearchJob) :
    (∀ tr x, Run step AnyStep (start s k job) tr x →
      (claimedEpochs k tr).Nodup ∧ ∀ ev ∈ tr, Fenced k ev) ∧
    (∀ tr x, Run step (fun _ x a => timely k x a = true) (start s k job) tr x →
      ∀ ev ∈ tr, Settled k ev) ∧
    (∀ newer ev older x,
      Run step (fun tr x a => sweepLike k tr a = true ∧ timely k x a = true)
        (start s k job) (newer ++ ev :: older) x → Finishes k ev older) ∧
    ∀ ids, (saveChunks ids).flatten = ids := by
  refine ⟨fun tr x hrun => ⟨?_, fun ev hev => fenced_of_run hrun hev⟩, ?_, ?_, ?_⟩
  · obtain ⟨e, -, hclaims⟩ := claims_of_run hrun
    exact hclaims.nodup
  · exact fun tr x hrun ev hev => settled_of_run hrun (fun _ _ _ h => h) hev
  · exact fun newer ev older x hrun => finishes_of_run hrun
  · exact fun ids => flatten_chunksFrom ids []

namespace Sample

def key : JobKey := ("t", "j")

def job : SearchJob := ⟨0, .running, 0, 0, none, 0, "", none, 0⟩

def empty : AsyncSearchStore := ⟨∅⟩

def claim (now : Int) : Action := .claimStale now 10 1 [key]

/-- The first claimer stalls before it clears the results; the second one clears them and saves
its own. -/
def overtaken : List Action :=
  [claim 100, claim 200, .clearResults key 3, .saveResults 0 key 3 ["a"], .saveChunk 0, .saveChunk 0]

def success : Action := .updateJobStatus key 3 .successful 1 "" (some 300) 1

/-- The last event turns the job successful with other results than were saved. -/
def lost (tr : List Ev) : Bool :=
  match tr with
  | ev :: older =>
    match ev.before.entry key, ev.after.entry key with
    | some e, some e' =>
      e.job.status ≠ .successful && e'.job.status = .successful &&
        e'.entityIDs ≠ savedUnder key e.job.epoch older
    | _, _ => false
  | [] => false

/-- The last event changes the results of a successful job. -/
def unsettled (tr : List Ev) : Bool :=
  match tr with
  | ev :: _ =>
    match ev.before.entry key, ev.after.entry key with
    | some e, some e' => e.job.status = .successful && e'.entityIDs ≠ e.entityIDs
    | _, _ => false
  | [] => false

def finished (x : System) : Bool :=
  match x.entry key with
  | some e => e.job.status = .successful && e.entityIDs = ["a"]
  | none => false

end Sample

open Sample in
theorem search_job_fencing_sample :
    ∃ ev older, Finishes key ev older ∧ finished ev.after = true := by
  have hrun : ∃ tr x,
      Run step (fun tr x a => sweepLike key tr a = true ∧ timely key x a = true)
        (start empty key job) tr x ∧
        (tr.head?.any fun ev => finished ev.after) = true :=
    exists_run_of_execute
      (fun tr x a (h : (sweepLike key tr a && timely key x a) = true) =>
        (Bool.and_eq_true _ _).mp h)
      (overtaken ++ [success]) (by decide +kernel)
  obtain ⟨tr, x, hrun, hcheck⟩ := hrun
  match tr, hrun, hcheck with
  | ev :: older, hrun, hcheck =>
    exact ⟨ev, older, (search_job_fencing empty key job).2.2.1 [] ev older x hrun, hcheck⟩

open Sample in
/-- The overtaken claimer clears the results of its successor, before the job is reported
successful and after that. -/
theorem overtaken_clear_loses_results :
    (∃ tr x, Run step (fun tr _ a => sweepLike key tr a = true) (start empty key job) tr x ∧
      lost tr = true) ∧
    ∃ tr x, Run step (fun tr _ a => sweepLike key tr a = true) (start empty key job) tr x ∧
      unsettled tr = true := by
  constructor
  · exact exists_run_of_execute (fun tr _ a (h : sweepLike key tr a = true) => h)
      (overtaken ++ [.clearResults key 2, success]) (by decide +kernel)
  · exact exists_run_of_execute (fun tr _ a (h : sweepLike key tr a = true) => h)
      (overtaken ++ [success, .clearResults key 2]) (by decide +kernel)

end CyodaGo.Search
