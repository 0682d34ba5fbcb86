import CyodaGo.Verification.Memory.Coherence

/-! # Pending calls

A commit is pending from its first section to its last. The mark in `committing` lets
at most one commit of a transaction be pending, and a transaction whose submit time is
known has none. -/

namespace CyodaGo.Memory

/-- The call `c` is a pending commit of `t`. -/
def World.commits (w : World) (c : CallID) (t : TxID) : Prop :=
  (∃ committer, w.waiting.get c = some (.commit t committer)) ∨
    ∃ i, w.inside = some i ∧ i.call = c ∧ i.txID = t

structure Pending (w : World) : Prop where
  record : ∀ c t, w.commits c t → t ∈ w.sys.txs.keys
  marked : ∀ c t, w.commits c t → t ∈ w.sys.tm.active → t ∈ w.sys.tm.committing
  unique : ∀ c c' t, w.commits c t → w.commits c' t → c = c'
  submitted : ∀ t e, w.sys.tm.submitTimes.get t = some e →
    t ∈ w.sys.txs.keys ∧ t ∉ w.sys.tm.active ∧ ∀ c, ¬ w.commits c t
  inside : ∀ i, w.inside = some i → w.waiting.get i.call = none

/-! ## The parts of the manager a pending call depends on -/

/-- Transactions keep their marks; new ones may become active. -/
structure SameMarks (s s' : System) : Prop where
  keys : ∀ t ∈ s.txs.keys, t ∈ s'.txs.keys
  active : ∀ t ∈ s.txs.keys, t ∈ s'.tm.active ↔ t ∈ s.tm.active
  committing : s'.tm.committing = s.tm.committing
  submitTimes : s'.tm.submitTimes = s.tm.submitTimes

theorem SameMarks.refl (s : System) : SameMarks s s := ⟨fun _ h => h, fun _ _ => Iff.rfl, rfl, rfl⟩

variable {s : System} {w w' : World} {c : CallID} {t txID : TxID} {spi : Spi} {a : Action}
  {r : Result}

open GoMap

theorem CallEffect.sameMarks {free : TxID → Bool} {starts : Option TxID} {s' : System}
    (h : CallEffect free starts s s') : SameMarks s s' := by
  cases h with
  | same h =>
    subst h
    exact .refl s'
  | @begun txID tenant snapshot _ hfresh hfloor h =>
    subst h
    refine ⟨?_, ?_, rfl, rfl⟩
    · intro t ht
      exact (mem_keys_set _ _ _ _).mpr (.inr ht)
    · intro t ht
      have hne : t ≠ txID := fun heq => hfresh (heq ▸ ht)
      simp [System.publish, hne]
  | @edited txID tx hfree hget h =>
    refine ⟨?_, ?_, h.staged.committing, h.staged.submitTimes⟩
    · intro t ht
      obtain ⟨tx0, hget0⟩ := (mem_keys _ _).mp ht
      obtain ⟨tx1, hget1, -⟩ := exists_of_some_rel (hget0 ▸ h.records hget t)
      exact mem_keys_of_get hget1
    · intro t _
      rw [h.staged.active]
  | released h =>
    subst h
    exact ⟨fun _ h => h, fun _ _ => Iff.rfl, rfl, rfl⟩

theorem DirectEffect.sameMarks {s' : System} (h : DirectEffect s s') : SameMarks s s' := by
  refine ⟨?_, ?_, ?_, ?_⟩
  · intro t ht
    rw [h.txs]
    exact ht
  · intro t _
    rw [h.tm]
  · rw [h.tm]
  · rw [h.tm]

/-! ## Steps -/

/-- Steps that start no commit and end no transaction. -/
theorem Pending.mono (h : Pending w) (hs : SameMarks w.sys w'.sys)
    (hcommits : ∀ c t, w'.commits c t → w.commits c t)
    (hinside : ∀ i, w'.inside = some i → w'.waiting.get i.call = none) : Pending w' where
  record c t hc := hs.keys t (h.record c t (hcommits c t hc))
  marked c t hc hact := by
    have hold := hcommits c t hc
    rw [hs.committing]
    exact h.marked c t hold ((hs.active t (h.record c t hold)).mp hact)
  unique c c' t h1 h2 := h.unique c c' t (hcommits c t h1) (hcommits c' t h2)
  submitted t e hget := by
    rw [hs.submitTimes] at hget
    obtain ⟨hkey, hact, hno⟩ := h.submitted t e hget
    exact ⟨hs.keys t hkey, fun hc => hact ((hs.active t hkey).mp hc),
      fun c hc => hno c (hcommits c t hc)⟩
  inside := hinside

theorem Pending.calls (h : Pending w) (hs : SameMarks w.sys s) : Pending { w with sys := s } :=
  h.mono hs (fun _ _ hc => hc) h.inside

/-- A fresh call is not pending. -/
theorem not_commits_of_fresh (h : w.freshCall c = true) (t : TxID) : ¬ w.commits c t := by
  simp only [World.freshCall, Bool.and_eq_true, decide_eq_true_eq] at h
  rintro (⟨committer, hget⟩ | ⟨i, hin, hc, -⟩)
  · exact h.1 (mem_keys_of_get hget)
  · simp [hin, hc] at h

theorem Pending.mark (h : Pending w) {tx : TransactionState} (committer : WriteAttribution)
    (hfresh : w.freshCall c = true) (hactive : txID ∈ w.sys.tm.active)
    (hget : w.sys.txs.get txID = some tx) (hnot : txID ∉ w.sys.tm.committing) :
    Pending { w with
      sys := { w.sys with tm := { w.sys.tm with committing := insert txID w.sys.tm.committing } }
      waiting := w.waiting.set c (.commit txID committer) } := by
  set w' : World := { w with
    sys := { w.sys with tm := { w.sys.tm with committing := insert txID w.sys.tm.committing } }
    waiting := w.waiting.set c (.commit txID committer) } with hw'
  have hcases : ∀ c' t, w'.commits c' t → w.commits c' t ∨ c' = c ∧ t = txID := by
    rintro c' t (⟨com, hwait⟩ | hin)
    · simp only [hw', get_set] at hwait
      split at hwait
      · rename_i heq
        obtain ⟨rfl, -⟩ := Waiting.commit.inj (Option.some.inj hwait)
        exact .inr ⟨heq, rfl⟩
      · exact .inl (.inl ⟨com, hwait⟩)
    · exact .inl (.inr hin)
  -- the mark shows that no commit of the transaction was pending before
  have hfirst : ∀ c', ¬ w.commits c' txID := fun c' hc => hnot (h.marked c' txID hc hactive)
  refine ⟨?_, ?_, ?_, ?_, ?_⟩
  · intro c' t hc
    rcases hcases c' t hc with hc | ⟨-, rfl⟩
    · exact h.record c' t hc
    · exact mem_keys_of_get hget
  · intro c' t hc hact
    rcases hcases c' t hc with hc | ⟨-, rfl⟩
    · exact Finset.mem_insert_of_mem (h.marked c' t hc hact)
    · exact Finset.mem_insert_self _ _
  · intro c1 c2 t h1 h2
    rcases hcases c1 t h1 with hold1 | ⟨rfl, rfl⟩
    · rcases hcases c2 t h2 with hold2 | ⟨-, rfl⟩
      · exact h.unique c1 c2 t hold1 hold2
      · exact absurd hold1 (hfirst c1)
    · rcases hcases c2 t h2 with hold2 | ⟨rfl, -⟩
      · exact absurd hold2 (hfirst c2)
      · rfl
  · intro t e hsub
    obtain ⟨hkey, hact, hno⟩ := h.submitted t e hsub
    refine ⟨hkey, hact, ?_⟩
    intro c' hc
    rcases hcases c' t hc with hc | ⟨-, rfl⟩
    · exact hno c' hc
    · exact hact hactive
  · intro i hin
    have hne : i.call ≠ c := by
      intro heq
      exact not_commits_of_fresh hfresh i.txID (.inr ⟨i, hin, heq, rfl⟩)
    simpa [hw', get_set_of_ne _ _ hne] using h.inside i hin

/-- The end of a transaction: its marks go, and with them the call that ended it. -/
theorem Pending.ended (h : Pending w) (hcommits : ∀ c t, w'.commits c t → w.commits c t)
    (hkeys : ∀ t ∈ w.sys.txs.keys, t ∈ w'.sys.txs.keys)
    (hactive : w'.sys.tm.active = w.sys.tm.active.erase txID)
    (hcommitting : w'.sys.tm.committing = w.sys.tm.committing.erase txID)
    (hsubmitted : ∀ t e, w'.sys.tm.submitTimes.get t = some e →
      (∃ e', w.sys.tm.submitTimes.get t = some e') ∨
        t = txID ∧ txID ∈ w.sys.txs.keys ∧ ∀ c, ¬ w'.commits c txID)
    (hinside : ∀ i, w'.inside = some i → w'.waiting.get i.call = none) : Pending w' where
  record c t hc := hkeys t (h.record c t (hcommits c t hc))
  marked c t hc hact := by
    rw [hactive, Finset.mem_erase] at hact
    rw [hcommitting, Finset.mem_erase]
    exact ⟨hact.1, h.marked c t (hcommits c t hc) hact.2⟩
  unique c c' t h1 h2 := h.unique c c' t (hcommits c t h1) (hcommits c' t h2)
  submitted t e hsub := by
    rcases hsubmitted t e hsub with ⟨e', hsub⟩ | ⟨rfl, hkey, hno⟩
    · obtain ⟨hkey, hact, hno⟩ := h.submitted t e' hsub
      refine ⟨hkeys t hkey, ?_, fun c hc => hno c (hcommits c t hc)⟩
      rw [hactive]
      exact fun hc => hact (Finset.mem_of_mem_erase hc)
    · refine ⟨hkeys t hkey, ?_, hno⟩
      rw [hactive]
      exact Finset.notMem_erase _ _
  inside := hinside

theorem waiting_del_eq_some {waiting : GoMap CallID Waiting} {c' : CallID} {x : Waiting}
    (h : (waiting.del c).get c' = some x) : c' ≠ c ∧ waiting.get c' = some x := by
  rw [get_del] at h
  split at h
  · cases h
  · exact ⟨‹_›, h⟩

theorem commits_del {c' : CallID}
    (h : World.commits { w with sys := s, waiting := w.waiting.del c } c' t) : w.commits c' t := by
  rcases h with ⟨committer, hwait⟩ | hin
  · exact .inl ⟨committer, (waiting_del_eq_some hwait).2⟩
  · exact .inr hin

theorem commits_leave (h : World.commits { w with sys := s, inside := none } c t) :
    w.commits c t := by
  rcases h with hwait | ⟨i, hin, -⟩
  · exact .inl hwait
  · cases hin

theorem mem_keys_set_of_mem {V : Type} {m : GoMap TxID V} {v : V} (h : t ∈ m.keys) :
    t ∈ (m.set txID v).keys := (mem_keys_set _ _ _ _).mpr (.inr h)

/-- The commit inside is the only pending one of its transaction, so none is left when
it leaves. -/
theorem Pending.left (h : Pending w) {i : Inside} (hin : w.inside = some i) (c : CallID) :
    ¬ World.commits { w with sys := s, inside := none } c i.txID := by
  intro hc
  have heq : c = i.call := h.unique c i.call i.txID (commits_leave hc) (.inr ⟨i, hin, rfl, rfl⟩)
  rcases hc with ⟨committer, hwait⟩ | ⟨i', hin', -⟩
  · rw [heq, h.inside i hin] at hwait
    cases hwait
  · cases hin'

theorem submitTimes_commitFinish {tx : TransactionState} {submitTime clock : Time}
    {activeOrder : List TxID} {e : SubmitTimeEntry}
    (h : (s.commitFinish txID tx submitTime clock activeOrder).tm.submitTimes.get t = some e) :
    (∃ e', s.tm.submitTimes.get t = some e') ∨ t = txID := by
  by_cases heq : t = txID
  · exact .inr heq
  left
  change ((s.tm.submitTimes.set txID ⟨submitTime, tx.tenantID⟩).filter _).get t = some e at h
  rw [get_filter, get_set_of_ne _ _ heq] at h
  exact ⟨e, (Option.filter_eq_some_iff.mp h).1⟩

theorem Stepped.pending (hstep : Stepped spi w a r w') (h : Pending w) : Pending w' := by
  cases hstep with
  | manage hmay => exact h.calls (manage_effect _ hmay).sameMarks
  | direct => exact h.calls (storeDirect_effect _ _).sameMarks
  | inTx _ _ hget hmay => exact h.calls (inTx_effect _ _ hget hmay).sameMarks
  | task => exact h.calls (task_effect _ _).sameMarks
  | markRefused => exact h
  | marked hfresh hactive hget _ hnot => exact h.mark _ hfresh hactive hget hnot
  | conflict hwait hfree hget =>
    refine h.ended (fun _ _ => commits_del) (fun _ => mem_keys_set_of_mem) rfl rfl
      (fun t e hsub => .inl ⟨e, hsub⟩) ?_
    intro i hin
    cases hfree.symm.trans hin
  | @checked c txID committer tx hwait hfree hget hconf =>
    refine h.mono (.refl _) ?_ ?_
    · rintro c' t (⟨com, hw⟩ | ⟨i, hin, hc, ht⟩)
      · exact .inl ⟨com, (waiting_del_eq_some hw).2⟩
      · cases hin
        subst hc ht
        exact .inl ⟨committer, hwait⟩
    · intro i hin
      cases hin
      exact get_del_self _ _
  | aborted hin hstage hget =>
    exact h.ended (fun _ _ => commits_leave) (fun _ => mem_keys_set_of_mem) rfl rfl
      (fun t e hsub => .inl ⟨e, hsub⟩) nofun
  | @flushed i captured tx clock _ _ _ hin hstage =>
    refine h.mono ⟨fun _ ht => ht, fun _ _ => Iff.rfl, rfl, rfl⟩ ?_ ?_
    · rintro c t (hwait | ⟨i', hin', hc, ht⟩)
      · exact .inl hwait
      · cases hin'
        exact .inr ⟨i, hin, hc, ht⟩
    · intro i' hin'
      cases hin'
      exact h.inside i hin
  | finished hin hstage hget hnodup horder =>
    refine h.ended (fun _ _ => commits_leave) (fun _ => mem_keys_set_of_mem) rfl rfl ?_ nofun
    intro t e hsub
    rcases submitTimes_commitFinish hsub with hold | rfl
    · exact .inl hold
    · exact .inr ⟨rfl, mem_keys_of_get hget, h.left hin⟩
  | rollbackRefused => exact h
  | @rollbackMarked c user txID tx hfresh =>
    refine h.mono (.refl _) ?_ ?_
    · rintro c' t (⟨com, hw⟩ | hin)
      · rw [get_set] at hw
        split at hw
        · cases hw
        · exact .inl ⟨com, hw⟩
      · exact .inr hin
    · intro i hin
      have hne : i.call ≠ c := by
        intro heq
        exact not_commits_of_fresh hfresh i.txID (.inr ⟨i, hin, heq, rfl⟩)
      simpa [get_set_of_ne _ _ hne] using h.inside i hin
  | rolledBack hwait hget hfree =>
    refine h.ended (fun _ _ => commits_del) (fun _ => mem_keys_set_of_mem) rfl rfl
      (fun t e hsub => .inl ⟨e, hsub⟩) ?_
    intro i hin
    rw [get_del]
    split
    · rfl
    · exact h.inside i hin

theorem pending_of_run {allowed : Trace → World → Action → Prop} {tr : Trace}
    (h : PluginRun spi allowed tr w) : Pending w := by
  induction h with
  | nil =>
    have hno : ∀ c t, ¬ World.init.commits c t := by
      rintro c t (⟨_, hwait⟩ | ⟨_, hin, -⟩)
      · cases hwait
      · cases hin
    exact ⟨fun c t hc => absurd hc (hno c t), fun c t hc => absurd hc (hno c t),
      fun c _ t hc => absurd hc (hno c t), nofun, nofun⟩
  | cons a _ _ hs ih => exact (stepped_of_step hs).pending ih

/-! ## What a step can add -/

/-- Only the mark of an active transaction adds a pending commit. -/
theorem Stepped.commits (h : Stepped spi w a r w') (hc : w'.commits c t) :
    w.commits c t ∨ t ∈ w.sys.tm.active := by
  cases h with
  | @marked c0 ctx txID tx hfresh hactive =>
    rcases hc with ⟨com, hwait⟩ | hin
    · simp only [get_set] at hwait
      split at hwait
      · obtain ⟨rfl, -⟩ := Waiting.commit.inj (Option.some.inj hwait)
        exact .inr hactive
      · exact .inl (.inl ⟨com, hwait⟩)
    · exact .inl (.inr hin)
  | conflict => exact .inl (commits_del hc)
  | @checked c0 txID committer tx hwait =>
    rcases hc with ⟨com, hw⟩ | ⟨i, hin, rfl, rfl⟩
    · exact .inl (.inl ⟨com, (waiting_del_eq_some hw).2⟩)
    cases hin
    exact .inl (.inl ⟨committer, hwait⟩)
  | aborted => exact .inl (commits_leave hc)
  | flushed hin =>
    rcases hc with hwait | ⟨i, hin', rfl, rfl⟩
    · exact .inl (.inl hwait)
    cases hin'
    exact .inl (.inr ⟨_, hin, rfl, rfl⟩)
  | finished => exact .inl (commits_leave hc)
  | rollbackMarked =>
    rcases hc with ⟨com, hw⟩ | hin
    · simp only [get_set] at hw
      split at hw
      · cases hw
      · exact .inl (.inl ⟨com, hw⟩)
    · exact .inl (.inr hin)
  | rolledBack => exact .inl (commits_del hc)
  | _ => exact .inl hc

/-- Only the end of a pending commit records a submit time. -/
theorem Stepped.submitTimes (h : Stepped spi w a r w') {e : SubmitTimeEntry}
    (hget : w'.sys.tm.submitTimes.get t = some e) :
    (∃ e', w.sys.tm.submitTimes.get t = some e') ∨ ∃ c, w.commits c t := by
  cases h with
  | manage hmay =>
    rw [(manage_effect _ hmay).sameMarks.submitTimes] at hget
    exact .inl ⟨e, hget⟩
  | direct =>
    rw [(storeDirect_effect _ _).sameMarks.submitTimes] at hget
    exact .inl ⟨e, hget⟩
  | inTx _ _ hrec hmay =>
    rw [(inTx_effect _ _ hrec hmay).sameMarks.submitTimes] at hget
    exact .inl ⟨e, hget⟩
  | task =>
    rw [(task_effect _ _).sameMarks.submitTimes] at hget
    exact .inl ⟨e, hget⟩
  | finished hin =>
    rcases submitTimes_commitFinish hget with hold | rfl
    · exact .inl hold
    · exact .inr ⟨_, .inr ⟨_, hin, rfl, rfl⟩⟩
  | _ => exact .inl ⟨e, hget⟩

end CyodaGo.Memory
