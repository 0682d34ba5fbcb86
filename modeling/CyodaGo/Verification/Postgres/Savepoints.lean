import CyodaGo.Model.Postgres.TxState
import CyodaGo.Shared.Run

/-! # Two stacks of savepoints

Every savepoint that the database knows has its entry on the plugin's stack, with the sets that
belong to what had been done by then. The converse holds as long as no release names a savepoint
that has others inside it. -/

namespace CyodaGo.Postgres

/-! ## What the sets say of a history -/

def Access.record (s : TxState) : Access → TxState
  | .read id version => s.recordRead id version
  | .write id preWriteVersion => s.recordWrite id preWriteVersion

/-- The bookkeeping of a transaction that did just this. -/
def replay (history : List Access) : TxState := history.foldl Access.record (newTxState "")

def Wrote (history : List Access) (id : String) : Prop := ∃ v, .write id v ∈ history

/-- The version at the first read of an entity. -/
def firstRead (history : List Access) (id : String) : Option Int :=
  history.findSome? fun
    | .read i v => if i = id then some v else none
    | .write _ _ => none

theorem replay_append (history : List Access) (x : Access) :
    replay (history ++ [x]) = x.record (replay history) := by
  simp [replay]

open TxState

theorem replay_sets (history : List Access) (id : String) :
    (((replay history).writeSet.get id).isSome ↔ Wrote history id) ∧
    (Wrote history id → (replay history).readSet.get id = none) ∧
    (¬ Wrote history id → (replay history).readSet.get id = firstRead history id) := by
  induction history using List.reverseRecOn with
  | nil => simp [replay, newTxState, Wrote, firstRead]
  | append_singleton history x ih =>
    rw [replay_append]
    obtain ⟨hwrote, hnone, hfirst⟩ := ih
    cases x with
    | read i v =>
      have hsame : Wrote (history ++ [.read i v]) id ↔ Wrote history id := by simp [Wrote]
      have hread : firstRead (history ++ [.read i v]) id =
          (firstRead history id).or (if i = id then some v else none) := by
        simp [firstRead, List.findSome?_append]
      rw [hsame, hread]
      simp only [Access.record, recordRead]
      by_cases hi : i = id
      · subst hi
        split
        · next hw =>
          exact ⟨hwrote, hnone, fun h => absurd (hwrote.mp hw) h⟩
        · next hw =>
          have hno : ¬ Wrote history i := fun h => hw (hwrote.mpr h)
          split
          · next hr =>
            obtain ⟨u, hu⟩ := Option.isSome_iff_exists.mp hr
            refine ⟨hwrote, hnone, fun _ => ?_⟩
            rw [hu, ← hfirst hno, hu, Option.some_or]
          · next hr =>
            have hnew : firstRead history i = none := by
              rw [← hfirst hno]
              simpa using hr
            refine ⟨hwrote, fun h => absurd h hno, fun _ => ?_⟩
            simp [hnew]
      · rw [if_neg hi, Option.or_none]
        split
        · exact ⟨hwrote, hnone, hfirst⟩
        split
        · exact ⟨hwrote, hnone, hfirst⟩
        rw [GoMap.get_set_of_ne _ _ (Ne.symm hi)]
        exact ⟨hwrote, hnone, hfirst⟩
    | write i v =>
      have hread : firstRead (history ++ [.write i v]) id = firstRead history id := by
        simp [firstRead, List.findSome?_append]
      rw [hread]
      by_cases hi : i = id
      · subst hi
        have hnow : Wrote (history ++ [.write i v]) i := ⟨v, by simp⟩
        refine ⟨iff_of_true ?_ hnow, fun _ => ?_, fun h => absurd hnow h⟩
        · simp only [Access.record, recordWrite]
          split
          · assumption
          · split <;> simp
        · simp only [Access.record, recordWrite]
          split
          · next hw => exact hnone (hwrote.mp hw)
          split
          · simp
          · assumption
      · have hsame : Wrote (history ++ [.write i v]) id ↔ Wrote history id := by
          simp [Wrote, Ne.symm hi]
        have hsets : ((Access.write i v).record (replay history)).writeSet.get id =
            (replay history).writeSet.get id ∧
            ((Access.write i v).record (replay history)).readSet.get id =
              (replay history).readSet.get id := by
          simp only [Access.record, recordWrite]
          split
          · exact ⟨rfl, rfl⟩
          split
          · simp [GoMap.get_set_of_ne _ _ (Ne.symm hi), GoMap.get_del_of_ne _ (Ne.symm hi)]
          · simp [GoMap.get_set_of_ne _ _ (Ne.symm hi)]
        rw [hsame, hsets.1, hsets.2]
        exact ⟨hwrote, hnone, hfirst⟩

/-! ## What a step does -/

/-- The same entities at the same versions. -/
def SameSets (s t : TxState) : Prop := s.readSet = t.readSet ∧ s.writeSet = t.writeSet

theorem SameSets.record {s t : TxState} (h : SameSets s t) (x : Access) :
    SameSets (x.record s) (x.record t) := by
  obtain ⟨hread, hwrite⟩ := h
  cases x with
  | read id v =>
    simp only [Access.record, recordRead, hread, hwrite]
    split
    · exact ⟨hread, hwrite⟩
    split
    · exact ⟨hread, hwrite⟩
    · exact ⟨rfl, rfl⟩
  | write id v =>
    simp only [Access.record, recordWrite, hread, hwrite]
    split
    · exact ⟨hread, hwrite⟩
    split
    · exact ⟨rfl, rfl⟩
    · exact ⟨rfl, rfl⟩

@[simp] theorem record_savepoints (s : TxState) (x : Access) :
    (x.record s).savepoints = s.savepoints := by
  cases x with
  | read id v =>
    simp only [Access.record, recordRead]
    split
    · rfl
    · split <;> rfl
  | write id v =>
    simp only [Access.record, recordWrite]
    split
    · rfl
    · split <;> rfl

/-- The first entry with an id splits the plugin's stack. -/
structure SplitAt (s : TxState) (spID : String) (outer : List SavepointEntry) (e : SavepointEntry)
    (inner : List SavepointEntry) : Prop where
  savepoints : s.savepoints = outer ++ e :: inner
  here : e.id = spID
  first : ∀ sp ∈ outer, sp.id ≠ spID

section Split

variable {s : TxState} {spID : String} {outer inner : List SavepointEntry} {e : SavepointEntry}

theorem exists_splitAt (h : s.hasSavepoint spID = true) : ∃ outer e inner, SplitAt s spID outer e inner := by
  obtain ⟨sp, hsp, hid⟩ := List.any_eq_true.mp h
  have hfound : (s.savepoints.find? (fun sp => sp.id = spID)).isSome :=
    List.find?_isSome.mpr ⟨sp, hsp, hid⟩
  obtain ⟨e, he⟩ := Option.isSome_iff_exists.mp hfound
  obtain ⟨hid, outer, inner, hsplit, hfirst⟩ := List.find?_eq_some_iff_append.mp he
  exact ⟨outer, e, inner, hsplit, by simpa using hid, fun sp hsp => by simpa using hfirst sp hsp⟩

theorem SplitAt.find (h : SplitAt s spID outer e inner) :
    s.savepoints.find? (fun sp => sp.id = spID) = some e :=
  List.find?_eq_some_iff_append.mpr
    ⟨by simp [h.here], outer, inner, h.savepoints, fun sp hsp => by simp [h.first sp hsp]⟩

theorem SplitAt.idx (h : SplitAt s spID outer e inner) : s.savepointIdx spID = outer.length := by
  have houter : outer.findIdx (fun sp => sp.id = spID) = outer.length :=
    List.findIdx_eq_length.mpr fun sp hsp => by simp [h.first sp hsp]
  rw [savepointIdx, h.savepoints, List.findIdx_append, houter]
  simp [h.here, List.findIdx_cons]

theorem SplitAt.restore (h : SplitAt s spID outer e inner) :
    s.restoreSavepoint spID = some { s with
      readSet := e.readSet, writeSet := e.writeSet, savepoints := outer ++ [e]
      abortCause := none } := by
  have htake : s.savepoints.take (outer.length + 1) = outer ++ [e] := by
    rw [h.savepoints, List.append_cons, ← List.length_singleton (a := e), ← List.length_append,
      List.take_left]
  simp only [restoreSavepoint, h.find, h.idx, htake]

theorem SplitAt.release (h : SplitAt s spID outer e inner) :
    s.releaseSavepoint spID = some { s with savepoints := outer ++ inner } := by
  have hdrop : s.savepoints.drop (outer.length + 1) = inner := by
    simp [h.savepoints, List.drop_append]
  have htake : s.savepoints.take outer.length = outer := by simp [h.savepoints]
  simp only [releaseSavepoint, h.find, h.idx, htake, hdrop]

end Split

/-- Everything a step can do to the two stacks. -/
inductive Effect (tx : Tx) : Action → Tx → Prop
  | access {a : Action} {tx' : Tx} (x : Access) (state : tx'.state = x.record tx.state)
      (nest : tx'.session.nest = tx.session.nest.update (· ++ [x])) : Effect tx a tx'
  | quiet {a : Action} {tx' : Tx} (sets : SameSets tx'.state tx.state)
      (savepoints : tx'.state.savepoints = tx.state.savepoints)
      (nest : tx'.session.nest = tx.session.nest) : Effect tx a tx'
  | pushed {caller : Option String} {spID : String} {canceled : Bool} {tx' : Tx}
      (state : tx'.state = tx.state.pushSavepoint spID)
      (nest : tx'.session.nest = tx.session.nest.mark (spName spID)) :
      Effect tx (.savepoint caller spID canceled) tx'
  | restored {caller : Option String} {spID : String} {canceled : Bool} {tx' : Tx}
      (knows : tx.session.nest.knows (spName spID) = true)
      (has : tx.state.hasSavepoint spID = true)
      (state : tx.state.restoreSavepoint spID = some tx'.state)
      (nest : tx'.session.nest = tx.session.nest.rollbackTo (spName spID)) :
      Effect tx (.rollbackToSavepoint caller spID canceled) tx'
  | released {caller : Option String} {spID : String} {canceled : Bool} {tx' : Tx}
      (verified : tx.verifyTenant caller = true) (done : canceled = false)
      (live : tx.session.aborted = false) (knows : tx.session.nest.knows (spName spID) = true)
      (has : tx.state.hasSavepoint spID = true)
      (state : tx.state.releaseSavepoint spID = some tx'.state)
      (nest : tx'.session.nest = tx.session.nest.release (spName spID)) :
      Effect tx (.releaseSavepoint caller spID canceled) tx'

variable {tx : Tx} {tenantID : String}

theorem Effect.unchanged {a : Action} {aborted : Bool} :
    Effect tx a { tx with session := { tx.session with aborted } } :=
  .quiet ⟨rfl, rfl⟩ rfl rfl

theorem savepoint_effect (tx : Tx) (caller : Option String) (spID : String) (canceled : Bool) :
    Effect tx (.savepoint caller spID canceled) (tx.savepoint caller spID canceled).2 := by
  rw [Tx.savepoint]
  split
  · cases canceled with
    | true => exact .unchanged
    | false =>
      cases haborted : tx.session.aborted with
      | true => simpa [Session.exec, haborted] using Effect.quiet ⟨rfl, rfl⟩ rfl rfl
      | false => simpa [Session.exec, haborted] using Effect.pushed rfl rfl
  · exact .quiet ⟨rfl, rfl⟩ rfl rfl

theorem rollbackToSavepoint_effect (tx : Tx) (caller : Option String) (spID : String)
    (canceled : Bool) : Effect tx (.rollbackToSavepoint caller spID canceled)
      (tx.rollbackToSavepoint caller spID canceled).2 := by
  rw [Tx.rollbackToSavepoint, Tx.onSavepoint]
  split
  · split
    · next hhas =>
      cases canceled with
      | true => exact .unchanged
      | false =>
        cases hknows : tx.session.nest.knows (spName spID) with
        | false => simpa [Session.exec, hknows] using Effect.unchanged
        | true =>
          obtain ⟨outer, e, inner, hsplit⟩ := exists_splitAt hhas
          have hrestore := hsplit.restore
          simp only [Session.exec, hknows, hrestore, Bool.false_eq_true, if_false, if_true]
          exact .restored hknows hhas hrestore rfl
    · exact .quiet ⟨rfl, rfl⟩ rfl rfl
  · exact .quiet ⟨rfl, rfl⟩ rfl rfl

theorem releaseSavepoint_effect (tx : Tx) (caller : Option String) (spID : String)
    (canceled : Bool) : Effect tx (.releaseSavepoint caller spID canceled)
      (tx.releaseSavepoint caller spID canceled).2 := by
  rw [Tx.releaseSavepoint, Tx.onSavepoint]
  split
  · next hverified =>
    split
    · next hhas =>
      cases canceled with
      | true => exact .unchanged
      | false =>
        cases haborted : tx.session.aborted with
        | true => simpa [Session.exec, haborted] using Effect.quiet ⟨rfl, rfl⟩ rfl rfl
        | false =>
          cases hknows : tx.session.nest.knows (spName spID) with
          | false => simpa [Session.exec, hknows, haborted] using Effect.unchanged
          | true =>
            obtain ⟨outer, e, inner, hsplit⟩ := exists_splitAt hhas
            have hrelease := hsplit.release
            simp only [Session.exec, hknows, haborted, hrelease, Bool.false_eq_true,
              if_false, if_true]
            exact .released hverified rfl haborted hknows hhas hrelease rfl
    · exact .quiet ⟨rfl, rfl⟩ rfl rfl
  · exact .quiet ⟨rfl, rfl⟩ rfl rfl

theorem perform_effect (tx : Tx) (a : Action) : Effect tx a (perform tx a).2 := by
  cases a with
  | recordRead id version => exact .access (.read id version) rfl rfl
  | recordWrite id version => exact .access (.write id version) rfl rfl
  | savepoint caller spID canceled => exact savepoint_effect tx caller spID canceled
  | rollbackToSavepoint caller spID canceled =>
    exact rollbackToSavepoint_effect tx caller spID canceled
  | releaseSavepoint caller spID canceled => exact releaseSavepoint_effect tx caller spID canceled
  | abort cause =>
    cases cause with
    | none => exact .quiet ⟨rfl, rfl⟩ rfl rfl
    | some err =>
      simp only [perform, Option.elim, recordAbort]
      split <;> exact .quiet ⟨rfl, rfl⟩ rfl rfl

/-! ## The invariant -/

abbrev Trace := List (Event Tx Action Reply)

def step (tx : Tx) (a : Action) : Option (Reply × Tx) := some (perform tx a)

/-- Savepoint ids are time UUIDs: no id is drawn twice. -/
def freshSavepoints (tr : Trace) (_ : Tx) : Action → Prop
  | .savepoint _ spID _ => ∀ ev ∈ tr, ∀ caller canceled, ev.action ≠ .savepoint caller spID canceled
  | _ => True

/-- The entry of a savepoint that the database knows. -/
structure Matches (m : String × List Access) (e : SavepointEntry) : Prop where
  name : m.1 = spName e.id
  readSet : e.readSet = (replay m.2).readSet
  writeSet : e.writeSet = (replay m.2).writeSet

theorem spName_injective {a b : String} (h : spName a = spName b) : a = b := by
  simpa [spName] using h

structure Tracks (tr : Trace) (tx : Tx) : Prop where
  current : SameSets tx.state (replay tx.session.nest.current)
  nodup : (tx.state.savepoints.map (·.id)).Nodup
  marks : List.SublistForall₂ Matches tx.session.nest.marks tx.state.savepoints
  drawn : ∀ sp ∈ tx.state.savepoints,
    ∃ ev ∈ tr, ∃ caller canceled, ev.action = .savepoint caller sp.id canceled

theorem Tracks.initial (tenantID : String) : Tracks [] (newTx tenantID) :=
  ⟨⟨rfl, rfl⟩, List.nodup_nil, .nil, nofun⟩

section Step

variable {tr : Trace} {tx tx' : Tx} {spID : String} {outer inner : List SavepointEntry}
  {e : SavepointEntry}

/-- Both stacks split at a savepoint that both have. -/
theorem Tracks.split (h : Tracks tr tx) (hsplit : SplitAt tx.state spID outer e inner)
    {houter hinner : List (String × List Access)} {x : List Access}
    (hmarks : tx.session.nest.marks = houter ++ (spName spID, x) :: hinner) :
    Matches (spName spID, x) e ∧ List.SublistForall₂ Matches houter outer ∧
      List.SublistForall₂ Matches hinner inner := by
  have hmatched := h.marks
  rw [hmarks, hsplit.savepoints] at hmatched
  refine hmatched.split (fun sp hsp hm => ?_) fun sp hsp hm => ?_
  · exact hsplit.first sp hsp (spName_injective hm.name).symm
  · have hnodup := h.nodup
    rw [hsplit.savepoints, List.map_append, List.map_cons] at hnodup
    have hnotMem := (List.nodup_cons.mp (List.nodup_append.mp hnodup).2.1).1
    rw [hsplit.here, spName_injective hm.name] at hnotMem
    exact hnotMem (List.mem_map.mpr ⟨sp, hsp, rfl⟩)

theorem Tracks.step {a : Action} {r : Reply} (h : Tracks tr tx) (ha : freshSavepoints tr tx a)
    (heffect : Effect tx a tx') : Tracks (⟨tx, a, r, tx'⟩ :: tr) tx' := by
  have hdrawn : ∀ sp ∈ tx.state.savepoints, ∃ ev ∈ (⟨tx, a, r, tx'⟩ :: tr : Trace),
      ∃ caller canceled, ev.action = .savepoint caller sp.id canceled := by
    intro sp hsp
    obtain ⟨ev, hev, hsaved⟩ := h.drawn sp hsp
    exact ⟨ev, List.mem_cons_of_mem _ hev, hsaved⟩
  cases heffect with
  | access x hstate hnest =>
    refine ⟨?_, ?_, ?_, ?_⟩
    · rw [hstate, hnest]
      exact (replay_append .. ▸ h.current.record x :)
    · rw [hstate, record_savepoints]
      exact h.nodup
    · rw [hstate, hnest, record_savepoints]
      exact h.marks
    · rw [hstate, record_savepoints]
      exact hdrawn
  | quiet hsets hsavepoints hnest =>
    refine ⟨?_, ?_, ?_, ?_⟩
    · rw [hnest]
      exact ⟨hsets.1.trans h.current.1, hsets.2.trans h.current.2⟩
    · rw [hsavepoints]
      exact h.nodup
    · rw [hsavepoints, hnest]
      exact h.marks
    · rw [hsavepoints]
      exact hdrawn
  | @pushed caller spID canceled _ hstate hnest =>
    have hnew : ∀ sp ∈ tx.state.savepoints, sp.id ≠ spID := by
      rintro sp hsp rfl
      obtain ⟨ev, hev, caller', canceled', hsaved⟩ := h.drawn sp hsp
      exact ha ev hev caller' canceled' hsaved
    refine ⟨?_, ?_, ?_, ?_⟩
    · rw [hstate, hnest]
      exact h.current
    · rw [hstate, pushSavepoint, List.map_append]
      refine List.nodup_append.mpr ⟨h.nodup, by simp, ?_⟩
      rintro _ hid _ hnewID rfl
      obtain ⟨sp, hsp, rfl⟩ := List.mem_map.mp hid
      exact hnew sp hsp (List.mem_singleton.mp hnewID)
    · rw [hstate, hnest]
      exact h.marks.append_singleton ⟨rfl, h.current.1, h.current.2⟩
    · rw [hstate]
      intro sp hsp
      rcases List.mem_append.mp hsp with hsp | hsp
      · exact hdrawn sp hsp
      rw [List.mem_singleton.mp hsp]
      exact ⟨_, List.mem_cons_self .., caller, canceled, rfl⟩
  | restored hknows hhas hstate hnest =>
    obtain ⟨outer, e, inner, hsplit⟩ := exists_splitAt hhas
    obtain ⟨houter, x, hinner, hmarks, hup⟩ := Nest.split_marks hknows
    obtain ⟨hmatch, houters, -⟩ := h.split hsplit hmarks
    rw [hsplit.restore, Option.some.injEq] at hstate
    rw [Nest.rollbackTo_of_upTo hup] at hnest
    have hsub : List.Sublist (outer ++ [e]) tx.state.savepoints := by
      rw [hsplit.savepoints, List.append_cons outer e inner]
      exact List.sublist_append_left ..
    refine ⟨?_, ?_, ?_, ?_⟩
    · rw [← hstate, hnest]
      exact ⟨hmatch.readSet, hmatch.writeSet⟩
    · rw [← hstate]
      exact (hsub.map _).nodup h.nodup
    · rw [← hstate, hnest]
      exact houters.append_singleton hmatch
    · rw [← hstate]
      exact fun sp hsp => hdrawn sp (hsub.subset hsp)
  | released _ _ _ hknows hhas hstate hnest =>
    obtain ⟨outer, e, inner, hsplit⟩ := exists_splitAt hhas
    obtain ⟨houter, x, hinner, hmarks, hup⟩ := Nest.split_marks hknows
    obtain ⟨-, houters, -⟩ := h.split hsplit hmarks
    rw [hsplit.release, Option.some.injEq] at hstate
    rw [Nest.release_of_upTo hup] at hnest
    have hsub : List.Sublist (outer ++ inner) tx.state.savepoints := by
      rw [hsplit.savepoints]
      exact (List.Sublist.refl outer).append (List.sublist_cons_self ..)
    refine ⟨?_, ?_, ?_, ?_⟩
    · rw [← hstate, hnest]
      exact h.current
    · rw [← hstate]
      exact (hsub.map _).nodup h.nodup
    · rw [← hstate, hnest]
      exact houters.append_right inner
    · rw [← hstate]
      exact fun sp hsp => hdrawn sp (hsub.subset hsp)

end Step

variable {tr : Trace}

theorem tracks (h : Run step freshSavepoints (newTx tenantID) tr tx) : Tracks tr tx := by
  refine h.inv (Tracks.initial tenantID) ?_
  intro tr x a r y hx ha hs
  obtain rfl : (perform x a).2 = y := congrArg Prod.snd (Option.some.inj hs)
  exact hx.step ha (perform_effect x a)

/-! ## Agreement -/

/-- The plugin's stack has exactly the savepoints that the database knows. -/
def Agree (tx : Tx) : Prop :=
  ∀ spID, tx.state.hasSavepoint spID = true ↔ tx.session.nest.knows (spName spID) = true

/-- A release that goes through names the innermost savepoint. -/
def Innermost (tx : Tx) : Action → Prop
  | .releaseSavepoint caller spID canceled =>
    tx.verifyTenant caller = true → canceled = false → tx.session.aborted = false →
      tx.state.hasSavepoint spID = true → tx.state.savepoints.getLast?.map (·.id) = some spID
  | _ => True

/-- The savepoint that a call names, and the caller's tenant. -/
def Action.named : Action → Option (Option String × String)
  | .rollbackToSavepoint caller spID _ | .releaseSavepoint caller spID _ => some (caller, spID)
  | _ => none

/-- A call of the tenant that names a savepoint the database does not know is answered before
anything is sent. -/
def RefusedEarly (ev : Event Tx Action Reply) : Prop :=
  ∀ caller spID, ev.action.named = some (caller, spID) → ev.before.verifyTenant caller = true →
    ev.before.session.nest.knows (spName spID) = false →
    ev.result = ⟨[], .error .savepointNotFound⟩

theorem hasSavepoint_iff {s : TxState} {spID : String} :
    s.hasSavepoint spID = true ↔ ∃ sp ∈ s.savepoints, sp.id = spID := by
  simp [hasSavepoint]

/-- The savepoint is the innermost one exactly when nothing is inside it. -/
theorem Tracks.innermost_iff {spID : String} {outer inner : List SavepointEntry}
    {e : SavepointEntry} (h : Tracks tr tx) (hsplit : SplitAt tx.state spID outer e inner) :
    tx.state.savepoints.getLast?.map (·.id) = some spID ↔ inner = [] := by
  have hnodup := h.nodup
  rw [hsplit.savepoints] at hnodup ⊢
  cases inner using List.reverseRecOn with
  | nil => simp [hsplit.here]
  | append_singleton inner last =>
    rw [List.map_append, List.map_cons] at hnodup
    have hnotMem := (List.nodup_cons.mp (List.nodup_append.mp hnodup).2.1).1
    refine iff_of_false (fun hlast => hnotMem ?_) (by simp)
    have hid : last.id = spID := by
      simpa [List.getLast?_append, List.getLast?_cons] using hlast
    rw [hsplit.here, ← hid]
    simp

/-- The plugin's stack has nothing beyond the entries of known savepoints. -/
def Exact (tx : Tx) : Prop := tx.session.nest.marks.length = tx.state.savepoints.length

theorem Exact.agree (h : Exact tx) (htracks : Tracks tr tx) : Agree tx := by
  intro spID
  have hmatched := htracks.marks.forall₂ h
  rw [hasSavepoint_iff, Nest.knows_iff]
  generalize tx.session.nest.marks = marks at hmatched
  generalize tx.state.savepoints = savepoints at hmatched
  induction hmatched with
  | nil => simp
  | cons hm _ ih =>
    rw [List.exists_mem_cons_iff, List.exists_mem_cons_iff, hm.name]
    exact or_congr ⟨fun h => by rw [h], spName_injective⟩ ih

section Step

variable {tr : Trace} {tx tx' : Tx} {a : Action}

theorem Exact.step (h : Exact tx) (htracks : Tracks tr tx) (heffect : Effect tx a tx')
    (ha : Innermost tx a) : Exact tx' := by
  unfold Exact at h ⊢
  cases heffect with
  | access x hstate hnest =>
    rw [hstate, hnest, record_savepoints]
    exact h
  | quiet _ hsavepoints hnest =>
    rw [hsavepoints, hnest]
    exact h
  | pushed hstate hnest =>
    rw [hstate, hnest]
    simp [Nest.mark, pushSavepoint, h]
  | restored hknows hhas hstate hnest =>
    obtain ⟨outer, e, inner, hsplit⟩ := exists_splitAt hhas
    obtain ⟨houter, x, hinner, hmarks, hup⟩ := Nest.split_marks hknows
    obtain ⟨-, houters, hinners⟩ := htracks.split hsplit hmarks
    rw [hsplit.restore, Option.some.injEq] at hstate
    rw [hmarks, hsplit.savepoints] at h
    rw [← hstate, hnest, Nest.rollbackTo_of_upTo hup]
    have houterLength := houters.length_le
    have hinnerLength := hinners.length_le
    simp only [List.length_append, List.length_cons, List.length_nil] at h ⊢
    omega
  | released hverified hdone hlive hknows hhas hstate hnest =>
    obtain ⟨outer, e, inner, hsplit⟩ := exists_splitAt hhas
    obtain ⟨houter, x, hinner, hmarks, hup⟩ := Nest.split_marks hknows
    obtain ⟨-, houters, hinners⟩ := htracks.split hsplit hmarks
    obtain rfl := (htracks.innermost_iff hsplit).mp (ha hverified hdone hlive hhas)
    rw [hsplit.release, Option.some.injEq] at hstate
    rw [hmarks, hsplit.savepoints] at h
    rw [← hstate, hnest, Nest.release_of_upTo hup]
    have houterLength := houters.length_le
    have hinnerLength := hinners.length_le
    simp only [List.length_append, List.length_cons, List.length_nil] at h hinnerLength ⊢
    omega

/-- A release that goes through and leaves the stacks in agreement named the innermost
savepoint. -/
theorem Tracks.innermost (htracks : Tracks tr tx) (hagree : Agree tx)
    (hafter : Agree (perform tx a).2) : Innermost tx a := by
  cases a with
  | releaseSavepoint caller spID canceled =>
    intro hverified hdone hlive hhas
    subst hdone
    have hknows := (hagree spID).mp hhas
    obtain ⟨outer, e, inner, hsplit⟩ := exists_splitAt hhas
    obtain ⟨houter, x, hinner, hmarks, hup⟩ := Nest.split_marks hknows
    obtain ⟨-, houters, -⟩ := htracks.split hsplit hmarks
    rw [htracks.innermost_iff hsplit]
    have hperform : (perform tx (.releaseSavepoint caller spID false)).2 =
        ⟨{ tx.state with savepoints := outer ++ inner },
          { tx.session with nest := ⟨tx.session.nest.current, houter⟩ }⟩ := by
      simp [perform, Tx.releaseSavepoint, Tx.onSavepoint, hverified, hhas, Session.exec, hlive,
        hknows, hsplit.release, Nest.release_of_upTo hup]
    rw [hperform] at hafter
    cases inner with
    | nil => rfl
    | cons sp inner =>
      -- The entry inside the released one is still on the plugin's stack.
      have hstill := (hafter sp.id).mp (hasSavepoint_iff.mpr ⟨sp, by simp, rfl⟩)
      obtain ⟨m, hm, hname⟩ := Nest.knows_iff.mp hstill
      obtain ⟨sp', hsp', hmatch⟩ := houters.exists_of_mem hm
      have hid : sp'.id = sp.id := spName_injective (hmatch.name.symm.trans hname)
      have hnodup := htracks.nodup
      rw [hsplit.savepoints, List.map_append] at hnodup
      refine absurd hid ((List.nodup_append.mp hnodup).2.2 _ (List.mem_map.mpr ⟨sp', hsp', rfl⟩)
        _ ?_)
      simp
  | _ => trivial

theorem refusedEarly {r : Reply} (hagree : Agree tx) (hr : (perform tx a).1 = r) :
    RefusedEarly ⟨tx, a, r, tx'⟩ := by
  intro caller spID hnamed hverified hunknown
  have hhas : tx.state.hasSavepoint spID = false := by
    rw [← Bool.not_eq_true, hagree spID, hunknown]
    exact Bool.false_ne_true
  rw [← hr]
  cases a with
  | rollbackToSavepoint caller' spID' canceled =>
    cases hnamed
    simp [perform, Tx.rollbackToSavepoint, Tx.onSavepoint, hverified, hhas]
  | releaseSavepoint caller' spID' canceled =>
    cases hnamed
    simp [perform, Tx.releaseSavepoint, Tx.onSavepoint, hverified, hhas]
  | _ => cases hnamed

end Step

/-- All along the run the two stacks agree, and an unknown savepoint is never sent. -/
def Mirrored (tr : Trace) : Prop := ∀ ev ∈ tr, Agree ev.after ∧ RefusedEarly ev

theorem agree_of_mirrored (h : Run step freshSavepoints (newTx tenantID) tr tx)
    (hmirrored : Mirrored tr) : Agree tx := by
  cases h with
  | nil => exact Exact.agree rfl (Tracks.initial tenantID)
  | cons a _ _ _ => exact (hmirrored _ (List.mem_cons_self ..)).1

theorem innermost_of_mirrored (h : Run step freshSavepoints (newTx tenantID) tr tx)
    (hmirrored : Mirrored tr) :
    ∀ ev ∈ tr, Innermost ev.before ev.action := by
  induction h with
  | nil => simp
  | @cons tr x y r a hrun ha hs ih =>
    have hold : Mirrored tr := fun ev hev => hmirrored ev (List.mem_cons_of_mem _ hev)
    have hafter : Agree y := (hmirrored _ (List.mem_cons_self ..)).1
    obtain rfl : (perform x a).2 = y := congrArg Prod.snd (Option.some.inj hs)
    refine List.forall_mem_cons.mpr ⟨?_, ih hold⟩
    exact (tracks hrun).innermost (agree_of_mirrored hrun hold) hafter

theorem mirrored_of_innermost (h : Run step freshSavepoints (newTx tenantID) tr tx)
    (hinnermost : ∀ ev ∈ tr, Innermost ev.before ev.action) : Exact tx ∧ Mirrored tr := by
  induction h with
  | nil => exact ⟨rfl, by simp [Mirrored]⟩
  | @cons tr x y r a hrun ha hs ih =>
    rw [List.forall_mem_cons] at hinnermost
    obtain ⟨hx, hold⟩ := ih hinnermost.2
    have hreply : (perform x a).1 = r := congrArg Prod.fst (Option.some.inj hs)
    obtain rfl : (perform x a).2 = y := congrArg Prod.snd (Option.some.inj hs)
    have hy := hx.step (tracks hrun) (perform_effect x a) hinnermost.1
    have htracks := (tracks hrun).step (r := r) ha (perform_effect x a)
    exact ⟨hy, List.forall_mem_cons.mpr
      ⟨⟨hy.agree htracks, refusedEarly (hx.agree (tracks hrun)) hreply⟩, hold⟩⟩

/-- The sets of a transaction are those of what it did and has not undone: they are disjoint, and
the read set holds what was read and not written, at the version of the first read. The stack
mirrors the database's all along a run exactly when every release that goes through names the
innermost savepoint. -/
theorem savepoint_bookkeeping (tenantID : String) (tr : Trace) (tx : Tx)
    (h : Run step freshSavepoints (newTx tenantID) tr tx) :
    (∀ id, tx.state.readSet.get id = none ∨ tx.state.writeSet.get id = none) ∧
    (∀ id v, tx.state.readSet.get id = some v ↔
      ¬ Wrote tx.session.nest.current id ∧ firstRead tx.session.nest.current id = some v) ∧
    (Mirrored tr ↔ ∀ ev ∈ tr, Innermost ev.before ev.action) := by
  have hcurrent := (tracks h).current
  refine ⟨fun id => ?_, fun id v => ?_,
    innermost_of_mirrored h, fun hinnermost => (mirrored_of_innermost h hinnermost).2⟩
  · obtain ⟨hwrote, hnone, -⟩ := replay_sets tx.session.nest.current id
    rw [hcurrent.1, hcurrent.2]
    by_cases hw : Wrote tx.session.nest.current id
    · exact .inl (hnone hw)
    · exact .inr (by simpa using fun hsome => hw (hwrote.mp hsome))
  · obtain ⟨-, hnone, hfirst⟩ := replay_sets tx.session.nest.current id
    rw [hcurrent.1]
    by_cases hw : Wrote tx.session.nest.current id
    · simp [hw, hnone hw]
    · simp [hw, hfirst hw]

/-- A test for `freshSavepoints`. -/
def freshSavepointsTest (tr : Trace) (_ : Tx) : Action → Bool
  | .savepoint _ spID _ => tr.all fun ev =>
    match ev.action with
    | .savepoint _ spID' _ => spID' ≠ spID
    | _ => true
  | _ => true

theorem freshSavepoints_of_test (tr : Trace) (tx : Tx) (a : Action)
    (h : freshSavepointsTest tr tx a = true) : freshSavepoints tr tx a := by
  cases a with
  | savepoint caller spID canceled =>
    intro ev hev caller' canceled' heq
    have htest := List.all_eq_true.mp h ev hev
    simp [heq] at htest
  | _ => trivial

/-- Two nested savepoints, the outer one released first. -/
def releaseOuter : List Action :=
  [.savepoint (some "t") "a" false, .savepoint (some "t") "b" false,
    .releaseSavepoint (some "t") "a" false]

/-- Releasing an outer savepoint leaves the inner one on the plugin's stack. A later rollback
to it is sent, and PostgreSQL aborts the transaction. -/
theorem released_outer_savepoint_stays : ∃ tr tx,
    Run step freshSavepoints (newTx "t") tr tx ∧ ¬ Agree tx ∧
    (perform tx (.rollbackToSavepoint (some "t") "b" false)).1 =
      ⟨[.rollbackTo "sp_b"], .error (.sql .invalidSavepointSpecification)⟩ := by
  have hrun : ∃ tr tx, Run step freshSavepoints (newTx "t") tr tx ∧
      (tx.state.hasSavepoint "b" && !tx.session.nest.knows (spName "b") &&
        decide ((perform tx (.rollbackToSavepoint (some "t") "b" false)).1 =
          ⟨[.rollbackTo "sp_b"], .error (.sql .invalidSavepointSpecification)⟩)) = true :=
    exists_run_of_execute freshSavepoints_of_test releaseOuter (by decide +kernel)
  obtain ⟨tr, tx, hrun, hcheck⟩ := hrun
  rw [Bool.and_eq_true, Bool.and_eq_true, decide_eq_true_eq] at hcheck
  obtain ⟨⟨hhas, hunknown⟩, hreply⟩ := hcheck
  refine ⟨tr, tx, hrun, fun hagree => ?_, hreply⟩
  rw [(hagree "b").mp hhas] at hunknown
  cases hunknown

instance (tx : Tx) : DecidablePred (Innermost tx)
  | .releaseSavepoint .. => inferInstanceAs (Decidable (_ → _ → _ → _ → _))
  | .recordRead .. | .recordWrite .. | .savepoint .. | .rollbackToSavepoint .. | .abort _ =>
    isTrue trivial

/-- Reads and writes around two savepoints, which are released from the inside out after a
rollback to the inner one. -/
def insideOut : List Action :=
  [.recordRead "r" 7, .recordRead "e" 3, .savepoint (some "t") "a" false, .recordWrite "e" 3,
    .savepoint (some "t") "b" false, .recordRead "f" 5, .recordWrite "r" 7,
    .rollbackToSavepoint (some "t") "b" false, .releaseSavepoint (some "t") "b" false,
    .releaseSavepoint (some "t") "a" false]

/-- The rollback undid the read of `f` and the write of `r`, so that `r` counts as read. -/
theorem savepoint_bookkeeping_inside_out : ∃ tr tx,
    Run step freshSavepoints (newTx "t") tr tx ∧ tr.map (·.action) = insideOut.reverse ∧
    Mirrored tr ∧ tx.state.readSet.get "r" = some 7 ∧ tx.state.readSet.get "e" ≠ some 3 ∧
    tx.state.readSet.get "f" ≠ some 5 := by
  have hrun : ∃ tr tx, Run step freshSavepoints (newTx "t") tr tx ∧
      tr.map (·.action) = insideOut.reverse ∧
      decide ((∀ ev ∈ tr, Innermost ev.before ev.action) ∧
        tx.session.nest.current = [.read "r" 7, .read "e" 3, .write "e" 3]) = true :=
    exists_actions_of_execute freshSavepoints_of_test insideOut (by decide +kernel)
  obtain ⟨tr, tx, hrun, hactions, hcheck⟩ := hrun
  obtain ⟨hinnermost, hcurrent⟩ := of_decide_eq_true hcheck
  obtain ⟨-, hreads, hmirrored⟩ := savepoint_bookkeeping "t" tr tx hrun
  rw [hcurrent] at hreads
  refine ⟨tr, tx, hrun, hactions, hmirrored.mpr hinnermost, ?_, ?_, ?_⟩
  · simp [hreads, Wrote, firstRead]
  · simp [hreads, Wrote]
  · simp [hreads, firstRead]

end CyodaGo.Postgres
