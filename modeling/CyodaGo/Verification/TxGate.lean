import CyodaGo.Model.TxGate

/-! # Exclusion by reference-counted gates

A chain is counted in the references of its gate from before it waits until after it has unlocked
it. While one chain is counted, the gate stays registered, so all chains of a transaction meet at
the same one. -/

namespace CyodaGo.TxGate

open State

open GoMap

namespace Chain

/-- The gate that counts the chain. -/
def gate (ch : Chain) : Option ℕ :=
  match ch.phase with
  | .waiting g | .holding g | .leaving g _ => some g
  | .suspended | .finished => none

/-- The gate whose mutex the chain has locked. -/
def holds (ch : Chain) : Option ℕ :=
  match ch.phase with
  | .holding g => some g
  | _ => none

/-- The release variable frees the gate that is held, and only the resume function of the current
suspension has not run. -/
def Tidy (ch : Chain) : Prop :=
  match ch.phase with
  | .suspended | .leaving _ false => ∃ spent, ch.onces = spent ++ [false] ∧ ∀ b ∈ spent, b = true
  | .holding g => ch.release = some g ∧ ∀ b ∈ ch.onces, b = true
  | _ => ∀ b ∈ ch.onces, b = true

theorem gate_of_holds {ch : Chain} {g : ℕ} (h : ch.holds = some g) : ch.gate = some g := by
  unfold holds at h
  unfold gate
  split at h <;> simp_all

theorem holds_iff {ch : Chain} {g : ℕ} : ch.holds = some g ↔ ch.phase = .holding g := by
  unfold holds
  split <;> simp_all

end Chain

/-! ## Counts of chains -/

structure Counted (s : State) : Prop where
  entry : ∀ c ch g, s.chains.get c = some ch → ch.gate = some g → s.gates.get ch.txID = some g
  allocated : ∀ t g, s.gates.get t = some g → g < s.next
  single : ∀ t t' g, s.gates.get t = some g → s.gates.get t' = some g → t = t'
  refs : ∀ t g, s.gates.get t = some g → (s.heap g).refs = s.chains.count (·.gate = some g)
  locked : ∀ t g, s.gates.get t = some g →
    (if (s.heap g).locked then 1 else 0) = s.chains.count (·.holds = some g)
  tidy : ∀ c ch, s.chains.get c = some ch → ch.Tidy

namespace Counted

variable {s : State} {c g : ℕ} {ch new : Chain} {t : String}

theorem no_gate (hs : Counted s) (h : ∀ t, s.gates.get t ≠ some g) :
    s.chains.count (·.gate = some g) = 0 := by
  rw [count_eq_zero]
  intro k v hget
  exact decide_eq_false fun hgate => h _ (hs.entry k v g hget hgate)

theorem holds_le_gate (s : State) (h : s.chains.count (·.gate = some g) = 0) :
    s.chains.count (·.holds = some g) = 0 := by
  rw [count_eq_zero] at h ⊢
  intro k v hget
  have hgate := h k v hget
  simp only [decide_eq_false_iff_not] at hgate ⊢
  exact fun hholds => hgate (Chain.gate_of_holds hholds)

/-- A chain and the gate of its transaction change; the other gates count as before. -/
theorem recount (hs : Counted s) {gate : Gate} (hget : s.gates.get new.txID = some g)
    (hold : ∀ old, s.chains.get c = some old → ∀ g', old.gate = some g' → g' = g)
    (hnew : ∀ g', new.gate = some g' → g' = g)
    (hrefs : gate.refs = (s.chains.set c new).count (·.gate = some g))
    (hlocked : (if gate.locked then 1 else 0) = (s.chains.set c new).count (·.holds = some g))
    (htidy : new.Tidy) : Counted ((s.setGate g gate).setChain c new) := by
  have hother (p : Chain → Bool) (hp : ∀ x : Chain, (∀ g', x.gate = some g' → g' = g) → p x = false) :
      (s.chains.set c new).count p = s.chains.count p := by
    cases hc : s.chains.get c with
    | none => simpa [hp new hnew] using count_set_of_none p (v := new) hc
    | some old =>
      simpa [hp new hnew, hp old (hold old hc)] using count_set_of_get p (w := new) hc
  refine ⟨?_, hs.allocated, hs.single, ?_, ?_, ?_⟩
  · intro k v g' hk hgate
    simp only [setChain, setGate, get_set] at hk ⊢
    split at hk
    · cases hk
      rw [hnew g' hgate]
      exact hget
    · exact hs.entry k v g' hk hgate
  · intro t g' hg'
    by_cases heq : g' = g
    · subst heq
      simpa [setChain, setGate] using hrefs
    have hsame := hother (·.gate = some g') fun x hx => decide_eq_false fun h => heq (hx g' h)
    simpa [setChain, setGate, heq, hsame] using hs.refs t g' hg'
  · intro t g' hg'
    by_cases heq : g' = g
    · subst heq
      simpa [setChain, setGate] using hlocked
    have hsame := hother (·.holds = some g') fun x hx =>
      decide_eq_false fun h => heq (hx g' (Chain.gate_of_holds h))
    simpa [setChain, setGate, heq, hsame] using hs.locked t g' hg'
  · intro k v hk
    simp only [setChain, setGate, get_set] at hk
    split at hk
    · cases hk
      exact htidy
    · exact hs.tidy k v hk

end Counted

/-- A new gate of `txID` that no chain has entered yet. -/
def State.register (s : State) (txID : String) : State :=
  { s with gates := s.gates.set txID s.next, next := s.next + 1 }.setGate s.next ⟨false, 0⟩

theorem State.enter_of_none {s : State} {c : ℕ} {ch : Chain} (h : s.gates.get ch.txID = none) :
    s.enter c ch = (s.register ch.txID).enter c ch := by
  simp [enter, register, setGate, setChain, h]

namespace Counted

variable {s : State} {c g : ℕ} {ch : Chain} {t : String}

theorem register (hs : Counted s) (hnone : s.gates.get t = none) : Counted (s.register t) := by
  have hfresh (t' : String) : s.gates.get t' ≠ some s.next :=
    fun h => Nat.lt_irrefl _ (hs.allocated t' _ h)
  have hzero := hs.no_gate hfresh
  have hne {t' : String} {g' : ℕ} (h : s.gates.get t' = some g') : g' ≠ s.next :=
    fun heq => hfresh t' (heq ▸ h)
  have hcases {t' : String} {g' : ℕ} (h : (s.register t).gates.get t' = some g') :
      t' = t ∧ g' = s.next ∨ t' ≠ t ∧ s.gates.get t' = some g' := by
    simp only [State.register, setGate, get_set] at h
    split at h <;> simp_all
  refine ⟨?_, ?_, ?_, ?_, ?_, hs.tidy⟩
  · intro k v g' hk hgate
    have hold := hs.entry k v g' hk hgate
    have hdiff : v.txID ≠ t := fun h => by simp [h, hnone] at hold
    simpa [State.register, setGate, get_set, hdiff] using hold
  · intro t' g' h
    rcases hcases h with ⟨-, rfl⟩ | ⟨-, hold⟩
    · exact Nat.lt_succ_self _
    · exact Nat.lt_succ_of_lt (hs.allocated t' g' hold)
  · intro t' t'' g' h h'
    rcases hcases h with ⟨rfl, rfl⟩ | ⟨-, hold⟩ <;> rcases hcases h' with ⟨rfl, hg⟩ | ⟨-, hold'⟩
    · rfl
    · exact absurd rfl (hne hold')
    · exact absurd hg (hne hold)
    · exact hs.single t' t'' g' hold hold'
  · intro t' g' h
    rcases hcases h with ⟨-, rfl⟩ | ⟨-, hold⟩
    · simpa [State.register, setGate] using hzero.symm
    · simpa [State.register, setGate, hne hold] using hs.refs t' g' hold
  · intro t' g' h
    rcases hcases h with ⟨-, rfl⟩ | ⟨-, hold⟩
    · simpa [State.register, setGate] using (holds_le_gate s hzero).symm
    · simpa [State.register, setGate, hne hold] using hs.locked t' g' hold

/-- An entry goes when its gate counts no chain. -/
theorem drop (hs : Counted s) (hget : s.gates.get t = some g) (hzero : (s.heap g).refs = 0) :
    Counted { s with gates := s.gates.del t } := by
  have hkept {t' : String} {g' : ℕ} (h : (s.gates.del t).get t' = some g') :
      s.gates.get t' = some g' := by
    rw [get_del] at h
    split at h <;> simp_all
  refine ⟨?_, fun t' g' h => hs.allocated t' g' (hkept h),
    fun t' t'' g' h h' => hs.single t' t'' g' (hkept h) (hkept h'),
    fun t' g' h => hs.refs t' g' (hkept h), fun t' g' h => hs.locked t' g' (hkept h), hs.tidy⟩
  intro k v g' hk hgate
  have hold := hs.entry k v g' hk hgate
  have hnone := hs.refs t g hget
  rw [hzero, eq_comm, count_eq_zero] at hnone
  have hdiff : v.txID ≠ t := by
    intro heq
    have hsame : g = g' := by simpa [← heq, hold] using hget.symm
    simpa [hsame, hgate] using hnone k v hk
  simpa [get_del, hdiff] using hold

/-- The chain is a new one, or a suspended one that resumes. -/
def Enters (s : State) (c : ℕ) : Prop := ∀ old, s.chains.get c = some old → old.phase = .suspended

theorem enter (hs : Counted s) (hc : Enters s c) (honces : ∀ b ∈ ch.onces, b = true) :
    Counted (s.enter c ch) := by
  -- the count of a set that leaves out idle chains grows by the entering one
  have hgrow (s : State) (hc : Enters s c) (p : Chain → Bool)
      (hp : ∀ old : Chain, old.phase = .suspended → p old = false) (new : Chain) :
      (s.chains.set c new).count p = s.chains.count p + if p new then 1 else 0 := by
    cases hget : s.chains.get c with
    | none => exact count_set_of_none p hget
    | some old => simpa [hp old (hc old hget)] using count_set_of_get p (w := new) hget
  have hjoin (s : State) (hs : Counted s) (hc : Enters s c) (g : ℕ)
      (hget : s.gates.get ch.txID = some g) : Counted (s.enter c ch) := by
    simp only [State.enter, hget]
    refine hs.recount hget (fun old hold g' h => ?_) (fun g' h => ?_) ?_ ?_ honces
    · simp [Chain.gate, hc old hold] at h
    · simpa [Chain.gate, eq_comm] using h
    · rw [hgrow s hc _ (fun old h => by simp [Chain.gate, h]), hs.refs _ _ hget]
      simp [Chain.gate]
    · rw [hgrow s hc _ (fun old h => by simp [Chain.holds, h]), ← hs.locked _ _ hget]
      simp [Chain.holds]
  cases hget : s.gates.get ch.txID with
  | some g => exact hjoin s hs hc g hget
  | none =>
    rw [enter_of_none hget]
    exact hjoin _ (hs.register hget) hc s.next (by simp [State.register, setGate])

/-- The mutex is locked or unlocked by the chain, which stays counted. -/
theorem relock (hs : Counted s) {new : Chain} {gate : Gate} (hc : s.chains.get c = some ch)
    (hid : new.txID = ch.txID) (hg : ch.gate = some g) (hg' : new.gate = some g)
    (hrefs : gate.refs = (s.heap g).refs) (htidy : new.Tidy)
    (hlocked : (if gate.locked then 1 else 0) + (if ch.holds = some g then 1 else 0) =
      (if (s.heap g).locked then 1 else 0) + if new.holds = some g then 1 else 0) :
    Counted ((s.setGate g gate).setChain c new) := by
  have hget := hs.entry c ch g hc hg
  refine hs.recount (hid ▸ hget) (fun old hold g' h => ?_) (fun g' h => ?_) ?_ ?_ htidy
  · simp_all
  · simp_all
  · have hcount := count_set_of_get (·.gate = some g) (w := new) hc
    simp only [hg, hg'] at hcount
    rw [hrefs, hs.refs _ _ hget]
    omega
  · have hcount := count_set_of_get (·.holds = some g) (w := new) hc
    simp only [decide_eq_true_eq, ← hs.locked _ _ hget] at hcount
    omega

theorem leave {finishing : Bool} (hs : Counted s) (hc : s.chains.get c = some ch)
    (hphase : ch.phase = .leaving g finishing) : Counted (s.leave c ch g finishing) := by
  have hg : ch.gate = some g := by simp [Chain.gate, hphase]
  have hget := hs.entry c ch g hc hg
  have hrecount : Counted ((s.setGate g { s.heap g with refs := (s.heap g).refs - 1 }).setChain c
      { ch with phase := if finishing then .finished else .suspended }) := by
    refine hs.recount hget (fun old hold g' h => ?_) (fun g' h => ?_) ?_ ?_ ?_
    · simp_all
    · cases finishing <;> simp [Chain.gate] at h
    · have hcount := count_set_of_get (·.gate = some g)
        (w := { ch with phase := if finishing then .finished else .suspended }) hc
      rw [hs.refs _ _ hget]
      cases finishing <;> simp [Chain.gate, hphase] at hcount ⊢ <;> omega
    · have hcount := count_set_of_get (·.holds = some g)
        (w := { ch with phase := if finishing then .finished else .suspended }) hc
      rw [hs.locked _ _ hget]
      cases finishing <;> simp [Chain.holds, hphase] at hcount ⊢ <;> omega
    · have htidy := hs.tidy c ch hc
      cases finishing <;> simpa [Chain.Tidy, hphase] using htidy
  by_cases hzero : (s.heap g).refs - 1 = 0
  · have hdrop := hrecount.drop (t := ch.txID) (g := g) hget (by simpa [setGate, setChain])
    simpa [State.leave, hzero, setGate, setChain] using hdrop
  · simpa [State.leave, hzero] using hrecount

end Counted

/-! ## Steps -/

/-- No registered gate is without a chain. -/
def Live (s : State) : Prop := ∀ t g, s.gates.get t = some g → 0 < (s.heap g).refs

/-- What a step of a chain does. -/
inductive Moves (s : State) : Action → State → Prop where
  | stay {a} (hkeep : ∀ c, a ≠ .release c) : Moves s a s
  | enter {a} {c : ℕ} {ch : Chain} (hkeep : ∀ c, a ≠ .release c) (hc : Counted.Enters s c)
      (honces : ∀ b ∈ ch.onces, b = true) : Moves s a (s.enter c ch)
  | lock {c g : ℕ} {ch : Chain} (hc : s.chains.get c = some ch) (hphase : ch.phase = .waiting g)
      (hfree : (s.heap g).locked = false) :
      Moves s (.lock c) ((s.setGate g { s.heap g with locked := true }).setChain c
        { ch with phase := .holding g, release := some g })
  | suspend {c g : ℕ} {ch : Chain} (hc : s.chains.get c = some ch) (hphase : ch.phase = .holding g)
      (hlocked : (s.heap g).locked = true) :
      Moves s (.suspend c) ((s.setGate g { s.heap g with locked := false }).setChain c
        { ch with phase := .leaving g false, onces := ch.onces ++ [false] })
  | release {c g : ℕ} {ch : Chain} (hc : s.chains.get c = some ch) (hphase : ch.phase = .holding g)
      (hlocked : (s.heap g).locked = true) :
      Moves s (.release c) ((s.setGate g { s.heap g with locked := false }).setChain c
        { ch with phase := .leaving g true })
  | leave {c g : ℕ} {ch : Chain} {finishing : Bool} (hc : s.chains.get c = some ch)
      (hphase : ch.phase = .leaving g finishing) : Moves s (.unref c) (s.leave c ch g finishing)

variable {s s' : State} {a : Action} {r : Reply} {c g : ℕ} {ch : Chain}

/-- The release function that a holding chain runs frees the locked gate that the chain holds. -/
theorem unlock_of_holding (hs : Counted s) (hc : s.chains.get c = some ch)
    (hphase : ch.phase = .holding g) (finishing : Bool) (onces : List Bool) :
    (s.heap g).locked = true ∧ s.unlock c ch finishing onces =
      (.ok, (s.setGate g { s.heap g with locked := false }).setChain c
        { ch with phase := .leaving g finishing, onces }) := by
  have hrel : ch.release = some g := by
    have htidy := hs.tidy c ch hc
    simp only [Chain.Tidy, hphase] at htidy
    exact htidy.1
  have hget := hs.entry c ch g hc (by simp [Chain.gate, hphase])
  have hlocked : (s.heap g).locked = true := by
    have hcount := hs.locked _ _ hget
    rw [count_of_get _ hc] at hcount
    by_contra hfree
    simp [hfree, Chain.holds, hphase] at hcount
  exact ⟨hlocked, by simp [unlock, hrel, hlocked]⟩

theorem Moves.of_resume (hs : Counted s) (hc : s.chains.get c = some ch) {k : ℕ}
    (h : s.stepChain c ch (.resume c k) = some (r, s')) : r = .ok ∧ Moves s (.resume c k) s' := by
  have htidy := hs.tidy c ch hc
  simp only [stepChain] at h
  split at h
  · -- no resume function is left for a chain that holds
    rename_i g hphase
    simp only [Chain.Tidy, hphase] at htidy
    split at h
    · cases h
    · cases h
      exact ⟨rfl, .stay nofun⟩
    · rename_i hk
      exact absurd (htidy.2 _ (List.mem_of_getElem? hk)) (by simp)
  · rename_i hphase
    simp only [Chain.Tidy, hphase] at htidy
    obtain ⟨spent, honces, hspent⟩ := htidy
    split at h
    · cases h
    · cases h
      exact ⟨rfl, .stay nofun⟩
    · rename_i hk
      cases h
      refine ⟨rfl, .enter nofun ?_ ?_⟩
      · intro old hold
        simp_all
      · have hlast : k = spent.length := by
          rw [honces] at hk
          by_contra hne
          rcases Nat.lt_or_ge k spent.length with hlt | hge
          · rw [List.getElem?_append_left hlt] at hk
            exact absurd (hspent _ (List.mem_of_getElem? hk)) (by simp)
          simp [List.getElem?_append_right hge, List.getElem?_singleton] at hk
          omega
        intro b hb
        simp only [honces, hlast, List.set_append_right _ _ le_rfl, Nat.sub_self, List.set_cons_zero,
          List.mem_append, List.mem_singleton] at hb
        exact hb.elim (hspent b) id
  · cases h

theorem Moves.of_step (hs : Counted s) (h : s.step a = some (r, s')) : r = .ok ∧ Moves s a s' := by
  cases hc : s.chains.get a.chain with
  | none =>
    cases a with
    | acquire c txID =>
      simp only [step, Action.chain] at h hc
      simp only [hc, Option.some.injEq, Prod.mk.injEq] at h
      obtain ⟨rfl, rfl⟩ := h
      refine ⟨rfl, ?_⟩
      split
      · exact .stay nofun
      · exact .enter nofun (fun old hold => by simp [hc] at hold) (by simp)
    | _ => simp [step, hc] at h
  | some ch =>
    simp only [step, hc] at h
    cases a with
    | acquire c txID => simp [stepChain] at h
    | resume c k => exact of_resume hs hc h
    | lock c =>
      simp only [stepChain, Action.chain] at h hc
      split at h
      · rename_i g hphase
        split at h
        · cases h
        rename_i hfree
        cases h
        exact ⟨rfl, .lock hc hphase (by simpa using hfree)⟩
      · cases h
    | suspend c =>
      simp only [stepChain, Action.chain] at h hc
      split at h
      · rename_i g hphase
        have hunlock := unlock_of_holding hs hc hphase false (ch.onces ++ [false])
        rw [hunlock.2] at h
        cases h
        exact ⟨rfl, .suspend hc hphase hunlock.1⟩
      · cases h
        exact ⟨rfl, .stay nofun⟩
      · cases h
    | release c =>
      simp only [stepChain, Action.chain] at h hc
      split at h
      · rename_i g hphase
        have hunlock := unlock_of_holding hs hc hphase true ch.onces
        rw [hunlock.2] at h
        cases h
        exact ⟨rfl, .release hc hphase hunlock.1⟩
      · cases h
    | unref c =>
      simp only [stepChain, Action.chain] at h hc
      split at h
      · rename_i g finishing hphase
        cases h
        exact ⟨rfl, .leave hc hphase⟩
      · cases h

theorem Moves.counted (hs : Counted s) (h : Moves s a s') : Counted s' := by
  cases h with
  | stay => exact hs
  | enter _ hc honces => exact hs.enter hc honces
  | lock hc hphase hfree =>
    have htidy := hs.tidy _ _ hc
    simp only [Chain.Tidy, hphase] at htidy
    exact hs.relock hc rfl (by simp [Chain.gate, hphase]) rfl rfl ⟨rfl, htidy⟩
      (by simp [hfree, Chain.holds, hphase])
  | suspend hc hphase hlocked =>
    have htidy := hs.tidy _ _ hc
    simp only [Chain.Tidy, hphase] at htidy
    exact hs.relock hc rfl (by simp [Chain.gate, hphase]) rfl rfl ⟨_, rfl, htidy.2⟩
      (by simp [hlocked, Chain.holds, hphase])
  | release hc hphase hlocked =>
    have htidy := hs.tidy _ _ hc
    simp only [Chain.Tidy, hphase] at htidy
    exact hs.relock hc rfl (by simp [Chain.gate, hphase]) rfl rfl htidy.2
      (by simp [hlocked, Chain.holds, hphase])
  | leave hc hphase => exact hs.leave hc hphase

theorem live_setGate (hs : Live s) {gate : Gate} (hrefs : 0 < gate.refs) :
    Live ((s.setGate g gate).setChain c ch) := by
  intro t g' hget
  by_cases heq : g' = g
  · simpa [setChain, setGate, heq] using hrefs
  · simpa [setChain, setGate, heq] using hs t g' hget

theorem Moves.live (hs : Counted s) (hlive : Live s) (h : Moves s a s') : Live s' := by
  have hrefs {c g : ℕ} {ch : Chain} (hc : s.chains.get c = some ch) (hg : ch.gate = some g) :
      0 < (s.heap g).refs := hlive _ _ (hs.entry c ch g hc hg)
  cases h with
  | stay => exact hlive
  | @enter a c ch =>
    unfold State.enter
    split
    · exact live_setGate hlive (Nat.succ_pos _)
    intro t g' hget
    simp only [setChain, setGate, get_set] at hget ⊢
    by_cases heq : g' = s.next
    · simp [heq]
    split at hget
    · simp_all
    · simpa [heq] using hlive t g' hget
  | lock hc hphase => exact live_setGate hlive (hrefs hc (by simp [Chain.gate, hphase]))
  | suspend hc hphase => exact live_setGate hlive (hrefs hc (by simp [Chain.gate, hphase]))
  | release hc hphase => exact live_setGate hlive (hrefs hc (by simp [Chain.gate, hphase]))
  | @leave c g ch finishing hc hphase =>
    have hentry := hs.entry c ch g hc (by simp [Chain.gate, hphase])
    intro t g' hget
    by_cases hzero : (s.heap g).refs - 1 = 0
    · simp only [State.leave, hzero, if_true, setChain, setGate, get_del] at hget ⊢
      split at hget
      · cases hget
      rename_i hne
      have hdiff : g' ≠ g := fun heq => hne (hs.single _ _ g (heq ▸ hget) hentry)
      simpa [hdiff] using hlive t g' hget
    · simp only [State.leave, hzero, if_false] at hget ⊢
      exact live_setGate hlive (Nat.pos_of_ne_zero hzero) t g' hget

/-! ## Runs -/

/-- The deferred release of the chain has begun. -/
def State.released (s : State) (c : ℕ) : Bool :=
  (s.chains.get c).any fun ch => match ch.phase with
    | .leaving _ true | .finished => true
    | _ => false

theorem Moves.released (h : Moves s a s') (c : ℕ) :
    s'.released c = (s.released c || decide (a = .release c)) ∧
      (a = .release c → s.released c = false) := by
  cases h with
  | stay hkeep => simp [hkeep c]
  | @enter a c' ch hkeep hc =>
    refine ⟨?_, fun h => absurd h (hkeep c)⟩
    have hchains : ∃ g, (s.enter c' ch).chains = s.chains.set c' { ch with phase := .waiting g } := by
      unfold State.enter
      split <;> exact ⟨_, rfl⟩
    obtain ⟨g, hchains⟩ := hchains
    by_cases heq : c = c'
    · subst heq
      cases hget : s.chains.get c with
      | none => simp [released, hchains, hget, hkeep c]
      | some old => simp [released, hchains, hget, hkeep c, hc old hget]
    · simp [released, hchains, get_set, heq, hkeep c]
  | @lock c' g ch hc hphase =>
    by_cases heq : c = c' <;>
      simp_all [released, setChain, setGate, get_set]
  | @suspend c' g ch hc hphase =>
    by_cases heq : c = c' <;>
      simp_all [released, setChain, setGate, get_set]
  | @release c' g ch hc hphase =>
    by_cases heq : c = c' <;>
      simp_all [released, setChain, setGate, get_set, Ne.symm]
  | @leave c' g ch finishing hc hphase =>
    by_cases heq : c = c' <;> cases finishing <;>
      simp_all [released, State.leave, setChain, setGate, get_set]

/-- A state that the chains reach, and the record of their steps. -/
structure Serialised (tr : List (Event State Action Reply)) (s : State) : Prop where
  exclusive : ∀ c c' ch ch' g g', s.chains.get c = some ch → s.chains.get c' = some ch' →
    ch.txID = ch'.txID → ch.holds = some g → ch'.holds = some g' → c = c'
  one_gate : ∀ c c' ch ch' g g', s.chains.get c = some ch → s.chains.get c' = some ch' →
    ch.txID = ch'.txID → ch.gate = some g → ch'.gate = some g' → g = g'
  no_fatal : ∀ ev ∈ tr, ev.result = .ok
  release_held : ∀ c ch g, s.chains.get c = some ch → ch.holds = some g →
    (s.heap g).locked = true ∧ s.step (.release c) =
      some (.ok, (s.setGate g { s.heap g with locked := false }).setChain c
        { ch with phase := .leaving g true })
  release_once : ∀ c, (tr.countP fun ev => ev.action = .release c) ≤ 1
  registered_iff : ∀ t, (∃ g, s.gates.get t = some g) ↔
    ∃ c ch g, s.chains.get c = some ch ∧ ch.txID = t ∧ ch.gate = some g

theorem run_inv {tr : List (Event State Action Reply)} (hrun : Run step AnyStep .new tr s) :
    Counted s ∧ Live s ∧ (∀ ev ∈ tr, ev.result = .ok) ∧
      ∀ c, (tr.countP fun ev => ev.action = .release c) = if s.released c then 1 else 0 := by
  refine Run.inv (I := fun tr s => Counted s ∧ Live s ∧ (∀ ev ∈ tr, ev.result = .ok) ∧
    ∀ c, (tr.countP fun ev => ev.action = .release c) = if s.released c then 1 else 0)
    ?_ ?_ hrun
  · exact ⟨⟨by simp [State.new], by simp [State.new], by simp [State.new], by simp [State.new],
      by simp [State.new], by simp [State.new]⟩, by simp [Live, State.new], by simp,
      by simp [released, State.new]⟩
  · intro tr x a r y hinv _ hstep
    obtain ⟨hcounted, hlive, hok, hcount⟩ := hinv
    obtain ⟨rfl, hmoves⟩ := Moves.of_step hcounted hstep
    refine ⟨hmoves.counted hcounted, hmoves.live hcounted hlive, by simpa using hok, fun c => ?_⟩
    have hreleased := hmoves.released c
    rw [List.countP_cons, hcount c, hreleased.1]
    by_cases hrel : a = .release c
    · simp [hrel, hreleased.2 hrel]
    · simp [hrel]

theorem gates_serialise_chains {tr : List (Event State Action Reply)}
    (hrun : Run step AnyStep .new tr s) : Serialised tr s := by
  obtain ⟨hs, hlive, hok, hcount⟩ := run_inv hrun
  have hgate {c c' : ℕ} {ch ch' : Chain} {g g' : ℕ} (hc : s.chains.get c = some ch)
      (hc' : s.chains.get c' = some ch') (hid : ch.txID = ch'.txID) (hg : ch.gate = some g)
      (hg' : ch'.gate = some g') : g = g' := by
    have hentry := hs.entry c ch g hc hg
    rw [hid, hs.entry c' ch' g' hc' hg'] at hentry
    exact (Option.some.inj hentry).symm
  refine ⟨?_, fun c c' ch ch' g g' => hgate, hok, ?_, ?_, ?_⟩
  · intro c c' ch ch' g g' hc hc' hid hheld hheld'
    obtain rfl := hgate hc hc' hid (Chain.gate_of_holds hheld) (Chain.gate_of_holds hheld')
    by_contra hne
    -- two holders make the count of holders two, while the mutex is locked at most once
    have hlocked := hs.locked _ _ (hs.entry c ch g hc (Chain.gate_of_holds hheld))
    have hrest : (s.chains.del c).get c' = some ch' := by
      rw [get_del_of_ne _ (Ne.symm hne), hc']
    rw [count_of_get _ hc, count_of_get _ hrest] at hlocked
    simp only [hheld, hheld'] at hlocked
    split at hlocked <;> simp at hlocked
  · intro c ch g hc hheld
    have hphase := Chain.holds_iff.mp hheld
    have hunlock := unlock_of_holding hs hc hphase true ch.onces
    refine ⟨hunlock.1, ?_⟩
    simp [step, stepChain, Action.chain, hc, hphase, hunlock.2]
  · intro c
    rw [hcount c]
    split <;> omega
  · intro t
    constructor
    · rintro ⟨g, hget⟩
      have hpos := hlive t g hget
      rw [hs.refs t g hget] at hpos
      by_contra hnone
      refine absurd ((count_eq_zero _).mpr fun c ch hc => ?_) (Nat.pos_iff_ne_zero.mp hpos)
      refine decide_eq_false fun hg => hnone ⟨c, ch, g, hc, ?_, hg⟩
      exact hs.single _ _ g (hs.entry c ch g hc hg) hget
    · rintro ⟨c, ch, g, hc, rfl, hg⟩
      exact ⟨g, hs.entry c ch g hc hg⟩

/-- A chain suspends its gate, another one passes, and the first resumes and releases. -/
theorem gates_serialise_resumed : ∃ tr s, Run step AnyStep State.new tr s ∧
    (tr.length = 12 ∧ s.gates.get "tx" = none) ∧ Serialised tr s := by
  have hexecuted : ∃ tr s, Run step AnyStep State.new tr s ∧
      decide (tr.length = 12 ∧ s.gates.get "tx" = none) = true :=
    exists_any_of_execute [.acquire 0 "tx", .acquire 1 "tx", .lock 0, .suspend 0, .unref 0,
      .lock 1, .resume 0 0, .release 1, .unref 1, .lock 0, .release 0, .unref 0]
      (by decide +kernel)
  obtain ⟨tr, s, hrun, hcheck⟩ := hexecuted
  exact ⟨tr, s, hrun, of_decide_eq_true hcheck, gates_serialise_chains hrun⟩

/-- Between the two sections of a release function no chain holds or waits, and the entry is still
there. -/
theorem entry_outlives_release : ∃ tr s, Run step AnyStep State.new tr s ∧
    (∀ c ch, s.chains.get c = some ch → ∀ g, ch.phase ≠ .waiting g ∧ ch.phase ≠ .holding g) ∧
    s.gates.get "tx" = some 0 := by
  have hexecuted : ∃ tr s, Run step AnyStep State.new tr s ∧
      decide (s.chains.count (fun ch => ch.phase ≠ .leaving 0 true) = 0 ∧
        s.gates.get "tx" = some 0) = true :=
    exists_any_of_execute [.acquire 0 "tx", .lock 0, .release 0] (by decide +kernel)
  obtain ⟨tr, s, hrun, hcheck⟩ := hexecuted
  have hcheck := of_decide_eq_true hcheck
  refine ⟨tr, s, hrun, fun c ch hc g => ?_, hcheck.2⟩
  have hphase := (count_eq_zero _).mp hcheck.1 c ch hc
  simp only [ne_eq, decide_not, Bool.not_eq_false', decide_eq_true_eq] at hphase
  simp [hphase]

/-! ## Progress -/

/-- The action takes the chain to another phase. -/
def Advances (s : State) (c : ℕ) (a : Action) : Prop :=
  ∃ ch s' ch', s.chains.get c = some ch ∧ s.step a = some (.ok, s') ∧
    s'.chains.get c = some ch' ∧ ch'.phase ≠ ch.phase

theorem advances {s' : State} {new : Chain} (hc : s.chains.get c = some ch)
    (hstep : s.step a = some (.ok, s'.setChain c new)) (hne : new.phase ≠ ch.phase) :
    Advances s c a :=
  ⟨ch, _, new, hc, hstep, get_set_self .., hne⟩

theorem advances_of_holding (hs : Counted s) (hc : s.chains.get c = some ch)
    (hphase : ch.phase = .holding g) : Advances s c (.release c) := by
  have hstep : s.step (.release c) = some (s.unlock c ch true ch.onces) := by
    simp [step, stepChain, Action.chain, hc, hphase]
  rw [(unlock_of_holding hs hc hphase true ch.onces).2] at hstep
  exact advances hc hstep (by simp [hphase])

theorem advances_of_suspended (hs : Counted s) (hc : s.chains.get c = some ch)
    (hphase : ch.phase = .suspended) : ∃ k, Advances s c (.resume c k) := by
  have htidy := hs.tidy c ch hc
  simp only [Chain.Tidy, hphase] at htidy
  obtain ⟨spent, honces, -⟩ := htidy
  refine ⟨spent.length, ?_⟩
  have hstep : s.step (.resume c spent.length) =
      some (.ok, s.enter c { ch with onces := ch.onces.set spent.length true }) := by
    simp [step, stepChain, Action.chain, hc, hphase, honces]
  unfold State.enter at hstep
  split at hstep
  · exact advances hc hstep (by simp [hphase])
  · exact advances hc hstep (by simp [hphase])

/-- The gates never lock up: while a chain is not done, some chain can go on. One that waits for
a locked gate waits for one that can release it. -/
theorem some_chain_advances {tr : List (Event State Action Reply)}
    (hrun : Run step AnyStep .new tr s) :
    (∀ c ch, s.chains.get c = some ch → ch.phase = .finished) ∨ ∃ c a, Advances s c a := by
  have hs := (run_inv hrun).1
  by_contra! hstuck
  obtain ⟨⟨c, ch, hc, hopen⟩, hnone⟩ := hstuck
  cases hphase : ch.phase with
  | finished => exact hopen hphase
  | holding g => exact hnone c _ (advances_of_holding hs hc hphase)
  | suspended =>
    obtain ⟨k, hk⟩ := advances_of_suspended hs hc hphase
    exact hnone c _ hk
  | leaving g finishing =>
    have hstep : s.step (.unref c) = some (.ok, s.leave c ch g finishing) := by
      simp [step, stepChain, Action.chain, hc, hphase]
    exact hnone c _ (advances hc hstep (by cases finishing <;> simp [hphase]))
  | waiting g =>
    have hlocked : (s.heap g).locked = true := by
      by_contra hfree
      have hstep : s.step (.lock c) =
          some (.ok, (s.setGate g { s.heap g with locked := true }).setChain c
            { ch with phase := .holding g, release := some g }) := by
        simp [step, stepChain, Action.chain, hc, hphase, hfree]
      exact hnone c _ (advances hc hstep (by simp [hphase]))
    have hcount := hs.locked _ _ (hs.entry c ch g hc (by simp [Chain.gate, hphase]))
    refine absurd ((count_eq_zero _).mpr fun c' ch' hc' => decide_eq_false fun hheld => ?_)
      (by rw [← hcount, hlocked]; simp)
    exact hnone c' _ (advances_of_holding hs hc' (Chain.holds_iff.mp hheld))

/-- A chain waits for the gate that another one has locked. -/
theorem some_chain_advances_waiting : ∃ tr s, Run step AnyStep State.new tr s ∧
    (s.chains.get 1).map Chain.phase = some (.waiting 0) ∧ ∃ c a, Advances s c a := by
  have hexecuted : ∃ tr s, Run step AnyStep State.new tr s ∧
      decide ((s.chains.get 1).map Chain.phase = some (.waiting 0)) = true :=
    exists_any_of_execute [.acquire 0 "tx", .acquire 1 "tx", .lock 0] (by decide +kernel)
  obtain ⟨tr, s, hrun, hcheck⟩ := hexecuted
  have hwaiting := of_decide_eq_true hcheck
  obtain ⟨ch, hch, hphase⟩ := Option.map_eq_some_iff.mp hwaiting
  refine ⟨tr, s, hrun, hwaiting, (some_chain_advances hrun).resolve_left fun hfinished => ?_⟩
  cases (hfinished 1 ch hch).symm.trans hphase

end CyodaGo.TxGate
