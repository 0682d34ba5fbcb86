import CyodaGo.Model.Search.Service

/-! # Jobs in flight

Each tenant's counter is the number of its handles in the registry, as long as a reclaimed job stays
with its tenant. -/

namespace CyodaGo.Search.Registry

abbrev RegistryEv := Event Registry Call (Option AsyncJobHandle)

/-- The number of registry entries of a tenant. -/
def held (s : Registry) (tenant : String) : ℕ := s.registry.count fun h => h.tenant = tenant

def Counted (s : Registry) : Prop := ∀ t, s.inFlight t = s.held t

/-- A handle is replaced by one of the same tenant. -/
def keepsTenant (s : Registry) : Call → Bool
  | .registerReclaim jobID tenant _ => (s.registry.get jobID).all (·.tenant = tenant)
  | _ => true

/-- The call replaces the handle or removes it in its own name. -/
def Call.ends (jobID : String) (addr : Nat) : Call → Bool
  | .registerJob .. => false
  | .registerReclaim jobID' .. => jobID' = jobID
  | .deregisterJobHandle jobID' addr' => jobID' = jobID ∧ addr' = addr

variable {s s' : Registry} {jobID tenant : String} {epoch : Int} {c : Call}
  {r : Option AsyncJobHandle} {h : AsyncJobHandle}

/-! ## One step -/

open GoMap

theorem Counted.install_new (hs : s.Counted) (hget : s.registry.get jobID = none) :
    (s.install jobID tenant epoch true).Counted := by
  intro t
  have ht := hs t
  simp only [inFlight, held, install, newHandle, if_true, getD_set, count_set,
    count_del_of_none _ hget] at ht ⊢
  by_cases h : t = tenant
  · subst h
    simp [ht]
  · simp [h, ht, Ne.symm h]

theorem Counted.install_over (hs : s.Counted) (hget : s.registry.get jobID = some h)
    (htenant : h.tenant = tenant) : (s.install jobID tenant epoch false).Counted := by
  intro t
  have ht := hs t
  simp only [inFlight, held, install, newHandle, count_of_get _ hget,
    count_set, htenant] at ht ⊢
  exact ht

theorem getD_releaseSlot (tenant t : String) (hnonneg : 0 < s.inFlight tenant) :
    (s.releaseSlot tenant).getD t 0 = s.inFlight t - if tenant = t then 1 else 0 := by
  by_cases h : t = tenant
  · subst h
    unfold releaseSlot
    split
    · rw [getD_del, if_pos rfl, if_pos rfl]
      omega
    · rw [getD_set_self, if_pos rfl]
  · unfold releaseSlot
    split
    · simp [getD_del, h, Ne.symm h, inFlight]
    · simp [getD_set, h, Ne.symm h, inFlight]

theorem Counted.deregister (hs : s.Counted) (addr : Nat) :
    (s.deregisterJobHandle jobID addr).Counted := by
  unfold deregisterJobHandle
  cases hget : s.registry.get jobID with
  | none => exact hs
  | some cur =>
    dsimp only
    split
    · exact hs
    intro t
    have hcount := fun t => (hs t).trans (congrArg _ (count_of_get
      (fun h : AsyncJobHandle => decide (h.tenant = t)) hget))
    have hpos : 0 < s.inFlight cur.tenant := by
      rw [hcount]
      simp
    change (s.releaseSlot cur.tenant).getD t 0 =
      ((s.registry.del jobID).count fun h => decide (h.tenant = t) : ℕ)
    rw [getD_releaseSlot _ t hpos, hcount t]
    by_cases h : cur.tenant = t <;> simp [h]

theorem Counted.step (hs : s.Counted) (hc : s.keepsTenant c = true) (hstep : s.step c = some (r, s')) :
    s'.Counted := by
  cases c with
  | registerJob jobID tenant epoch =>
    obtain rfl : (s.registerJob jobID tenant epoch).2 = s' := by rw [Option.some.inj hstep]
    unfold registerJob
    split
    · exact hs
    · next hnone =>
      split
      · exact hs
      · exact hs.install_new (by simpa using hnone)
  | registerReclaim jobID tenant epoch =>
    obtain rfl : (s.registerReclaim jobID tenant epoch).2 = s' :=
      congrArg Prod.snd (Option.some.inj hstep)
    unfold registerReclaim
    cases hget : s.registry.get jobID with
    | none => exact hs.install_new hget
    | some h => exact hs.install_over hget (by simpa [keepsTenant, hget] using hc)
  | deregisterJobHandle jobID addr =>
    cases hstep
    exact hs.deregister addr

/-- A new handle has the next address, and after a reclaim it is the registered one. -/
theorem step_addr (hstep : s.step c = some (some h, s')) :
    h.addr = s.next ∧ ∀ jobID tenant epoch, c = .registerReclaim jobID tenant epoch →
      s'.registry.get jobID = some h := by
  cases c with
  | registerJob jobID tenant epoch =>
    have hresult := Option.some.inj hstep
    unfold registerJob at hresult
    split at hresult
    · cases hresult
    split at hresult <;> cases hresult
    exact ⟨rfl, by simp⟩
  | registerReclaim jobID tenant epoch =>
    cases Option.some.inj hstep
    refine ⟨rfl, ?_⟩
    rintro _ _ _ ⟨⟩
    simp [install]
  | deregisterJobHandle jobID addr => cases hstep

/-- A job gets a handle only below the cap. -/
theorem inFlight_registerJob (hstep : s.step (.registerJob jobID tenant epoch) = some (some h, s'))
    (hcap : 0 < s.maxPerTenant) : s'.inFlight tenant ≤ s.maxPerTenant := by
  have hresult := Option.some.inj hstep
  unfold registerJob at hresult
  split at hresult
  · cases hresult
  split at hresult <;> cases hresult
  simp only [inFlight, install, if_true, getD_set_self] at *
  omega

theorem step_next (hstep : s.step c = some (r, s')) : s.next ≤ s'.next ∧
    s'.maxPerTenant = s.maxPerTenant ∧ ∀ h, r = some h → s'.next = s.next + 1 := by
  cases c with
  | registerJob jobID tenant epoch =>
    have hresult := Option.some.inj hstep
    unfold registerJob at hresult
    split at hresult
    · cases hresult; simp
    · split at hresult <;> (cases hresult; simp [install])
  | registerReclaim jobID tenant epoch =>
    cases Option.some.inj hstep
    simp [install]
  | deregisterJobHandle jobID addr =>
    cases Option.some.inj hstep
    unfold deregisterJobHandle
    split
    · simp
    · split <;> simp

/-- A registered handle stays until it is replaced or removed in its own name. -/
theorem registered_step (hget : s.registry.get jobID = some h) (hends : c.ends jobID h.addr = false)
    (hstep : s.step c = some (r, s')) : s'.registry.get jobID = some h := by
  cases c with
  | registerJob jobID' tenant epoch =>
    have hresult := Option.some.inj hstep
    unfold registerJob at hresult
    split at hresult
    · cases hresult; exact hget
    · next hnew =>
      have hne : jobID ≠ jobID' := by
        rintro rfl
        simp [hget] at hnew
      split at hresult
      · cases hresult; exact hget
      cases hresult
      simp [install, get_set_of_ne _ _ hne, hget]
  | registerReclaim jobID' tenant epoch =>
    have hne : jobID ≠ jobID' := fun h => by simp [Call.ends, h] at hends
    cases Option.some.inj hstep
    simp [install, get_set_of_ne _ _ hne, hget]
  | deregisterJobHandle jobID' addr =>
    cases Option.some.inj hstep
    by_cases hne : jobID = jobID'
    · subst hne
      have haddr : h.addr ≠ addr := fun h => by simp [Call.ends, h] at hends
      simp [deregisterJobHandle, hget, haddr]
    · unfold deregisterJobHandle
      split
      · exact hget
      split
      · exact hget
      · simp [get_del_of_ne _ hne, hget]

/-! ## Runs -/

section Runs

variable {cap : Int} {allowed : List RegistryEv → Registry → Call → Prop}
  {tr newer older : List RegistryEv} {ev : RegistryEv}

theorem counted_of_run (hrun : Run step (fun _ s c => s.keepsTenant c = true) (empty cap) tr s) :
    s.Counted ∧ s.maxPerTenant = cap :=
  hrun.inv (I := fun _ s => s.Counted ∧ s.maxPerTenant = cap)
    ⟨fun _ => rfl, rfl⟩
    fun _ _ _ _ _ hs hc hstep => ⟨hs.1.step hc hstep, (step_next hstep).2.1.trans hs.2⟩

theorem addr_lt_of_run (hrun : Run step allowed (empty cap) tr s) :
    ∀ ev ∈ tr, ∀ h, ev.result = some h → h.addr < s.next := by
  refine hrun.inv (I := fun tr s => ∀ ev ∈ tr, ∀ h, ev.result = some h → h.addr < s.next)
    (by simp) fun tr s c r s' hs _ hstep ev hev h hresult => ?_
  have hnext := step_next hstep
  rcases List.mem_cons.mp hev with rfl | hev
  · obtain rfl : r = some h := hresult
    have haddr := (step_addr hstep).1
    have := hnext.2.2 h rfl
    omega
  · have := hs ev hev h hresult
    omega

theorem registered_of_run (hget : ev.after.registry.get jobID = some h)
    (hrun : Run step allowed (empty cap) (newer ++ ev :: older) s)
    (hends : ∀ ev' ∈ newer, ev'.action.ends jobID h.addr = false) :
    s.registry.get jobID = some h := by
  induction newer generalizing s with
  | nil =>
    cases hrun
    exact hget
  | cons ev' newer ih =>
    cases hrun with
    | cons c hrun _ hstep =>
      exact registered_step (ih hrun fun e he => hends e (List.mem_cons_of_mem _ he))
        (hends _ List.mem_cons_self) hstep

/-- In every run whose reclaims stay with the tenant of the handle they replace, each counter is the
number of its tenant's entries, no submitted job brings a tenant above the cap, and the handle that
a reclaim has installed differs from every earlier one and is only removed in its own name. -/
theorem in_flight_accounting (hrun : Run step (fun _ s c => s.keepsTenant c = true) (empty cap) tr s) :
    (∀ t, s.inFlight t = s.held t) ∧
    (∀ ev ∈ tr, ∀ jobID tenant epoch h, ev.action = .registerJob jobID tenant epoch →
      ev.result = some h → 0 < cap → (ev.after.held tenant : Int) ≤ cap) ∧
    ∀ newer ev older jobID tenant epoch h, tr = newer ++ ev :: older →
      ev.action = .registerReclaim jobID tenant epoch → ev.result = some h →
      (∀ ev' ∈ older, ∀ h', ev'.result = some h' → h'.addr ≠ h.addr) ∧
      ((∀ ev' ∈ newer, ev'.action.ends jobID h.addr = false) → s.registry.get jobID = some h) := by
  refine ⟨(counted_of_run hrun).1, ?_, ?_⟩
  · intro ev hev jobID tenant epoch h haction hresult hcap
    obtain ⟨older, hold, hkeeps, hstep⟩ := hrun.of_mem hev
    obtain ⟨hcounted, hmax⟩ := counted_of_run hold
    rw [haction] at hkeeps
    rw [haction, hresult] at hstep
    rw [← hcounted.step hkeeps hstep tenant, ← hmax]
    exact inFlight_registerJob hstep (hmax ▸ hcap)
  · rintro newer ev older jobID tenant epoch h rfl haction hresult
    obtain ⟨hold, -, hstep⟩ := hrun.of_append
    rw [hresult] at hstep
    obtain ⟨haddr, hregistered⟩ := step_addr hstep
    refine ⟨fun ev' hev' h' hresult' => ?_, registered_of_run (hregistered _ _ _ haction) hrun⟩
    have := addr_lt_of_run hold ev' hev' h' hresult'
    omega

end Runs

/-- The node takes its own job over, and the executor that it has superseded returns. -/
theorem in_flight_accounting_sample :
    ∃ tr s, Run step (fun _ s c => s.keepsTenant c = true) (empty 1) tr s ∧
      (∀ t, s.inFlight t = s.held t) ∧ s.registry.get "j" = some ⟨1, "A", 2⟩ := by
  have hrun : ∃ tr s, Run step (fun _ s c => s.keepsTenant c = true) (empty 1) tr s ∧
      decide (s.registry.get "j" = some ⟨1, "A", 2⟩) = true :=
    exists_run_of_execute (fun _ (s : Registry) c (h : s.keepsTenant c = true) => h)
      [.registerJob "j" "A" 1, .registerReclaim "j" "A" 2, .deregisterJobHandle "j" 0]
      (by decide +kernel)
  obtain ⟨tr, s, hrun, hget⟩ := hrun
  exact ⟨tr, s, hrun, (in_flight_accounting hrun).1, of_decide_eq_true hget⟩

/-- A handle that is replaced by one of another tenant keeps its own tenant's slot. -/
theorem reclaim_across_tenants_miscounts :
    ∃ tr s, Run step AnyStep (empty 1) tr s ∧
      decide (s.inFlight "A" = 1 ∧ s.held "A" = 0 ∧ s.inFlight "B" = 0 ∧ s.held "B" = 1) = true :=
  exists_any_of_execute [.registerJob "j" "A" 1, .registerReclaim "j" "B" 2] (by decide +kernel)

end CyodaGo.Search.Registry
