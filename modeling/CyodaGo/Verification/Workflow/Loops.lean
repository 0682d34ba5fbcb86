import CyodaGo.Model.Workflow.Loops
import CyodaGo.Verification.Workflow.Cascade
import CyodaGo.Shared.Graph

/-! # Loop validation is exact

Gray states are those of the stack of calls, each the parent of the next; black states, newest
first, stand before their successors. -/

namespace CyodaGo.Workflow

open Graph

namespace Marks

@[simp] theorem colorOf_setColor (m : Marks) (a v : String) (c : Color) :
    (m.setColor a c).colorOf v = if v = a then c else m.colorOf v :=
  GoMap.getD_set m.color a v c .white

end Marks

section Search

variable (adj : String → List String)

/-- `b` is below `a` on the stack. -/
def Below (m : Marks) (a b : String) : Prop := Edge adj b a ∧ m.parent.get a = some b

structure SearchInv (m : Marks) (stack finished : List String) : Prop where
  gray : ∀ v, m.colorOf v = .gray ↔ v ∈ stack
  black : ∀ v, m.colorOf v = .black ↔ v ∈ finished
  chain : stack.IsChain (Below adj m)
  nodup : stack.Nodup
  topological : Topological adj finished

/-- A search that comes back with the same stack has finished more states; one that does not has
found a cycle. -/
def Searched (stack finished : List String) (P : List String → Prop) : Search → Prop
  | .done m => ∃ finished', SearchInv adj m stack finished' ∧ finished ⊆ finished' ∧ P finished'
  | .loop path => IsCycle adj path
  | .outOfFuel => False

variable {adj} {m : Marks} {stack finished nodes : List String} {state next : String}

theorem reconstructCyclePath_isCycle {fuel : ℕ} {cur : String} {below parts : List String}
    (hchain : (cur :: below).IsChain (Below adj m)) (hmem : next ∈ cur :: below)
    (hfuel : below.length < fuel) (hpath : (cur :: parts ++ [next]).IsChain (Edge adj)) :
    ∃ path, reconstructCyclePath m.parent next fuel cur parts = some path ∧ IsCycle adj path := by
  induction below generalizing fuel cur parts with
  | nil =>
    obtain ⟨fuel, rfl⟩ : ∃ k, fuel = k + 1 := ⟨fuel - 1, by simp at hfuel; omega⟩
    obtain rfl : next = cur := by simpa using hmem
    exact ⟨_, by rw [reconstructCyclePath, if_pos rfl], next, parts, rfl, hpath⟩
  | cons b below ih =>
    obtain ⟨fuel, rfl⟩ : ∃ k, fuel = k + 1 := ⟨fuel - 1, by simp at hfuel; omega⟩
    rw [reconstructCyclePath]
    by_cases heq : cur = next
    · subst heq
      exact ⟨_, if_pos rfl, cur, parts, rfl, hpath⟩
    obtain ⟨⟨hedge, hparent⟩, hbelow⟩ := List.isChain_cons_cons.mp hchain
    have hcur : m.parent.getD cur "" = b := by simp [GoMap.getD, hparent]
    rw [if_neg heq, hcur]
    refine ih hbelow (by simpa [Ne.symm heq] using hmem) (by simpa using hfuel) ?_
    exact List.isChain_cons_cons.mpr ⟨hedge, hpath⟩

namespace SearchInv

theorem push (h : SearchInv adj m stack finished) (hwhite : m.colorOf state = .white)
    (hchain : (state :: stack).IsChain (Below adj m)) :
    SearchInv adj (m.setColor state .gray) (state :: stack) finished where
  gray v := by
    by_cases hv : v = state
    · simp [hv]
    · simp [hv, h.gray]
  black v := by
    by_cases hv : v = state
    · have := h.black state
      simp_all
    · simp [hv, h.black]
  chain := hchain
  nodup := List.nodup_cons.mpr ⟨fun hmem => by simp [(h.gray state).mpr hmem] at hwhite, h.nodup⟩
  topological := h.topological

theorem pop (h : SearchInv adj m (state :: stack) finished)
    (hsucc : ∀ u ∈ adj state, u ∈ finished) :
    SearchInv adj (m.setColor state .black) stack (state :: finished) where
  gray v := by
    by_cases hv : v = state
    · simp [hv, (List.nodup_cons.mp h.nodup).1]
    · simp [hv, h.gray]
  black v := by
    by_cases hv : v = state
    · simp [hv]
    · simp [hv, h.black]
  chain := h.chain.tail
  nodup := (List.nodup_cons.mp h.nodup).2
  topological := by
    refine .cons hsucc (fun hmem => ?_) h.topological
    have hgray := (h.gray state).mpr (by simp)
    have hblack := (h.black state).mpr hmem
    cases hgray.symm.trans hblack

theorem setParent (h : SearchInv adj m stack finished) (hwhite : m.colorOf next = .white)
    (p : String) : SearchInv adj (m.setParent next p) stack finished where
  gray := h.gray
  black := h.black
  chain := by
    refine h.chain.imp_of_mem_imp fun a b ha _ hbelow => ⟨hbelow.1, ?_⟩
    have hne : a ≠ next := by
      rintro rfl
      simp [(h.gray a).mpr ha] at hwhite
    rw [← hbelow.2]
    exact GoMap.get_set_of_ne _ _ hne
  nodup := h.nodup
  topological := h.topological

end SearchInv

theorem Searched.mono {earlier : List String} {P P' : List String → Prop} {r : Search}
    (h : Searched adj stack finished P r) (hsub : earlier ⊆ finished)
    (hP : ∀ l, finished ⊆ l → P l → P' l) : Searched adj stack earlier P' r := by
  cases r with
  | done m =>
    obtain ⟨finished', hinv, hmore, hdone⟩ := h
    exact ⟨finished', hinv, List.Subset.trans hsub hmore, hP finished' hmore hdone⟩
  | loop path => exact h
  | outOfFuel => exact h

/-- The states of the stack are distinct nodes, so the search is never deeper than there are
nodes. -/
def WithinFuel (nodes stack : List String) (fuel : ℕ) : Prop :=
  stack ⊆ nodes ∧ nodes.length < fuel + stack.length

section Calls

variable (hnodes : ∀ a, ∀ b ∈ adj a, b ∈ nodes) {fuel : ℕ}

include hnodes

theorem dfsNext_searched {nexts : List String} (hnexts : nexts ⊆ adj state)
    (hdfs : ∀ {m stack finished next}, SearchInv adj m stack finished → m.colorOf next = .white →
      (next :: stack).IsChain (Below adj m) → WithinFuel nodes (next :: stack) fuel →
      Searched adj stack finished (next ∈ ·) (dfs adj nodes.length fuel next m))
    (hinv : SearchInv adj m (state :: stack) finished)
    (hfuel : WithinFuel nodes (state :: stack) (fuel + 1)) :
    Searched adj (state :: stack) finished (nexts ⊆ ·)
      (dfsNext (dfs adj nodes.length fuel) nodes.length state nexts m) := by
  induction nexts generalizing m finished with
  | nil => exact ⟨finished, hinv, List.Subset.refl _, by simp⟩
  | cons next rest ih =>
    obtain ⟨hedge, hrest⟩ := List.cons_subset.mp hnexts
    rw [dfsNext]
    cases hcolor : m.colorOf next with
    | gray =>
      have hlength := (hinv.nodup.subperm hfuel.1).length_le
      have hback : (state :: [] ++ [next]).IsChain (Edge adj) :=
        List.isChain_cons_cons.mpr ⟨hedge, List.isChain_singleton _⟩
      obtain ⟨path, hpath, hcycle⟩ := reconstructCyclePath_isCycle hinv.chain
        ((hinv.gray next).mp hcolor) (Nat.lt_of_succ_le hlength) hback
      simp only [hpath]
      exact hcycle
    | black =>
      refine (ih hrest hinv).mono (List.Subset.refl _) fun l hsub hall => ?_
      exact List.cons_subset.mpr ⟨hsub ((hinv.black next).mp hcolor), hall⟩
    | white =>
      have hinv1 := hinv.setParent hcolor state
      have hchain : (next :: state :: stack).IsChain (Below adj (m.setParent next state)) :=
        List.isChain_cons_cons.mpr ⟨⟨hedge, GoMap.get_set_self _ _ _⟩, hinv1.chain⟩
      have hdeeper : WithinFuel nodes (next :: state :: stack) fuel := by
        refine ⟨List.cons_subset.mpr ⟨hnodes state next hedge, hfuel.1⟩, ?_⟩
        have := hfuel.2
        simp only [List.length_cons] at this ⊢
        omega
      have hcall := hdfs hinv1 hcolor hchain hdeeper
      generalize dfs adj nodes.length fuel next (m.setParent next state) = r at hcall
      cases r with
      | loop path => exact hcall
      | outOfFuel => exact hcall
      | done m1 =>
        obtain ⟨finished1, hinv1, hsub1, hnext⟩ := hcall
        refine (ih hrest hinv1).mono hsub1 fun l hsub hall => ?_
        exact List.cons_subset.mpr ⟨hsub hnext, hall⟩

theorem dfs_searched (hinv : SearchInv adj m stack finished) (hwhite : m.colorOf state = .white)
    (hchain : (state :: stack).IsChain (Below adj m))
    (hfuel : WithinFuel nodes (state :: stack) fuel) :
    Searched adj stack finished (state ∈ ·) (dfs adj nodes.length fuel state m) := by
  have hpushed := hinv.push hwhite hchain
  induction fuel generalizing m stack finished state with
  | zero =>
    have hlength := (hpushed.nodup.subperm hfuel.1).length_le
    have := hfuel.2
    omega
  | succ fuel ih =>
    have hnexts := dfsNext_searched hnodes (List.Subset.refl _)
      (fun hinv hwhite hchain hfuel => ih hinv hwhite hchain hfuel (hinv.push hwhite hchain))
      hpushed hfuel
    rw [dfs]
    generalize dfsNext (dfs adj nodes.length fuel) nodes.length state (adj state)
      (m.setColor state .gray) = r at hnexts
    cases r with
    | loop path => exact hnexts
    | outOfFuel => exact hnexts
    | done m' =>
      obtain ⟨finished', hinv', hsub, hall⟩ := hnexts
      exact ⟨state :: finished', hinv'.pop hall, List.subset_cons_of_subset _ hsub, by simp⟩

theorem dfsAll_searched {states : List String} (hstates : states ⊆ nodes)
    (hinv : SearchInv adj m [] finished) :
    Searched adj [] finished (states ⊆ ·) (dfsAll adj nodes.length states m) := by
  induction states generalizing m finished with
  | nil => exact ⟨finished, hinv, List.Subset.refl _, by simp⟩
  | cons state rest ih =>
    obtain ⟨hstate, hrest⟩ := List.cons_subset.mp hstates
    rw [dfsAll]
    by_cases hwhite : m.colorOf state = .white
    · have hfuel : WithinFuel nodes [state] nodes.length := ⟨by simpa using hstate, by simp⟩
      have hcall := dfs_searched hnodes hinv hwhite (List.isChain_singleton _) hfuel
      rw [if_pos hwhite]
      generalize dfs adj nodes.length nodes.length state m = r at hcall
      cases r with
      | loop path => exact hcall
      | outOfFuel => exact hcall
      | done m1 =>
        obtain ⟨finished1, hinv1, hsub1, hdone⟩ := hcall
        refine (ih hrest hinv1).mono hsub1 fun l hsub hall => ?_
        exact List.cons_subset.mpr ⟨hsub hdone, hall⟩
    · rw [if_neg hwhite]
      refine (ih hrest hinv).mono (List.Subset.refl _) fun l hsub hall => ?_
      have hblack : m.colorOf state = .black := by
        have hgray := hinv.gray state
        cases hcolor : m.colorOf state with
        | white => exact absurd hcolor hwhite
        | gray => simp [hcolor] at hgray
        | black => rfl
      exact List.cons_subset.mpr ⟨hsub ((hinv.black state).mp hblack), hall⟩

end Calls

end Search

/-! ## The verdict -/

section Verdict

variable (wf : WorkflowDefinition)

theorem adj_eq_nil {state : String} (h : state ∉ wf.states.keys) : wf.adj state = [] := by
  rw [WorkflowDefinition.adj, GoMap.get_eq_none_of_notMem h]

theorem mem_keys_of_edge {a b : String} (h : Edge wf.adj a b) : a ∈ wf.states.keys := by
  by_contra hnot
  simp [Edge, adj_eq_nil wf hnot] at h

theorem mem_nodes_of_edge (a b : String) (h : b ∈ wf.adj a) : b ∈ wf.nodes :=
  List.mem_append_right _ (List.mem_flatMap.mpr ⟨a, mem_keys_of_edge wf h, h⟩)

theorem validateWorkflowLoops_cases :
    validateWorkflowLoops wf = .accepted ∧ Acyclic wf.adj ∨
      ∃ path, validateWorkflowLoops wf = .rejected (loopMessage path) ∧ IsCycle wf.adj path := by
  have hsorted (v : String) : v ∈ wf.states.keys.insertionSort (· ≤ ·) ↔ v ∈ wf.states.keys :=
    List.mem_insertionSort _
  have hstart : SearchInv wf.adj ⟨∅, ∅⟩ [] [] :=
    ⟨by simp [Marks.colorOf, GoMap.getD], by simp [Marks.colorOf, GoMap.getD], .nil, by simp, .nil⟩
  have hsearched := dfsAll_searched (mem_nodes_of_edge wf)
    (fun v hv => List.mem_append_left _ ((hsorted v).mp hv)) hstart
  rw [validateWorkflowLoops]
  generalize dfsAll wf.adj wf.nodes.length (wf.states.keys.insertionSort (· ≤ ·)) ⟨∅, ∅⟩ = r
    at hsearched
  cases r with
  | done m =>
    obtain ⟨finished, hinv, -, hall⟩ := hsearched
    refine .inl ⟨rfl, fun a hcycle => ?_⟩
    obtain ⟨b, hedge, -⟩ := Relation.TransGen.head'_iff.mp hcycle
    exact hinv.topological.no_cycle (hall ((hsorted a).mpr (mem_keys_of_edge wf hedge))) hcycle
  | loop path => exact .inr ⟨path, rfl, hsearched⟩
  | outOfFuel => exact hsearched.elim

end Verdict

/-! ## Accepted workflows -/

variable {σ : Type} {w : Surroundings Call Call.Answer σ} {e : Engine} {wf : WorkflowDefinition}
  {txID : Memory.TxID}

variable {c c' : Position σ} {trs : List TransitionDefinition}

/-- A round without a criterion follows an edge of the validated graph. -/
theorem Fires.edge {tr : TransitionDefinition} (h : Fires w e wf txID c tr c')
    (hcriterion : tr.criterion = none) : Edge wf.adj c.state c'.state := by
  rw [Edge, h.state_eq]
  obtain ⟨-, hdeclared, ⟨hsplit, -, hautomated⟩, -, -⟩ := h
  have hunguarded : tr.unguarded = true := by
    simp only [TransitionDefinition.automated, Bool.not_eq_true', Bool.or_eq_false_iff] at hautomated
    simp [TransitionDefinition.unguarded, hautomated.1.1, hautomated.1.2, hcriterion]
  simp only [WorkflowDefinition.adj, hdeclared, hsplit]
  exact List.mem_map.mpr ⟨tr, by simp [hunguarded], rfl⟩

theorem Path.isChain (h : Path w e wf txID c trs c') (hcriterion : ∀ tr ∈ trs, tr.criterion = none) :
    (c.state :: trs.map (·.next)).IsChain (Edge wf.adj) := by
  induction h with
  | stop c => exact List.isChain_singleton _
  | step hfires hrest ih =>
    have hedge := hfires.edge (hcriterion _ (by simp))
    have hchain := ih fun tr htr => hcriterion tr (by simp [htr])
    rw [hfires.state_eq] at hedge hchain
    exact List.isChain_cons_cons.mpr ⟨hedge, hchain⟩

theorem Path.split {trs' : List TransitionDefinition} (h : Path w e wf txID c (trs ++ trs') c') :
    ∃ c1, Path w e wf txID c trs c1 ∧ Path w e wf txID c1 trs' c' := by
  induction trs generalizing c with
  | nil => exact ⟨c, .stop c, h⟩
  | cons tr trs ih =>
    cases h with
    | step hfires hrest =>
      obtain ⟨c1, hfirst, hsecond⟩ := ih hrest
      exact ⟨c1, .step hfires hfirst, hsecond⟩

/-- What fires is declared in a state of the workflow. -/
theorem Path.declared (h : Path w e wf txID c trs c') : ∀ tr ∈ trs, ∃ state ∈ wf.states.keys,
      ∃ stateDef ∈ wf.states.get state, tr ∈ stateDef.transitions := by
  induction h with
  | stop c => simp
  | step hfires _ ih =>
    obtain ⟨-, hdeclared, ⟨hsplit, -, -⟩, -, -⟩ := hfires
    refine List.forall_mem_cons.mpr ⟨⟨_, GoMap.mem_keys_of_get hdeclared, _, hdeclared, ?_⟩, ih⟩
    simp [hsplit]

/-- A sequence of rounds without criteria meets no state twice. -/
theorem Path.nodup_of_acyclic (hacyclic : Acyclic wf.adj)
    {before steps after : List TransitionDefinition}
    (h : Path w e wf txID c (before ++ steps ++ after) c')
    (hcriterion : ∀ tr ∈ steps, tr.criterion = none) :
    ((before.map (·.next)).getLastD c.state :: steps.map (·.next)).Nodup := by
  obtain ⟨c2, hfront, -⟩ := h.split
  obtain ⟨c1, hbefore, hsteps⟩ := hfront.split
  have hnodup := hacyclic.nodup (hsteps.isChain hcriterion)
  rw [hbefore.state_eq] at hnodup
  exact hnodup

/-- The check accepts exactly the workflows without an unguarded cycle and names a real one
otherwise. A cascade of an accepted workflow has an execution, and in each one a sequence of rounds
without criteria meets no state twice: neither the one it begins in nor those it enters. -/
theorem loop_validation_exact (wf : WorkflowDefinition) :
    (validateWorkflowLoops wf = .accepted ↔ Acyclic wf.adj) ∧
    (validateWorkflowLoops wf ≠ .accepted →
      ∃ path, validateWorkflowLoops wf = .rejected (loopMessage path) ∧ IsCycle wf.adj path) ∧
    (validateWorkflowLoops wf = .accepted →
      ∀ (allowed : Trace → (q : Call) → q.Answer → Prop) (e : Engine) (ctx : Ctx)
        (txID : Memory.TxID) (f f' : Frame) (tr : Trace) (handed : Handed),
        Routine.Runs (recorded allowed) (cascadeAutomated e ctx wf txID) f [] handed f' tr →
        (∃ fired c, Executed allowed e wf ctx txID f handed f' tr fired c) ∧
        ∀ before steps after c,
          Path (recorded allowed) e wf txID ⟨ctx, txID, f, []⟩ (before ++ steps ++ after) c →
          (∀ tr ∈ steps, tr.criterion = none) →
          ((before.map (·.next)).getLastD f.entity.info.state :: steps.map (·.next)).Nodup) := by
  have hcases := validateWorkflowLoops_cases wf
  have hacyclic : validateWorkflowLoops wf = .accepted → Acyclic wf.adj := by
    intro haccepted
    rcases hcases with h | ⟨path, h, -⟩
    · exact h.2
    cases h.symm.trans haccepted
  refine ⟨⟨hacyclic, fun h => ?_⟩, fun h => ?_, fun haccepted => ?_⟩
  · rcases hcases with hok | ⟨path, -, hcycle⟩
    · exact hok.1
    · exact absurd h hcycle.not_acyclic
  · rcases hcases with hok | hloop
    · exact absurd hok.1 h
    · exact hloop
  · intro allowed e ctx txID f f' tr handed hrun
    obtain ⟨fired, c, hexecuted, -⟩ := cascadeAutomated_executed hrun
    exact ⟨⟨fired, c, hexecuted⟩, fun before steps after c hpath hcriterion =>
      hpath.nodup_of_acyclic (hacyclic haccepted) hcriterion⟩

namespace Sample

/-- The sample workflow of the cascade, with the second transition guarded. -/
def guarded : WorkflowDefinition :=
  { looping with
    states := (GoMap.set ∅ "new" ⟨[transition "start" "busy" []]⟩).set "busy"
      ⟨[{ transition "repeat" "busy" [] with criterion := some (.inline "retry") }]⟩ }

example : validateWorkflowLoops looping = .rejected (loopMessage ["busy", "busy"]) := by
  decide +kernel

end Sample

open Sample in
/-- The two unguarded rounds of a cascade of the orders meet three states. -/
theorem loop_validation_exact_orders : validateWorkflowLoops guarded = .accepted ∧
    validateWorkflowLoops workflow = .accepted ∧ ∃ handed tr f' fired c,
      Executed anyAnswer engine workflow ctx "tx" (frame.withState "new") handed f' tr fired c ∧
      departures "new" fired = ["new", "checked"] ∧ ("new" :: fired.map (·.next)).Nodup := by
  have haccepted : validateWorkflowLoops workflow = .accepted := by decide +kernel
  obtain ⟨⟨handed, f'⟩, tr, hrun, hcheck⟩ := Program.exists_executes_of_play answer
    anyAnswer_of_test (cascadeAutomated engine ctx workflow "tx" (frame.withState "new"))
    (fun _ tr => madeStates tr = ["new", "checked"]) (by decide +kernel)
  obtain ⟨⟨fired, c, hexecuted⟩, hnodup⟩ := (loop_validation_exact workflow).2.2 haccepted anyAnswer
    engine ctx "tx" (frame.withState "new") f' tr handed hrun
  refine ⟨by decide +kernel, haccepted, handed, tr, f', fired, c, hexecuted,
    hexecuted.events.symm.trans (of_decide_eq_true hcheck), ?_⟩
  have hpath : Path (recorded anyAnswer) engine workflow "tx" ⟨ctx, "tx", frame.withState "new", []⟩
      ([] ++ fired ++ []) c := by simpa using hexecuted.path
  refine hnodup [] fired [] c hpath fun d hd => ?_
  have hunguarded : ∀ state ∈ workflow.states.keys,
      ∀ stateDef ∈ workflow.states.get state, ∀ d ∈ stateDef.transitions, d.criterion = none := by
    decide
  obtain ⟨state, hstate, stateDef, hdeclared, hmem⟩ := hexecuted.path.declared d hd
  exact hunguarded state hstate stateDef hdeclared d hmem

end CyodaGo.Workflow
