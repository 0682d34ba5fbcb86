import CyodaGo.Model.Workflow.Types

/-! # Loop validation

The depth-first search of `validate.go` for cycles of automated transitions that no criterion
guards. -/

namespace CyodaGo.Workflow

def TransitionDefinition.unguarded (tr : TransitionDefinition) : Bool :=
  !(tr.manual || tr.disabled) && tr.criterion.isNone

/-- The adjacency list of a state. -/
def WorkflowDefinition.adj (wf : WorkflowDefinition) (state : String) : List String :=
  match wf.states.get state with
  | none => []
  | some stateDef => (stateDef.transitions.filter (·.unguarded)).map (·.next)

inductive Color where
  | white
  | gray
  | black
  deriving DecidableEq

/-- The two maps that the search shares. -/
structure Marks where
  color : GoMap String Color
  parent : GoMap String String

namespace Marks

def colorOf (m : Marks) (state : String) : Color := m.color.getD state .white

def setColor (m : Marks) (state : String) (c : Color) : Marks :=
  { m with color := m.color.set state c }

def setParent (m : Marks) (state parent : String) : Marks :=
  { m with parent := m.parent.set state parent }

end Marks

/-- `parts` holds what the loop has put in front so far. -/
def reconstructCyclePath (parent : GoMap String String) (cycleStart : String) :
    (fuel : ℕ) → (cur : String) → (parts : List String) → Option (List String)
  | 0, _, _ => none
  | fuel + 1, cur, parts =>
    if cur = cycleStart then some (cycleStart :: parts ++ [cycleStart])
    else reconstructCyclePath parent cycleStart fuel (parent.getD cur "") (cur :: parts)

inductive Search where
  | done (m : Marks)
  | loop (path : List String)
  | outOfFuel

/-- The loop of `dfs` over the successors; `dfs` is the call on a white one. -/
def dfsNext (dfs : String → Marks → Search) (fuel : ℕ) (state : String) :
    List String → Marks → Search
  | [], m => .done m
  | next :: rest, m =>
    match m.colorOf next with
    | .gray =>
      match reconstructCyclePath m.parent next fuel state [] with
      | some path => .loop path
      | none => .outOfFuel
    | .white =>
      match dfs next (m.setParent next state) with
      | .done m => dfsNext dfs fuel state rest m
      | r => r
    | .black => dfsNext dfs fuel state rest m

/-- `pathFuel` bounds the length of a path that is reconstructed. -/
def dfs (adj : String → List String) (pathFuel : ℕ) : (fuel : ℕ) → String → Marks → Search
  | 0, _, _ => .outOfFuel
  | fuel + 1, state, m =>
    match dfsNext (dfs adj pathFuel fuel) pathFuel state (adj state) (m.setColor state .gray) with
    | .done m => .done (m.setColor state .black)
    | r => r

/-- The loop over the state names. -/
def dfsAll (adj : String → List String) (fuel : ℕ) : List String → Marks → Search
  | [], m => .done m
  | state :: rest, m =>
    if m.colorOf state = .white then
      match dfs adj fuel fuel state m with
      | .done m => dfsAll adj fuel rest m
      | r => r
    else dfsAll adj fuel rest m

/-- Every state that the search can meet. -/
def WorkflowDefinition.nodes (wf : WorkflowDefinition) : List String :=
  wf.states.keys ++ wf.states.keys.flatMap wf.adj

inductive LoopVerdict where
  | accepted
  | rejected (message : String)
  | outOfFuel
  deriving DecidableEq

def loopMessage (path : List String) : String :=
  "infinite loop detected: " ++ " -> ".intercalate path ++ " via unguarded automated transitions"

def validateWorkflowLoops (wf : WorkflowDefinition) : LoopVerdict :=
  match dfsAll wf.adj wf.nodes.length (wf.states.keys.insertionSort (· ≤ ·)) ⟨∅, ∅⟩ with
  | .done _ => .accepted
  | .loop path => .rejected (loopMessage path)
  | .outOfFuel => .outOfFuel

end CyodaGo.Workflow
