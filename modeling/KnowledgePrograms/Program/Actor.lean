import KnowledgePrograms.Program.Explanation

/-! # Actors

An actor is an agent with the program it runs. It remembers what it selected last, so that the
action can be performed and explained afterwards. -/

namespace KnowledgePrograms

/-- An agent with a program. -/
structure Actor where
  /-- Who acts. -/
  agent : Agent
  /-- What the agent does when. -/
  program : Program
  /-- What was selected last. -/
  selection : Option Selection

namespace Actor

/-- An actor that has selected nothing yet. -/
def new (agent : Agent) (program : Program) : Actor := ⟨agent, program, none⟩

/-- The actor with another selection remembered. -/
def withSelection (x : Actor) (selection : Option Selection) : Actor :=
  ⟨x.agent, x.program, selection⟩

/-- Select on a context. Nothing stays selected if a condition has no truth value there. -/
def select (x : Actor) (c : Context) : Actor × Except EvaluationError (Option Action) :=
  match x.program.select c with
  | .ok selection => (x.withSelection selection, .ok (selection.map Selection.action))
  | .error e => (x.withSelection none, .error e)

/-- Select at a world of a model. -/
def selectAt (x : Actor) (m : Model) (r : WorldRef) : Actor :=
  x.withSelection (x.program.chooseAt m r)

/-- The action selected last. -/
def action? (x : Actor) : Option Action := x.selection.map Selection.action

/-- Perform the action selected last. -/
def perform (x : Actor) (arguments : List Value) : Except ActionError Value :=
  match x.action? with
  | some action => action.invoke arguments
  | none => .error .noSelection

/-- The condition under which the actor selects the action selected last. -/
def explain (x : Actor) (limit : Nat) : Option Formula :=
  x.action?.bind fun action => x.program.explain action.name limit

end Actor

end KnowledgePrograms
