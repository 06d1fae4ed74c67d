import KnowledgePrograms.Session.Basic

/-! # Rounds

A round takes a formula and the world that is real.

1. The formula is announced to every member. The real world has to be left in every model.
2. Each member observes its atoms at the real world (`observation`).
3. Each member selects an action at the real world of its own model, and the action is explained.
4. Each member hears the explanations of the agents that it hears, its own only if the settings
   say so. They are announced to it, as one conjunction or one after the other. The real world has
   again to be left in every model.
5. Each member performs what it selected on the arguments set for the action.

A round that fails keeps what it did up to the failure, and is not counted. -/

namespace KnowledgePrograms

open Std (ExtTreeMap ExtTreeSet)

/-- What came of a round for one agent. -/
structure Outcome where
  /-- What the agent observed at the real world. -/
  observation : Formula
  /-- The name of the action selected, if any. -/
  action : Option String
  /-- The condition under which the agent selects the action. -/
  explanation : Option Formula
  /-- What came of performing the action. -/
  result : Option (Except ActionError Value)

/-- What came of a round. -/
structure Round where
  /-- The number of the round, counted from one. -/
  number : Nat
  /-- What came of it for each agent. -/
  outcomes : ExtTreeMap Agent Outcome
  /-- How many worlds each agent's model has after the round. -/
  worldCounts : ExtTreeMap Agent Nat

/-- The atom or its negation, whichever is true at the world. -/
def literalAt (m : Model) (r : WorldRef) (p : Atom) : Formula :=
  if m.valueOf r p then .atom p else .not (.atom p)

/-- What an agent observes of some atoms at a world: the conjunction of their literals, or, if the
agent cannot rule out several worlds, that it does not know this conjunction. -/
def observation (m : Model) (r : WorldRef) (a : Agent) (atoms : ExtTreeSet Atom) : Formula :=
  let fact := Formula.conjunction (atoms.toList.map (literalAt m r))
  if (m.accessible a r).length > 1 then .not (.knows a fact) else fact

namespace Session

/-- What each member observes at a world. -/
def observations (s : Session) (r : WorldRef) : ExtTreeMap Agent Formula :=
  s.members.map fun a x => observation x.model r a x.observed

/-- Every member selects at a world of its own model. -/
def selectAll (s : Session) (r : WorldRef) : Session :=
  s.withMembers (s.members.map fun _ x => x.withActor (x.actor.selectAt x.model r))

/-- The explanations of the selected actions. -/
def explanations (s : Session) : ExtTreeMap Agent Formula :=
  s.members.filterMap fun _ x => x.actor.explain s.settings.simplificationLimit.value

/-- The explanations that a member hears, in the order of the agents they come from. -/
def heardBy (s : Session) (explanations : ExtTreeMap Agent Formula) (a : Agent) (x : Member) :
    List Formula :=
  (x.heard.toList.filter fun b => s.settings.selfHearing.value || b != a).filterMap fun b =>
    explanations[b]?

/-- The announcements that are made of the explanations that a member hears. -/
def redistributed (mode : Redistribution) (heard : List Formula) : List Formula :=
  match heard, mode with
  | [], _ => []
  | _, .conjoined => [.conjunction heard]
  | _, .successive => heard

/-- Every member is told the explanations that it hears. -/
def redistribute (s : Session) (explanations : ExtTreeMap Agent Formula) : Session :=
  s.tell fun a x =>
    redistributed s.settings.redistribution.value (s.heardBy explanations a x)

/-- The session with one more round counted. -/
def countRound (s : Session) : Session :=
  ⟨s.settings, ⟨s.counters.rounds + 1, s.counters.announcements, s.counters.removed⟩, s.members,
    s.bound⟩

/-- What came of a round for one member. -/
def outcome (s : Session) (observation : Formula) (explanation : Option Formula) (x : Member) :
    Outcome where
  observation := observation
  action := x.actor.action?.map Action.name
  explanation := explanation
  result := x.actor.action?.map fun action => action.invoke (s.arguments action.name)

/-- The report of the round just counted. -/
def report (s : Session) (observations explanations : ExtTreeMap Agent Formula) : Round where
  number := s.counters.rounds
  outcomes := observations.filterMap fun a observation =>
    s.members[a]?.map (s.outcome observation explanations[a]?)
  worldCounts := s.members.map fun _ x => x.model.worldCount

/-- A round in which a formula is announced, with a world taken for the real one. -/
def round (s : Session) (f : Formula) (r : WorldRef) : Session × Except RunError Round :=
  let told := s.tellAll f
  match told.firstWithout? r with
  | some a => (told, .error (.invalidModel a r))
  | none =>
      let observations := told.observations r
      let selected := told.selectAll r
      let explanations := selected.explanations
      let informed := selected.redistribute explanations
      match informed.firstWithout? r with
      | some a => (informed, .error (.invalidModel a r))
      | none =>
          let counted := informed.countRound
          (counted, .ok (counted.report observations explanations))

end Session

end KnowledgePrograms
