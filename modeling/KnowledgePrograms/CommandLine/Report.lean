import KnowledgePrograms.CommandLine.Style
import KnowledgePrograms.Scenario.MuddyChildren

/-! # The text of reports

The lines that tell a round, the state that a session has come to, and what went wrong. -/

namespace KnowledgePrograms

namespace CommandLine

/-! ## (1) Errors -/

/-- A text between quotation marks, with a backslash before such marks and backslashes in it. -/
def quoted (s : String) : String :=
  "\"" ++ String.join (s.toList.map fun c =>
    if c = '"' || c = '\\' then "\\" ++ c.toString else c.toString) ++ "\""

/-- The text of an agent in an error. -/
def agentText (a : Agent) : String := "AgentId \x7b name: " ++ quoted a.name ++ " \x7d"

/-- The text of a reference to a world in an error. -/
def refText (r : WorldRef) : String :=
  "WorldRef(" ++ toString r.slot ++ "v" ++ toString r.version ++ ")"

/-- The text of an error in setting up. -/
def setupErrorText : SetupError → String
  | .noAgents => "Build(NoAgents)"
  | .duplicateAgent a => "Build(DuplicateAgent(" ++ agentText a ++ "))"
  | .unknownAgent a => "Build(UnknownAgent(" ++ agentText a ++ "))"
  | .lookup (.unknownWorld r) => "Lookup(UnknownWorld(" ++ refText r ++ "))"
  | .lookup (.unnamedWorld name) => "Lookup(UnnamedWorld(" ++ quoted name ++ "))"

/-- The text of an error in running. -/
def runErrorText : RunError → String
  | .invalidModel a _ =>
      "Invalid model: the actual world was removed from the structure of " ++ a.name
  | .noConvergence a =>
      "Error: Model(NoConvergence \x7b agent: " ++ agentText a ++ " \x7d)"

/-- The text of an arity in an error. -/
def arityText : Arity → String
  | .exactly n => "Exactly(" ++ toString n ++ ")"
  | .atLeast n => "AtLeast(" ++ toString n ++ ")"
  | .any => "Any"

/-- The text of an error in performing an action. -/
def actionErrorText : ActionError → String
  | .arityMismatch action expected found =>
      "ArityMismatch \x7b action: " ++ quoted action ++ ", expected: " ++ arityText expected
        ++ ", found: " ++ toString found ++ " \x7d"
  | .argument action (.wrongKind position expected) =>
      "Argument \x7b action: " ++ quoted action ++ ", error: WrongKind \x7b position: "
        ++ toString position ++ ", expected: " ++ quoted expected.name ++ " \x7d \x7d"
  | .argument action (.badValue position) =>
      "Argument \x7b action: " ++ quoted action ++ ", error: BadValue \x7b position: "
        ++ toString position ++ " \x7d \x7d"
  | .noSelection => "NoSelection"

/-! ## (2) Rounds -/

/-- The name of a selected action, with a colour for what it tells. -/
def actionText : Option String → String
  | some name =>
      if name = MuddyChildren.muddyAnswer.name then coloured .red name
      else if name = MuddyChildren.cleanAnswer.name then coloured .green name
      else name
  | none => coloured .darkGrey "-"

/-- What came of performing an action. -/
def resultText : Option (Except ActionError Value) → String
  | some (.ok value) => "\"" ++ value.display ++ "\""
  | some (.error e) => coloured .yellow (actionErrorText e)
  | none => ""

/-- The line of one agent in a round. -/
def outcomeLine (worlds : Nat) (a : Agent) (outcome : Outcome) : String :=
  "  " ++ a.name ++ " " ++ padded 8 (actionText outcome.action) ++ " "
    ++ resultText outcome.result ++ " (" ++ toString worlds ++ " worlds)\n"

/-- The lines of a round. -/
def roundText (round : Round) : String :=
  bold ("Round " ++ toString round.number) ++ "\n" ++
    String.join (round.outcomes.toList.map fun e =>
      outcomeLine (round.worldCounts[e.1]?.getD 0) e.1 e.2)

/-- The line of the state that a session has come to after some rounds. -/
def statusText (status : Session.Status) (rounds : Nat) : String :=
  let line := status.name ++ " after " ++ toString rounds ++ " rounds"
  let colour := match status with
    | .converged => Colour.green
    | .running => Colour.yellow
    | .exhausted => Colour.red
  boldColoured colour line ++ "\n"

end CommandLine

end KnowledgePrograms
