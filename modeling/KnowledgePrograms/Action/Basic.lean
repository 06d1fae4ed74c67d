import KnowledgePrograms.Action.Value

/-! # Actions

An action has a name, an arity and a way to be performed on arguments. Actions are told apart by
their names. The number of arguments is checked before an action is performed, so an action has
only the kinds and the values of its arguments to check.

What comes of performing an action is taken to depend on the arguments only. An action that is
supplied from outside may do more than that: it may keep a state of its own, write or draw lots.
Nothing is said here of what comes of such an action when it is performed twice on the same
arguments. -/

namespace KnowledgePrograms

/-- How many arguments an action takes. -/
inductive Arity where
  /-- As many as the number. -/
  | exactly (n : Nat)
  /-- As many as the number or more. -/
  | atLeast (n : Nat)
  /-- Any number. -/
  | any
deriving DecidableEq

namespace Arity

/-- Whether a number of arguments is one that the action takes. -/
def accepts : Arity → Nat → Bool
  | .exactly n, count => count == n
  | .atLeast n, count => n ≤ count
  | .any, _ => true

/-- The text of an arity. -/
def text : Arity → String
  | .exactly n => toString n
  | .atLeast n => toString n ++ " or more"
  | .any => "any"

instance : ToString Arity := ⟨text⟩

end Arity

/-- Why an action rejects an argument. -/
inductive ArgumentError where
  /-- The argument is not of the kind that the action asks for. -/
  | wrongKind (position : Nat) (expected : Value.Kind)
  /-- The argument is of the right kind, but the action cannot do with it. -/
  | badValue (position : Nat)
deriving DecidableEq

/-- Why an action is not performed. -/
inductive ActionError where
  /-- The action does not take this number of arguments. -/
  | arityMismatch (action : String) (expected : Arity) (found : Nat)
  /-- The action rejects an argument. -/
  | argument (action : String) (error : ArgumentError)
  /-- There is no action to perform. -/
  | noSelection
deriving DecidableEq

/-- Something an agent may do, and what comes of it on given arguments, each time it is done. -/
structure Action where
  /-- What the action is called. -/
  name : String
  /-- How many arguments the action takes. -/
  arity : Arity
  /-- What comes of the action on arguments of an accepted number. -/
  perform : List Value → Except ArgumentError Value

namespace Action

/-- Perform an action on some arguments, if it takes so many. -/
def invoke (action : Action) (arguments : List Value) : Except ActionError Value :=
  if action.arity.accepts arguments.length then
    match action.perform arguments with
    | .ok value => .ok value
    | .error e => .error (.argument action.name e)
  else .error (.arityMismatch action.name action.arity arguments.length)

/-- Say a phrase, and the texts of the arguments after it. -/
def utterance (name phrase : String) : Action where
  name := name
  arity := .any
  perform arguments :=
    .ok (.text (phrase ++ String.join (arguments.map fun v => " " ++ v.display)))

end Action

end KnowledgePrograms
