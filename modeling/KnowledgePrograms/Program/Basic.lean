import KnowledgePrograms.Logic.Formula.Text
import KnowledgePrograms.Kripke.Satisfaction
import KnowledgePrograms.Action.Basic

/-! # Knowledge-based programs

A program is a list of rules, each a condition with an action, and maybe a default action. On a
context it selects the action of the first rule whose condition is true, or else the default.

The order of the rules is their priority. A condition is written in one rule only: giving a rule
with a condition that is there already moves the condition to the new place. -/

namespace KnowledgePrograms

/-- An action to be done when a condition is true. -/
structure Rule where
  /-- When the action is to be done. -/
  condition : Formula
  /-- What is to be done. -/
  action : Action

/-- Where in a program a selected action stands. -/
inductive Position where
  /-- In the rule with this many rules before it. -/
  | rule (index : Nat)
  /-- In the default. -/
  | default
deriving DecidableEq

/-- A selected action. -/
structure Selection where
  /-- What is to be done. -/
  action : Action
  /-- Where the action stands. -/
  position : Position

/-- Why a program cannot be edited as asked. -/
inductive EditError where
  /-- No rule has the condition. -/
  | missingRule
  /-- The index is past the end of the other rules. -/
  | indexOutOfBounds (index len : Nat)
deriving DecidableEq

/-- A knowledge-based program. -/
structure Program where
  /-- The rules, the first with the highest priority. -/
  rules : List Rule
  /-- What is to be done when no condition is true. -/
  default : Option Action

namespace Program

/-- The program that selects nothing. -/
def empty : Program := ⟨[], none⟩

instance : Inhabited Program := ⟨empty⟩

/-! ## (1) Editing -/

/-- The rules with a condition other than the given one. -/
def others (p : Program) (c : Formula) : List Rule := p.rules.filter fun rule => rule.condition ≠ c

/-- The program with a rule of lowest priority. -/
def push (p : Program) (c : Formula) (action : Action) : Program where
  rules := p.others c ++ [⟨c, action⟩]
  default := p.default

/-- The program with a rule at an index among the other rules. -/
def insert (p : Program) (index : Nat) (c : Formula) (action : Action) :
    Except EditError Program :=
  let others := p.others c
  if index ≤ others.length then
    .ok ⟨others.take index ++ ⟨c, action⟩ :: others.drop index, p.default⟩
  else .error (.indexOutOfBounds index others.length)

/-- The action of the rule with a condition, and the program without the rule. -/
def remove (p : Program) (c : Formula) : Except EditError (Action × Program) :=
  match p.rules.find? fun rule => rule.condition = c with
  | some rule => .ok (rule.action, ⟨p.others c, p.default⟩)
  | none => .error .missingRule

/-- The program with another default. -/
def setDefault (p : Program) (action : Option Action) : Program := ⟨p.rules, action⟩

/-- The index of the rule with a condition. -/
def positionOf (p : Program) (c : Formula) : Option Nat :=
  p.rules.findIdx? fun rule => rule.condition = c

/-- The number of actions of the program, the default included. -/
def size (p : Program) : Nat := p.rules.length + if p.default.isSome then 1 else 0

/-- Whether the program has neither a rule nor a default. -/
def isEmpty (p : Program) : Bool := p.size == 0

/-! ## (2) Selection -/

/-- The selection from the rules from an index on, with conditions of which some are true. -/
def firstRule (holds : Formula → Bool) (index : Nat) : List Rule → Option Selection
  | [] => none
  | rule :: rest =>
      if holds rule.condition then some ⟨rule.action, .rule index⟩
      else firstRule holds (index + 1) rest

/-- The selection of the default. -/
def defaultSelection (p : Program) : Option Selection :=
  p.default.map fun action => ⟨action, .default⟩

/-- What the program selects where some conditions are true. -/
def choose (p : Program) (holds : Formula → Bool) : Option Selection :=
  (firstRule holds 0 p.rules).or p.defaultSelection

/-- What the program selects at a world of a model. -/
def chooseAt (p : Program) (m : Model) (r : WorldRef) : Option Selection :=
  p.choose fun f => m.satisfies f r

/-- The selection from the rules from an index on, on a context. -/
def firstRuleOn (c : Context) (index : Nat) : List Rule → Except EvaluationError (Option Selection)
  | [] => return none
  | rule :: rest => do
      if ← rule.condition.evaluate c then return some ⟨rule.action, .rule index⟩
      else firstRuleOn c (index + 1) rest

/-- What the program selects on a context, unless a condition has no truth value there before one
is true. -/
def select (p : Program) (c : Context) : Except EvaluationError (Option Selection) := do
  return (← firstRuleOn c 0 p.rules).or p.defaultSelection

/-- The first true condition of a pointed context is the first one true at the world. -/
theorem firstRuleOn_pointed (m : Model) (r : WorldRef) (live : m.contains r = true) (index : Nat)
    (rules : List Rule) :
    firstRuleOn (.pointed m r live) index rules
      = .ok (firstRule (fun f => m.satisfies f r) index rules) := by
  induction rules generalizing index with
  | nil => rfl
  | cons rule rest ih =>
    rw [firstRuleOn, firstRule, Formula.evaluate]
    cases m.satisfies rule.condition r
    · exact ih (index + 1)
    · rfl

/-- On a pointed context a program selects what it selects at the world. -/
theorem select_pointed (p : Program) (m : Model) (r : WorldRef) (live : m.contains r = true) :
    p.select (.pointed m r live) = .ok (p.chooseAt m r) := by
  rw [select, firstRuleOn_pointed]
  rfl

/-! ## (3) Text -/

/-- The text of a program: a line for each rule, and a line for the default. -/
def text (p : Program) : String :=
  String.join (p.rules.map fun rule => rule.condition.text ++ " => " ++ rule.action.name ++ "\n") ++
    match p.default with
    | some action => "_ => " ++ action.name ++ "\n"
    | none => ""

instance : ToString Program := ⟨text⟩

end Program

end KnowledgePrograms
