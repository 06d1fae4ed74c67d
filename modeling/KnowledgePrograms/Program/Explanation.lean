import KnowledgePrograms.Logic.Formula.NormalForm
import KnowledgePrograms.Program.Basic

/-! # Explanation of a selected action

An action is selected by a rule exactly when the condition of the rule is true and those of all
earlier rules are false; the default is like a last rule whose condition is always true. So an
action is explained by the disjunction, over the places where it stands, of the conjunction of the
negated earlier conditions and the condition of the place. -/

namespace KnowledgePrograms

namespace Program

/-- One formula for each place where an action of the name stands, from the remaining rules on:
when the action is selected from that place, given the negations of the earlier conditions. -/
def cases (name : String) (default : Option Action) (excluded : List Formula) :
    List Rule → List Formula
  | [] =>
      match default with
      | some action => if action.name = name then [.conjunction excluded] else []
      | none => []
  | rule :: rest =>
      let later := cases name default (excluded ++ [rule.condition.negate]) rest
      if rule.action.name = name then .conjunction (excluded ++ [rule.condition]) :: later
      else later

/-- The condition under which a program selects an action of a name, normalised with at most
`limit` passes, if the program has such an action. -/
def explain (p : Program) (name : String) (limit : Nat) : Option Formula :=
  match cases name p.default [] p.rules with
  | [] => none
  | places => some ((Formula.disjunction places).normalise limit)

end Program

end KnowledgePrograms
