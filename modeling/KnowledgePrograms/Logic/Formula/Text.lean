import KnowledgePrograms.Logic.Formula

/-! # The text of a formula

Connectives with two sides and sets of operands stand in parentheses with the connective between
the operands, `(p ∧ q)`; negation and the modalities stand before what they apply to, `¬p`,
`K[a] p`, `E[a,b] p`; the empty conjunction is `⊤` and the empty disjunction `⊥`. -/

namespace KnowledgePrograms

namespace Formula

/-- The names of a group, between brackets and with a comma between two. -/
def groupText (group : Std.ExtTreeSet Agent) : String :=
  "[" ++ ",".intercalate (group.toList.map Agent.name) ++ "]"

mutual

/-- The text of a formula. -/
def text : Formula → String
  | .atom p => p.name
  | .not f => "¬" ++ f.text
  | .and [] => "⊤"
  | .and (f :: fs) => "(" ++ f.text ++ textAfter " ∧ " fs ++ ")"
  | .or [] => "⊥"
  | .or (f :: fs) => "(" ++ f.text ++ textAfter " ∨ " fs ++ ")"
  | .imp f g => "(" ++ f.text ++ " → " ++ g.text ++ ")"
  | .iff f g => "(" ++ f.text ++ " ↔ " ++ g.text ++ ")"
  | .knows a f => "K[" ++ a.name ++ "] " ++ f.text
  | .possible a f => "M[" ++ a.name ++ "] " ++ f.text
  | .everyone group f => "E" ++ groupText group ++ " " ++ f.text
  | .common group f => "C" ++ groupText group ++ " " ++ f.text

/-- The text of further operands, the connective before each. -/
def textAfter (connective : String) : List Formula → String
  | [] => ""
  | f :: fs => connective ++ f.text ++ textAfter connective fs

end

instance : ToString Formula := ⟨text⟩

end Formula

end KnowledgePrograms
