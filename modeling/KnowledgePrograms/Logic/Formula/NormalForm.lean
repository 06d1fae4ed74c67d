import KnowledgePrograms.Logic.Formula

/-! # Flat negation normal form

In flat negation normal form a negation stands only on an atom, on knowledge, or on group or common
knowledge; no conjunction is an operand of a conjunction and no disjunction one of a disjunction.

* `Formula.simplify` makes one pass towards it: conjunctions that are directly operands of a
  conjunction are merged into it, likewise disjunctions, and negations are pushed inward.
  Merging comes before the operands are simplified, so that a pass may leave a nested conjunction
  behind which only a further pass merges.
* `Formula.negate` is the simplified negation. It distributes over connectives, turns possibility
  into knowledge, and stops at an atom and at knowledge.
* `Formula.flatten` is a pass that only merges, and leaves negations where they stand. On a formula
  whose negations are in place it is the same as `simplify`, and `negate` ends with it.
* `Formula.normalise` repeats passes until nothing changes, a given number of times at most. -/

namespace KnowledgePrograms

namespace Formula

/-! ## (1) Merging -/

mutual

/-- One pass that merges nested conjunctions and nested disjunctions and leaves negations where
they stand. -/
def flatten : Formula → Formula
  | .atom p => .atom p
  | .not f => .not f.flatten
  | .and fs => all (flattenConjuncts fs)
  | .or fs => any (flattenDisjuncts fs)
  | .imp f g => .imp f.flatten g.flatten
  | .iff f g => .iff f.flatten g.flatten
  | .knows a f => .knows a f.flatten
  | .possible a f => .possible a f.flatten
  | .everyone s f => .everyone s f.flatten
  | .common s f => .common s f.flatten

/-- The operands of a conjunction and of the conjunctions directly among them, each flattened. -/
def flattenConjuncts : List Formula → List Formula
  | [] => []
  | .and gs :: fs => flattenConjuncts gs ++ flattenConjuncts fs
  | f :: fs => f.flatten :: flattenConjuncts fs

/-- The operands of a disjunction and of the disjunctions directly among them, each flattened. -/
def flattenDisjuncts : List Formula → List Formula
  | [] => []
  | .or gs :: fs => flattenDisjuncts gs ++ flattenDisjuncts fs
  | f :: fs => f.flatten :: flattenDisjuncts fs

end

/-! ## (2) Simplification and negation -/

mutual

/-- One pass that merges nested conjunctions and nested disjunctions and pushes negations inward. -/
def simplify : Formula → Formula
  | .atom p => .atom p
  | .not f => f.negate
  | .and fs => all (simplifyConjuncts fs)
  | .or fs => any (simplifyDisjuncts fs)
  | .imp f g => .imp f.simplify g.simplify
  | .iff f g => .iff f.simplify g.simplify
  | .knows a f => .knows a f.simplify
  | .possible a f => .possible a f.simplify
  | .everyone s f => .everyone s f.simplify
  | .common s f => .common s f.simplify

/-- The operands of a conjunction and of the conjunctions directly among them, each simplified. -/
def simplifyConjuncts : List Formula → List Formula
  | [] => []
  | .and gs :: fs => simplifyConjuncts gs ++ simplifyConjuncts fs
  | f :: fs => f.simplify :: simplifyConjuncts fs

/-- The operands of a disjunction and of the disjunctions directly among them, each simplified. -/
def simplifyDisjuncts : List Formula → List Formula
  | [] => []
  | .or gs :: fs => simplifyDisjuncts gs ++ simplifyDisjuncts fs
  | f :: fs => f.simplify :: simplifyDisjuncts fs

/-- The negation of a formula, with negations pushed inward. -/
def negate : Formula → Formula
  | .atom p => .not (.atom p)
  | .not f => f.simplify
  | .and fs => (any (negateEach fs)).flatten
  | .or fs => (all (negateEach fs)).flatten
  | .imp f g => (all [f.simplify, g.negate]).flatten
  | .iff f g => (any [all [f.simplify, g.negate], all [f.negate, g.simplify]]).flatten
  | .knows a f => .not (.knows a f.simplify)
  | .possible a f => .knows a f.negate
  | .everyone s f => .not (.everyone s f.simplify)
  | .common s f => .not (.common s f.simplify)

/-- The negations of the operands. -/
def negateEach : List Formula → List Formula
  | [] => []
  | f :: fs => f.negate :: negateEach fs

end

/-! ## (3) Normalisation -/

/-- Simplify at most `passes` times, and stop when a pass changes nothing. -/
def settle : Nat → Formula → Formula
  | 0, f => f
  | passes + 1, f => if f.simplify = f then f else settle passes f.simplify

/-- Simplify until nothing changes, with `limit` passes at most and one at least. -/
def normalise (limit : Nat) (f : Formula) : Formula := settle (limit - 1) f.simplify

end Formula

end KnowledgePrograms
