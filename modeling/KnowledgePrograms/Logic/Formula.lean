import Std.Data.ExtTreeSet
import KnowledgePrograms.Logic.Ascending
import KnowledgePrograms.Logic.Name

/-! # Formulas of multi-agent epistemic logic

A formula is built from atoms by the connectives and by modalities indexed by agents or groups of
agents. Conjunction and disjunction take a set of operands; as a set of formulas cannot be a field
of the type of formulas itself, the operands are a list, which the constructors `Formula.all` and
`Formula.any` keep strictly ascending in the order of formulas.

* `Formula.order` compares formulas, first by their outermost constructor and then part by part.
* `Formula.order_eq_iff`: formulas compare as equal exactly when they are equal.
* `Formula.all`, `Formula.any`, `Formula.conjunction`, `Formula.disjunction` join a collection of
  formulas, in which neither order nor repetition counts. -/

namespace KnowledgePrograms

open Std (ExtTreeSet)

/-- A formula of epistemic logic. -/
inductive Formula where
  /-- A fact. -/
  | atom (p : Atom)
  /-- The formula is not true. -/
  | not (f : Formula)
  /-- All operands are true. -/
  | and (operands : List Formula)
  /-- Some operand is true. -/
  | or (operands : List Formula)
  /-- If the first formula is true then so is the second. -/
  | imp (f g : Formula)
  /-- Both formulas are true or both are false. -/
  | iff (f g : Formula)
  /-- The agent knows the formula: it is true wherever the agent may be. -/
  | knows (a : Agent) (f : Formula)
  /-- The agent considers the formula possible: it is true somewhere the agent may be. -/
  | possible (a : Agent) (f : Formula)
  /-- Every agent of the group knows the formula. -/
  | everyone (group : ExtTreeSet Agent) (f : Formula)
  /-- The formula is common knowledge in the group: all know it, all know that all know it, and so
  on. -/
  | common (group : ExtTreeSet Agent) (f : Formula)

namespace Formula

/-! ## (1) The order of formulas -/

/-- The place of the outermost constructor in the order of formulas. -/
def rank : Formula → Nat
  | .atom _ => 0
  | .not _ => 1
  | .and _ => 2
  | .or _ => 3
  | .imp _ _ => 4
  | .iff _ _ => 5
  | .knows _ _ => 6
  | .possible _ _ => 7
  | .everyone _ _ => 8
  | .common _ _ => 9

mutual

/-- Formulas are ordered by their outermost constructor, then by their parts from left to right. -/
def order : Formula → Formula → Ordering
  | .atom p, .atom q => compare p q
  | .not f, .not g => order f g
  | .and fs, .and gs => orderList fs gs
  | .or fs, .or gs => orderList fs gs
  | .imp f f', .imp g g' => (order f g).then (order f' g')
  | .iff f f', .iff g g' => (order f g).then (order f' g')
  | .knows a f, .knows b g => (compare a b).then (order f g)
  | .possible a f, .possible b g => (compare a b).then (order f g)
  | .everyone s f, .everyone t g => (compare s.toList t.toList).then (order f g)
  | .common s f, .common t g => (compare s.toList t.toList).then (order f g)
  | f, g => compare f.rank g.rank

/-- Operands are ordered lexicographically, a list before its proper continuations. -/
def orderList : List Formula → List Formula → Ordering
  | [], [] => .eq
  | [], _ :: _ => .lt
  | _ :: _, [] => .gt
  | f :: fs, g :: gs => (order f g).then (orderList fs gs)

end

instance : Ord Formula := ⟨order⟩

mutual

/-- A formula compares as equal to itself. -/
theorem order_self : (f : Formula) → f.order f = .eq
  | .atom p => by simp [order]
  | .not f => by rw [order, order_self f]
  | .and fs => by rw [order, orderList_self fs]
  | .or fs => by rw [order, orderList_self fs]
  | .imp f g => by rw [order, order_self f, order_self g]; rfl
  | .iff f g => by rw [order, order_self f, order_self g]; rfl
  | .knows a f => by rw [order, order_self f, Std.LawfulEqOrd.compare_eq_iff_eq.2 rfl]; rfl
  | .possible a f => by rw [order, order_self f, Std.LawfulEqOrd.compare_eq_iff_eq.2 rfl]; rfl
  | .everyone s f => by rw [order, order_self f, Std.LawfulEqOrd.compare_eq_iff_eq.2 rfl]; rfl
  | .common s f => by rw [order, order_self f, Std.LawfulEqOrd.compare_eq_iff_eq.2 rfl]; rfl

/-- A list of operands compares as equal to itself. -/
theorem orderList_self : (fs : List Formula) → orderList fs fs = .eq
  | [] => by rw [orderList]
  | f :: fs => by rw [orderList, order_self f, orderList_self fs]; rfl

end

mutual

/-- Formulas that compare as equal are equal. -/
theorem eq_of_order : (f g : Formula) → f.order g = .eq → f = g
  | .atom p, g => by
    cases g <;> simp [order, rank]
  | .not f, g => by
    cases g <;> simp [order, rank]
    exact eq_of_order f _
  | .and fs, g => by
    cases g <;> simp [order, rank]
    exact eq_of_orderList fs _
  | .or fs, g => by
    cases g <;> simp [order, rank]
    exact eq_of_orderList fs _
  | .imp f f', g => by
    cases g <;> simp [order, rank, Ordering.then_eq_eq]
    exact fun h h' => ⟨eq_of_order f _ h, eq_of_order f' _ h'⟩
  | .iff f f', g => by
    cases g <;> simp [order, rank, Ordering.then_eq_eq]
    exact fun h h' => ⟨eq_of_order f _ h, eq_of_order f' _ h'⟩
  | .knows a f, g => by
    cases g <;> simp [order, rank, Ordering.then_eq_eq]
    exact fun h h' => ⟨h, eq_of_order f _ h'⟩
  | .possible a f, g => by
    cases g <;> simp [order, rank, Ordering.then_eq_eq]
    exact fun h h' => ⟨h, eq_of_order f _ h'⟩
  | .everyone s f, g => by
    cases g <;> simp [order, rank, Ordering.then_eq_eq]
    exact fun h h' => ⟨ExtTreeSet.toList_inj.1 h, eq_of_order f _ h'⟩
  | .common s f, g => by
    cases g <;> simp [order, rank, Ordering.then_eq_eq]
    exact fun h h' => ⟨ExtTreeSet.toList_inj.1 h, eq_of_order f _ h'⟩

/-- Lists of operands that compare as equal are equal. -/
theorem eq_of_orderList : (fs gs : List Formula) → orderList fs gs = .eq → fs = gs
  | [], gs => by cases gs <;> simp [orderList]
  | f :: fs, gs => by
    cases gs <;> simp [orderList, Ordering.then_eq_eq]
    exact fun h h' => ⟨eq_of_order f _ h, eq_of_orderList fs _ h'⟩

end

instance : Std.LawfulEqOrd Formula where
  compare_self := order_self _
  eq_of_compare := eq_of_order _ _

/-- Formulas compare as equal exactly when they are equal. -/
theorem order_eq_iff {f g : Formula} : f.order g = .eq ↔ f = g :=
  ⟨eq_of_order f g, fun h => h ▸ order_self f⟩

instance : DecidableEq Formula := fun _ _ => decidable_of_iff _ order_eq_iff

/-! ## (2) Joining formulas -/

/-- The ascending list of the members of a list of formulas, each written once. -/
def operandSet (fs : List Formula) : List Formula := sortAscending fs

/-- All members of the list are true. -/
def all (fs : List Formula) : Formula := .and (operandSet fs)

/-- Some member of the list is true. -/
def any (fs : List Formula) : Formula := .or (operandSet fs)

/-- What is always true: the conjunction of nothing. -/
def top : Formula := .and []

/-- What is never true: the disjunction of nothing. -/
def bottom : Formula := .or []

/-- The conjunction of the members of a list, which is the member itself if there is just one. -/
def conjunction (fs : List Formula) : Formula :=
  match operandSet fs with
  | [f] => f
  | operands => .and operands

/-- The disjunction of the members of a list, which is the member itself if there is just one. -/
def disjunction (fs : List Formula) : Formula :=
  match operandSet fs with
  | [f] => f
  | operands => .or operands

/-! ## (3) What a formula speaks of -/

mutual

/-- Whether `g` is the second formula or occurs in it. -/
def occursIn (g : Formula) : Formula → Bool
  | .atom p => g == .atom p
  | .not f => g == .not f || occursIn g f
  | .and fs => g == .and fs || occursInAny g fs
  | .or fs => g == .or fs || occursInAny g fs
  | .imp f f' => g == .imp f f' || occursIn g f || occursIn g f'
  | .iff f f' => g == .iff f f' || occursIn g f || occursIn g f'
  | .knows a f => g == .knows a f || occursIn g f
  | .possible a f => g == .possible a f || occursIn g f
  | .everyone s f => g == .everyone s f || occursIn g f
  | .common s f => g == .common s f || occursIn g f

/-- Whether `g` is or occurs in one of the operands. -/
def occursInAny (g : Formula) : List Formula → Bool
  | [] => false
  | f :: fs => occursIn g f || occursInAny g fs

end

mutual

/-- Whether a modality occurs in the formula. -/
def isModal : Formula → Bool
  | .atom _ => false
  | .not f => isModal f
  | .and fs => anyModal fs
  | .or fs => anyModal fs
  | .imp f g => isModal f || isModal g
  | .iff f g => isModal f || isModal g
  | .knows _ _ => true
  | .possible _ _ => true
  | .everyone _ _ => true
  | .common _ _ => true

/-- Whether a modality occurs in one of the operands. -/
def anyModal : List Formula → Bool
  | [] => false
  | f :: fs => isModal f || anyModal fs

end

mutual

/-- The atoms that occur in the formula, from left to right. -/
def occurrences : Formula → List Atom
  | .atom p => [p]
  | .not f => occurrences f
  | .and fs => occurrencesList fs
  | .or fs => occurrencesList fs
  | .imp f g => occurrences f ++ occurrences g
  | .iff f g => occurrences f ++ occurrences g
  | .knows _ f => occurrences f
  | .possible _ f => occurrences f
  | .everyone _ f => occurrences f
  | .common _ f => occurrences f

/-- The atoms that occur in the operands, from left to right. -/
def occurrencesList : List Formula → List Atom
  | [] => []
  | f :: fs => occurrences f ++ occurrencesList fs

end

/-- The set of atoms that occur in the formula. -/
def atoms (f : Formula) : ExtTreeSet Atom := .ofList f.occurrences

end Formula

end KnowledgePrograms
