import Mathlib.Order.WellFounded
import KnowledgePrograms.Proofs.Formula.Reading

/-! # The parts of formulas

A formula is given by its outermost constructor, the names that are written with it, and its parts:
what the connective or the modality is applied to, from left to right. Parts have parts again, and
so on down to the atoms, so that what holds of a formula whenever it holds of its parts holds of
all formulas. Formulas are compared by just these three things, one after the other.

* `Formula.names`, `Formula.parts`: what is written with the constructor, and what it is applied to.
* `Formula.HasPart`, `Formula.wellFounded_part`: parts of parts come to an end.
* `Formula.order_eq`: the order, by rank, names and parts. -/

namespace KnowledgePrograms

/-- Lists are compared by the images of their members if members are. -/
theorem compare_map {α β : Type} [Ord α] [Ord β] {f : α → β}
    (same : ∀ x y, compare x y = compare (f x) (f y)) (xs ys : List α) :
    compare (xs.map f) (ys.map f) = compare xs ys := by
  induction xs generalizing ys with
  | nil => cases ys <;> rfl
  | cons x xs ih =>
    cases ys with
    | nil => rfl
    | cons y ys =>
      rw [List.map_cons, List.map_cons, List.compare_cons_cons, List.compare_cons_cons, ← same, ih]

/-- Atoms are compared by their names. -/
theorem Atom.compare_eq (p q : Atom) : compare p q = compare p.name q.name := rfl

/-- Agents are compared by their names. -/
theorem Agent.compare_eq (a b : Agent) : compare a b = compare a.name b.name := rfl

namespace Formula

/-! ## (1) Names and parts -/

/-- The names written with the outermost constructor: that of an atom, of an agent or, in order,
those of the agents of a group. -/
def names : Formula → List String
  | .atom p => [p.name]
  | .knows a _ | .possible a _ => [a.name]
  | .everyone group _ | .common group _ => group.toList.map Agent.name
  | .not _ | .and _ | .or _ | .imp _ _ | .iff _ _ => []

/-- What the outermost connective or modality of a formula is applied to, from left to right. -/
def parts : Formula → List Formula
  | .atom _ => []
  | .not f | .knows _ f | .possible _ f | .everyone _ f | .common _ f => [f]
  | .and fs | .or fs => fs
  | .imp f g | .iff f g => [f, g]

/-- The second formula is directly a part of the first one. -/
def HasPart (f g : Formula) : Prop := g ∈ f.parts

/-- Parts of parts, and so on, come to an end. -/
theorem wellFounded_part : WellFounded fun g f : Formula => f.HasPart g := by
  refine ⟨fun f => ?_⟩
  induction f with
  | atom p => exact ⟨_, fun g part => absurd part List.not_mem_nil⟩
  | and fs ih | or fs ih => exact ⟨_, ih⟩
  | imp f g ihf ihg | iff f g ihf ihg =>
    refine ⟨_, fun h part => ?_⟩
    rcases List.mem_cons.1 part with rfl | part
    · exact ihf
    · rwa [List.mem_singleton.1 part]
  | not f ih | knows a f ih | possible a f ih | everyone group f ih | common group f ih =>
    refine ⟨_, fun g part => ?_⟩
    rwa [List.mem_singleton.1 part]

/-! ## (2) The order by rank, names and parts -/

/-- Formulas of different constructors are compared by rank. -/
theorem order_of_rank_ne {f g : Formula} (apart : f.rank ≠ g.rank) :
    f.order g = compare f.rank g.rank := by
  cases f <;> cases g <;> first | rfl | exact absurd rfl apart

/-- Formulas of one constructor are compared by their names, and then by their parts. -/
theorem order_of_rank_eq {f g : Formula} (same : f.rank = g.rank) :
    f.order g = (compare f.names g.names).then (orderList f.parts g.parts) := by
  cases f with
  | atom p =>
    cases g <;> simp [rank] at same
    simp [order, names, parts, orderList, Atom.compare_eq]
  | not f | and fs | or fs | imp f f' | iff f f' =>
    cases g <;> simp [rank] at same
    simp [order, names, parts, orderList]
  | knows a f | possible a f =>
    cases g <;> simp [rank] at same
    simp [order, names, parts, orderList, Agent.compare_eq]
  | everyone group f | common group f =>
    cases g <;> simp [rank] at same
    simp [order, names, parts, orderList, compare_map Agent.compare_eq]

/-- Formulas are compared by rank, then by the names written with the outermost constructor, and
then by their parts. -/
theorem order_eq (f g : Formula) : f.order g =
    (compare f.rank g.rank).then
      ((compare f.names g.names).then (orderList f.parts g.parts)) := by
  by_cases same : f.rank = g.rank
  · rw [order_of_rank_eq same, Std.LawfulEqOrd.compare_eq_iff_eq.2 same]
    rfl
  · have apart : compare f.rank g.rank ≠ .eq := fun eq => same (Std.LawfulEqOrd.eq_of_compare eq)
    rw [order_of_rank_ne same]
    cases h : compare f.rank g.rank <;> first | rfl | exact absurd h apart

end Formula

end KnowledgePrograms
