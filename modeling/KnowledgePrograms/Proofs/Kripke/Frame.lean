import KnowledgePrograms.Proofs.Formula.Truth
import KnowledgePrograms.Proofs.Kripke.Search

/-! # Frames

The frame of a model is which worlds it has and which arcs, whatever the worlds are like. Modalities
follow the arcs, so they lead to the same worlds in all models of one frame. What is left to tell
two such models apart are the values of atoms, and of these only the atoms of a formula matter to
its truth.

* `Model.SameFrame`: two models have the same worlds and arcs.
* `Model.SameFrame.satisfies_eq`: truth depends on the frame and on the atoms of a formula. -/

namespace KnowledgePrograms

open Std (ExtTreeMap ExtTreeSet)

namespace Model

variable {m n : Model}

/-- The models have worlds at the same references, and each agent has the same arcs. -/
structure SameFrame (m n : Model) : Prop where
  /-- There are worlds at the same references. -/
  contains_eq : ∀ r, m.contains r = n.contains r
  /-- The arcs of an agent are the same. -/
  mem_relation_iff : ∀ a arc, arc ∈ m.relation a ↔ arc ∈ n.relation a

/-- Models of one frame have the same relation of each agent. -/
theorem SameFrame.relation_eq (h : m.SameFrame n) (a : Agent) : m.relation a = n.relation a :=
  Relation.ext (h.mem_relation_iff a)

/-- Models of one frame list the same references. -/
theorem SameFrame.refs_eq (h : m.SameFrame n) : m.refs = n.refs := by
  refine Ascending.ext ExtTreeMap.ordered_keys ExtTreeMap.ordered_keys fun r => ?_
  show r ∈ m.refs ↔ r ∈ n.refs
  rw [← contains_iff, ← contains_iff, h.contains_eq]

/-- Models of one frame have the same alternatives of each agent. -/
theorem SameFrame.accessible_eq (h : m.SameFrame n) (a : Agent) (r : WorldRef) :
    m.accessible a r = n.accessible a r := by
  rw [Model.accessible_eq, Model.accessible_eq, h.relation_eq]

/-- Groups reach the same worlds in models of one frame. -/
theorem SameFrame.reachable_eq (h : m.SameFrame n) (group : ExtTreeSet Agent) (r : WorldRef) :
    m.reachable group r = n.reachable group r := by
  have next : m.successors group = n.successors group := by
    funext x
    simp only [successors, h.accessible_eq]
  rw [reachable, reachable,
    Search.run_congr _ (n.mem_refs_of_mem_successors group) next]

/-- At a reference to no world every atom is false. -/
theorem valueOf_eq_false {r : WorldRef} (missing : m.contains r = false) (p : Atom) :
    m.valueOf r p = false := by
  have nothing : m.world? r = none := by
    rw [contains, WorldTable.contains_eq_isSome] at missing
    exact Option.isNone_iff_eq_none.1 (Option.isSome_eq_false_iff.1 missing)
  rw [valueOf, nothing]

/-- **Dependence.** In models of one frame in which the atoms of a formula have the same values at
each world, the formula is true at the same worlds. -/
theorem SameFrame.satisfies_eq (h : m.SameFrame n) {f : Formula}
    (same : ∀ r, m.contains r = true → ∀ p ∈ f.atoms, m.valueOf r p = n.valueOf r p) :
    m.satisfies f = n.satisfies f := by
  -- As readings, truth in the two models differs in the values of atoms alone.
  have truth : n.truth = m.truth.withAtom fun p r => n.valueOf r p := by
    simp only [Model.truth, Reading.withAtom, h.accessible_eq, h.reachable_eq]
  rw [← read_truth, ← read_truth, truth]
  refine (Reading.read_withAtom _ _ fun p mem => funext fun r => ?_).symm
  show m.valueOf r p = n.valueOf r p
  cases here : m.contains r with
  | true => exact same r here p mem
  | false => rw [valueOf_eq_false here, valueOf_eq_false ((h.contains_eq r).symm.trans here)]

end Model

end KnowledgePrograms
