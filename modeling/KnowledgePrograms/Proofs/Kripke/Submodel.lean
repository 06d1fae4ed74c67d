import KnowledgePrograms.Kripke.Announcement

/-! # Submodels

An announcement leaves a submodel: some of the worlds, each as it was, all agents, and of their
arcs those between worlds that are left. Which worlds are left is given as a property of
references, of which only the references to worlds of the model count (`IsSubmodel.congr`).

* `isSubmodel_keep`, `isSubmodel_announce`: what the operations leave.
* `IsSubmodel.contains_iff`, `IsSubmodel.trans`: which worlds a submodel has, and a submodel of
  it. -/

namespace KnowledgePrograms

open Std (ExtTreeMap)

namespace Model

/-- The first model is what is left of the second when the worlds with a property are kept. -/
structure IsSubmodel (n m : Model) (kept : WorldRef → Prop) : Prop where
  /-- A reference to a kept world refers to what it did, any other to nothing. -/
  world?_eq_some_iff : ∀ r w, n.world? r = some w ↔ m.world? r = some w ∧ kept r
  /-- The agents are the same. -/
  agents_eq : n.agents = m.agents
  /-- The arcs of an agent are those between kept worlds. -/
  mem_relation_iff : ∀ a arc,
    arc ∈ n.relation a ↔ arc ∈ m.relation a ∧ kept arc.source ∧ kept arc.target

variable {m n : Model} {kept kept' : WorldRef → Prop}

/-- A reference is to a world of a model iff some world is at it. -/
theorem contains_iff_exists {r : WorldRef} : m.contains r = true ↔ ∃ w, m.world? r = some w := by
  rw [contains, WorldTable.contains_eq_isSome, Option.isSome_iff_exists]
  rfl

/-- At a world of a model an atom has the value that the valuation of the world gives it. -/
theorem valueOf_eq {r : WorldRef} {w : World} (here : m.world? r = some w) (p : Atom) :
    m.valueOf r p = w.valuation.valueOf p := by
  rw [valueOf, here]

/-- A model is a submodel of itself, with every world kept. -/
theorem isSubmodel_self (m : Model) : m.IsSubmodel m fun _ => True where
  world?_eq_some_iff r w := by simp
  agents_eq := rfl
  mem_relation_iff a arc := by simp

/-- Keeping the worlds that pass a test leaves the agents. -/
theorem agents_keep (m : Model) (p : WorldRef → Bool) : (m.keep p).agents = m.agents := by
  rw [agents, keep, ExtTreeMap.keys_map]
  rfl

/-- Keeping the worlds that pass a test leaves the submodel of these. -/
theorem isSubmodel_keep (m : Model) (p : WorldRef → Bool) :
    (m.keep p).IsSubmodel m fun r => p r = true where
  world?_eq_some_iff r w := by
    rw [world?_keep]
    split
    · next passes => simp [passes]
    · next fails => simp [fails]
  agents_eq := m.agents_keep p
  mem_relation_iff a arc := by
    rw [relation_keep, Relation.mem_restrict]

/-- The worlds of a submodel are the kept worlds of the model. -/
theorem IsSubmodel.contains_iff (h : n.IsSubmodel m kept) {r : WorldRef} :
    n.contains r = true ↔ m.contains r = true ∧ kept r := by
  rw [contains_iff_exists, contains_iff_exists]
  simp only [h.world?_eq_some_iff, exists_and_right]

/-- Only the worlds of the model count for what is kept. -/
theorem IsSubmodel.congr (h : n.IsSubmodel m kept)
    (same : ∀ r, m.contains r = true → (kept r ↔ kept' r)) : n.IsSubmodel m kept' where
  world?_eq_some_iff r w := by
    rw [h.world?_eq_some_iff]
    exact and_congr_right fun hw => same r (contains_iff_exists.2 ⟨w, hw⟩)
  agents_eq := h.agents_eq
  mem_relation_iff a arc := by
    rw [h.mem_relation_iff]
    refine and_congr_right fun hArc => ?_
    -- Both ends of an arc are worlds of the model.
    obtain ⟨source, target⟩ := m.within_relation a arc hArc
    exact and_congr (same _ source) (same _ target)

/-- A submodel of a submodel has the worlds that are kept both times. -/
theorem IsSubmodel.trans {l : Model} (h : l.IsSubmodel n kept') (h' : n.IsSubmodel m kept) :
    l.IsSubmodel m fun r => kept r ∧ kept' r where
  world?_eq_some_iff r w := by rw [h.world?_eq_some_iff, h'.world?_eq_some_iff, and_assoc]
  agents_eq := h.agents_eq.trans h'.agents_eq
  mem_relation_iff a arc := by
    rw [h.mem_relation_iff, h'.mem_relation_iff, and_assoc, and_and_and_comm]

/-- Of two submodels of a model, the one for which fewer worlds are kept is a submodel of the
other. -/
theorem IsSubmodel.of_imp {l : Model} (h : l.IsSubmodel m kept') (h' : n.IsSubmodel m kept)
    (fewer : ∀ r, m.contains r = true → kept' r → kept r) : l.IsSubmodel n kept' where
  world?_eq_some_iff r w := by
    rw [h.world?_eq_some_iff, h'.world?_eq_some_iff, and_assoc]
    refine and_congr_right fun here => ?_
    exact (and_iff_right_of_imp (fewer r (contains_iff_exists.2 ⟨w, here⟩))).symm
  agents_eq := h.agents_eq.trans h'.agents_eq.symm
  mem_relation_iff a arc := by
    rw [h.mem_relation_iff, h'.mem_relation_iff, and_assoc]
    refine and_congr_right fun between => ?_
    obtain ⟨source, target⟩ := m.within_relation a arc between
    exact (and_iff_right_of_imp (And.imp (fewer _ source) (fewer _ target))).symm

/-- At a world of a submodel atoms have the values that they have there in the model. -/
theorem IsSubmodel.valueOf_eq (h : n.IsSubmodel m kept) {r : WorldRef}
    (live : n.contains r = true) (p : Atom) : n.valueOf r p = m.valueOf r p := by
  obtain ⟨w, here⟩ := contains_iff_exists.1 live
  rw [Model.valueOf_eq here, Model.valueOf_eq ((h.world?_eq_some_iff r w).1 here).1]

/-- An announcement leaves the worlds at which the formula is true. -/
theorem isSubmodel_announce (m : Model) (f : Formula) :
    (m.announce f).2.IsSubmodel m fun r => m.satisfies f r = true := by
  refine (m.isSubmodel_keep _).congr fun r live => ?_
  simp [mem_refuting, live]

end Model

end KnowledgePrograms
