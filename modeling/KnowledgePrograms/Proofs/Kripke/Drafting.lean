import KnowledgePrograms.Kripke.Draft
import KnowledgePrograms.Proofs.Kripke.Submodel

/-! # Drafting models

Worlds, agents and arcs are entered into a draft one after the other. An arc that joins no two
worlds is refused, which leaves the draft as it was, and of several arcs those are entered that come
before the first one refused.

* `Model.addArc_eq`: what becomes of an arc, and `mem_relation_addLoops` and
  `mem_relation_addConverses` of the arcs when the relations are closed.
* `Draft.mem_relation_addArcs`: the arcs after several are entered.
* `Entry`, `Draft.enter`: all that may be entered. -/

namespace KnowledgePrograms

open Std (ExtTreeMap ExtTreeSet)

/-- The arcs between any two of some worlds. -/
def Arc.between (xs : List WorldRef) : List Arc := xs.flatMap fun x => xs.map fun y => ⟨x, y⟩

/-! ## (1) Agents and arcs -/

namespace Model

variable {m n : Model} {a b : Agent} {arc : Arc} {x y : WorldRef}

/-- Both ends of the arc are worlds of the model. -/
def joins (m : Model) (arc : Arc) : Bool := m.contains arc.source && m.contains arc.target

/-- The agents of a model are those that have a relation. -/
theorem mem_agents : a ∈ m.agents ↔ m.relations[a]?.isSome = true := by
  rw [agents, ExtTreeMap.mem_keys, ExtTreeMap.mem_iff_isSome_getElem?]

/-- When every relation is replaced by one made from it, the agents of the model have the relations
made from theirs, and others still have none. -/
theorem relation_of_map {f : Relation → Relation}
    (map : n.relations = m.relations.map fun _ r => f r) (a : Agent) :
    n.relation a = if a ∈ m.agents then f (m.relation a) else .empty := by
  rw [relation, map, ExtTreeMap.getElem?_map, relation]
  cases there : m.relations[a]? <;> simp [mem_agents, there]

/-- An agent that a model does not have has no arcs. -/
theorem notMem_relation_of_notMem_agents (h : a ∉ m.agents) : arc ∉ m.relation a := by
  have none : m.relations[a]? = none := by simpa [mem_agents] using h
  rw [relation, none]
  exact Relation.notMem_empty arc

/-- An arc is added if it joins worlds of the model. Else the model is left as it was, and the first
end that is none is told. -/
theorem addArc_eq (m : Model) (a : Agent) (x y : WorldRef) :
    (m.joins ⟨x, y⟩ = true ∧ ∃ h,
      m.addArc a x y = (m.setRelation a ((m.relation a).add ⟨x, y⟩) h, none)) ∨
    (m.joins ⟨x, y⟩ = false ∧
      m.addArc a x y = (m, some (.unknownWorld (if m.contains x = true then y else x)))) := by
  by_cases hx : m.contains x = true
  · by_cases hy : m.contains y = true
    · refine .inl ⟨by simp [joins, hx, hy], ?_⟩
      rw [addArc, dif_pos hx, dif_pos hy]
      exact ⟨_, rfl⟩
    · refine .inr ⟨by simp [joins, hy], ?_⟩
      rw [addArc, dif_pos hx, dif_neg hy, if_pos hx]
  · refine .inr ⟨by simp [joins, hx], ?_⟩
    rw [addArc, dif_neg hx, if_neg hx]

/-- After an arc is added an agent has the arcs that it had, and the new one if it is its. -/
theorem mem_relation_setRelation_add {h} :
    arc ∈ (m.setRelation b ((m.relation b).add ⟨x, y⟩) h).relation a ↔
      (a = b ∧ arc = ⟨x, y⟩) ∨ arc ∈ m.relation a := by
  rw [relation_setRelation]
  by_cases same : b = a
  · subst same
    simp [Relation.mem_add]
  · simp [same, Ne.symm same]

/-- Adding an agent leaves the arcs of all agents. -/
theorem relation_addAgent (m : Model) (a b : Agent) : (m.addAgent b).relation a = m.relation a := by
  rw [addAgent, relation_setRelation]
  by_cases same : b = a
  · rw [if_pos same, same]
  · rw [if_neg same]

/-- After loops are added an agent of the model has a loop at every world and the arcs it had. -/
theorem mem_relation_addLoops :
    arc ∈ m.addLoops.relation a ↔
      (a ∈ m.agents ∧ m.contains arc.source = true ∧ arc.source = arc.target) ∨
        arc ∈ m.relation a := by
  rw [relation_of_map (f := fun r => (r.addLoops m.refs).2) rfl]
  by_cases there : a ∈ m.agents
  · rw [if_pos there, Relation.mem_addLoops, contains_iff]
    simp only [there, true_and]
  · simp [there, Relation.notMem_empty, notMem_relation_of_notMem_agents there]

/-- After converses are added an agent has the arcs that it had and their converses. -/
theorem mem_relation_addConverses :
    arc ∈ m.addConverses.relation a ↔ arc.converse ∈ m.relation a ∨ arc ∈ m.relation a := by
  rw [relation_of_map (f := fun r => r.addConverses.2) rfl]
  by_cases there : a ∈ m.agents
  · rw [if_pos there, Relation.mem_addConverses]
  · simp [there, Relation.notMem_empty, notMem_relation_of_notMem_agents there]

end Model

/-! ## (2) Several arcs -/

namespace Draft

variable {a b : Agent} {arc : Arc}

/-- An arc that joins worlds of the model is added, and then the others are. -/
theorem addArcs_cons_of_added {d : Draft} {rest : List Arc} {m : Model}
    (added : d.model.addArc a arc.source arc.target = (m, none)) :
    d.addArcs a (arc :: rest) = addArcs ⟨m, d.reflexive, d.symmetric⟩ a rest := by
  rw [addArcs, addArc, added]

/-- An arc that is refused is the last one looked at, and leaves the draft as it was. -/
theorem addArcs_cons_of_refused {d : Draft} {rest : List Arc} {e : LookupError}
    (refused : d.model.addArc a arc.source arc.target = (d.model, some e)) :
    d.addArcs a (arc :: rest) = (d, some e) := by
  rw [addArcs, addArc, refused]

/-- Adding arcs leaves the worlds. -/
theorem worlds_addArcs (d : Draft) (a : Agent) (arcs : List Arc) :
    (d.addArcs a arcs).1.model.worlds = d.model.worlds := by
  induction arcs generalizing d with
  | nil => rfl
  | cons arc rest ih =>
    rcases d.model.addArc_eq a arc.source arc.target with ⟨-, _, added⟩ | ⟨-, refused⟩
    · rw [addArcs_cons_of_added added]
      exact ih _
    · rw [addArcs_cons_of_refused refused]

/-- After arcs are added an agent has the arcs that it had and, if they are its, those before the
first that does not join worlds of the model. -/
theorem mem_relation_addArcs (d : Draft) (arcs : List Arc) :
    arc ∈ (d.addArcs b arcs).1.model.relation a ↔
      (a = b ∧ arc ∈ arcs.takeWhile d.model.joins) ∨ arc ∈ d.model.relation a := by
  induction arcs generalizing d with
  | nil => simp [addArcs]
  | cons first rest ih =>
    rcases d.model.addArc_eq b first.source first.target with
      ⟨joined, inside, added⟩ | ⟨apart, refused⟩
    · -- The worlds stay, so the later arcs join worlds of the new model iff they did of the old.
      have joins : (d.model.setRelation b ((d.model.relation b).add first) inside).joins
          = d.model.joins := rfl
      rw [addArcs_cons_of_added added, ih, joins, Model.mem_relation_setRelation_add,
        List.takeWhile_cons_of_pos joined, List.mem_cons]
      grind
    · rw [addArcs_cons_of_refused refused, List.takeWhile_cons_of_neg (by simp [apart])]
      simp

end Draft

/-! ## (3) Entries -/

/-- Something entered into a draft, whether or not it is refused. -/
inductive Entry where
  /-- Add a world. -/
  | world (w : World)
  /-- Add an agent. -/
  | agent (a : Agent)
  /-- Add an arc of an agent. -/
  | arc (a : Agent) (x y : WorldRef)
  /-- Make any two of some worlds indistinguishable to an agent. -/
  | related (a : Agent) (xs : List WorldRef)
  /-- Vouch for the arcs to be reflexive. -/
  | reflexive
  /-- Vouch for the arcs to be symmetric. -/
  | symmetric

/-- A draft after an entry, with the references that it has handed out, the latest first. -/
def Draft.enter (x : Draft × List WorldRef) : Entry → Draft × List WorldRef
  | .world w => (x.1.addWorld w, x.1.model.fresh :: x.2)
  | .agent a => (x.1.addAgent a, x.2)
  | .arc a s t => ((x.1.addArc a s t).1, x.2)
  | .related a xs => ((x.1.relateAll a xs).1, x.2)
  | .reflexive => (x.1.vouchReflexive, x.2)
  | .symmetric => (x.1.vouchSymmetric, x.2)

end KnowledgePrograms
