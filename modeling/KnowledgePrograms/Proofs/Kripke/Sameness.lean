import KnowledgePrograms.Proofs.Kripke.Frame
import KnowledgePrograms.Proofs.Kripke.Removal

/-! # Models that are the same

Models are compared by their worlds, reference by reference, and by the arcs of their agents. Of a
world its name counts and which atoms are true there, not which false ones are recorded. Nothing
more is read when a formula is evaluated, so formulas are true at the same worlds of models that are
the same, and announcing them leaves models that are the same again.

* `Model.Same`, `Model.sameAs_iff`: what the comparison of models decides.
* `Model.Same.satisfies_eq`, `Model.Same.announce`: truth in models that are the same, and what
  announcements leave of them.
* `Model.Same.submodel`: what is left when the same worlds are kept. -/

namespace KnowledgePrograms

open Std (ExtTreeMap ExtTreeSet)

/-- The atoms that are true are listed in ascending order. -/
theorem Valuation.ascending_trueAtoms (v : Valuation) : Ascending v.trueAtoms := by
  refine List.pairwise_filterMap.2 (v.recorded.ordered_keys_toList.imp ?_)
  intro e e' below p hp q hq
  cases (Option.ite_none_right_eq_some.1 hp).2
  cases (Option.ite_none_right_eq_some.1 hq).2
  exact below

/-- Valuations have the same true atoms iff they give each atom the same value. -/
theorem Valuation.trueAtoms_eq_iff {v w : Valuation} :
    v.trueAtoms = w.trueAtoms ↔ ∀ p, v.valueOf p = w.valueOf p := by
  constructor
  · intro same p
    rw [Bool.eq_iff_iff, ← mem_trueAtoms, ← mem_trueAtoms, same]
  · intro same
    refine v.ascending_trueAtoms.ext w.ascending_trueAtoms fun p => ?_
    rw [mem_trueAtoms, mem_trueAtoms, same]

/-- Valuations count as equal iff they give each atom the same value. -/
theorem Valuation.beq_iff {v w : Valuation} :
    (v == w) = true ↔ ∀ p, v.valueOf p = w.valueOf p := by
  show (v.trueAtoms == w.trueAtoms) = true ↔ _
  rw [beq_iff_eq, trueAtoms_eq_iff]

/-- What counts of a world when it is compared: its name, and the atoms that are true there. -/
def World.facts (w : World) : String × List Atom := (w.name, w.valuation.trueAtoms)

/-- Worlds count as equal iff what counts of them is equal. -/
theorem World.beq_iff {w v : World} : (w == v) = true ↔ w.facts = v.facts := by
  show (w.name == v.name && w.valuation.trueAtoms == v.valuation.trueAtoms) = true ↔ _
  rw [Bool.and_eq_true, beq_iff_eq, beq_iff_eq, facts, facts, Prod.mk.injEq]

namespace Model

variable {l m n m' n' : Model} {kept kept' : WorldRef → Prop}

/-! ## (1) What the comparison decides -/

/-- What counts of the world referred to, if there is one. -/
def facts? (m : Model) (r : WorldRef) : Option (String × List Atom) := (m.world? r).map World.facts

/-- The models have the same facts at each reference, and the same arcs. -/
structure Same (m n : Model) : Prop where
  /-- At each reference is the same, if anything. -/
  facts_eq : ∀ r, m.facts? r = n.facts? r
  /-- The agents are the same, and their arcs. -/
  relations_eq : m.relations = n.relations

/-- A model is the same as itself. -/
theorem same_self (m : Model) : m.Same m := ⟨fun _ => rfl, rfl⟩

/-- Sameness goes both ways. -/
theorem Same.symm (h : m.Same n) : n.Same m := ⟨fun r => (h.facts_eq r).symm, h.relations_eq.symm⟩

/-- What is the same as the same is the same. -/
theorem Same.trans (h : l.Same m) (h' : m.Same n) : l.Same n :=
  ⟨fun r => (h.facts_eq r).trans (h'.facts_eq r), h.relations_eq.trans h'.relations_eq⟩

/-- There are facts at the references to worlds. -/
theorem contains_eq_isSome_facts? (m : Model) (r : WorldRef) :
    m.contains r = (m.facts? r).isSome := by
  rw [facts?, Option.isSome_map, contains, WorldTable.contains_eq_isSome]
  rfl

/-- Models that are the same have worlds at the same references. -/
theorem Same.contains_eq (h : m.Same n) (r : WorldRef) : m.contains r = n.contains r := by
  rw [contains_eq_isSome_facts?, contains_eq_isSome_facts?, h.facts_eq]

/-- Models that are the same have the same relation of each agent. -/
theorem Same.relation_eq (h : m.Same n) (a : Agent) : m.relation a = n.relation a := by
  rw [relation, relation, h.relations_eq]

/-- Models that are the same have the same frame. -/
theorem Same.frame (h : m.Same n) : m.SameFrame n where
  contains_eq := h.contains_eq
  mem_relation_iff a arc := by rw [h.relation_eq]

/-- Models that are the same have as many worlds. -/
theorem Same.worldCount_eq (h : m.Same n) : m.worldCount = n.worldCount := by
  rw [← length_refs, ← length_refs, h.frame.refs_eq]

/-- The world found at a reference counts as equal to some world iff it has its facts. -/
theorem world?_beq_some_iff {r : WorldRef} {w : World} :
    (n.world? r == some w) = true ↔ n.facts? r = some w.facts := by
  rw [facts?]
  cases n.world? r with
  | none => simp
  | some v => rw [Option.some_beq_some, World.beq_iff, Option.map_some, Option.some.injEq]

/-- If the facts of each world of a model are found in one with as many worlds, there are no others
in the latter. -/
theorem facts?_eq_of_found (counts : m.worldCount = n.worldCount)
    (found : ∀ r w, m.world? r = some w → n.facts? r = some w.facts) (r : WorldRef) :
    m.facts? r = n.facts? r := by
  have sub : m.refs ⊆ n.refs := by
    intro s hs
    obtain ⟨w, here⟩ := contains_iff_exists.1 (contains_iff.2 hs)
    rw [← contains_iff, contains_eq_isSome_facts?, found s w here, Option.isSome_some]
  -- The second model has no more references, so all are references of the first.
  have perm : m.refs.Perm n.refs := (m.nodup_refs.subperm sub).perm_of_length_le <| by
    rw [length_refs, length_refs]
    exact Nat.le_of_eq counts.symm
  have live : (n.facts? r).isSome = (m.facts? r).isSome := by
    rw [← contains_eq_isSome_facts?, ← contains_eq_isSome_facts?, Bool.eq_iff_iff, contains_iff,
      contains_iff, perm.mem_iff]
  cases here : m.world? r with
  | some w => rw [found r w here, facts?, here, Option.map_some]
  | none =>
    have missing : m.facts? r = none := by rw [facts?, here, Option.map_none]
    rw [missing, Option.isSome_none, Option.isSome_eq_false_iff, Option.isNone_iff_eq_none] at live
    rw [missing, live]

/-- **Comparison.** Models compare as the same iff they have the same facts at each reference and
the same arcs. -/
theorem sameAs_iff : m.sameAs n = true ↔ m.Same n := by
  rw [sameAs, Bool.and_eq_true, Bool.and_eq_true, beq_iff_eq, beq_iff_eq, List.all_eq_true]
  constructor
  · rintro ⟨⟨counts, found⟩, relations⟩
    refine ⟨facts?_eq_of_found counts fun r w here => ?_, relations⟩
    exact world?_beq_some_iff.1 (found (r, w) (ExtTreeMap.mem_toList_iff_getElem?_eq_some.2 here))
  · intro same
    refine ⟨⟨same.worldCount_eq, fun e he => ?_⟩, same.relations_eq⟩
    have here : m.world? e.1 = some e.2 := ExtTreeMap.mem_toList_iff_getElem?_eq_some.1 he
    rw [world?_beq_some_iff, ← same.facts_eq, facts?, here, Option.map_some]

/-- A model compares as the same as itself. -/
theorem sameAs_self (m : Model) : m.sameAs m = true := sameAs_iff.2 m.same_self

/-! ## (2) Truth -/

/-- An atom is true at a reference iff it is among the facts there. -/
theorem valueOf_eq_any (m : Model) (r : WorldRef) (p : Atom) :
    m.valueOf r p = (m.facts? r).any fun x => p ∈ x.2 := by
  rw [valueOf, facts?]
  cases m.world? r with
  | none => rfl
  | some w => simp [World.facts, Valuation.mem_trueAtoms]

/-- Atoms have the same values in models that are the same. -/
theorem Same.valueOf_eq (h : m.Same n) (r : WorldRef) (p : Atom) :
    m.valueOf r p = n.valueOf r p := by
  rw [valueOf_eq_any, valueOf_eq_any, h.facts_eq]

/-- **Truth.** Formulas are true at the same worlds of models that are the same. -/
theorem Same.satisfies_eq (h : m.Same n) (f : Formula) (r : WorldRef) :
    m.satisfies f r = n.satisfies f r :=
  congrFun (h.frame.satisfies_eq fun s _ p _ => h.valueOf_eq s p) r

/-! ## (3) Submodels -/

/-- What is at a reference of a submodel is what was there, if it is kept. -/
theorem IsSubmodel.facts?_eq_some_iff (h : n.IsSubmodel m kept) {r : WorldRef}
    {x : String × List Atom} : n.facts? r = some x ↔ m.facts? r = some x ∧ kept r := by
  simp only [facts?, Option.map_eq_some_iff, h.world?_eq_some_iff]
  constructor
  · rintro ⟨w, ⟨here, keeps⟩, same⟩
    exact ⟨⟨w, here, same⟩, keeps⟩
  · rintro ⟨⟨w, here, same⟩, keeps⟩
    exact ⟨w, ⟨here, keeps⟩, same⟩

/-- Each agent of a model has its relation recorded there, and no other agent has. -/
theorem getElem?_relations (m : Model) (a : Agent) :
    m.relations[a]? = if a ∈ m.agents then some (m.relation a) else none := by
  simp only [agents, ExtTreeMap.mem_keys, relation, ExtTreeMap.mem_iff_isSome_getElem?]
  cases m.relations[a]? <;> rfl

/-- The relations of a model are determined by its agents and their arcs. -/
theorem relations_ext (agents : m.agents = n.agents)
    (arcs : ∀ a arc, arc ∈ m.relation a ↔ arc ∈ n.relation a) : m.relations = n.relations := by
  refine ExtTreeMap.ext_getElem? fun a => ?_
  rw [getElem?_relations, getElem?_relations, agents, Relation.ext (arcs a)]

/-- Submodels of models that are the same are the same if the same worlds are kept. -/
theorem Same.submodel (h : m.Same m') (left : n.IsSubmodel m kept) (left' : n'.IsSubmodel m' kept')
    (same : ∀ r, m.contains r = true → (kept r ↔ kept' r)) : n.Same n' where
  facts_eq r := by
    refine Option.ext fun x => ?_
    rw [left.facts?_eq_some_iff, left'.facts?_eq_some_iff, ← h.facts_eq]
    refine and_congr_right fun here => same r ?_
    rw [contains_eq_isSome_facts?, here, Option.isSome_some]
  relations_eq := by
    have whole := left.congr same
    refine relations_ext ?_ fun a arc => ?_
    · rw [left.agents_eq, left'.agents_eq, agents, agents, h.relations_eq]
    · rw [whole.mem_relation_iff, left'.mem_relation_iff, h.relation_eq]

/-- An announcement removes the same worlds from models that are the same and leaves models that are
the same. -/
theorem Same.announce (h : m.Same n) (f : Formula) :
    (m.announce f).1 = (n.announce f).1 ∧ (m.announce f).2.Same (n.announce f).2 := by
  have refuted : m.refuting f = n.refuting f := by
    rw [refuting, refuting, h.frame.refs_eq]
    simp only [h.satisfies_eq]
  refine ⟨refuted, h.submodel (m.isSubmodel_announce f) (n.isSubmodel_announce f) fun r _ => ?_⟩
  rw [h.satisfies_eq]

/-- Announcements that are made one after the other remove as many worlds from models that are the
same and leave models that are the same. -/
theorem Same.announceEach (h : m.Same n) (fs : List Formula) :
    (m.announceEach fs).1 = (n.announceEach fs).1 ∧
      (m.announceEach fs).2.Same (n.announceEach fs).2 := by
  induction fs generalizing m n with
  | nil => exact ⟨rfl, h⟩
  | cons f rest ih =>
    obtain ⟨gone, left⟩ := h.announce f
    obtain ⟨count, last⟩ := ih left
    simp only [Model.announceEach, gone, count]
    exact ⟨trivial, last⟩

end Model

end KnowledgePrograms
