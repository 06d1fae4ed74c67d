import KnowledgePrograms.Kripke.Relation

/-! # Kripke models

A model is a table of worlds with a relation for each agent, read as indistinguishability: an arc
of `a` from `w` to `v` says that at `w` agent `a` cannot rule out `v`. Every arc joins two worlds
of the model, which is a field of the type, so a model cannot be led to a world it does not have.

* `Model.keep` is the submodel of the worlds that pass a test, with the arcs between them. Removing
  a world and announcing a formula are instances of it.
* `Model.sameAs` compares models: the same worlds at the same references and the same arcs. -/

namespace KnowledgePrograms

open Std (ExtTreeMap ExtTreeSet)

/-- Why a reference or a name leads to no world. -/
inductive LookupError where
  /-- The reference is to no world of the model. -/
  | unknownWorld (r : WorldRef)
  /-- No world of the model has the name. -/
  | unnamedWorld (name : String)
deriving DecidableEq

/-- A finite Kripke model. -/
structure Model where
  /-- The worlds. -/
  worlds : WorldTable
  /-- For each agent of the model, which worlds the agent cannot tell apart. -/
  relations : ExtTreeMap Agent Relation
  /-- Every arc joins two worlds of the model. -/
  within : ∀ (a : Agent) (r : Relation), relations[a]? = some r → r.Within worlds

namespace Model

/-- The model without worlds and agents. -/
def empty : Model := ⟨.empty, ∅, by simp⟩

instance : Inhabited Model := ⟨empty⟩

/-! ## (1) What a model holds -/

/-- The references to the worlds of the model, in order. -/
def refs (m : Model) : List WorldRef := m.worlds.refs

/-- The world referred to, if it is one of the model. -/
def world? (m : Model) (r : WorldRef) : Option World := m.worlds.get? r

/-- Whether the reference is to a world of the model. -/
def contains (m : Model) (r : WorldRef) : Bool := m.worlds.contains r

/-- The number of worlds. -/
def worldCount (m : Model) : Nat := m.worlds.size

/-- The agents that have a relation, in order. -/
def agents (m : Model) : List Agent := m.relations.keys

/-- The relation of an agent, without arcs if the agent has none. -/
def relation (m : Model) (a : Agent) : Relation := m.relations[a]?.getD .empty

/-- The epistemic alternatives of an agent at a world, in order: the worlds that it cannot rule out
there. There are none if the agent has no relation. -/
def accessible (m : Model) (a : Agent) (r : WorldRef) : List WorldRef :=
  (m.relations[a]?.bind fun arcs => arcs.successors? r).getD []

/-- The reference to the first world of a name. -/
def findWorld (m : Model) (name : String) : Except LookupError WorldRef :=
  match m.worlds.live.toList.find? fun e => e.2.name == name with
  | some e => .ok e.1
  | none => .error (.unnamedWorld name)

/-- Whether every agent's relation has a loop at every world. -/
def isReflexive (m : Model) : Bool := m.relations.toList.all fun e => e.2.hasLoops m.refs

/-- Whether every agent's relation has the converse of each arc. -/
def isSymmetric (m : Model) : Bool := m.relations.toList.all fun e => e.2.hasConverses

/-- Whether two models have equal worlds at the same references, and the same agents with the same
arcs. -/
def sameAs (m n : Model) : Bool :=
  m.worldCount == n.worldCount &&
  m.worlds.live.toList.all (fun e => n.world? e.1 == some e.2) &&
  m.relations == n.relations

/-- A reference is to a world of the model iff it is among its references. -/
theorem contains_iff {m : Model} {r : WorldRef} : m.contains r = true ↔ r ∈ m.refs :=
  WorldTable.contains_iff

/-- The relation of any agent, even of one without, is within the worlds of the model. -/
theorem within_relation (m : Model) (a : Agent) : (m.relation a).Within m.worlds := by
  rw [relation]
  cases h : m.relations[a]? with
  | none => exact Relation.within_empty _
  | some r => exact m.within a r h

/-- What an agent cannot rule out at a world is the row of the world, also if the agent has no
relation. -/
theorem accessible_eq (m : Model) (a : Agent) (r : WorldRef) :
    m.accessible a r = ((m.relation a).row r).toList := by
  rw [accessible, relation, ← Relation.getD_successors?]
  cases m.relations[a]? <;> rfl

/-- The worlds that an agent cannot rule out are those that its arcs lead to. -/
theorem mem_accessible {m : Model} {a : Agent} {r s : WorldRef} :
    s ∈ m.accessible a r ↔ (⟨r, s⟩ : Arc) ∈ m.relation a := by
  rw [accessible_eq]
  exact ExtTreeSet.mem_toList

/-- What an agent cannot rule out is a world of the model. -/
theorem contains_of_mem_accessible {m : Model} {a : Agent} {r s : WorldRef}
    (h : s ∈ m.accessible a r) : m.contains s = true :=
  (m.within_relation a _ (mem_accessible.1 h)).2

/-! ## (2) Adding worlds, agents and arcs -/

/-- The reference to the world added next. -/
def fresh (m : Model) : WorldRef := m.worlds.fresh

/-- The model with a world added, at the reference `fresh`, which no arc touches. -/
def addWorld (m : Model) (w : World) : Model where
  worlds := m.worlds.add w
  relations := m.relations
  within a r h arc hArc := by
    have live : ∀ s, m.worlds.contains s = true → (m.worlds.add w).contains s = true := by
      intro s hs
      rw [WorldTable.contains_eq_isSome] at hs ⊢
      rw [WorldTable.get?_add]
      split
      · rfl
      · exact hs
    exact (m.within a r h arc hArc).imp (live _) (live _)

/-- After `addWorld` the new reference refers to the new world and every other to what it did. -/
theorem world?_addWorld (m : Model) (w : World) (r : WorldRef) :
    (m.addWorld w).world? r = if m.fresh = r then some w else m.world? r :=
  WorldTable.get?_add m.worlds w r

/-- The model with the relation of one agent replaced by another within the worlds of the model. -/
def setRelation (m : Model) (a : Agent) (r : Relation) (h : r.Within m.worlds) : Model where
  worlds := m.worlds
  relations := m.relations.insert a r
  within b s hs := by
    rw [ExtTreeMap.getElem?_insert] at hs
    split at hs
    · cases hs
      exact h
    · exact m.within b s hs

/-- After `setRelation` the agent has the new relation and every other agent its own. -/
theorem relation_setRelation (m : Model) (a b : Agent) (r : Relation) (h : r.Within m.worlds) :
    (m.setRelation a r h).relation b = if a = b then r else m.relation b := by
  rw [relation, setRelation, Agent.getElem?_insert]
  split <;> rfl

/-- The model with an agent added, without arcs if the agent is new. -/
def addAgent (m : Model) (a : Agent) : Model :=
  m.setRelation a (m.relation a) (m.within_relation a)

/-- Add an arc of an agent, after checking that it joins two worlds of the model: the model then,
and the first end that is no world of it. -/
def addArc (m : Model) (a : Agent) (x y : WorldRef) : Model × Option LookupError :=
  if hx : m.contains x = true then
    if hy : m.contains y = true then
      let added := m.setRelation a ((m.relation a).add ⟨x, y⟩) fun arc hArc => by
        rcases Relation.mem_add.1 hArc with rfl | hArc
        · exact ⟨hx, hy⟩
        · exact m.within_relation a arc hArc
      (added, none)
    else (m, some (.unknownWorld y))
  else (m, some (.unknownWorld x))

/-! ## (3) Closing the relations -/

/-- The model with every relation replaced by one made from it. -/
def mapRelations (m : Model) (f : Relation → Relation)
    (h : ∀ r, r.Within m.worlds → (f r).Within m.worlds) : Model where
  worlds := m.worlds
  relations := m.relations.map fun _ r => f r
  within a r hr := by
    rw [ExtTreeMap.getElem?_map] at hr
    obtain ⟨s, hs, rfl⟩ := Option.map_eq_some_iff.1 hr
    exact h s (m.within a s hs)

/-- The model with a loop of every agent at every world. -/
def addLoops (m : Model) : Model :=
  m.mapRelations (fun r => (r.addLoops m.refs).2) fun _ h => h.addLoops

/-- The model with the converse of every arc. -/
def addConverses (m : Model) : Model :=
  m.mapRelations (fun r => r.addConverses.2) fun _ h => h.addConverses

/-! ## (4) Submodels -/

/-- The submodel of the worlds that pass a test, with the arcs between them. -/
def keep (m : Model) (p : WorldRef → Bool) : Model where
  worlds := m.worlds.keep p
  relations := m.relations.map fun _ r => r.restrict p
  within a r hr arc hArc := by
    rw [ExtTreeMap.getElem?_map] at hr
    obtain ⟨s, hs, rfl⟩ := Option.map_eq_some_iff.1 hr
    obtain ⟨mem, test⟩ := Relation.mem_restrict.1 hArc
    obtain ⟨source, target⟩ := m.within a s hs arc mem
    have live : ∀ x, p x = true → m.worlds.contains x = true →
        (m.worlds.keep p).contains x = true := by
      intro x hx live
      rw [WorldTable.contains_eq_isSome] at live ⊢
      rw [WorldTable.get?_keep, if_pos hx]
      exact live
    exact ⟨live _ test.1 source, live _ test.2 target⟩

/-- After `keep` a reference that passes the test refers to what it did, any other to nothing. -/
theorem world?_keep (m : Model) (p : WorldRef → Bool) (r : WorldRef) :
    (m.keep p).world? r = if p r then m.world? r else none :=
  WorldTable.get?_keep m.worlds p r

/-- After `keep` the agents are related as they were, between the worlds that pass the test. -/
theorem relation_keep (m : Model) (p : WorldRef → Bool) (a : Agent) :
    (m.keep p).relation a = (m.relation a).restrict p := by
  rw [relation, keep, ExtTreeMap.getElem?_map, relation]
  cases m.relations[a]? <;> rfl

/-- The model without the world referred to, and without the arcs to and from it. -/
def removeWorld (m : Model) (r : WorldRef) : Model := m.keep (· != r)

/-! ## (5) The text of a model -/

/-- The names of the ends of an arc, with `~` between them. -/
def arcText (m : Model) (arc : Arc) : String :=
  match m.world? arc.source, m.world? arc.target with
  | some w, some v => " " ++ w.name ++ "~" ++ v.name
  | _, _ => ""

/-- The text of a model: a line for each world, and a line for each agent with the arcs that go
upward in the order of references. -/
def text (m : Model) : String :=
  let worldLines := m.worlds.live.toList.map fun e => e.2.text ++ "\n"
  let agentLines := m.relations.toList.map fun e =>
    e.1.name ++ ":" ++
      String.join ((e.2.pairs.filter fun arc => compare arc.source arc.target == .lt).map m.arcText)
      ++ "\n"
  String.join (worldLines ++ agentLines)

instance : ToString Model := ⟨text⟩

end Model

end KnowledgePrograms
