import KnowledgePrograms.Kripke.Model

/-! # Drafts of models

A draft collects worlds, agents and arcs. Finishing it closes every relation to be reflexive and
symmetric, as indistinguishability is, except for what the drafter vouches for: a relation that is
said to be reflexive is given no loops, and one said to be symmetric no converses. -/

namespace KnowledgePrograms

/-- A model under construction. -/
structure Draft where
  /-- The worlds, agents and arcs so far. -/
  model : Model
  /-- Whether the arcs are vouched to be reflexive. -/
  reflexive : Bool
  /-- Whether the arcs are vouched to be symmetric. -/
  symmetric : Bool

namespace Draft

/-- The draft without anything. -/
def empty : Draft := ⟨.empty, false, false⟩

/-- The draft with a world added, at the reference `model.fresh`. -/
def addWorld (d : Draft) (w : World) : Draft where
  model := d.model.addWorld w
  reflexive := d.reflexive
  symmetric := d.symmetric

/-- The draft with an agent added. -/
def addAgent (d : Draft) (a : Agent) : Draft where
  model := d.model.addAgent a
  reflexive := d.reflexive
  symmetric := d.symmetric

/-- Add an arc of an agent to the model of a draft. -/
def addArc (d : Draft) (a : Agent) (x y : WorldRef) : Draft × Option LookupError :=
  let (m, refused) := d.model.addArc a x y
  (⟨m, d.reflexive, d.symmetric⟩, refused)

/-- Add arcs of an agent one after the other up to the first that joins no two worlds, and tell
what was wrong with that one. -/
def addArcs (d : Draft) (a : Agent) : List Arc → Draft × Option LookupError
  | [] => (d, none)
  | arc :: rest =>
      match d.addArc a arc.source arc.target with
      | (d', none) => d'.addArcs a rest
      | (d', some e) => (d', some e)

/-- Make any two of some worlds indistinguishable to an agent. -/
def relateAll (d : Draft) (a : Agent) (xs : List WorldRef) : Draft × Option LookupError :=
  d.addArcs a (xs.flatMap fun x => xs.map fun y => ⟨x, y⟩)

/-- The draft with its arcs vouched to be reflexive. -/
def vouchReflexive (d : Draft) : Draft := ⟨d.model, true, d.symmetric⟩

/-- The draft with its arcs vouched to be symmetric. -/
def vouchSymmetric (d : Draft) : Draft := ⟨d.model, d.reflexive, true⟩

/-- The model of the draft, closed except for what is vouched for. -/
def finish (d : Draft) : Model :=
  let looped := if d.reflexive then d.model else d.model.addLoops
  if d.symmetric then looped else looped.addConverses

end Draft

end KnowledgePrograms
