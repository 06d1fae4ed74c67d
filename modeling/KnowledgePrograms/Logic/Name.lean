import Std.Data.ExtTreeMap

/-! # Atoms and agents

Atoms and agents are opaque names: two of them are the same exactly when their names are, and both
are ordered by their names, code point by code point. So there can be tables with an entry for each
of some agents. -/

namespace KnowledgePrograms

/-- An atom, a fact that is true or false at a world. -/
structure Atom where
  /-- What the atom is called. -/
  name : String
deriving DecidableEq, Inhabited, Hashable

/-- An agent, whose knowledge a formula may speak of. -/
structure Agent where
  /-- What the agent is called. -/
  name : String
deriving DecidableEq, Inhabited, Hashable

namespace Atom

instance : Ord Atom := ⟨compareOn name⟩

instance : Std.TransOrd Atom := inferInstanceAs (Std.TransCmp (compareOn name))

instance : Std.LawfulEqOrd Atom where
  eq_of_compare {p q} h := by
    cases p
    cases q
    exact congrArg mk (Std.LawfulEqOrd.eq_of_compare h)

instance : ToString Atom := ⟨name⟩

end Atom

namespace Agent

instance : Ord Agent := ⟨compareOn name⟩

instance : Std.TransOrd Agent := inferInstanceAs (Std.TransCmp (compareOn name))

instance : Std.LawfulEqOrd Agent where
  eq_of_compare {a b} h := by
    cases a
    cases b
    exact congrArg mk (Std.LawfulEqOrd.eq_of_compare h)

instance : ToString Agent := ⟨name⟩

open Std (ExtTreeMap)

/-- What is put in a table for one agent is found for that agent, and for the others what was there
before. -/
theorem getElem?_insert {β : Type} (t : ExtTreeMap Agent β) (a b : Agent) (v : β) :
    (t.insert a v)[b]? = if a = b then some v else t[b]? := by
  rw [ExtTreeMap.getElem?_insert]
  simp only [Std.LawfulEqCmp.compare_eq_iff_eq]

/-- A table of something of each entry has a new entry when an entry is put in. -/
theorem map_insert {β γ : Type} (t : ExtTreeMap Agent β) (a : Agent) (v : β) (f : β → γ) :
    (t.insert a v).map (fun _ v => f v) = (t.map fun _ v => f v).insert a (f v) := by
  refine ExtTreeMap.ext_getElem? fun b => ?_
  rw [ExtTreeMap.getElem?_map, getElem?_insert, getElem?_insert, ExtTreeMap.getElem?_map]
  split <;> rfl

end Agent

end KnowledgePrograms
