import KnowledgePrograms.Kripke.Model

/-! # Models from what agents observe

When each agent observes some of the atoms, two worlds are indistinguishable to an agent exactly
when they give the same values to the atoms that the agent observes. So an agent sorts the worlds
into groups, one for each way to value these atoms that occurs, and cannot rule out at a world any
of its group.

* `WorldTable.grouping` sorts the worlds, and `mem_group_grouping` says what is in each group.
* `Relation.ofObserved` joins any two worlds of a group, and `mem_ofObserved` says which these are.
* `Model.fromObservability` is the model of a list of worlds and of what each agent observes. -/

namespace KnowledgePrograms

open Std (ExtTreeMap ExtTreeSet)

/-- The values that a world gives to the atoms of a list. -/
def World.valuesOf (w : World) (atoms : List Atom) : List Bool := atoms.map w.valuation.valueOf

/-! ## (1) Groups of worlds -/

/-- References to worlds, grouped by the values that the worlds give to some atoms. -/
abbrev Grouping := ExtTreeMap (List Bool) (ExtTreeSet WorldRef)

namespace Grouping

/-- The group of some values. -/
def group (g : Grouping) (values : List Bool) : ExtTreeSet WorldRef := g[values]?.getD ∅

/-- Put a reference into the group of some values. -/
def put (g : Grouping) (values : List Bool) (r : WorldRef) : Grouping :=
  g.insert values ((g.group values).insert r)

/-- Put references into the groups of the values that their worlds give to some atoms. -/
def putAll (g : Grouping) (atoms : List Atom) (entries : List (WorldRef × World)) : Grouping :=
  entries.foldl (fun g e => g.put (e.2.valuesOf atoms) e.1) g

/-- A reference is in a group after `put` if it was put there or was there before. -/
theorem mem_group_put {g : Grouping} {values values' : List Bool} {r s : WorldRef} :
    s ∈ (g.put values r).group values' ↔ (values = values' ∧ r = s) ∨ s ∈ g.group values' := by
  simp only [group, put, ExtTreeMap.getElem?_insert, Std.LawfulEqCmp.compare_eq_iff_eq]
  split
  · next h =>
    subst h
    rw [Option.getD_some, ExtTreeSet.mem_insert, Std.LawfulEqCmp.compare_eq_iff_eq]
    simp
  · next h => simp [h]

/-- A reference is in a group after `putAll` if its world has the values or it was there before. -/
theorem mem_group_putAll {g : Grouping} {atoms : List Atom} {entries : List (WorldRef × World)}
    {values : List Bool} {r : WorldRef} :
    r ∈ (g.putAll atoms entries).group values ↔
      (∃ w, (r, w) ∈ entries ∧ w.valuesOf atoms = values) ∨ r ∈ g.group values := by
  induction entries generalizing g with
  | nil => simp [putAll]
  | cons e rest ih =>
    obtain ⟨s, v⟩ := e
    rw [putAll, List.foldl_cons, ← putAll, ih, mem_group_put]
    constructor
    · rintro (⟨w, h, same⟩ | ⟨same, rfl⟩ | h)
      · exact .inl ⟨w, List.mem_cons_of_mem _ h, same⟩
      · exact .inl ⟨v, List.mem_cons_self, same⟩
      · exact .inr h
    · rintro (⟨w, h, same⟩ | h)
      · rcases List.mem_cons.1 h with h | h
        · cases h
          exact .inr (.inl ⟨same, rfl⟩)
        · exact .inl ⟨w, h, same⟩
      · exact .inr (.inr h)

end Grouping

namespace WorldTable

/-- The references to the worlds of a table, grouped by the values of the atoms of a list. -/
def grouping (t : WorldTable) (atoms : List Atom) : Grouping :=
  Grouping.putAll ∅ atoms t.live.toList

/-- The group of some values holds the references to the worlds that give the atoms these
values. -/
theorem mem_group_grouping {t : WorldTable} {atoms : List Atom} {values : List Bool}
    {r : WorldRef} :
    r ∈ (t.grouping atoms).group values ↔
      ∃ w, t.get? r = some w ∧ w.valuesOf atoms = values := by
  rw [grouping, Grouping.mem_group_putAll]
  simp [Grouping.group, get?]

end WorldTable

/-! ## (2) Indistinguishability -/

namespace Relation

/-- The arcs between any two worlds of a table at which the atoms of a list have the same values. -/
def ofObserved (t : WorldTable) (atoms : List Atom) : Relation where
  rows :=
    let grouping := t.grouping atoms
    t.live.map fun _ w => grouping.group (w.valuesOf atoms)
  occupied x h := by
    rw [ExtTreeMap.getElem?_map] at h
    obtain ⟨w, hw, h⟩ := Option.map_eq_some_iff.1 h
    -- A world is in the group of its own values, so no group that is looked up is empty.
    have mem : x ∈ (t.grouping atoms).group (w.valuesOf atoms) :=
      WorldTable.mem_group_grouping.2 ⟨w, hw, rfl⟩
    rw [h] at mem
    exact ExtTreeSet.not_mem_empty mem

/-- An arc joins two worlds at which the observed atoms have the same values. -/
theorem mem_ofObserved {t : WorldTable} {atoms : List Atom} {arc : Arc} :
    arc ∈ ofObserved t atoms ↔ ∃ w v, t.get? arc.source = some w ∧
      t.get? arc.target = some v ∧ w.valuesOf atoms = v.valuesOf atoms := by
  rw [mem_def, row, ofObserved, ExtTreeMap.getElem?_map]
  show _ ∈ ((t.get? arc.source).map _).getD ∅ ↔ _
  cases t.get? arc.source with
  | none => simp
  | some w =>
    rw [Option.map_some, Option.getD_some, WorldTable.mem_group_grouping]
    constructor
    · rintro ⟨v, hv, same⟩
      exact ⟨w, v, rfl, hv, same.symm⟩
    · rintro ⟨_, v, hw, hv, same⟩
      cases hw
      exact ⟨v, hv, same.symm⟩

/-- The arcs join worlds of the table. -/
theorem within_ofObserved (t : WorldTable) (atoms : List Atom) : (ofObserved t atoms).Within t := by
  intro arc h
  obtain ⟨w, v, hw, hv, _⟩ := mem_ofObserved.1 h
  rw [WorldTable.contains_eq_isSome, WorldTable.contains_eq_isSome, hw, hv]
  exact ⟨rfl, rfl⟩

end Relation

/-! ## (3) The model -/

namespace Model

/-- The model of a table of worlds in which two worlds are indistinguishable to an agent when they
agree on all that the agent observes. -/
def ofObserved (t : WorldTable) (observed : ExtTreeMap Agent (ExtTreeSet Atom)) : Model where
  worlds := t
  relations := observed.map fun _ atoms => .ofObserved t atoms.toList
  within a r h := by
    rw [ExtTreeMap.getElem?_map] at h
    obtain ⟨atoms, _, rfl⟩ := Option.map_eq_some_iff.1 h
    exact Relation.within_ofObserved t _

/-- The model of a list of worlds and of what each agent observes, with the references to the
worlds in the order of the list. -/
def fromObservability (worlds : List World) (observed : ExtTreeMap Agent (ExtTreeSet Atom)) :
    List WorldRef × Model :=
  let (refs, table) := WorldTable.empty.addAll worlds
  (refs, ofObserved table observed)

end Model

end KnowledgePrograms
