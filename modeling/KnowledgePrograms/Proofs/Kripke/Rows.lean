import KnowledgePrograms.Proofs.Kripke.Closure

/-! # Rows of arcs

A relation begins empty and is changed over and over: arcs are added, one by one or as loops and
converses, and worlds are removed with all arcs that touch them. A relation rules out by its type
that one of its rows is empty. A plain table of rows does not, and when it is changed in place a row
has to be made for the first arc from a world, and to be taken away with the last one. Done right,
this leads to the rows of the relation. So the table, too, is a set of arcs: it is determined by
them, lists them in order, and says of each that is added whether it is new.

* `RowTable`: a table of rows, with its changes made in place.
* `ArcChange`, `Relation.changed`, `RowTable.changed`: all that may be done to a relation, and what
  comes of it in both ways.
* `Relation.change_table`: one change in place.
* `Relation.changed_faithful`: how relations are after any changes, and what the next one does. -/

namespace KnowledgePrograms

open Std (ExtTreeMap ExtTreeSet)

/-- A way to change a relation. -/
inductive ArcChange where
  /-- Add an arc. -/
  | add (arc : Arc)
  /-- Remove the arcs that touch a world. -/
  | remove (x : WorldRef)
  /-- Add the loop at each of some worlds. -/
  | loops (worlds : List WorldRef)
  /-- Add the converse of each arc. -/
  | converses

/-! ## (1) Tables of rows -/

/-- A table of rows, any of which may be empty. -/
structure RowTable where
  /-- For some worlds, where the arcs that leave them end. -/
  rows : ExtTreeMap WorldRef (ExtTreeSet WorldRef)

namespace RowTable

/-- The table without rows. -/
def empty : RowTable := ⟨∅⟩

/-- The arcs, row by row. -/
def pairs (t : RowTable) : List Arc :=
  t.rows.toList.flatMap fun e => e.2.toList.map fun y => ⟨e.1, y⟩

/-- Put an arc into the row of its source, a new one if there is none, and tell whether it was
missing there. -/
def add (t : RowTable) (arc : Arc) : Bool × RowTable :=
  let row := t.rows[arc.source]?.getD ∅
  (!row.contains arc.target, ⟨t.rows.insert arc.source (row.insert arc.target)⟩)

/-- Put in arcs one after the other, and count those that were missing. -/
def addEach (t : RowTable) (arcs : List Arc) : Nat × RowTable :=
  arcs.foldl (fun c arc => (c.1 + (c.2.add arc).1.toNat, (c.2.add arc).2)) (0, t)

/-- Take away the row of a world, then the world from every other row, and the rows that are empty
then. -/
def remove (t : RowTable) (x : WorldRef) : RowTable where
  rows := (t.rows.erase x).filterMap fun _ row =>
    let left := row.erase x
    if left.isEmpty then none else some left

/-- How many arcs were missing when a change is made, and the table then. -/
def change (t : RowTable) : ArcChange → Nat × RowTable
  | .add arc => ((t.add arc).1.toNat, (t.add arc).2)
  | .remove x => (0, t.remove x)
  | .loops worlds => t.addEach (worlds.map fun x => ⟨x, x⟩)
  | .converses => t.addEach (t.pairs.map Arc.converse)

/-- The table without rows after some changes. -/
def changed (changes : List ArcChange) : RowTable :=
  changes.foldl (fun t c => (t.change c).2) empty

end RowTable

namespace Relation

variable {r : Relation} {arc : Arc} {x y : WorldRef}

/-- The rows of a relation. -/
def table (r : Relation) : RowTable := ⟨r.rows⟩

/-- How many arcs are new when a change is made, and the relation then. -/
def change (r : Relation) : ArcChange → Nat × Relation
  | .add arc => r.addAll [arc]
  | .remove x => (0, r.erase x)
  | .loops worlds => r.addLoops worlds
  | .converses => r.addConverses

/-- The relation without arcs after some changes. -/
def changed (changes : List ArcChange) : Relation :=
  changes.foldl (fun r c => (r.change c).2) empty

/-! ## (2) One change in place -/

/-- Relations with the same rows are equal. -/
theorem table_inj {s : Relation} : r.table = s.table ↔ r = s := by
  constructor
  · intro same
    cases r
    cases s
    cases same
    rfl
  · rintro rfl
    rfl

/-- To add an arc that is there changes nothing. -/
theorem add_of_mem (old : arc ∈ r) : r.add arc = r := by
  refine ext fun x => mem_add.trans ⟨?_, .inr⟩
  rintro (rfl | there)
  · exact old
  · exact there

/-- An arc is counted if it is not there yet, and it is there then. -/
theorem addCounted_eq (c : Nat × Relation) (arc : Arc) :
    addCounted c arc = (c.1 + (decide (arc ∉ c.2)).toNat, c.2.add arc) := by
  rw [addCounted]
  split
  · next old => simp [old, add_of_mem old]
  · next new => simp [new]

/-- An arc put into the rows of a relation was missing there if it is new. -/
theorem table_add (r : Relation) (arc : Arc) :
    r.table.add arc = (decide (arc ∉ r), (r.add arc).table) := by
  refine Prod.ext ?_ rfl
  have found : r.contains arc.source arc.target = decide (arc ∈ r) := by
    rw [Bool.eq_iff_iff, contains_iff, decide_eq_true_iff]
  show (!r.contains arc.source arc.target) = decide (arc ∉ r)
  rw [found, decide_not]

/-- Arcs put into the rows of a relation are counted as if they were added to it. -/
theorem table_addEach (r : Relation) (arcs : List Arc) :
    r.table.addEach arcs = ((r.addAll arcs).1, (r.addAll arcs).2.table) := by
  -- Induction on the arcs, over all counts to begin from.
  have counted (c : Nat × Relation) :
      arcs.foldl (fun c arc => (c.1 + (c.2.add arc).1.toNat, (c.2.add arc).2)) (c.1, c.2.table)
        = ((arcs.foldl addCounted c).1, (arcs.foldl addCounted c).2.table) := by
    induction arcs generalizing c with
    | nil => rfl
    | cons arc rest ih => rw [List.foldl_cons, List.foldl_cons, ← ih, addCounted_eq, table_add]
  exact counted (0, r)

/-- Taking a member away leaves those that differ from it. -/
theorem erase_eq_filter (row : ExtTreeSet WorldRef) (x : WorldRef) :
    row.erase x = row.filter (· != x) := by
  refine ExtTreeSet.ext_mem fun y => ?_
  rw [ExtTreeSet.mem_erase, ExtTreeSet.mem_filter, ne_eq, Std.LawfulEqCmp.compare_eq_iff_eq]
  simp [and_comm, eq_comm (a := x)]

/-- Taking a world from the rows of a relation, and with it the rows that are empty then, leaves the
rows of the arcs that do not touch it. -/
theorem table_remove (r : Relation) (x : WorldRef) : r.table.remove x = (r.erase x).table := by
  refine congrArg RowTable.mk (ExtTreeMap.ext_getElem? fun y => ?_)
  rw [ExtTreeMap.getElem?_filterMap']
  show _ = (r.rows.filterMap _)[y]?
  rw [ExtTreeMap.getElem?_filterMap', ExtTreeMap.getElem?_erase]
  by_cases same : x = y
  · simp [same]
  · simp [same, Ne.symm same, table, erase_eq_filter, occupied?]

/-- A relation can be changed in place. -/
theorem change_table (r : Relation) (c : ArcChange) :
    r.table.change c = ((r.change c).1, (r.change c).2.table) := by
  cases c with
  | add arc =>
    show ((r.table.add arc).1.toNat, (r.table.add arc).2)
      = ((addCounted (0, r) arc).1, (addCounted (0, r) arc).2.table)
    rw [table_add, addCounted_eq, Nat.zero_add]
  | remove x => exact congrArg (Prod.mk 0) (r.table_remove x)
  | loops worlds | converses => exact r.table_addEach _

/-! ## (3) All changes -/

/-- All changes, one after the other, can be made in place. -/
theorem changed_table (changes : List ArcChange) :
    RowTable.changed changes = (changed changes).table := by
  show List.foldl _ empty.table changes = _
  exact List.foldl_hom table fun r c => by rw [change_table]

/-- The arcs that are left when those that touch a world are removed. -/
theorem mem_erase : arc ∈ r.erase x ↔ arc ∈ r ∧ arc.source ≠ x ∧ arc.target ≠ x := by
  simp [erase, mem_restrict]

/-- Relations are equal iff they contain the same arcs. -/
theorem eq_iff_contains {s : Relation} : s = r ↔ ∀ x y, s.contains x y = r.contains x y := by
  constructor
  · rintro rfl x y
    rfl
  · intro same
    refine ext fun arc => ?_
    rw [← contains_iff (x := arc.source) (y := arc.target), same, contains_iff]

/-- **A relation is a set of arcs.** However the empty relation was changed, its rows are those of a
table that was changed in place, and so it is with the next change; no row of the table is empty.
The arcs that are contained are listed in ascending order and counted. Putting in an arc tells
whether it was missing, and adds nothing else; removing a world takes away the arcs that start or
end at it. Two relations that were reached so, or two tables, are equal if they contain the same
arcs. -/
theorem changed_faithful (changes : List ArcChange) :
    let r := changed changes
    let t := RowTable.changed changes
    (t = r.table ∧ ∀ c, t.change c = ((r.change c).1, (r.change c).2.table)) ∧
    (∀ x : WorldRef, t.rows[x]? ≠ some ∅) ∧
    (Ascending r.pairs ∧ ∀ x y, (⟨x, y⟩ : Arc) ∈ r.pairs ↔ r.contains x y = true) ∧
    r.arcCount = r.pairs.length ∧
    (∀ arc, ((t.add arc).1 = true ↔ r.contains arc.source arc.target = false) ∧
      ∀ x y, (r.change (.add arc)).2.contains x y = true ↔
        ⟨x, y⟩ = arc ∨ r.contains x y = true) ∧
    (∀ w x y, (r.change (.remove w)).2.contains x y = true ↔
      r.contains x y = true ∧ x ≠ w ∧ y ≠ w) ∧
    ∀ others,
      (changed others = r ↔ ∀ x y, (changed others).contains x y = r.contains x y) ∧
      (RowTable.changed others = t ↔ ∀ x y, (changed others).contains x y = r.contains x y) := by
  intro r t
  have inPlace : t = r.table := changed_table changes
  refine ⟨⟨inPlace, ?_⟩, ?_, ⟨r.ascending_pairs, ?_⟩, r.arcCount_eq, fun arc => ⟨?_, ?_⟩, ?_, ?_⟩
  · rw [inPlace]
    exact r.change_table
  · rw [inPlace]
    exact r.occupied
  · intro x y
    rw [mem_pairs, contains_iff]
  · rw [inPlace, table_add, decide_eq_true_iff, ← Bool.not_eq_true, contains_iff]
  · intro x y
    rw [contains_iff, contains_iff]
    exact mem_addCounted
  · intro w x y
    rw [contains_iff, contains_iff]
    exact mem_erase
  · intro others
    rw [inPlace, changed_table, table_inj]
    exact ⟨eq_iff_contains, eq_iff_contains⟩

/-- A row is made for the first arc from a world, and is gone with the last one. -/
example :
    (RowTable.changed [.add ⟨⟨1, 1⟩, ⟨2, 1⟩⟩, .converses, .remove ⟨2, 1⟩]).rows.isEmpty = true := by
  decide +kernel

end Relation

end KnowledgePrograms
