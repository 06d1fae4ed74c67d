import Std.Data.ExtTreeMap
import Std.Data.ExtTreeSet
import KnowledgePrograms.Kripke.WorldTable

/-! # Relations between worlds

A relation is a finite set of arcs, each from one world to another. It is kept as rows: each world
that some arc leaves has the set of worlds that these arcs lead to. No row is empty, so a relation
is determined by its arcs (`Relation.ext`).

* `Relation.add`, `Relation.addAll` add arcs, and `mem_add`, `mem_addAll` say which there are then.
* `Relation.restrict` drops the arcs that touch certain worlds, `mem_restrict` says which are left.
* `Relation.pairs` lists the arcs in order, by where they start and then by where they end. -/

namespace KnowledgePrograms

open Std (ExtTreeMap ExtTreeSet)

/-- An arc from one world to another. -/
structure Arc where
  /-- Where the arc starts. -/
  source : WorldRef
  /-- Where the arc ends. -/
  target : WorldRef
deriving DecidableEq, Inhabited

namespace Arc

/-- Arcs are ordered by source and then by target. -/
instance : Ord Arc :=
  ⟨fun x y => (compare x.source y.source).then (compare x.target y.target)⟩

instance : Std.TransOrd Arc :=
  inferInstanceAs (Std.TransCmp (compareLex (compareOn source) (compareOn target)))

instance : Std.LawfulEqOrd Arc where
  eq_of_compare {x y} h := by
    obtain ⟨source, target⟩ := x
    obtain ⟨hs, ht⟩ := Ordering.then_eq_eq.1 h
    cases (Std.LawfulEqOrd.eq_of_compare hs : source = y.source)
    cases (Std.LawfulEqOrd.eq_of_compare ht : target = y.target)
    rfl

/-- The arc the other way round. -/
def converse (x : Arc) : Arc := ⟨x.target, x.source⟩

end Arc

/-- A finite set of arcs between worlds. -/
structure Relation where
  /-- For each world that some arc leaves, the worlds that these arcs lead to. -/
  rows : ExtTreeMap WorldRef (ExtTreeSet WorldRef)
  /-- A world that no arc leaves has no row. -/
  occupied : ∀ x : WorldRef, rows[x]? ≠ some ∅
deriving DecidableEq

namespace Relation

/-- The relation without arcs. -/
def empty : Relation := ⟨∅, by simp⟩

instance : Inhabited Relation := ⟨empty⟩

/-! ## (1) The arcs of a relation -/

/-- Where the arcs that leave `x` end. -/
def row (r : Relation) (x : WorldRef) : ExtTreeSet WorldRef := r.rows[x]?.getD ∅

/-- An arc is one of the relation when it ends in the row of the world that it starts from. -/
instance : Membership Arc Relation := ⟨fun r arc => arc.target ∈ r.row arc.source⟩

instance (arc : Arc) (r : Relation) : Decidable (arc ∈ r) :=
  inferInstanceAs (Decidable (arc.target ∈ r.row arc.source))

/-- Whether the relation has an arc from `x` to `y`. -/
def contains (r : Relation) (x y : WorldRef) : Bool := (r.row x).contains y

/-- The arcs in order. -/
def pairs (r : Relation) : List Arc :=
  r.rows.toList.flatMap fun e => e.2.toList.map fun y => ⟨e.1, y⟩

/-- The number of arcs. -/
def arcCount (r : Relation) : Nat := (r.rows.toList.map fun e => e.2.size).foldr (· + ·) 0

/-- Where the arcs that leave `x` end, in order, if any arc does. -/
def successors? (r : Relation) (x : WorldRef) : Option (List WorldRef) :=
  r.rows[x]?.map ExtTreeSet.toList

/-- Whether there is a loop at each of some worlds. -/
def hasLoops (r : Relation) (worlds : List WorldRef) : Bool := worlds.all fun x => r.contains x x

/-- Whether each arc has its converse. -/
def hasConverses (r : Relation) : Bool := r.pairs.all fun arc => r.contains arc.target arc.source

/-- An arc is one of the relation iff it ends in the row of its source. -/
theorem mem_def {r : Relation} {arc : Arc} : arc ∈ r ↔ arc.target ∈ r.row arc.source := Iff.rfl

/-- The relation has an arc iff the arc is one of it. -/
theorem contains_iff {r : Relation} {x y : WorldRef} :
    r.contains x y = true ↔ (⟨x, y⟩ : Arc) ∈ r :=
  ExtTreeSet.mem_iff_contains.symm

/-- The successors of a world are the members of its row, also if there is none. -/
theorem getD_successors? (r : Relation) (x : WorldRef) :
    (r.successors? x).getD [] = (r.row x).toList := by
  rw [successors?, row]
  cases r.rows[x]? with
  | none => simp
  | some row => rfl

/-- The arcs listed are the arcs of the relation. -/
theorem mem_pairs {r : Relation} {arc : Arc} : arc ∈ r.pairs ↔ arc ∈ r := by
  rw [pairs, List.mem_flatMap, mem_def, row]
  constructor
  · rintro ⟨⟨x, row⟩, hRow, h⟩
    obtain ⟨y, hy, rfl⟩ := List.mem_map.1 h
    rw [ExtTreeMap.mem_toList_iff_getElem?_eq_some.1 hRow]
    exact ExtTreeSet.mem_toList.1 hy
  · intro h
    cases hRow : r.rows[arc.source]? with
    | none => simp [hRow] at h
    | some row =>
      rw [hRow] at h
      refine ⟨(arc.source, row), ExtTreeMap.mem_toList_iff_getElem?_eq_some.2 hRow, ?_⟩
      exact List.mem_map.2 ⟨arc.target, ExtTreeSet.mem_toList.2 h, rfl⟩

/-- As many arcs are counted as are listed. -/
theorem arcCount_eq (r : Relation) : r.arcCount = r.pairs.length := by
  simp [arcCount, pairs, List.length_flatMap, List.sum_eq_foldr]

/-- The empty relation has no arc. -/
theorem notMem_empty (arc : Arc) : arc ∉ empty := by
  simp [mem_def, row, empty]

/-- A row if it is not empty. -/
def occupied? (row : ExtTreeSet WorldRef) : Option (ExtTreeSet WorldRef) :=
  if row.isEmpty then none else some row

/-- What is left of an empty row is the empty set. -/
theorem getD_occupied? (row : ExtTreeSet WorldRef) : (occupied? row).getD ∅ = row := by
  rw [occupied?]
  split
  · next h => exact (ExtTreeSet.isEmpty_iff.1 h).symm
  · rfl

/-- A row that is kept is not empty. -/
theorem occupied?_ne_some_empty (row : ExtTreeSet WorldRef) : occupied? row ≠ some ∅ := by
  rw [occupied?]
  split
  · exact nofun
  · next nonempty =>
    intro h
    cases h
    exact nonempty ExtTreeSet.isEmpty_empty

/-- A world has a row iff some arc leaves it. -/
theorem getElem?_rows (r : Relation) (x : WorldRef) : r.rows[x]? = occupied? (r.row x) := by
  rw [row]
  cases h : r.rows[x]? with
  | none => simp [occupied?]
  | some row =>
    rw [Option.getD_some, occupied?, if_neg]
    intro isEmpty
    cases ExtTreeSet.isEmpty_iff.1 isEmpty
    exact r.occupied x h

/-- Relations with the same arcs are equal. -/
theorem ext {r s : Relation} (h : ∀ arc, arc ∈ r ↔ arc ∈ s) : r = s := by
  have same : r.rows = s.rows := by
    refine ExtTreeMap.ext_getElem? fun x => ?_
    rw [getElem?_rows, getElem?_rows]
    exact congrArg occupied? (ExtTreeSet.ext_mem fun y => h ⟨x, y⟩)
  cases r
  cases s
  cases same
  rfl

/-! ## (2) Adding arcs -/

/-- The relation with an arc added. -/
def add (r : Relation) (arc : Arc) : Relation where
  rows := r.rows.insert arc.source ((r.row arc.source).insert arc.target)
  occupied x := by
    rw [ExtTreeMap.getElem?_insert]
    split
    · simp
    · exact r.occupied x

/-- The arcs after `add` are the new one and those before. -/
theorem mem_add {r : Relation} {new arc : Arc} : arc ∈ r.add new ↔ arc = new ∨ arc ∈ r := by
  obtain ⟨x, y⟩ := arc
  obtain ⟨u, v⟩ := new
  simp only [mem_def, row, add, ExtTreeMap.getElem?_insert, Std.LawfulEqCmp.compare_eq_iff_eq,
    Arc.mk.injEq]
  split
  · next h =>
    subst h
    rw [Option.getD_some, ExtTreeSet.mem_insert, Std.LawfulEqCmp.compare_eq_iff_eq]
    simp [eq_comm]
  · next h => simp [Ne.symm h]

/-- The relation with an arc added, and the number of new arcs raised by one if it is new. -/
def addCounted (counted : Nat × Relation) (arc : Arc) : Nat × Relation :=
  if arc ∈ counted.2 then counted else (counted.1 + 1, counted.2.add arc)

/-- The arcs after `addCounted` are the added one and those before. -/
theorem mem_addCounted {counted : Nat × Relation} {new arc : Arc} :
    arc ∈ (addCounted counted new).2 ↔ arc = new ∨ arc ∈ counted.2 := by
  rw [addCounted]
  split
  · next h => exact ⟨.inr, fun h' => h'.elim (fun eq => eq ▸ h) id⟩
  · exact mem_add

/-- Add arcs one after the other, and count those that were not there before. -/
def addAll (r : Relation) (arcs : List Arc) : Nat × Relation := arcs.foldl addCounted (0, r)

/-- After `addAll` an arc is one of those added or was there before. -/
theorem mem_addAll {r : Relation} {added : List Arc} {arc : Arc} :
    arc ∈ (r.addAll added).2 ↔ arc ∈ added ∨ arc ∈ r := by
  have counted (c : Nat × Relation) :
      arc ∈ (added.foldl addCounted c).2 ↔ arc ∈ added ∨ arc ∈ c.2 := by
    induction added generalizing c with
    | nil => simp
    | cons x xs ih => rw [List.foldl_cons, ih, mem_addCounted, List.mem_cons, ← or_assoc,
        or_comm (a := arc ∈ xs)]
  exact counted (0, r)

/-- Add the loop at each of some worlds, and count the new ones. -/
def addLoops (r : Relation) (worlds : List WorldRef) : Nat × Relation :=
  r.addAll (worlds.map fun x => ⟨x, x⟩)

/-- Add the converse of each arc, and count the new ones. -/
def addConverses (r : Relation) : Nat × Relation :=
  r.addAll (r.pairs.map Arc.converse)

/-- The arcs after `addLoops` are the loops at the worlds and those before. -/
theorem mem_addLoops {r : Relation} {worlds : List WorldRef} {arc : Arc} :
    arc ∈ (r.addLoops worlds).2 ↔ (arc.source ∈ worlds ∧ arc.source = arc.target) ∨ arc ∈ r := by
  rw [addLoops, mem_addAll, List.mem_map]
  refine or_congr_left ⟨?_, ?_⟩
  · rintro ⟨x, hx, rfl⟩
    exact ⟨hx, rfl⟩
  · obtain ⟨x, y⟩ := arc
    rintro ⟨hx, loop⟩
    cases loop
    exact ⟨x, hx, rfl⟩

/-- The arcs after `addConverses` are those before and their converses. -/
theorem mem_addConverses {r : Relation} {arc : Arc} :
    arc ∈ r.addConverses.2 ↔ arc.converse ∈ r ∨ arc ∈ r := by
  rw [addConverses, mem_addAll, List.mem_map]
  refine or_congr_left ⟨?_, fun h => ⟨arc.converse, mem_pairs.2 h, rfl⟩⟩
  rintro ⟨x, hx, rfl⟩
  exact mem_pairs.1 hx

/-! ## (3) Dropping arcs -/

/-- The arcs with both ends passing a test. -/
def restrict (r : Relation) (p : WorldRef → Bool) : Relation where
  rows := r.rows.filterMap fun x row => if p x then occupied? (row.filter p) else none
  occupied x h := by
    rw [ExtTreeMap.getElem?_filterMap'] at h
    obtain ⟨row, _, h⟩ := Option.bind_eq_some_iff.1 h
    split at h
    · exact occupied?_ne_some_empty _ h
    · cases h

/-- After `restrict` a world has what is left of its row if it passes the test. -/
theorem row_restrict (r : Relation) (p : WorldRef → Bool) (x : WorldRef) :
    (r.restrict p).row x = if p x then (r.row x).filter p else ∅ := by
  rw [row, restrict, ExtTreeMap.getElem?_filterMap', row]
  cases r.rows[x]? with
  | none =>
    rw [Option.bind_none, Option.getD_none]
    split <;> rfl
  | some row =>
    rw [Option.bind_some, Option.getD_some]
    split
    · exact getD_occupied? _
    · rfl

/-- The arcs after `restrict` are those with both ends passing the test. -/
theorem mem_restrict {r : Relation} {p : WorldRef → Bool} {arc : Arc} :
    arc ∈ r.restrict p ↔ arc ∈ r ∧ p arc.source = true ∧ p arc.target = true := by
  rw [mem_def, row_restrict, mem_def]
  split
  · next h => simp [ExtTreeSet.mem_filter, h]
  · next h => simp [h]

/-- The arcs that neither start nor end at `x`. -/
def erase (r : Relation) (x : WorldRef) : Relation := r.restrict (· != x)

/-! ## (4) Relations within a table of worlds -/

/-- Every arc joins two worlds of the table. -/
def Within (r : Relation) (t : WorldTable) : Prop :=
  ∀ arc ∈ r, t.contains arc.source = true ∧ t.contains arc.target = true

/-- The relation without arcs is within every table. -/
theorem within_empty (t : WorldTable) : empty.Within t := fun arc h => absurd h (notMem_empty arc)

/-- A relation stays within a table when arcs between worlds of the table are added. -/
theorem Within.addAll {r : Relation} {t : WorldTable} (h : r.Within t) {added : List Arc}
    (live : ∀ arc ∈ added, t.contains arc.source = true ∧ t.contains arc.target = true) :
    (r.addAll added).2.Within t := fun arc hArc =>
  (mem_addAll.1 hArc).elim (live arc) (h arc)

/-- Loops at worlds of the table stay within it. -/
theorem Within.addLoops {r : Relation} {t : WorldTable} (h : r.Within t) :
    (r.addLoops t.refs).2.Within t := by
  refine h.addAll fun arc hArc => ?_
  obtain ⟨x, hx, rfl⟩ := List.mem_map.1 hArc
  exact ⟨WorldTable.contains_iff.2 hx, WorldTable.contains_iff.2 hx⟩

/-- The converses of arcs within the table stay within it. -/
theorem Within.addConverses {r : Relation} {t : WorldTable} (h : r.Within t) :
    r.addConverses.2.Within t := by
  refine h.addAll fun arc hArc => ?_
  obtain ⟨x, hx, rfl⟩ := List.mem_map.1 hArc
  exact (h x (mem_pairs.1 hx)).symm

end Relation

end KnowledgePrograms
