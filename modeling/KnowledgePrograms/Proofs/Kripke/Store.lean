import KnowledgePrograms.Proofs.Kripke.Arena
import KnowledgePrograms.Proofs.Kripke.Pointing
import KnowledgePrograms.Proofs.Kripke.Rows
import KnowledgePrograms.Proofs.Run

/-! # Models in store

A model may be stored as worlds in an arena and, apart from them, tables of rows for the agents. By
its type nothing then keeps arcs from leading nowhere, or rows from being empty. Operations work on
the store in place. They look up what they need to, which may be missing, and one that fails leaves
what it has done so far. It is for each operation to keep the arcs between worlds and the rows
occupied, and each does (`Store.Intact`).

* `Store`, `Store.view`: what is stored, and how formulas are evaluated on it.
* `Store.addArc`, `Store.removeWorld`, `Store.announce` and others: the operations.
* `Store.runOn_addArc`: an arc that is refused leaves the store as it was.
* `Store.Intact`: what each operation keeps. -/

namespace KnowledgePrograms

open Std (ExtTreeMap ExtTreeSet)

/-- Worlds in an arena and tables of rows, which nothing ties together. -/
@[ext] structure Store (τ : Type) where
  /-- The worlds. -/
  worlds : τ
  /-- For some agents, the table of their arcs. -/
  relations : ExtTreeMap Agent RowTable

namespace Store

variable {τ : Type} [Arena τ]

/-! ## (1) Looking up -/

/-- The world at a reference, if there is one. -/
def world? (s : Store τ) (r : WorldRef) : Option World := Arena.get? s.worlds r

/-- Whether there is a world at a reference. -/
def contains (s : Store τ) (r : WorldRef) : Bool := (s.world? r).isSome

/-- The references to worlds. -/
def keys (s : Store τ) : List WorldRef := Arena.keys s.worlds

/-- The table of an agent, one without rows if there is none. -/
def table (s : Store τ) (a : Agent) : RowTable := s.relations[a]?.getD .empty

/-- The worlds that arcs of an agent lead to, if there is a row for them. -/
def accessible (s : Store τ) (a : Agent) (x : WorldRef) : List WorldRef :=
  (s.relations[a]?.bind fun t => t.rows[x]?.map ExtTreeSet.toList).getD []

/-- The worlds that arcs of a group lead to, agent by agent. -/
def successors (s : Store τ) (group : ExtTreeSet Agent) (x : WorldRef) : List WorldRef :=
  group.toList.flatMap fun a => s.accessible a x

/-- Where arcs of any agent lead. -/
def targets (s : Store τ) : List WorldRef :=
  s.relations.toList.flatMap fun e => e.2.pairs.map Arc.target

omit [Arena τ] in
/-- The arcs of a group lead where arcs of any agent do. -/
theorem mem_targets_of_mem_successors (s : Store τ) (group : ExtTreeSet Agent) (x : WorldRef) :
    ∀ y ∈ s.successors group x, y ∈ s.targets := by
  intro y hy
  obtain ⟨a, -, there⟩ := List.mem_flatMap.1 hy
  rw [accessible] at there
  cases filed : s.relations[a]? with
  | none => simp [filed] at there
  | some t =>
    rw [filed, Option.bind_some] at there
    cases row : t.rows[x]? with
    | none => simp [row] at there
    | some ys =>
      rw [row, Option.map_some, Option.getD_some] at there
      have arc : (⟨x, y⟩ : Arc) ∈ t.pairs := List.mem_flatMap.2
        ⟨(x, ys), ExtTreeMap.mem_toList_iff_getElem?_eq_some.2 row, List.mem_map.2 ⟨y, there, rfl⟩⟩
      exact List.mem_flatMap.2 ⟨(a, t), ExtTreeMap.mem_toList_iff_getElem?_eq_some.2 filed,
        List.mem_map.2 ⟨_, arc, rfl⟩⟩

/-- The worlds that are reached by one or more arcs of a group, in order. -/
def reachable (s : Store τ) (group : ExtTreeSet Agent) (r : WorldRef) : List WorldRef :=
  ((Search.start r).run (s.successors group) (s.mem_targets_of_mem_successors group)).toList

/-- What is looked up in a store to evaluate formulas. -/
def view (s : Store τ) : View where
  valuation? r := (s.world? r).map World.valuation
  accessible := s.accessible
  reachable := s.reachable

/-! ## (2) Operations -/

/-- The store without worlds and agents. -/
def empty : Store τ := ⟨Arena.empty, ∅⟩

/-- Add a world: the reference that it is given, and the store then. -/
def addWorld (s : Store τ) (w : World) : WorldRef × Store τ :=
  let (r, worlds) := Arena.insert s.worlds w
  (r, ⟨worlds, s.relations⟩)

/-- Add worlds one after the other: the references that they are given, and the store then. -/
def addAll (s : Store τ) : List World → List WorldRef × Store τ
  | [] => ([], s)
  | w :: ws =>
      let (r, s') := s.addWorld w
      let (refs, last) := s'.addAll ws
      (r :: refs, last)

/-- The store with the table of an agent put in place. -/
def withTable (s : Store τ) (a : Agent) (t : RowTable) : Store τ :=
  ⟨s.worlds, s.relations.insert a t⟩

/-- The store with each table changed. -/
def mapTables (s : Store τ) (f : RowTable → RowTable) : Store τ :=
  ⟨s.worlds, s.relations.map fun _ t => f t⟩

/-- Begin a table for an agent, unless there is one. -/
def addAgent (s : Store τ) (a : Agent) : Store τ := s.withTable a (s.table a)

/-- Fail unless there is a world at a reference. -/
def requireWorld (r : WorldRef) : Run (Store τ) LookupError Unit := do
  if (← get).contains r then return () else throw (.unknownWorld r)

/-- Add an arc of an agent, after its ends are looked up, to the table of the agent or to a new
one. -/
def addArc (a : Agent) (x y : WorldRef) : Run (Store τ) LookupError Unit := do
  [x, y].forM requireWorld
  match (← get).relations[a]? with
  | some t => modify fun s => s.withTable a (t.add ⟨x, y⟩).2
  | none => modify fun s => s.withTable a (RowTable.empty.add ⟨x, y⟩).2

/-- Add an arc of an agent between any two of some worlds, up to the first that is refused. -/
def relateAll (a : Agent) (xs : List WorldRef) : Run (Store τ) LookupError Unit :=
  xs.forM fun x => xs.forM fun y => addArc a x y

/-- Remove a world, if there is one, and the arcs that touch it: that world, and the store then. -/
def removeWorld (s : Store τ) (r : WorldRef) : Option World × Store τ :=
  match Arena.remove s.worlds r with
  | (none, worlds) => (none, ⟨worlds, s.relations⟩)
  | (some w, worlds) => (some w, mapTables ⟨worlds, s.relations⟩ fun t => t.remove r)

/-- Add a loop of every agent at every world. -/
def addLoops (s : Store τ) : Store τ := s.mapTables fun t => (t.change (.loops s.keys)).2

/-- Add the converse of every arc. -/
def addConverses (s : Store τ) : Store τ := s.mapTables fun t => (t.change .converses).2

/-- Announce a formula: evaluate it at every world, which may fail, and then remove the worlds at
which it is false one by one. -/
def announce (f : Formula) : Run (Store τ) EvaluationError (List WorldRef) := do
  let s ← get
  let refuted ← (s.view.refuting f s.keys : Except EvaluationError (List WorldRef))
  modify fun s => refuted.foldl (fun s r => (s.removeWorld r).2) s
  return refuted

end Store

namespace RowTable

/-- Put in arcs both ways between a world and those of a list that agree with it. -/
def joinTo (agrees : WorldRef → Bool) (x : WorldRef) (t : RowTable) (ys : List WorldRef) :
    RowTable :=
  ys.foldl (fun t y => if agrees y then ((t.add ⟨x, y⟩).2.add ⟨y, x⟩).2 else t) t

/-- Put in arcs both ways between each world of a list and those from it on that agree with it. -/
def pairUp (agree : WorldRef → WorldRef → Bool) (t : RowTable) : List WorldRef → RowTable
  | [] => t
  | x :: rest => pairUp agree (t.joinTo (agree x) x (x :: rest)) rest

end RowTable

namespace Store

variable {τ : Type} [Arena τ] {version : τ → Nat → Nat} {s : Store τ} {a : Agent} {x y r : WorldRef}

/-- Put in arcs of an agent that observes some atoms, between any two of some worlds that agree. -/
def observe (keys : List WorldRef) (s : Store τ) (sight : Agent × ExtTreeSet Atom) : Store τ :=
  s.withTable sight.1 ((s.table sight.1).pairUp (World.agreeAt s.world? sight.2) keys)

/-- The store of a list of worlds and of what each agent observes, with the references to the worlds
in the order of the list. -/
def fromObservability (worlds : List World) (observed : ExtTreeMap Agent (ExtTreeSet Atom)) :
    List WorldRef × Store τ :=
  let (keys, s) := empty.addAll worlds
  (keys, observed.toList.foldl (observe keys) s)

/-! ## (3) What operations come to -/

/-- A world is required where there is one or not. -/
theorem runOn_requireWorld (s : Store τ) (r : WorldRef) :
    runOn (requireWorld r) s
      = (s, if s.contains r = true then .ok () else .error (.unknownWorld r)) := by
  rw [requireWorld, runOn_get_bind]
  cases s.contains r <;> rfl

/-- An arc between worlds is put into the table of its agent. One that does not join worlds is
refused, and leaves the store as it was. -/
theorem runOn_addArc (s : Store τ) (a : Agent) (x y : WorldRef) :
    (s.contains x = true ∧ s.contains y = true ∧
      runOn (addArc a x y) s = (s.withTable a ((s.table a).add ⟨x, y⟩).2, .ok ())) ∨
    ((s.contains x = false ∨ s.contains y = false) ∧
      runOn (addArc a x y) s
        = (s, .error (.unknownWorld (if s.contains x = true then y else x)))) := by
  have source := runOn_requireWorld s x
  have target := runOn_requireWorld s y
  -- The loop through both ends is one look-up after the other.
  have ends : runOn (addArc a x y) s = runOn (do
      requireWorld x
      requireWorld y
      match (← get).relations[a]? with
      | some t => modify fun s => s.withTable a (t.add ⟨x, y⟩).2
      | none => modify fun s => s.withTable a (RowTable.empty.add ⟨x, y⟩).2) s := by
    simp only [addArc, List.forM_eq_forM, List.forM_cons, List.forM_nil, bind_assoc, pure_bind]
  rw [ends]
  by_cases hx : s.contains x = true
  · rw [if_pos hx] at source
    rw [runOn_bind_of_ok source]
    by_cases hy : s.contains y = true
    · rw [if_pos hy] at target
      refine .inl ⟨hx, hy, ?_⟩
      rw [runOn_bind_of_ok target, runOn_get_bind, table]
      cases s.relations[a]? <;> rfl
    · rw [if_neg hy] at target
      refine .inr ⟨.inr (Bool.eq_false_iff.2 hy), ?_⟩
      rw [runOn_bind_of_error target, if_pos hx]
  · rw [if_neg hx] at source
    refine .inr ⟨.inl (Bool.eq_false_iff.2 hx), ?_⟩
    rw [runOn_bind_of_error source, if_neg hx]

/-- An announcement that cannot be evaluated leaves the store as it was. Else the worlds that refute
the formula are removed one by one. -/
theorem runOn_announce (s : Store τ) (f : Formula) :
    runOn (announce f) s = match s.view.refuting f s.keys with
      | .ok refuted => (refuted.foldl (fun s r => (s.removeWorld r).2) s, .ok refuted)
      | .error e => (s, .error e) := by
  rw [announce, runOn_get_bind]
  cases s.view.refuting f s.keys <;> rfl

/-- Arcs leave the worlds. -/
theorem worlds_runOn_addArc (s : Store τ) (a : Agent) (x y : WorldRef) :
    (runOn (addArc a x y) s).1.worlds = s.worlds := by
  rcases s.runOn_addArc a x y with ⟨-, -, added⟩ | ⟨-, refused⟩
  · rw [added]
    rfl
  · rw [refused]

/-- Arcs between any two of some worlds leave the worlds. -/
theorem worlds_runOn_relateAll (s : Store τ) (a : Agent) (xs : List WorldRef) :
    (runOn (relateAll a xs) s).1.worlds = s.worlds := by
  let kept : Store τ → Prop := fun t => t.worlds = s.worlds
  refine runOn_forM_keeps kept (fun x t ht => ?_) xs rfl
  refine runOn_forM_keeps kept (fun y t ht => ?_) xs ht
  exact (t.worlds_runOn_addArc a x y).trans ht

/-- Removing a world takes it out of the arena. -/
theorem worlds_removeWorld (s : Store τ) (r : WorldRef) :
    (s.removeWorld r).2.worlds = (Arena.remove s.worlds r).2 := by
  rw [removeWorld]
  rcases Arena.remove s.worlds r with ⟨_ | w, worlds⟩ <;> rfl

/-- After a world is removed others are where they were. -/
theorem world?_removeWorld (laws : Arena.Lawful version) (s : Store τ) (r x : WorldRef) :
    (s.removeWorld r).2.world? x = if x = r then none else s.world? x := by
  rw [world?, worlds_removeWorld, laws.get?_remove]
  rfl

/-- Removing worlds takes them out of the arena. -/
theorem worlds_foldl_removeWorld (s : Store τ) (gone : List WorldRef) :
    (gone.foldl (fun s r => (s.removeWorld r).2) s).worlds = Arena.removeAll s.worlds gone := by
  induction gone generalizing s with
  | nil => rfl
  | cons r rest ih =>
    rw [List.foldl_cons, ih, worlds_removeWorld]
    rfl

/-- An announcement tells the worlds that it removes by slot. -/
theorem ordered_of_runOn_announce (laws : Arena.Lawful version) {s t : Store τ} {f : Formula}
    {refuted : List WorldRef} (done : runOn (announce f) s = (t, .ok refuted)) :
    refuted.Pairwise fun x y => x.slot < y.slot := by
  rw [runOn_announce] at done
  cases found : s.view.refuting f s.keys with
  | error e =>
    rw [found] at done
    cases done
  | ok rs =>
    rw [found] at done
    cases done
    exact (laws.keys_ordered s.worlds).sublist (View.sublist_refuting found)

/-! ## (4) What operations keep -/

/-- Every arc of a relation joins worlds of the store. -/
def Joins (s : Store τ) (r : Relation) : Prop :=
  ∀ arc ∈ r, s.contains arc.source = true ∧ s.contains arc.target = true

/-- Every table of rows is that of a relation, with no row empty, and its arcs join worlds. -/
def Intact (s : Store τ) : Prop :=
  ∀ (a : Agent) (t : RowTable), s.relations[a]? = some t →
    ∃ r : Relation, t = r.table ∧ s.Joins r

/-- The empty store has no table. -/
theorem intact_empty : (empty : Store τ).Intact := by
  intro a t filed
  simp [empty] at filed

namespace Intact

/-- The table of any agent, even of one without, is that of a relation. -/
theorem exists_table (h : s.Intact) (a : Agent) :
    ∃ r : Relation, s.table a = r.table ∧ s.Joins r := by
  rw [table]
  cases filed : s.relations[a]? with
  | none => exact ⟨.empty, rfl, fun arc mem => absurd mem (Relation.notMem_empty arc)⟩
  | some t => exact h a t filed

/-- A store stays intact when worlds are there still and tables are as they were. -/
theorem of_relations_eq {s' : Store τ} (h : s.Intact) (same : s'.relations = s.relations)
    (live : ∀ x, s.contains x = true → s'.contains x = true) : s'.Intact := by
  intro a t filed
  rw [same] at filed
  obtain ⟨r, rfl, joins⟩ := h a t filed
  exact ⟨r, rfl, fun arc mem => (joins arc mem).imp (live _) (live _)⟩

/-- A store stays intact when the table of an agent becomes that of a relation. -/
theorem withTable (h : s.Intact) {r : Relation} (joins : s.Joins r) :
    (s.withTable a r.table).Intact := by
  intro b t filed
  rw [Store.withTable, ExtTreeMap.getElem?_insert] at filed
  split at filed
  · cases filed
    exact ⟨r, rfl, joins⟩
  · exact h b t filed

/-- A store stays intact when all tables are changed as relations are. -/
theorem mapTables (h : s.Intact) {f : RowTable → RowTable} {g : Relation → Relation}
    (same : ∀ r : Relation, f r.table = (g r).table) (joins : ∀ r, s.Joins r → s.Joins (g r)) :
    (s.mapTables f).Intact := by
  intro a t filed
  rw [Store.mapTables, ExtTreeMap.getElem?_map] at filed
  obtain ⟨u, before, rfl⟩ := Option.map_eq_some_iff.1 filed
  obtain ⟨r, rfl, joined⟩ := h a u before
  exact ⟨g r, same r, joins r joined⟩

/-- Adding a world leaves the arcs. -/
theorem addWorld (h : s.Intact) (laws : Arena.Lawful version) (w : World) :
    (s.addWorld w).2.Intact := by
  refine h.of_relations_eq rfl fun x live => ?_
  show (Arena.get? (Arena.insert s.worlds w).2 x).isSome = true
  rw [laws.get?_insert]
  split
  · rfl
  · exact live

/-- Adding worlds leaves the arcs. -/
theorem addAll (h : s.Intact) (laws : Arena.Lawful version) (ws : List World) :
    (s.addAll ws).2.Intact := by
  induction ws generalizing s with
  | nil => exact h
  | cons w rest ih => exact ih (h.addWorld laws w)

/-- An agent that is added has no arcs, unless it had some. -/
theorem addAgent (h : s.Intact) (a : Agent) : (s.addAgent a).Intact := by
  obtain ⟨r, same, joins⟩ := h.exists_table a
  rw [Store.addAgent, same]
  exact h.withTable joins

/-- An arc is added between worlds only. -/
theorem runOn_addArc (h : s.Intact) (a : Agent) (x y : WorldRef) :
    (runOn (addArc a x y) s).1.Intact := by
  rcases s.runOn_addArc a x y with ⟨hx, hy, added⟩ | ⟨-, refused⟩
  · obtain ⟨r, same, joins⟩ := h.exists_table a
    rw [added, same, Relation.table_add]
    refine h.withTable fun arc mem => ?_
    rcases Relation.mem_add.1 mem with rfl | old
    · exact ⟨hx, hy⟩
    · exact joins arc old
  · rw [refused]
    exact h

/-- Arcs are added between worlds only. -/
theorem runOn_relateAll (h : s.Intact) (a : Agent) (xs : List WorldRef) :
    (runOn (relateAll a xs) s).1.Intact :=
  runOn_forM_keeps Intact
    (fun x _ ht => runOn_forM_keeps Intact (fun y _ ht => ht.runOn_addArc a x y) xs ht) xs h

/-- With a world the arcs that touch it are removed. -/
theorem removeWorld (h : s.Intact) (laws : Arena.Lawful version) (x : WorldRef) :
    (s.removeWorld x).2.Intact := by
  have stays : ∀ y, y ≠ x → s.contains y = true → (s.removeWorld x).2.contains y = true := by
    intro y other live
    rw [contains, world?_removeWorld laws, if_neg other]
    exact live
  have found := laws.fst_remove s.worlds x
  rcases removed : Arena.remove s.worlds x with ⟨_ | w, worlds⟩
  · -- Where there is no world no arc leads.
    rw [removed] at found
    have same : (s.removeWorld x).2.relations = s.relations := by rw [Store.removeWorld, removed]
    refine h.of_relations_eq same fun y live => stays y ?_ live
    rintro rfl
    rw [contains, world?, ← found] at live
    cases live
  · have erased : (s.removeWorld x).2.relations = (s.mapTables fun t => t.remove x).relations := by
      rw [Store.removeWorld, removed]
      rfl
    intro a t filed
    rw [erased, Store.mapTables, ExtTreeMap.getElem?_map] at filed
    obtain ⟨u, before, rfl⟩ := Option.map_eq_some_iff.1 filed
    obtain ⟨r, rfl, joins⟩ := h a u before
    refine ⟨r.erase x, r.table_remove x, fun arc mem => ?_⟩
    obtain ⟨old, source, target⟩ := Relation.mem_erase.1 mem
    exact (joins arc old).imp (stays _ source) (stays _ target)

/-- With worlds the arcs that touch them are removed. -/
theorem foldl_removeWorld (h : s.Intact) (laws : Arena.Lawful version) (gone : List WorldRef) :
    (gone.foldl (fun s r => (s.removeWorld r).2) s).Intact := by
  induction gone generalizing s with
  | nil => exact h
  | cons x rest ih => exact ih (h.removeWorld laws x)

/-- With the worlds that an announcement removes the arcs that touch them are removed. -/
theorem runOn_announce (h : s.Intact) (laws : Arena.Lawful version) (f : Formula) :
    (runOn (announce f) s).1.Intact := by
  rw [Store.runOn_announce]
  cases s.view.refuting f s.keys with
  | error e => exact h
  | ok refuted => exact h.foldl_removeWorld laws refuted

/-- Loops are added at worlds only. -/
theorem addLoops (h : s.Intact) (laws : Arena.Lawful version) : s.addLoops.Intact := by
  refine h.mapTables (g := fun r => (r.addLoops s.keys).2) (fun r => ?_) fun r joins arc mem => ?_
  · rw [Relation.change_table]
    rfl
  · rcases Relation.mem_addLoops.1 mem with ⟨listed, loop⟩ | old
    · have live := (laws.mem_keys s.worlds _).1 listed
      exact ⟨live, loop ▸ live⟩
    · exact joins arc old

/-- The converse of an arc joins what the arc does. -/
theorem addConverses (h : s.Intact) : s.addConverses.Intact := by
  refine h.mapTables (g := fun r => r.addConverses.2) (fun r => ?_) fun r joins arc mem => ?_
  · rw [Relation.change_table]
    rfl
  · rcases Relation.mem_addConverses.1 mem with turned | old
    · exact (joins _ turned).symm
    · exact joins arc old

end Intact

end Store

namespace Relation

/-- Arcs to those that agree are put into the rows of a relation. -/
theorem table_joinTo (agrees : WorldRef → Bool) (x : WorldRef) (r : Relation) (ys : List WorldRef) :
    r.table.joinTo agrees x ys = (r.joinTo agrees x ys).table := by
  induction ys generalizing r with
  | nil => rfl
  | cons y rest ih =>
    rw [RowTable.joinTo, joinTo, List.foldl_cons, List.foldl_cons, ← joinTo, ← RowTable.joinTo]
    split
    · rw [table_add, table_add, ih]
    · exact ih r

/-- Worlds are paired up in the rows of a relation. -/
theorem table_pairUp (agree : WorldRef → WorldRef → Bool) (r : Relation) (xs : List WorldRef) :
    r.table.pairUp agree xs = (r.pairUp agree xs).table := by
  induction xs generalizing r with
  | nil => rfl
  | cons x rest ih => rw [RowTable.pairUp, pairUp, table_joinTo, ih]

end Relation

namespace Store.Intact

variable {τ : Type} [Arena τ] {version : τ → Nat → Nat} {s : Store τ}

/-- Only worlds agree, so what an agent observes joins worlds only. -/
theorem observe (h : s.Intact) (keys : List WorldRef) (sight : Agent × ExtTreeSet Atom) :
    (s.observe keys sight).Intact := by
  obtain ⟨r, same, joins⟩ := h.exists_table sight.1
  rw [Store.observe, same, Relation.table_pairUp]
  refine h.withTable fun arc mem => ?_
  rcases (Relation.mem_pairUp (World.agreeAt_comm s.world? sight.2)).1 mem with ⟨-, -, agree⟩ | old
  · obtain ⟨w, v, hw, hv, -⟩ := World.agreeAt_iff.1 agree
    exact ⟨by rw [contains, hw]; rfl, by rw [contains, hv]; rfl⟩
  · exact joins arc old

/-- A store that is made from what agents observe is intact. -/
theorem fromObservability (laws : Arena.Lawful version) (worlds : List World)
    (observed : ExtTreeMap Agent (ExtTreeSet Atom)) :
    (Store.fromObservability worlds observed : List WorldRef × Store τ).2.Intact := by
  -- Induction on the agents, over all stores that are intact so far.
  have kept (keys : List WorldRef) (sights : List (Agent × ExtTreeSet Atom)) {s : Store τ}
      (h : s.Intact) : (sights.foldl (Store.observe keys) s).Intact := by
    induction sights generalizing s with
    | nil => exact h
    | cons sight rest ih => exact ih (h.observe keys sight)
  exact kept _ _ (intact_empty.addAll laws worlds)

end Store.Intact

end KnowledgePrograms
