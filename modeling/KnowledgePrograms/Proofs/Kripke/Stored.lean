import KnowledgePrograms.Proofs.Kripke.History

/-! # Models as stores

A model has a type that rules out arcs that lead nowhere and rows that are empty. Stored as a table
of worlds and tables of rows, without that type, it is operated on in place, and comes to the same.

* `Model.store`: a model as a store.
* `Model.view_store`, `Model.store_addArc`, `Model.store_announce` and others: looking up in the
  store of a model, and operations on it.
* `History.store_performAll`, `Origin.store_modelled`: a history of models is one of stores. -/

namespace KnowledgePrograms

open Std (ExtTreeMap ExtTreeSet)

namespace Model

variable {m : Model} {a : Agent} {x y r : WorldRef}

/-- The model with its worlds in their table and the rows of its relations as they are. -/
def store (m : Model) : Store WorldTable where
  worlds := m.worlds
  relations := m.relations.map fun _ r => r.table

/-! ## (1) Looking up -/

/-- The store of a model has the worlds of the model. -/
theorem contains_store (m : Model) (r : WorldRef) : m.store.contains r = m.contains r :=
  (m.worlds.contains_eq_isSome r).symm

/-- The table of an agent is that of its relation. -/
theorem table_store (m : Model) (a : Agent) : m.store.table a = (m.relation a).table := by
  rw [Store.table, store, ExtTreeMap.getElem?_map, relation]
  cases m.relations[a]? <;> rfl

/-- The arcs of an agent lead to the same worlds. -/
theorem accessible_store (m : Model) (a : Agent) (x : WorldRef) :
    m.store.accessible a x = m.accessible a x := by
  rw [Store.accessible, store, ExtTreeMap.getElem?_map, accessible]
  cases m.relations[a]? <;> rfl

/-- The same is looked up in a model and in its store. -/
theorem view_store (m : Model) : m.store.view = m.view := by
  have accessible : m.store.accessible = m.accessible := by
    funext a x
    exact m.accessible_store a x
  have reachable : m.store.reachable = m.reachable := by
    funext group r
    have next : m.store.successors group = m.successors group := by
      funext x
      rw [Store.successors, successors, accessible]
    rw [Store.reachable, Model.reachable,
      Search.run_congr _ (m.mem_refs_of_mem_successors group) next]
  rw [Store.view, view, accessible, reachable]
  rfl

/-! ## (2) Operations -/

/-- To replace the relation of an agent is to put its table in place. -/
theorem store_setRelation (m : Model) (a : Agent) (r : Relation) (h : r.Within m.worlds) :
    (m.setRelation a r h).store = m.store.withTable a r.table :=
  congrArg (Store.mk m.worlds) (Agent.map_insert m.relations a r Relation.table)

/-- To replace all relations is to change all tables. -/
theorem store_mapRelations {f : Relation → Relation} {h} {g : RowTable → RowTable}
    (same : ∀ r : Relation, g r.table = (f r).table) :
    (m.mapRelations f h).store = m.store.mapTables g := by
  refine congrArg (Store.mk m.worlds) ?_
  show (m.relations.map fun _ r => f r).map _ = (m.relations.map _).map _
  simp only [ExtTreeMap.map_map, same]

/-- Adding an agent in store. -/
theorem store_addAgent (m : Model) (a : Agent) : (m.addAgent a).store = m.store.addAgent a := by
  rw [addAgent, store_setRelation, Store.addAgent, table_store]

/-- What a refusal is in store. -/
def refusal : Option LookupError → Except LookupError Unit
  | none => .ok ()
  | some e => .error e

/-- Adding an arc in store. It is refused where the model refuses it. -/
theorem store_addArc (m : Model) (a : Agent) (x y : WorldRef) :
    runOn (Store.addArc a x y) m.store
      = ((m.addArc a x y).1.store, refusal (m.addArc a x y).2) := by
  -- The model and the store look for the same worlds, so only one of them cannot refuse the arc.
  rcases m.addArc_eq a x y with ⟨joined, _, added⟩ | ⟨apart, refused⟩ <;>
    rcases m.store.runOn_addArc a x y with ⟨hx, hy, added'⟩ | ⟨missing, refused'⟩
  · rw [added, added', store_setRelation, table_store, Relation.table_add]
    rfl
  · rw [contains_store, contains_store] at missing
    rw [joins, Bool.and_eq_true] at joined
    rcases missing with hx | hy
    · exact absurd joined.1 (by simp [hx])
    · exact absurd joined.2 (by simp [hy])
  · rw [contains_store] at hx hy
    rw [joins, hx, hy] at apart
    cases apart
  · rw [refused, refused', contains_store]
    rfl

/-- Adding arcs in store, up to the first that is refused. -/
theorem store_addArcs (d : Draft) (a : Agent) (arcs : List Arc) :
    runOn (arcs.forM fun arc => Store.addArc a arc.source arc.target) d.model.store
      = ((d.addArcs a arcs).1.model.store, refusal (d.addArcs a arcs).2) := by
  induction arcs generalizing d with
  | nil => rfl
  | cons arc rest ih =>
    have first := d.model.store_addArc a arc.source arc.target
    rw [List.forM_eq_forM, List.forM_cons]
    rcases d.model.addArc_eq a arc.source arc.target with ⟨-, _, added⟩ | ⟨-, refused⟩
    · rw [added] at first
      rw [runOn_bind_of_ok first, Draft.addArcs_cons_of_added added]
      exact ih ⟨_, d.reflexive, d.symmetric⟩
    · rw [refused] at first
      rw [runOn_bind_of_error first, Draft.addArcs_cons_of_refused refused]
      rfl

/-- Making worlds indistinguishable in store. -/
theorem store_relateAll (d : Draft) (a : Agent) (xs : List WorldRef) :
    (runOn (Store.relateAll a xs) d.model.store).1 = (d.relateAll a xs).1.model.store := by
  -- The nested loops are one loop through all pairs, as an arc that is refused ends both.
  have pairs (ys : List WorldRef) : (ys.forM fun x => xs.forM fun y => Store.addArc a x y)
      = ((ys.flatMap fun x => xs.map fun y => (⟨x, y⟩ : Arc)).forM fun arc =>
          (Store.addArc a arc.source arc.target : Run (Store WorldTable) LookupError Unit)) := by
    induction ys with
    | nil => rfl
    | cons x rest ih =>
      simp only [List.forM_eq_forM] at ih ⊢
      rw [List.forM_cons, List.flatMap_cons, List.forM_append, ih, List.forM_map]
  rw [Store.relateAll, pairs, store_addArcs]
  rfl

/-- Removing a world in store. -/
theorem store_removeWorld (m : Model) (r : WorldRef) :
    (m.removeWorld r).store = (m.store.removeWorld r).2 := by
  have worlds : (m.store.removeWorld r).2.worlds = m.worlds.keep (· != r) :=
    m.store.worlds_removeWorld r
  have relations : (m.store.removeWorld r).2.relations
      = m.relations.map fun _ s => (s.restrict (· != r)).table := by
    cases there : m.world? r with
    | some w =>
      have removed : Arena.remove m.store.worlds r = (some w, m.worlds.keep (· != r)) :=
        congrArg (·, _) there
      rw [Store.removeWorld, removed]
      show (m.relations.map fun _ s => s.table).map _ = _
      simp only [ExtTreeMap.map_map, Relation.table_remove]
      rfl
    | none =>
      have removed : Arena.remove m.store.worlds r = (none, m.worlds.keep (· != r)) :=
        congrArg (·, _) there
      rw [Store.removeWorld, removed]
      refine ExtTreeMap.ext_getElem? fun a => ?_
      show (m.relations.map fun _ s => s.table)[a]? = _
      rw [ExtTreeMap.getElem?_map, ExtTreeMap.getElem?_map]
      refine Option.map_congr fun s hs => congrArg Relation.table (Relation.ext fun arc => ?_)
      -- No arc touches the reference, as it is to no world.
      have dead : m.contains r = false := by
        rw [contains, WorldTable.contains_eq_isSome]
        exact congrArg Option.isSome there
      have other : ∀ x, m.contains x = true → (x != r) = true := by
        intro x live
        refine bne_iff_ne.2 ?_
        rintro rfl
        rw [dead] at live
        cases live
      rw [Relation.mem_restrict]
      refine ⟨fun mem => ?_, And.left⟩
      exact ⟨mem, (m.within a s hs arc mem).imp (other _) (other _)⟩
  refine Store.ext worlds.symm (Eq.trans ?_ relations.symm)
  show (m.relations.map fun _ s => s.restrict (· != r)).map _ = _
  simp only [ExtTreeMap.map_map]

/-- Removing worlds in store. -/
theorem store_foldl_removeWorld (m : Model) (gone : List WorldRef) :
    (gone.foldl removeWorld m).store
      = gone.foldl (fun s r => (s.removeWorld r).2) m.store := by
  induction gone generalizing m with
  | nil => rfl
  | cons r rest ih => rw [List.foldl_cons, List.foldl_cons, ih, store_removeWorld]

/-- Adding loops in store. -/
theorem store_addLoops (m : Model) : m.addLoops.store = m.store.addLoops := by
  refine store_mapRelations fun r => ?_
  rw [Relation.change_table]
  rfl

/-- Adding converses in store. -/
theorem store_addConverses (m : Model) : m.addConverses.store = m.store.addConverses := by
  refine store_mapRelations fun r => ?_
  rw [Relation.change_table]
  rfl

/-- Announcing a formula in store. -/
theorem store_announce (m : Model) (f : Formula) :
    runOn (Store.announce f) m.store = ((m.announce f).2.store, .ok (m.announce f).1) := by
  have found : m.store.view.refuting f m.store.keys = .ok (m.refuting f) := by
    rw [view_store]
    exact m.refuting_view_refs f
  rw [Store.runOn_announce, found]
  show ((m.refuting f).foldl _ m.store, _) = _
  rw [← store_foldl_removeWorld, foldl_removeWorld_refuting]
  rfl

/-- Adding worlds to the empty store. -/
theorem addAll_empty (t : WorldTable) (ws : List World) :
    (Store.mk t ∅).addAll ws = ((t.addAll ws).1, ⟨(t.addAll ws).2, ∅⟩) := by
  induction ws generalizing t with
  | nil => rfl
  | cons w rest ih =>
    have later := ih (t.add w)
    show ((t.fresh :: ((Store.mk (t.add w) ∅).addAll rest).1), _) = _
    rw [later]
    rfl

end Model

/-- What agents observe is put into a table for each of them, one after the other. -/
theorem Store.foldl_observe {τ : Type} [Arena τ] (keys : List WorldRef)
    {sights : List (Agent × ExtTreeSet Atom)} (distinct : (sights.map Prod.fst).Nodup)
    {s : Store τ} (blank : ∀ e ∈ sights, s.relations[e.1]? = none) :
    (∀ e ∈ sights, (sights.foldl (observe keys) s).relations[e.1]?
      = some (RowTable.empty.pairUp (World.agreeAt s.world? e.2) keys)) ∧
    ∀ a ∉ sights.map Prod.fst,
      (sights.foldl (observe keys) s).relations[a]? = s.relations[a]? := by
  -- Induction on the agents, over all stores: those still to come have no table yet.
  induction sights generalizing s with
  | nil => simp
  | cons first rest ih =>
    obtain ⟨new, distinct⟩ := List.nodup_cons.1 distinct
    have begun : s.table first.1 = .empty := by
      rw [table, blank first List.mem_cons_self]
      rfl
    have others : ∀ a, a ≠ first.1 → (s.observe keys first).relations[a]? = s.relations[a]? := by
      intro a other
      rw [observe, withTable, Agent.getElem?_insert, if_neg (Ne.symm other)]
    have blank' : ∀ e ∈ rest, (s.observe keys first).relations[e.1]? = none := by
      intro e he
      rw [others e.1 fun same => new (same ▸ List.mem_map_of_mem he)]
      exact blank e (List.mem_cons_of_mem _ he)
    obtain ⟨found, left⟩ := ih distinct blank'
    refine ⟨fun e he => ?_, fun a ha => ?_⟩
    · rcases List.mem_cons.1 he with rfl | he
      · rw [List.foldl_cons, left e.1 new, observe, begun, withTable,
          ExtTreeMap.getElem?_insert_self]
      · exact found e he
    · rw [List.map_cons, List.mem_cons, not_or] at ha
      rw [List.foldl_cons, left a ha.2, others a ha.1]

/-- Making a model from what agents observe in store. -/
theorem Model.store_fromObservability (worlds : List World)
    (observed : ExtTreeMap Agent (ExtTreeSet Atom)) :
    Store.fromObservability worlds observed
      = ((fromObservability worlds observed).1, (fromObservability worlds observed).2.store) := by
  let keys := (fromObservability worlds observed).1
  let m := (fromObservability worlds observed).2
  have entered : (Store.empty : Store WorldTable).addAll worlds = (keys, ⟨m.worlds, ∅⟩) :=
    addAll_empty WorldTable.empty worlds
  have distinct : (observed.toList.map Prod.fst).Nodup := by
    rw [ExtTreeMap.map_fst_toList_eq_keys]
    exact observed.distinct_keys.imp fun apart same =>
      apart (Std.LawfulEqCmp.compare_eq_iff_eq.2 same)
  obtain ⟨found, left⟩ := Store.foldl_observe keys distinct
    (s := ⟨m.worlds, ∅⟩) fun _ _ => ExtTreeMap.getElem?_empty
  rw [Store.fromObservability, entered]
  refine Prod.ext rfl (Store.ext (Store.worlds_foldl_observe _ _ _) ?_)
  refine ExtTreeMap.ext_getElem? fun a => ?_
  show (observed.toList.foldl (Store.observe keys) ⟨m.worlds, ∅⟩).relations[a]?
    = (m.relations.map fun _ r => r.table)[a]?
  rw [ExtTreeMap.getElem?_map, relations_fromObservability, ExtTreeMap.getElem?_map]
  cases sight : observed[a]? with
  | some atoms =>
    rw [found (a, atoms) (ExtTreeMap.mem_toList_iff_getElem?_eq_some.2 sight)]
    exact congrArg some (Relation.table_pairUp _ .empty keys)
  | none =>
    rw [left a fun mem => ?_]
    · rfl
    · obtain ⟨e, he, rfl⟩ := List.mem_map.1 mem
      rw [ExtTreeMap.mem_toList_iff_getElem?_eq_some.1 he] at sight
      cases sight

/-! ## (3) Histories -/

/-- A model with the references that it has handed out, the latest first. -/
structure History where
  /-- The model as it is now. -/
  model : Model
  /-- The references handed out so far. -/
  handed : List WorldRef

namespace History

/-- The history after an operation. -/
def perform (h : History) : Operation → History
  | .addWorld w => ⟨h.model.addWorld w, h.model.fresh :: h.handed⟩
  | .addAgent a => ⟨h.model.addAgent a, h.handed⟩
  | .addArc a x y => ⟨(h.model.addArc a x y).1, h.handed⟩
  | .relateAll a xs => ⟨(Draft.relateAll ⟨h.model, false, false⟩ a xs).1.model, h.handed⟩
  | .addLoops => ⟨h.model.addLoops, h.handed⟩
  | .addConverses => ⟨h.model.addConverses, h.handed⟩
  | .removeWorld r => ⟨h.model.removeWorld r, h.handed⟩
  | .announce f => ⟨(h.model.announce f).2, h.handed⟩

/-- The history after some operations. -/
def performAll (h : History) (operations : List Operation) : History := operations.foldl perform h

/-- The history of the stores of the models. -/
def store (h : History) : Store.History WorldTable := ⟨h.model.store, h.handed⟩

/-- An operation on a model is one on its store. -/
theorem store_perform (h : History) (op : Operation) :
    (h.perform op).store = h.store.perform op := by
  let kept (s : Store WorldTable) : Store.History WorldTable := ⟨s, h.handed⟩
  cases op with
  | addWorld w => rfl
  | addAgent a => exact congrArg kept (h.model.store_addAgent a)
  | addArc a x y => exact congrArg (kept ·.1) (h.model.store_addArc a x y).symm
  | relateAll a xs => exact congrArg kept (Model.store_relateAll ⟨h.model, false, false⟩ a xs).symm
  | addLoops => exact congrArg kept h.model.store_addLoops
  | addConverses => exact congrArg kept h.model.store_addConverses
  | removeWorld r => exact congrArg kept (h.model.store_removeWorld r)
  | announce f => exact congrArg (kept ·.1) (h.model.store_announce f).symm

/-- Operations on a model are operations on its store. -/
theorem store_performAll (h : History) (operations : List Operation) :
    (h.performAll operations).store = h.store.performAll operations := by
  induction operations generalizing h with
  | nil => rfl
  | cons op rest ih =>
    rw [performAll, List.foldl_cons, ← performAll, ih, store_perform]
    rfl

end History

namespace Draft

/-- The builder of the store of a draft. -/
def builder (x : Draft × List WorldRef) : Store.Builder WorldTable :=
  ⟨⟨x.1.model.store, x.2⟩, x.1.reflexive, x.1.symmetric⟩

/-- An entry into a draft is one into its builder. -/
theorem builder_enter (x : Draft × List WorldRef) (e : Entry) :
    builder (enter x e) = (builder x).enter e := by
  let kept (s : Store WorldTable) : Store.Builder WorldTable :=
    ⟨⟨s, x.2⟩, x.1.reflexive, x.1.symmetric⟩
  cases e with
  | world w => rfl
  | agent a => exact congrArg kept (x.1.model.store_addAgent a)
  | arc a s t => exact congrArg (kept ·.1) (x.1.model.store_addArc a s t).symm
  | related a xs =>
    obtain ⟨reflexive, symmetric⟩ := Prod.mk.inj (x.1.vouched_addArcs a (Arc.between xs))
    show (⟨⟨_, x.2⟩, (x.1.addArcs a (Arc.between xs)).1.reflexive,
      (x.1.addArcs a (Arc.between xs)).1.symmetric⟩ : Store.Builder WorldTable) = _
    rw [reflexive, symmetric]
    exact congrArg kept (Model.store_relateAll x.1 a xs).symm
  | reflexive | symmetric => rfl

/-- Entries into a draft are entries into its builder. -/
theorem builder_foldl_enter (x : Draft × List WorldRef) (entries : List Entry) :
    builder (entries.foldl enter x) = entries.foldl Store.Builder.enter (builder x) := by
  induction entries generalizing x with
  | nil => rfl
  | cons e rest ih => rw [List.foldl_cons, List.foldl_cons, ih, builder_enter]

/-- To finish a draft is to build its store. -/
theorem build_builder (x : Draft × List WorldRef) :
    (builder x).build = ⟨x.1.finish.store, x.2⟩ := by
  rw [finish, Store.Builder.build, builder]
  cases x.1.reflexive <;> cases x.1.symmetric <;>
    simp [Store.History.perform, Model.store_addLoops, Model.store_addConverses]

end Draft

namespace Origin

/-- The history of a model when it has come to be. -/
def modelled : Origin → History
  | .empty => ⟨.empty, []⟩
  | .drafted entries =>
      let (d, handed) := entries.foldl Draft.enter (Draft.empty, [])
      ⟨d.finish, handed⟩
  | .observability worlds observed =>
      let (refs, m) := Model.fromObservability worlds observed
      ⟨m, refs.reverse⟩

/-- **Models are stored as they are.** However a model comes to be, so does its store. -/
theorem store_modelled (o : Origin) : o.modelled.store = o.history := by
  have blank : Model.empty.store = Store.empty :=
    Store.ext rfl (ExtTreeMap.ext_getElem? fun a => by simp [Model.store, Model.empty, Store.empty])
  cases o with
  | empty => exact congrArg (Store.History.mk · []) blank
  | drafted entries =>
    have begun : Draft.builder (Draft.empty, []) = Store.Builder.empty :=
      congrArg (fun s => (⟨⟨s, []⟩, false, false⟩ : Store.Builder WorldTable)) blank
    have entered := Draft.builder_foldl_enter (Draft.empty, []) entries
    rw [begun] at entered
    rw [history, ← entered, Draft.build_builder]
    rfl
  | observability worlds observed =>
    rw [history, Model.store_fromObservability]
    rfl

end Origin

end KnowledgePrograms
