import Mathlib.Data.List.Dedup
import Mathlib.Data.List.TakeWhile
import KnowledgePrograms.Proofs.Kripke.Closure
import KnowledgePrograms.Proofs.Kripke.Pairing

/-! # Indistinguishability from observations

In a model made from worlds and from what agents observe, two worlds are indistinguishable to an
agent just when they agree on what it observes. To agree is an equivalence, so the worlds fall into
classes, and the same model comes of a draft in which the worlds are entered, then the agents, and
then for each agent the classes, each as worlds that are indistinguishable to it.

* `WorldTable.map_get?_addAll`: worlds that are added are at the references told, in their order.
* `Model.EnteredByClasses`, `Model.classEntries`: the entries of agents and classes.
* `Draft.mem_relation_enterAll`: the arcs after worlds are made indistinguishable.
* `Model.fromObservability_relates_agreeing`: which worlds are related, and the draft that leads to
  the same model. -/

namespace KnowledgePrograms

open Std (ExtTreeMap ExtTreeSet)

/-! ## (1) The worlds and their references -/

namespace WorldTable

/-- A world of a table stays at its reference when worlds are added. -/
theorem get?_addAll_of_contains {t : WorldTable} {r : WorldRef} (live : t.contains r = true)
    (ws : List World) : (t.addAll ws).2.get? r = t.get? r := by
  induction ws generalizing t with
  | nil => rfl
  | cons w rest ih =>
    have other : t.fresh ≠ r := by
      rintro rfl
      exact t.fresh_notMem (ExtTreeMap.mem_iff_contains.2 live)
    have stays : (t.add w).get? r = t.get? r := by rw [get?_add, if_neg other]
    rw [← stays]
    refine ih ?_
    rwa [contains_eq_isSome, stays, ← contains_eq_isSome]

/-- Worlds that are added are at the references told, in their order. -/
theorem map_get?_addAll (t : WorldTable) (ws : List World) :
    (t.addAll ws).1.map (t.addAll ws).2.get? = ws.map some := by
  induction ws generalizing t with
  | nil => rfl
  | cons w rest ih =>
    have here : (t.add w).get? t.fresh = some w := by rw [get?_add, if_pos rfl]
    have live : (t.add w).contains t.fresh = true := by rw [contains_eq_isSome, here]; rfl
    have first : ((t.add w).addAll rest).2.get? t.fresh = some w := by
      rw [get?_addAll_of_contains live, here]
    exact congr (congrArg List.cons first) (ih (t.add w))

/-- The references told of worlds that are added are different, and none was to a world before. -/
theorem nodup_addAll (t : WorldTable) (ws : List World) :
    (t.addAll ws).1.Nodup ∧ ∀ r ∈ (t.addAll ws).1, t.contains r = false := by
  induction ws generalizing t with
  | nil => exact ⟨List.nodup_nil, fun r hr => absurd hr List.not_mem_nil⟩
  | cons w rest ih =>
    obtain ⟨distinct, new⟩ := ih (t.add w)
    have later : ∀ r ∈ ((t.add w).addAll rest).1, r ≠ t.fresh ∧ t.contains r = false := by
      intro r hr
      have missing := new r hr
      rwa [← Bool.not_eq_true, contains_add, not_or, Bool.not_eq_true] at missing
    have first : t.contains t.fresh = false :=
      Bool.not_eq_true _ ▸ fun live => t.fresh_notMem (ExtTreeMap.mem_iff_contains.2 live)
    refine ⟨List.nodup_cons.2 ⟨fun old => (later _ old).1 rfl, distinct⟩, fun r hr => ?_⟩
    rcases List.mem_cons.1 hr with rfl | hr
    · exact first
    · exact (later r hr).2

end WorldTable

/-- The arcs between some worlds start and end at any of them. -/
theorem Arc.mem_between {xs : List WorldRef} {arc : Arc} :
    arc ∈ Arc.between xs ↔ arc.source ∈ xs ∧ arc.target ∈ xs := by
  simp only [between, List.mem_flatMap, List.mem_map]
  constructor
  · rintro ⟨x, hx, y, hy, rfl⟩
    exact ⟨hx, hy⟩
  · rintro ⟨source, target⟩
    exact ⟨_, source, _, target, rfl⟩

namespace Model

variable {m n : Model} {a b : Agent} {arc : Arc} {x y : WorldRef}
  {observed : ExtTreeMap Agent (ExtTreeSet Atom)} {atoms : ExtTreeSet Atom}

/-- In a model made from what agents observe the worlds are at the references told. -/
theorem world?_of_mem_zip {worlds : List World} {w : World}
    (h : (x, w) ∈ (fromObservability worlds observed).1.zip worlds) :
    (fromObservability worlds observed).2.world? x = some w := by
  have paired := List.mem_map_of_mem (f := Prod.map (fromObservability worlds observed).2.world?
    some) h
  have told : (fromObservability worlds observed).1.map
      (fromObservability worlds observed).2.world? = worlds.map some :=
    WorldTable.empty.map_get?_addAll worlds
  rw [← List.zip_map, told, List.zip, List.zipWith_self] at paired
  obtain ⟨_, -, same⟩ := List.mem_map.1 paired
  exact (Prod.mk.inj same).1.symm.trans (Prod.mk.inj same).2

/-- The agents of a model made from what agents observe are those that observe. -/
theorem agents_fromObservability (worlds : List World)
    (observed : ExtTreeMap Agent (ExtTreeSet Atom)) :
    (fromObservability worlds observed).2.agents = observed.keys := ExtTreeMap.keys_map

/-- An agent of such a model observes something. -/
theorem mem_agents_fromObservability {worlds : List World} :
    a ∈ (fromObservability worlds observed).2.agents ↔ ∃ atoms, observed[a]? = some atoms := by
  rw [agents_fromObservability, ExtTreeMap.mem_keys, ExtTreeMap.mem_iff_isSome_getElem?,
    Option.isSome_iff_exists]

/-- Giving an agent a relation adds no other agent. -/
theorem mem_agents_setRelation {r : Relation} (h : r.Within m.worlds) :
    a ∈ (m.setRelation b r h).agents ↔ b = a ∨ a ∈ m.agents := by
  rw [agents, setRelation, ExtTreeMap.mem_keys, ExtTreeMap.mem_insert,
    Std.LawfulEqCmp.compare_eq_iff_eq, agents, ExtTreeMap.mem_keys]

/-- The agents after one is added are that one and those before. -/
theorem mem_agents_addAgent : a ∈ (m.addAgent b).agents ↔ b = a ∨ a ∈ m.agents :=
  mem_agents_setRelation (m.within_relation b)

/-! ## (2) Classes of worlds that agree -/

/-- The entries name the agents that observe something, and they make worlds indistinguishable to
each agent, all those that agree with some world, so that every world is among some of them. -/
structure EnteredByClasses (m : Model) (observed : ExtTreeMap Agent (ExtTreeSet Atom))
    (entries : List Entry) : Prop where
  /-- An entry names an agent or gives a class. -/
  entry_cases : ∀ e ∈ entries, ∃ a atoms, observed[a]? = some atoms ∧
    (e = .agent a ∨ ∃ x xs, e = .related a xs ∧ ∀ y, y ∈ xs ↔ m.agreeOn atoms x y = true)
  /-- Every agent is named. -/
  named : ∀ a ∈ observed, .agent a ∈ entries
  /-- Every world is in a class. -/
  classed : ∀ (a : Agent) (atoms : ExtTreeSet Atom), observed[a]? = some atoms →
    ∀ x, m.contains x = true → ∃ xs, .related a xs ∈ entries ∧ x ∈ xs

/-- The classes of worlds that agree on some atoms, each once. -/
def classes (m : Model) (atoms : ExtTreeSet Atom) : List (List WorldRef) :=
  (m.refs.map fun x => m.refs.filter (m.agreeOn atoms x)).dedup

/-- The agents, and for each agent one entry for each class of worlds. -/
def classEntries (m : Model) (observed : ExtTreeMap Agent (ExtTreeSet Atom)) : List Entry :=
  observed.keys.map .agent ++ observed.toList.flatMap fun e => (m.classes e.2).map (.related e.1)

/-- What agrees with a world is a world. -/
theorem contains_of_agreeOn (h : m.agreeOn atoms x y = true) : m.contains y = true := by
  obtain ⟨w, v, hw, hv, same⟩ := agreeOn_iff.1 h
  exact contains_iff_exists.2 ⟨v, hv⟩

/-- A world agrees with itself. -/
theorem agreeOn_self (live : m.contains x = true) : m.agreeOn atoms x x = true := by
  obtain ⟨w, hw⟩ := contains_iff_exists.1 live
  exact agreeOn_iff.2 ⟨w, w, hw, hw, rfl⟩

/-- Worlds that agree with the same world agree. -/
theorem agreeOn_of_agreeOn {z : WorldRef} (hx : m.agreeOn atoms z x = true)
    (hy : m.agreeOn atoms z y = true) : m.agreeOn atoms x y = true := by
  obtain ⟨w, v, hw, hv, same⟩ := agreeOn_iff.1 hx
  obtain ⟨w', v', hw', hv', same'⟩ := agreeOn_iff.1 hy
  cases hw.symm.trans hw'
  exact agreeOn_iff.2 ⟨v, v', hv, hv', same.symm.trans same'⟩

/-- The worlds can be entered by classes, each class once. -/
theorem enteredByClasses_classEntries (m : Model) (observed : ExtTreeMap Agent (ExtTreeSet Atom)) :
    m.EnteredByClasses observed (m.classEntries observed) where
  entry_cases e he := by
    rcases List.mem_append.1 he with he | he
    · obtain ⟨a, ha, rfl⟩ := List.mem_map.1 he
      rw [ExtTreeMap.mem_keys, ExtTreeMap.mem_iff_isSome_getElem?, Option.isSome_iff_exists] at ha
      obtain ⟨atoms, sight⟩ := ha
      exact ⟨a, atoms, sight, .inl rfl⟩
    · obtain ⟨⟨a, atoms⟩, sight, he⟩ := List.mem_flatMap.1 he
      obtain ⟨xs, hxs, rfl⟩ := List.mem_map.1 he
      obtain ⟨x, -, rfl⟩ := List.mem_map.1 (List.mem_dedup.1 hxs)
      refine ⟨a, atoms, ExtTreeMap.mem_toList_iff_getElem?_eq_some.1 sight, .inr ⟨x, _, rfl, ?_⟩⟩
      intro y
      rw [List.mem_filter, ← contains_iff]
      exact and_iff_right_of_imp contains_of_agreeOn
  named a ha := List.mem_append_left _ (List.mem_map_of_mem (ExtTreeMap.mem_keys.2 ha))
  classed a atoms sight x live := by
    have here := contains_iff.1 live
    refine ⟨m.refs.filter (m.agreeOn atoms x), List.mem_append_right _ ?_, ?_⟩
    · refine List.mem_flatMap.2 ⟨(a, atoms), ExtTreeMap.mem_toList_iff_getElem?_eq_some.2 sight, ?_⟩
      exact List.mem_map_of_mem (List.mem_dedup.2 (List.mem_map.2 ⟨x, here, rfl⟩))
    · exact List.mem_filter.2 ⟨here, agreeOn_self live⟩

/-- An agent cannot tell one world from another iff it observes something and they agree on it. -/
theorem mem_relation_fromObservability_iff {worlds : List World} :
    arc ∈ (fromObservability worlds observed).2.relation a ↔ ∃ atoms, observed[a]? = some atoms ∧
      (fromObservability worlds observed).2.agreeOn atoms arc.source arc.target = true := by
  cases sight : observed[a]? with
  | some atoms =>
    rw [mem_relation_iff_agreeOn sight]
    simp only [Option.some.injEq, exists_eq_left']
  | none =>
    have stranger : a ∉ (fromObservability worlds observed).2.agents := by
      rw [mem_agents_fromObservability, sight]
      simp
    simp [notMem_relation_of_notMem_agents stranger]

/-- The arcs inside some classes are those between worlds that agree. -/
theorem EnteredByClasses.exists_related_iff {entries : List Entry}
    (h : m.EnteredByClasses observed entries) :
    (∃ xs, .related a xs ∈ entries ∧ arc ∈ Arc.between xs) ↔
      ∃ atoms, observed[a]? = some atoms ∧ m.agreeOn atoms arc.source arc.target = true := by
  -- An entry gives a class of what its agent observes.
  have isClass : ∀ xs, .related a xs ∈ entries → ∃ atoms x, observed[a]? = some atoms ∧
      ∀ y, y ∈ xs ↔ m.agreeOn atoms x y = true := by
    intro xs entered
    obtain ⟨b, atoms, sight, same | ⟨x, ys, same, members⟩⟩ := h.entry_cases _ entered
    · cases same
    · cases same
      exact ⟨atoms, x, sight, members⟩
  constructor
  · rintro ⟨xs, entered, inside⟩
    obtain ⟨source, target⟩ := Arc.mem_between.1 inside
    obtain ⟨atoms, x, sight, members⟩ := isClass xs entered
    exact ⟨atoms, sight, agreeOn_of_agreeOn ((members _).1 source) ((members _).1 target)⟩
  · rintro ⟨atoms, sight, agreed⟩
    have live : m.contains arc.source = true := contains_of_agreeOn (m.agreeOn_comm _ _ _ ▸ agreed)
    obtain ⟨xs, entered, source⟩ := h.classed a atoms sight _ live
    obtain ⟨atoms', x, sight', members⟩ := isClass xs entered
    cases sight.symm.trans sight'
    refine ⟨xs, entered, Arc.mem_between.2 ⟨source, (members _).2 ?_⟩⟩
    have turned : m.agreeOn atoms arc.source x = true :=
      (m.agreeOn_comm _ _ _).trans ((members _).1 source)
    exact agreeOn_of_agreeOn turned agreed

end Model

/-! ## (3) Entering agents and classes -/

/-- The agent that an entry is about. -/
def Entry.agent? : Entry → Option Agent
  | .world _ => none
  | .agent a => some a
  | .arc a _ _ => some a
  | .related a _ => some a
  | .reflexive => none
  | .symmetric => none

/-- The entry names an agent or is about worlds of the model. -/
def Entry.IsAbout (m : Model) : Entry → Prop
  | .agent _ => True
  | .related _ xs => ∀ x ∈ xs, m.contains x = true
  | _ => False

namespace Draft

variable {d : Draft} {x : Draft × List WorldRef} {a b : Agent} {arc : Arc} {e : Entry}
  {entries : List Entry}

/-- Entering worlds adds them one after the other and relates nothing. -/
theorem model_enter_worlds (x : Draft × List WorldRef) (ws : List World) :
    ((ws.map Entry.world).foldl enter x).1.model.worlds = (x.1.model.worlds.addAll ws).2 ∧
      ((ws.map Entry.world).foldl enter x).1.model.relations = x.1.model.relations := by
  induction ws generalizing x with
  | nil => exact ⟨rfl, rfl⟩
  | cons w rest ih => exact ih (enter x (.world w))

/-- Adding arcs of an agent adds no other agent, and no agent is lost. -/
theorem mem_agents_addArcs (d : Draft) (arcs : List Arc) :
    (a ∈ (d.addArcs b arcs).1.model.agents → b = a ∨ a ∈ d.model.agents) ∧
      (a ∈ d.model.agents → a ∈ (d.addArcs b arcs).1.model.agents) := by
  induction arcs generalizing d with
  | nil => exact ⟨.inr, id⟩
  | cons arc rest ih =>
    rcases d.model.addArc_eq b arc.source arc.target with ⟨-, inside, added⟩ | ⟨-, refused⟩
    · rw [addArcs_cons_of_added added]
      obtain ⟨only, kept⟩ := ih ⟨_, d.reflexive, d.symmetric⟩
      refine ⟨fun h => ?_, fun h => kept ((Model.mem_agents_setRelation inside).2 (.inr h))⟩
      exact (only h).elim .inl (Model.mem_agents_setRelation inside).1
    · rw [addArcs_cons_of_refused refused]
      exact ⟨.inr, id⟩

/-- An entry adds no agent but the one that it is about, and no agent is lost. -/
theorem mem_agents_enter (x : Draft × List WorldRef) (e : Entry) :
    (a ∈ (enter x e).1.model.agents → e.agent? = some a ∨ a ∈ x.1.model.agents) ∧
      (a ∈ x.1.model.agents → a ∈ (enter x e).1.model.agents) := by
  cases e with
  | world w => exact ⟨.inr, id⟩
  | agent b =>
    refine ⟨fun h => ?_, fun h => Model.mem_agents_addAgent.2 (.inr h)⟩
    exact (Model.mem_agents_addAgent.1 h).imp_left (congrArg some)
  | arc b s t =>
    rcases x.1.model.addArc_eq b s t with ⟨-, inside, added⟩ | ⟨-, refused⟩
    · simp only [enter, addArc, added]
      refine ⟨fun h => ?_, fun h => (Model.mem_agents_setRelation inside).2 (.inr h)⟩
      exact ((Model.mem_agents_setRelation inside).1 h).imp_left (congrArg some)
    · simp only [enter, addArc, refused]
      exact ⟨.inr, id⟩
  | related b xs =>
    obtain ⟨only, kept⟩ := mem_agents_addArcs (a := a) (b := b) x.1 (Arc.between xs)
    exact ⟨fun h => (only h).imp_left (congrArg some), kept⟩
  | reflexive | symmetric => exact ⟨.inr, id⟩

/-- Entries add no agents but those that they are about, and no agent is lost. -/
theorem mem_agents_enterAll (x : Draft × List WorldRef) (entries : List Entry) :
    (a ∈ (entries.foldl enter x).1.model.agents →
        (∃ e ∈ entries, e.agent? = some a) ∨ a ∈ x.1.model.agents) ∧
      (a ∈ x.1.model.agents → a ∈ (entries.foldl enter x).1.model.agents) := by
  induction entries generalizing x with
  | nil => exact ⟨.inr, id⟩
  | cons e rest ih =>
    obtain ⟨only, kept⟩ := mem_agents_enter (a := a) x e
    obtain ⟨only', kept'⟩ := ih (enter x e)
    refine ⟨fun h => ?_, fun h => kept' (kept h)⟩
    rcases only' h with ⟨e', he', about⟩ | h
    · exact .inl ⟨e', List.mem_cons_of_mem _ he', about⟩
    · exact (only h).imp_left fun about => ⟨e, List.mem_cons_self, about⟩

/-- An agent that is named is there. -/
theorem mem_agents_enterAll_of_named (named : .agent a ∈ entries) :
    a ∈ (entries.foldl enter x).1.model.agents := by
  obtain ⟨before, after, rfl⟩ := List.append_of_mem named
  rw [List.foldl_append, List.foldl_cons]
  refine (mem_agents_enterAll _ after).2 ?_
  exact Model.mem_agents_addAgent.2 (.inl rfl)

/-- When agents are named and worlds made indistinguishable the worlds stay, and the arcs after it
are those between worlds of one entry and those before. -/
theorem mem_relation_enter (about : e.IsAbout x.1.model) :
    (enter x e).1.model.worlds = x.1.model.worlds ∧
      ∀ a arc, arc ∈ (enter x e).1.model.relation a ↔
        (∃ xs, e = .related a xs ∧ arc ∈ Arc.between xs) ∨ arc ∈ x.1.model.relation a := by
  cases e with
  | agent b =>
    refine ⟨rfl, fun a arc => ?_⟩
    rw [enter, addAgent, Model.relation_addAgent]
    simp
  | related b xs =>
    refine ⟨worlds_addArcs _ _ _, fun a arc => ?_⟩
    have joined : (Arc.between xs).takeWhile x.1.model.joins = Arc.between xs := by
      refine List.takeWhile_eq_self_iff.2 fun arc hArc => ?_
      obtain ⟨source, target⟩ := Arc.mem_between.1 hArc
      exact Bool.and_eq_true_iff.2 ⟨about _ source, about _ target⟩
    refine (mem_relation_addArcs x.1 (Arc.between xs)).trans ?_
    rw [joined]
    refine or_congr_left ⟨?_, ?_⟩
    · rintro ⟨rfl, inside⟩
      exact ⟨xs, rfl, inside⟩
    · rintro ⟨ys, same, inside⟩
      cases same
      exact ⟨rfl, inside⟩
  | world w | arc b s t | reflexive | symmetric => exact about.elim

/-- When agents are named and worlds made indistinguishable in any number of entries the worlds
stay, and the arcs after it are those between worlds of one entry and those before. -/
theorem mem_relation_enterAll (about : ∀ e ∈ entries, e.IsAbout x.1.model) :
    (entries.foldl enter x).1.model.worlds = x.1.model.worlds ∧
      ∀ a arc, arc ∈ (entries.foldl enter x).1.model.relation a ↔
        (∃ xs, .related a xs ∈ entries ∧ arc ∈ Arc.between xs) ∨ arc ∈ x.1.model.relation a := by
  induction entries generalizing x with
  | nil => simp
  | cons e rest ih =>
    obtain ⟨worlds, arcs⟩ := mem_relation_enter (about e List.mem_cons_self)
    -- The worlds are the same, so the later entries are about them still.
    have about' : ∀ e' ∈ rest, e'.IsAbout (enter x e).1.model := by
      intro e' he'
      have old := about e' (List.mem_cons_of_mem _ he')
      cases e' with
      | related b xs =>
        intro y hy
        rw [Model.contains, worlds]
        exact old y hy
      | _ => exact old
    obtain ⟨worlds', arcs'⟩ := ih about'
    refine ⟨worlds'.trans worlds, fun a arc => ?_⟩
    rw [List.foldl_cons, arcs', arcs]
    simp only [List.mem_cons]
    grind

end Draft

/-! ## (4) The model -/

namespace Model

variable {observed : ExtTreeMap Agent (ExtTreeSet Atom)} {entries : List Entry} {a : Agent}

/-- Entries by classes are about the worlds of the model. -/
theorem EnteredByClasses.isAbout {m n : Model} (h : m.EnteredByClasses observed entries)
    (worlds : n.worlds = m.worlds) : ∀ e ∈ entries, e.IsAbout n := by
  intro e he
  obtain ⟨b, atoms, -, rfl | ⟨x, xs, rfl, members⟩⟩ := h.entry_cases e he
  · trivial
  · intro y hy
    rw [contains, worlds]
    exact contains_of_agreeOn ((members y).1 hy)

/-- Entries by classes name the agents that observe something, and no others are added. -/
theorem EnteredByClasses.mem_agents_iff {m : Model} (h : m.EnteredByClasses observed entries)
    {x : Draft × List WorldRef} (blank : x.1.model.relations = ∅) :
    a ∈ (entries.foldl Draft.enter x).1.model.agents ↔ a ∈ observed := by
  constructor
  · intro there
    rcases (Draft.mem_agents_enterAll x entries).1 there with ⟨e, he, about⟩ | old
    · obtain ⟨b, atoms, sight, rfl | ⟨_, _, rfl, -⟩⟩ := h.entry_cases e he
      all_goals
        cases about
        rw [ExtTreeMap.mem_iff_isSome_getElem?, sight, Option.isSome_some]
    · rw [mem_agents, blank] at old
      simp at old
  · intro observes
    exact Draft.mem_agents_enterAll_of_named (h.named a observes)

/-- A draft into which worlds are entered, then agents and classes of worlds that agree on what the
agents observe, has the worlds and the relations of the model that is made from the worlds and from
what is observed. -/
theorem EnteredByClasses.model_ofEntries {worlds : List World}
    (h : (fromObservability worlds observed).2.EnteredByClasses observed entries) :
    (Draft.ofEntries (worlds.map .world ++ entries)).model.worlds
        = (fromObservability worlds observed).2.worlds ∧
      (Draft.ofEntries (worlds.map .world ++ entries)).model.relations
        = (fromObservability worlds observed).2.relations := by
  let x := (worlds.map Entry.world).foldl Draft.enter (Draft.empty, [])
  have entered : Draft.ofEntries (worlds.map .world ++ entries)
      = (entries.foldl Draft.enter x).1 := congrArg Prod.fst List.foldl_append
  obtain ⟨added, blank⟩ : x.1.model.worlds = (fromObservability worlds observed).2.worlds ∧
      x.1.model.relations = ∅ := Draft.model_enter_worlds (Draft.empty, []) worlds
  obtain ⟨kept, arcs⟩ := Draft.mem_relation_enterAll (h.isAbout added)
  rw [entered]
  refine ⟨kept.trans added, relations_ext ?_ fun a arc => ?_⟩
  · refine Ascending.ext ExtTreeMap.ordered_keys ExtTreeMap.ordered_keys fun a => ?_
    refine (h.mem_agents_iff blank).trans ?_
    rw [← ExtTreeMap.mem_keys, ← agents_fromObservability worlds]
  · have bare : arc ∉ x.1.model.relation a := by
      rw [relation, blank, ExtTreeMap.getElem?_empty]
      exact Relation.notMem_empty arc
    rw [arcs, h.exists_related_iff, mem_relation_fromObservability_iff, or_iff_left bare]

/-- In a model made from what agents observe nobody can tell a world from itself. -/
theorem isReflexive_fromObservability (worlds : List World)
    (observed : ExtTreeMap Agent (ExtTreeSet Atom)) :
    (fromObservability worlds observed).2.isReflexive = true := by
  refine isReflexive_iff.2 fun a there x live => ?_
  obtain ⟨atoms, sight⟩ := mem_agents_fromObservability.1 there
  exact mem_relation_fromObservability_iff.2 ⟨atoms, sight, agreeOn_self live⟩

/-- In a model made from what agents observe it does not matter from which of two worlds the other
cannot be told. -/
theorem isSymmetric_fromObservability (worlds : List World)
    (observed : ExtTreeMap Agent (ExtTreeSet Atom)) :
    (fromObservability worlds observed).2.isSymmetric = true := by
  refine isSymmetric_iff.2 fun a _ arc h => ?_
  obtain ⟨atoms, sight, agreed⟩ := mem_relation_fromObservability_iff.1 h
  exact mem_relation_fromObservability_iff.2 ⟨atoms, sight, (agreeOn_comm _ _ _ _).trans agreed⟩

/-- Such a draft is finished to the model that is made from the worlds and from what is observed. -/
theorem EnteredByClasses.same_finish {worlds : List World}
    (h : (fromObservability worlds observed).2.EnteredByClasses observed entries) :
    (Draft.ofEntries (worlds.map .world ++ entries)).finish.Same
      (fromObservability worlds observed).2 := by
  obtain ⟨same, relations⟩ := h.model_ofEntries
  rw [Draft.finish_of_closed]
  · refine ⟨fun r => ?_, relations⟩
    rw [facts?, facts?, world?, world?, same]
  · rw [← isReflexive_fromObservability worlds observed, isReflexive, isReflexive, refs, refs, same,
      relations]
  · rw [← isSymmetric_fromObservability worlds observed, isSymmetric, isSymmetric, relations]

/-- **Observability relates the worlds that agree.** Of worlds, of which some may be the same, and
of what agents observe a model is made. The references told are different, and refer to the worlds
in their order. The agents are those that observe. Two worlds are related for an agent iff they give
the same values to what it observes, and comparing the worlds pair by pair gives these relations.
The same model is drafted when the worlds are entered in order, then the agents, and for each agent
the classes of worlds that agree. -/
theorem fromObservability_relates_agreeing (worlds : List World)
    (observed : ExtTreeMap Agent (ExtTreeSet Atom)) :
    let keys := (fromObservability worlds observed).1
    let m := (fromObservability worlds observed).2
    keys.Nodup ∧ keys.map m.world? = worlds.map some ∧
    (∀ r, m.contains r = true ↔ r ∈ keys) ∧
    m.agents = observed.keys ∧
    (∀ (a : Agent) (atoms : ExtTreeSet Atom), observed[a]? = some atoms →
      ∀ x w y v, (x, w) ∈ keys.zip worlds → (y, v) ∈ keys.zip worlds →
        ((m.relation a).contains x y = true ↔
          ∀ p ∈ atoms, w.valuation.valueOf p = v.valuation.valueOf p)) ∧
    m.relations = observed.map (fun _ atoms => Relation.empty.pairUp (m.agreeOn atoms) keys) ∧
    (∃ entries, m.EnteredByClasses observed entries) ∧
    ∀ entries, m.EnteredByClasses observed entries →
      (Draft.ofEntries (worlds.map .world ++ entries)).finish.sameAs m = true := by
  intro keys m
  refine ⟨(WorldTable.empty.nodup_addAll worlds).1, WorldTable.empty.map_get?_addAll worlds, ?_,
    agents_fromObservability worlds observed, ?_, relations_fromObservability worlds observed,
    ⟨_, m.enteredByClasses_classEntries observed⟩, fun _ h => sameAs_iff.2 h.same_finish⟩
  · intro r
    have nothing : ¬ WorldTable.empty.contains r = true := by
      simp [WorldTable.contains, WorldTable.empty]
    exact WorldTable.contains_addAll.trans (or_iff_left nothing)
  · intro a atoms sight x w y v hx hy
    rw [Relation.contains_iff, mem_relation_fromObservability sight]
    constructor
    · rintro ⟨w', v', hw, hv, agreed⟩
      cases hw.symm.trans (world?_of_mem_zip hx)
      cases hv.symm.trans (world?_of_mem_zip hy)
      exact agreed
    · intro agreed
      exact ⟨w, v, world?_of_mem_zip hx, world?_of_mem_zip hy, agreed⟩

/-- The first and the last of three worlds are the same, and one agent tells the second from them,
another none from any. Entered by classes the worlds are as indistinguishable. -/
theorem fromObservability_relates_agreeing_repeated_world :
    let p : Atom := ⟨"p"⟩
    let a : Agent := ⟨"a"⟩
    let b : Agent := ⟨"b"⟩
    let worlds : List World := [⟨"u", .set .empty p true⟩, ⟨"v", .empty⟩, ⟨"u", .set .empty p true⟩]
    let observed := ExtTreeMap.ofList [(a, ExtTreeSet.ofList [p]), (b, ∅)]
    let keys := (fromObservability worlds observed).1
    let m := (fromObservability worlds observed).2
    keys = [⟨1, 1⟩, ⟨2, 1⟩, ⟨3, 1⟩] ∧
    (m.relation a).contains ⟨1, 1⟩ ⟨3, 1⟩ = true ∧ (m.relation a).contains ⟨1, 1⟩ ⟨2, 1⟩ = false ∧
    (m.relation b).pairs = Arc.between keys ∧
    m.classes (ExtTreeSet.ofList [p]) = [[⟨2, 1⟩], [⟨1, 1⟩, ⟨3, 1⟩]] ∧
    (Draft.ofEntries (worlds.map .world ++ m.classEntries observed)).finish.sameAs m = true := by
  intro p a b worlds observed keys m
  obtain ⟨-, -, -, -, related, -, -, drafted⟩ := fromObservability_relates_agreeing worlds observed
  have told : keys = [⟨1, 1⟩, ⟨2, 1⟩, ⟨3, 1⟩] := by decide +kernel
  have sight : observed[a]? = some (ExtTreeSet.ofList [p]) := by decide +kernel
  have first : ((⟨1, 1⟩, ⟨"u", .set .empty p true⟩) : WorldRef × World) ∈ keys.zip worlds := by
    simp [told, worlds]
  have last : ((⟨3, 1⟩, ⟨"u", .set .empty p true⟩) : WorldRef × World) ∈ keys.zip worlds := by
    simp [told, worlds]
  exact ⟨told, (related a _ sight _ _ _ _ first last).2 fun _ _ => rfl, by decide +kernel,
    by decide +kernel, by decide +kernel,
    drafted _ (m.enteredByClasses_classEntries observed)⟩

end Model

end KnowledgePrograms
