import Mathlib.Order.Bounds.Basic
import KnowledgePrograms.Proofs.Kripke.Drafting
import KnowledgePrograms.Proofs.Kripke.Pointing
import KnowledgePrograms.Proofs.Kripke.Sameness

/-! # Closing relations

When a draft is finished every agent of it is given a loop at each world and the converse of each
arc. A loop is its own converse, so the second closure leaves what the first one has reached, and
no arc is added that a reflexive and symmetric relation with the arcs of the draft could do without.
Where a relation has one of the two properties already its closure adds nothing, so that to vouch
for the property comes to the same model.

The closures count the arcs that they add. The count is by how much a relation has grown, and a
relation that is closed does not grow again.

* `Relation.fst_addAll_add_arcCount`: what is counted when arcs are added.
* `Model.IsTolerance`, `Model.isLeast_closed`: the least reflexive and symmetric relation.
* `Draft.ofEntries_append_cons`: it does not matter when a draft is vouched for.
* `Draft.finish_least_tolerance`: what a draft is finished to. -/

namespace KnowledgePrograms

open Std (ExtTreeMap ExtTreeSet)

/-! ## (1) Counting arcs -/

namespace Relation

variable {r : Relation} {arc : Arc} {arcs : List Arc}

/-- The arcs are listed in ascending order. -/
theorem ascending_pairs (r : Relation) : Ascending r.pairs := by
  rw [pairs, Ascending, List.pairwise_flatMap]
  constructor
  · -- Arcs from one world are in the order of where they end.
    rintro ⟨x, row⟩ -
    refine List.pairwise_map.2 (row.ordered_toList.imp fun {y z} below => ?_)
    show (compare x x).then (compare y z) = .lt
    rw [(Std.ReflCmp.compare_self : compare x x = .eq), below]
    rfl
  · refine r.rows.ordered_keys_toList.imp fun {e e'} below x hx y hy => ?_
    obtain ⟨s, -, rfl⟩ := List.mem_map.1 hx
    obtain ⟨t, -, rfl⟩ := List.mem_map.1 hy
    show (compare e.1 e'.1).then (compare s t) = .lt
    rw [below]
    rfl

/-- No arc is listed twice. -/
theorem nodup_pairs (r : Relation) : r.pairs.Nodup := by
  refine r.ascending_pairs.imp ?_
  rintro x _ below rfl
  exact compare_self_ne_lt x below

/-- A new arc is one more. -/
theorem arcCount_add (new : arc ∉ r) : (r.add arc).arcCount = r.arcCount + 1 := by
  have distinct : (arc :: r.pairs).Nodup :=
    List.nodup_cons.2 ⟨fun old => new (mem_pairs.1 old), r.nodup_pairs⟩
  have listed : (r.add arc).pairs.Perm (arc :: r.pairs) := by
    refine (List.perm_ext_iff_of_nodup (nodup_pairs _) distinct).2 fun x => ?_
    rw [mem_pairs, mem_add, List.mem_cons, mem_pairs]
  rw [arcCount_eq, arcCount_eq, listed.length_eq, List.length_cons]

/-- What is counted when arcs are added is by how many there are more. -/
theorem fst_addAll_add_arcCount (r : Relation) (arcs : List Arc) :
    (r.addAll arcs).1 + r.arcCount = (r.addAll arcs).2.arcCount := by
  -- Induction on the arcs, over all counts to begin from.
  have counted (c : Nat × Relation) : (arcs.foldl addCounted c).1 + c.2.arcCount
      = (arcs.foldl addCounted c).2.arcCount + c.1 := by
    induction arcs generalizing c with
    | nil => exact Nat.add_comm _ _
    | cons x rest ih =>
      have later := ih (addCounted c x)
      rw [List.foldl_cons]
      by_cases old : x ∈ c.2
      · rwa [addCounted, if_pos old] at later ⊢
      · rw [addCounted, if_neg old] at later ⊢
        rw [arcCount_add old] at later
        omega
  exact counted (0, r)

/-- Adding arcs that are there already counts none and changes nothing. -/
theorem addAll_of_forall_mem (old : ∀ x ∈ arcs, x ∈ r) : r.addAll arcs = (0, r) := by
  rw [addAll]
  induction arcs with
  | nil => rfl
  | cons x rest ih =>
    rw [List.foldl_cons, addCounted, if_pos (old x List.mem_cons_self)]
    exact ih fun y hy => old y (List.mem_cons_of_mem _ hy)

/-- A relation with a loop at each of some worlds is given none. -/
theorem addLoops_of_forall_mem {worlds : List WorldRef} (loops : ∀ x ∈ worlds, (⟨x, x⟩ : Arc) ∈ r) :
    r.addLoops worlds = (0, r) :=
  addAll_of_forall_mem (List.forall_mem_map.2 loops)

/-- A relation with the converse of each arc is given none. -/
theorem addConverses_of_forall_mem (converses : ∀ x ∈ r, x.converse ∈ r) :
    r.addConverses = (0, r) :=
  addAll_of_forall_mem (List.forall_mem_map.2 fun x hx => converses x (mem_pairs.1 hx))

/-- Loops are added once. -/
theorem addLoops_addLoops (r : Relation) (worlds : List WorldRef) :
    (r.addLoops worlds).2.addLoops worlds = (0, (r.addLoops worlds).2) :=
  addLoops_of_forall_mem fun _ hx => mem_addLoops.2 (.inl ⟨hx, rfl⟩)

/-- Converses are added once. -/
theorem addConverses_addConverses (r : Relation) :
    r.addConverses.2.addConverses = (0, r.addConverses.2) :=
  addConverses_of_forall_mem fun _ hx => mem_addConverses.2 (mem_addConverses.1 hx).symm

/-- The set of the arcs. -/
def arcSet (r : Relation) : Set Arc := {arc | arc ∈ r}

end Relation

/-! ## (2) The least reflexive and symmetric relation -/

namespace Model

variable {m : Model} {a : Agent} {arc : Arc}

/-- The arcs are a tolerance on the worlds of the model: a relation on them that is reflexive and
symmetric. -/
structure IsTolerance (m : Model) (s : Set Arc) : Prop where
  /-- Every arc joins two worlds of the model. -/
  joins : ∀ arc ∈ s, m.joins arc = true
  /-- There is a loop at every world. -/
  loop : ∀ x, m.contains x = true → ⟨x, x⟩ ∈ s
  /-- There is the converse of every arc. -/
  converse : ∀ arc ∈ s, arc.converse ∈ s

/-- The arcs of an agent join worlds of the model. -/
theorem joins_of_mem_relation (h : arc ∈ m.relation a) : m.joins arc = true := by
  obtain ⟨source, target⟩ := m.within_relation a arc h
  exact Bool.and_eq_true_iff.2 ⟨source, target⟩

/-- Closing the relations leaves the agents. -/
theorem agents_mapRelations (m : Model) (f : Relation → Relation) (h) :
    (m.mapRelations f h).agents = m.agents := by
  rw [agents, mapRelations, ExtTreeMap.keys_map, agents]

/-- Adding loops leaves the agents. -/
theorem agents_addLoops (m : Model) : m.addLoops.agents = m.agents := m.agents_mapRelations _ _

/-- Adding converses leaves the agents. -/
theorem agents_addConverses (m : Model) : m.addConverses.agents = m.agents :=
  m.agents_mapRelations _ _

/-- After both closures an agent has its arcs, their converses, and the loops. -/
theorem mem_relation_closed : arc ∈ m.addLoops.addConverses.relation a ↔
    arc ∈ m.relation a ∨ arc.converse ∈ m.relation a ∨
      (a ∈ m.agents ∧ m.contains arc.source = true ∧ arc.source = arc.target) := by
  obtain ⟨x, y⟩ := arc
  rw [mem_relation_addConverses, mem_relation_addLoops, mem_relation_addLoops]
  simp only [Arc.converse]
  constructor
  · rintro ((⟨there, live, rfl⟩ | h) | ⟨there, live, rfl⟩ | h)
    · exact .inr (.inr ⟨there, live, rfl⟩)
    · exact .inr (.inl h)
    · exact .inr (.inr ⟨there, live, rfl⟩)
    · exact .inl h
  · rintro (h | h | loop)
    · exact .inr (.inr h)
    · exact .inl (.inr h)
    · exact .inr (.inl loop)

/-- **Least closure.** Both closures give an agent the least tolerance with its arcs. -/
theorem isLeast_closed (there : a ∈ m.agents) :
    IsLeast {s | m.IsTolerance s ∧ (m.relation a).arcSet ⊆ s}
      (m.addLoops.addConverses.relation a).arcSet := by
  refine ⟨⟨⟨?_, ?_, ?_⟩, ?_⟩, ?_⟩
  · intro arc h
    exact joins_of_mem_relation (m := m.addLoops.addConverses) h
  · intro x live
    exact mem_relation_closed.2 (.inr (.inr ⟨there, live, rfl⟩))
  · intro arc h
    exact mem_relation_addConverses.2 (mem_relation_addConverses.1 h).symm
  · intro arc h
    exact mem_relation_closed.2 (.inl h)
  · rintro s ⟨tolerance, old⟩ arc h
    rcases mem_relation_closed.1 h with h | h | ⟨-, live, loop⟩
    · exact old h
    · exact tolerance.converse _ (old h)
    · obtain ⟨x, y⟩ := arc
      cases loop
      exact tolerance.loop x live

/-- A test is passed by all relations of a model iff it is by those of its agents. -/
theorem all_relations_iff {p : Relation → Bool} :
    (m.relations.toList.all fun e => p e.2) = true ↔ ∀ a ∈ m.agents, p (m.relation a) = true := by
  rw [List.all_eq_true]
  constructor
  · intro all a there
    refine all (a, m.relation a) (ExtTreeMap.mem_toList_iff_getElem?_eq_some.2 ?_)
    rw [getElem?_relations, if_pos there]
  · intro all e he
    have recorded := ExtTreeMap.mem_toList_iff_getElem?_eq_some.1 he
    have there : e.1 ∈ m.agents := by rw [mem_agents, recorded, Option.isSome_some]
    rw [getElem?_relations, if_pos there] at recorded
    rw [← Option.some.inj recorded]
    exact all e.1 there

/-- A model is reflexive iff every agent has a loop at every world. -/
theorem isReflexive_iff : m.isReflexive = true ↔
    ∀ a ∈ m.agents, ∀ x, m.contains x = true → (⟨x, x⟩ : Arc) ∈ m.relation a := by
  rw [isReflexive, all_relations_iff (p := fun r => r.hasLoops m.refs)]
  simp only [Relation.hasLoops, List.all_eq_true, Relation.contains_iff, contains_iff]

/-- A model is symmetric iff every agent has the converse of each of its arcs. -/
theorem isSymmetric_iff : m.isSymmetric = true ↔
    ∀ a ∈ m.agents, ∀ arc ∈ m.relation a, arc.converse ∈ m.relation a := by
  rw [isSymmetric, all_relations_iff (p := Relation.hasConverses)]
  simp only [Relation.hasConverses, List.all_eq_true, Relation.contains_iff, Relation.mem_pairs]
  exact Iff.rfl

/-- A closure that adds no arcs leaves the model. -/
theorem mapRelations_of_forall_eq {f : Relation → Relation} {h}
    (same : ∀ a ∈ m.agents, f (m.relation a) = m.relation a) : m.mapRelations f h = m := by
  refine ext_of_live rfl rfl (relations_ext (agents_mapRelations m f h) fun a arc => ?_)
  rw [relation_of_map (n := m.mapRelations f h) rfl]
  by_cases there : a ∈ m.agents
  · rw [if_pos there, same a there]
  · rw [if_neg there]
    exact iff_of_false (Relation.notMem_empty arc) (notMem_relation_of_notMem_agents there)

/-- A reflexive model is given no loops. -/
theorem addLoops_of_isReflexive (h : m.isReflexive = true) : m.addLoops = m := by
  refine mapRelations_of_forall_eq fun a there => ?_
  rw [Relation.addLoops_of_forall_mem fun x hx => isReflexive_iff.1 h a there x (contains_iff.2 hx)]

/-- A symmetric model is given no converses. -/
theorem addConverses_of_isSymmetric (h : m.isSymmetric = true) : m.addConverses = m := by
  refine mapRelations_of_forall_eq fun a there => ?_
  rw [Relation.addConverses_of_forall_mem (isSymmetric_iff.1 h a there)]

/-- Loops leave a model symmetric. -/
theorem isSymmetric_addLoops (h : m.isSymmetric = true) : m.addLoops.isSymmetric = true := by
  refine isSymmetric_iff.2 fun a there arc hArc => ?_
  rw [agents_addLoops] at there
  rcases mem_relation_addLoops.1 hArc with ⟨-, live, loop⟩ | old
  · refine mem_relation_addLoops.2 (.inl ⟨there, ?_, loop.symm⟩)
    show m.contains arc.target = true
    rwa [← loop]
  · exact mem_relation_addLoops.2 (.inr (isSymmetric_iff.1 h a there arc old))

end Model

/-! ## (3) Finishing a draft -/

namespace Draft

variable {d : Draft}

/-- The draft that some entries make. -/
def ofEntries (entries : List Entry) : Draft := (entries.foldl enter (empty, [])).1

/-- The draft with more vouched for. -/
def vouch (d : Draft) (reflexive symmetric : Bool) : Draft where
  model := d.model
  reflexive := reflexive || d.reflexive
  symmetric := symmetric || d.symmetric

/-- It does not matter whether a draft is vouched for before an arc is added or after it. -/
theorem addArc_vouch (d : Draft) (ρ σ : Bool) (a : Agent) (x y : WorldRef) :
    (d.vouch ρ σ).addArc a x y = ((d.addArc a x y).1.vouch ρ σ, (d.addArc a x y).2) := rfl

/-- It does not matter whether a draft is vouched for before arcs are added or after it. -/
theorem addArcs_vouch (d : Draft) (ρ σ : Bool) (a : Agent) (arcs : List Arc) :
    (d.vouch ρ σ).addArcs a arcs
      = ((d.addArcs a arcs).1.vouch ρ σ, (d.addArcs a arcs).2) := by
  induction arcs generalizing d with
  | nil => rfl
  | cons arc rest ih =>
    rw [addArcs, addArcs, addArc_vouch]
    rcases d.addArc a arc.source arc.target with ⟨d', _ | e⟩
    · exact ih d'
    · rfl

/-- It does not matter whether a draft is vouched for before an entry or after it. -/
theorem enter_vouch (x : Draft × List WorldRef) (ρ σ : Bool) (e : Entry) :
    enter (x.1.vouch ρ σ, x.2) e = ((enter x e).1.vouch ρ σ, (enter x e).2) := by
  cases e with
  | world w => rfl
  | agent a => rfl
  | arc a s t => simp only [enter, addArc_vouch]
  | related a xs => simp only [enter, relateAll, addArcs_vouch]
  | reflexive => simp [enter, vouch, vouchReflexive]
  | symmetric => simp [enter, vouch, vouchSymmetric]

/-- It does not matter whether a draft is vouched for before some entries or after them. -/
theorem foldl_enter_vouch (x : Draft × List WorldRef) (ρ σ : Bool) (entries : List Entry) :
    entries.foldl enter (x.1.vouch ρ σ, x.2)
      = ((entries.foldl enter x).1.vouch ρ σ, (entries.foldl enter x).2) := by
  induction entries generalizing x with
  | nil => rfl
  | cons e rest ih => rw [List.foldl_cons, enter_vouch, ih, List.foldl_cons]

/-- An entry that vouches for something does not have to wait for the other entries. -/
theorem ofEntries_append_cons {e : Entry} (ρ σ : Bool)
    (vouches : ∀ x, enter x e = (x.1.vouch ρ σ, x.2)) (before after : List Entry) :
    ofEntries (before ++ e :: after) = (ofEntries (before ++ after)).vouch ρ σ := by
  rw [ofEntries, ofEntries, List.foldl_append, List.foldl_append, List.foldl_cons, vouches]
  exact congrArg Prod.fst (foldl_enter_vouch _ ρ σ after)

/-- What is vouched for. -/
def vouched (d : Draft) : Bool × Bool := (d.reflexive, d.symmetric)

/-- Adding arcs vouches for nothing. -/
theorem vouched_addArcs (d : Draft) (a : Agent) (arcs : List Arc) :
    (d.addArcs a arcs).1.vouched = d.vouched := by
  induction arcs generalizing d with
  | nil => rfl
  | cons arc rest ih =>
    rw [addArcs, addArc]
    rcases d.model.addArc a arc.source arc.target with ⟨m, _ | e⟩
    · exact ih _
    · rfl

/-- An entry that does not say so vouches for nothing. -/
theorem vouched_enter (x : Draft × List WorldRef) {e : Entry} (silent : e ≠ .reflexive)
    (silent' : e ≠ .symmetric) : (enter x e).1.vouched = x.1.vouched := by
  cases e with
  | world w => rfl
  | agent a => rfl
  | arc a s t => rfl
  | related a xs => exact vouched_addArcs _ _ _
  | reflexive => exact absurd rfl silent
  | symmetric => exact absurd rfl silent'

/-- Without an entry that says so nothing is vouched for. -/
theorem vouched_ofEntries {entries : List Entry} (silent : .reflexive ∉ entries)
    (silent' : .symmetric ∉ entries) : (ofEntries entries).vouched = (false, false) := by
  have kept (x : Draft × List WorldRef) : (entries.foldl enter x).1.vouched = x.1.vouched := by
    induction entries generalizing x with
    | nil => rfl
    | cons e rest ih =>
      have apart := List.ne_and_not_mem_of_not_mem_cons silent
      have apart' := List.ne_and_not_mem_of_not_mem_cons silent'
      rw [List.foldl_cons, ih apart.2 apart'.2, vouched_enter x apart.1.symm apart'.1.symm]
  exact kept (empty, [])

/-- A draft of which nothing is vouched for is closed both ways. -/
theorem finish_of_vouched_eq (h : d.vouched = (false, false)) :
    d.finish = d.model.addLoops.addConverses := by
  obtain ⟨reflexive, symmetric⟩ := Prod.mk.inj h
  rw [finish, reflexive, symmetric]
  rfl

/-- A draft that is closed is finished, whatever is vouched for. -/
theorem finish_of_closed (loops : d.model.isReflexive = true) (turns : d.model.isSymmetric = true) :
    d.finish = d.model := by
  simp only [finish, Model.addLoops_of_isReflexive loops, ite_self,
    Model.addConverses_of_isSymmetric turns]

/-- To vouch for a reflexive draft to be reflexive changes nothing. -/
theorem finish_vouch_reflexive (h : d.model.isReflexive = true) :
    (d.vouch true false).finish = d.finish := by
  rw [finish, finish, vouch]
  simp only [Bool.true_or, Bool.false_or, Model.addLoops_of_isReflexive h, ite_self]

/-- To vouch for a symmetric draft to be symmetric changes nothing. -/
theorem finish_vouch_symmetric (h : d.model.isSymmetric = true) :
    (d.vouch false true).finish = d.finish := by
  have looped := Model.addConverses_of_isSymmetric (Model.isSymmetric_addLoops h)
  have bare := Model.addConverses_of_isSymmetric h
  rw [finish, finish, vouch]
  cases d.reflexive <;> simp [looped, bare]

/-- **Finishing a draft is its least closure.** A draft of which nothing is vouched for is finished
to a model with the same worlds and agents. Each of these has the least tolerance with the arcs that
it had in the draft, which is these arcs, their converses, and a loop at each world. To vouch at any
time for what is so anyway leads to the same model. The arcs that a closure counts are those that a
relation has grown by, and to repeat it counts none and changes nothing. -/
theorem finish_least_tolerance (entries : List Entry) :
    let d := ofEntries entries
    (.reflexive ∉ entries → .symmetric ∉ entries →
      d.finish.worlds = d.model.worlds ∧ d.finish.agents = d.model.agents ∧
      d.finish.isReflexive = true ∧ d.finish.isSymmetric = true ∧
      ∀ a ∈ d.model.agents,
        IsLeast {s | d.model.IsTolerance s ∧ (d.model.relation a).arcSet ⊆ s}
          (d.finish.relation a).arcSet ∧
        ∀ arc, arc ∈ d.finish.relation a ↔
          arc ∈ d.model.relation a ∨ arc.converse ∈ d.model.relation a ∨
            (d.model.contains arc.source = true ∧ arc.source = arc.target)) ∧
    (∀ before after, entries = before ++ after →
      (d.model.isReflexive = true →
        (ofEntries (before ++ .reflexive :: after)).finish.sameAs d.finish = true) ∧
      (d.model.isSymmetric = true →
        (ofEntries (before ++ .symmetric :: after)).finish.sameAs d.finish = true)) ∧
    ∀ (r : Relation) (worlds : List WorldRef),
      (r.addLoops worlds).1 + r.arcCount = (r.addLoops worlds).2.arcCount ∧
      (r.addLoops worlds).2.addLoops worlds = (0, (r.addLoops worlds).2) ∧
      r.addConverses.1 + r.arcCount = r.addConverses.2.arcCount ∧
      r.addConverses.2.addConverses = (0, r.addConverses.2) := by
  intro d
  refine ⟨fun silent silent' => ?_, fun before after whole => ⟨fun loops => ?_, fun turns => ?_⟩,
    fun r worlds => ⟨r.fst_addAll_add_arcCount _, r.addLoops_addLoops worlds,
      r.fst_addAll_add_arcCount _, r.addConverses_addConverses⟩⟩
  · rw [finish_of_vouched_eq (vouched_ofEntries silent silent')]
    have agents : d.model.addLoops.addConverses.agents = d.model.agents := by
      rw [Model.agents_addConverses, Model.agents_addLoops]
    refine ⟨rfl, agents, ?_, ?_, fun a there => ⟨Model.isLeast_closed there, fun arc => ?_⟩⟩
    · refine Model.isReflexive_iff.2 fun a there x live => ?_
      rw [agents] at there
      exact (Model.isLeast_closed there).1.1.loop x live
    · refine Model.isSymmetric_iff.2 fun a there arc hArc => ?_
      rw [agents] at there
      exact (Model.isLeast_closed there).1.1.converse arc hArc
    · exact Model.mem_relation_closed.trans (or_congr_right (or_congr_right (and_iff_right there)))
  · subst whole
    rw [ofEntries_append_cons true false fun _ => rfl, finish_vouch_reflexive loops,
      Model.sameAs_self]
  · subst whole
    rw [ofEntries_append_cons false true fun _ => rfl, finish_vouch_symmetric turns,
      Model.sameAs_self]

/-- Of two agents of a draft of two worlds one has a single arc, as its second one leads nowhere,
and the other has none. When the worlds are indistinguishable to an agent instead, it may be vouched
for first. -/
theorem finish_least_tolerance_two_agents :
    let a : Agent := ⟨"a"⟩
    let b : Agent := ⟨"b"⟩
    let u : World := ⟨"u", .empty⟩
    let d := ofEntries [.world u, .world u, .agent b, .arc a ⟨1, 1⟩ ⟨2, 1⟩, .arc a ⟨2, 1⟩ ⟨3, 1⟩]
    let all := [⟨1, 1⟩, ⟨2, 1⟩]
    IsLeast {s | d.model.IsTolerance s ∧ (d.model.relation a).arcSet ⊆ s}
      (d.finish.relation a).arcSet ∧
    (d.finish.relation a).pairs = Arc.between all ∧
    (d.finish.relation b).pairs = [⟨⟨1, 1⟩, ⟨1, 1⟩⟩, ⟨⟨2, 1⟩, ⟨2, 1⟩⟩] ∧
    (ofEntries [.world u, .world u, .reflexive, .related a all]).finish.sameAs
      (ofEntries [.world u, .world u, .related a all]).finish = true := by
  intro a b u d all
  obtain ⟨closed, -, -⟩ := finish_least_tolerance
    [.world u, .world u, .agent b, .arc a ⟨1, 1⟩ ⟨2, 1⟩, .arc a ⟨2, 1⟩ ⟨3, 1⟩]
  obtain ⟨-, -, -, -, least⟩ := closed (by simp) (by simp)
  have there : a ∈ d.model.agents := by decide +kernel
  obtain ⟨-, vouched, -⟩ := finish_least_tolerance [.world u, .world u, .related a all]
  have loops : (ofEntries [.world u, .world u, .related a all]).model.isReflexive = true := by
    decide +kernel
  exact ⟨(least a there).1, by decide +kernel, by decide +kernel,
    (vouched [.world u, .world u] [.related a all] rfl).1 loops⟩

end Draft

end KnowledgePrograms
