import Mathlib.Data.List.Rotate
import KnowledgePrograms.Proofs.Kripke.Drafting
import KnowledgePrograms.Proofs.Kripke.Semantics

/-! # Bisimulation

Of a world a formula sees which atoms are true there and, through its modalities, the worlds that
agents cannot rule out, of which again it sees no more. So worlds of two models that are related by
a bisimulation satisfy the same formulas. For common knowledge the relation is followed along the
paths of the group, an arc at a time.

A map of worlds is such a relation if it keeps the true atoms and takes the alternatives of each
agent at a world to those at its image. What it need not keep is seen by no formula: the references
and their order, the names of worlds, which false atoms are recorded, how many copies there are of a
world, and the worlds that it reaches from nowhere.

* `Matched`, `IsBisimulation.matched_path`: what related worlds lead to, arc by arc and path by
  path.
* `IsBisimulation.satisfies_iff`: truth at related worlds.
* `IsFolding`: maps of worlds, which can be checked.
* `modallyEquivalent`: evaluation at related worlds. -/

namespace KnowledgePrograms

open Std (ExtTreeSet)

/-! ## (1) Related worlds -/

/-- Each world of one kind is related to some world of the other, and each of the other to some of
the one. -/
structure Matched (Z : WorldRef → WorldRef → Prop) (R S : WorldRef → Prop) : Prop where
  /-- A world of the first kind is related to some of the second. -/
  forth : ∀ r, R r → ∃ s, S s ∧ Z r s
  /-- To a world of the second kind some of the first is related. -/
  back : ∀ s, S s → ∃ r, R r ∧ Z r s

namespace Matched

variable {Z : WorldRef → WorldRef → Prop} {R S P Q : WorldRef → Prop}

/-- What related worlds agree on is so at all worlds of the one kind iff it is at all of the
other. -/
theorem forall_iff (h : Matched Z R S) (same : ∀ r s, Z r s → (P r ↔ Q s)) :
    (∀ r, R r → P r) ↔ ∀ s, S s → Q s := by
  constructor
  · intro all s hs
    obtain ⟨r, hr, related⟩ := h.back s hs
    exact (same r s related).1 (all r hr)
  · intro all r hr
    obtain ⟨s, hs, related⟩ := h.forth r hr
    exact (same r s related).2 (all s hs)

/-- What related worlds agree on is so at some world of the one kind iff it is at some of the
other. -/
theorem exists_iff (h : Matched Z R S) (same : ∀ r s, Z r s → (P r ↔ Q s)) :
    (∃ r, R r ∧ P r) ↔ ∃ s, S s ∧ Q s := by
  constructor
  · rintro ⟨r, hr, holds⟩
    obtain ⟨s, hs, related⟩ := h.forth r hr
    exact ⟨s, hs, (same r s related).1 holds⟩
  · rintro ⟨s, hs, holds⟩
    obtain ⟨r, hr, related⟩ := h.back s hs
    exact ⟨r, hr, (same r s related).2 holds⟩

/-- If each arc from a world can be copied from a related one, ending at related worlds, then so can
each path. -/
theorem exists_path {A B : WorldRef → WorldRef → Prop}
    (arcs : ∀ r s, Z r s → ∀ t, A r t → ∃ u, B s u ∧ Z t u) {r s t : WorldRef}
    (related : Z r s) (path : Relation.TransGen A r t) : ∃ u, Relation.TransGen B s u ∧ Z t u := by
  induction path with
  | single arc =>
    obtain ⟨u, arc', related'⟩ := arcs r s related _ arc
    exact ⟨u, .single arc', related'⟩
  | tail _ arc ih =>
    obtain ⟨u, path', related'⟩ := ih
    obtain ⟨v, arc', related''⟩ := arcs _ u related' _ arc
    exact ⟨v, path'.tail arc', related''⟩

end Matched

namespace Model

variable {m n : Model} {Z : WorldRef → WorldRef → Prop} {g : WorldRef → WorldRef}
  {group : ExtTreeSet Agent} {r s : WorldRef}

/-- A relation of the worlds of two models, by which related worlds give atoms the same values and
lead to related worlds. -/
structure IsBisimulation (m n : Model) (Z : WorldRef → WorldRef → Prop) : Prop where
  /-- What is related are worlds of the two models. -/
  contains : ∀ r s, Z r s → m.contains r = true ∧ n.contains s = true
  /-- Atoms have the same values at related worlds. -/
  valueOf_eq : ∀ r s, Z r s → ∀ p, m.valueOf r p = n.valueOf s p
  /-- The alternatives of an agent at related worlds are related. -/
  matched : ∀ r s, Z r s → ∀ a, Matched Z (· ∈ m.accessible a r) (· ∈ n.accessible a s)

/-- Formulas have truth values at two worlds, and the same ones. -/
def ModallyEquivalent (m : Model) (r : WorldRef) (n : Model) (s : WorldRef) : Prop :=
  ∃ (live : m.contains r = true) (live' : n.contains s = true), ∀ f : Formula, ∃ b,
    f.evaluate (.pointed m r live) = .ok b ∧ f.evaluate (.pointed n s live') = .ok b

namespace IsBisimulation

/-- The arcs of an agent at related worlds lead to related worlds. -/
theorem matched_arcs (h : m.IsBisimulation n Z) (related : Z r s) (a : Agent) :
    Matched Z (fun t => (⟨r, t⟩ : Arc) ∈ m.relation a)
      (fun u => (⟨s, u⟩ : Arc) ∈ n.relation a) := by
  simpa only [mem_accessible] using h.matched r s related a

/-- The arcs of a group at related worlds lead to related worlds. -/
theorem matched_leads (h : m.IsBisimulation n Z) (related : Z r s) (group : ExtTreeSet Agent) :
    Matched Z (m.Leads group r) (n.Leads group s) where
  forth t := by
    rintro ⟨a, member, arc⟩
    obtain ⟨u, arc', related'⟩ := (h.matched_arcs related a).forth t arc
    exact ⟨u, ⟨a, member, arc'⟩, related'⟩
  back u := by
    rintro ⟨a, member, arc⟩
    obtain ⟨t, arc', related'⟩ := (h.matched_arcs related a).back u arc
    exact ⟨t, ⟨a, member, arc'⟩, related'⟩

/-- The paths of a group from related worlds lead to related worlds. -/
theorem matched_path (h : m.IsBisimulation n Z) (related : Z r s) (group : ExtTreeSet Agent) :
    Matched Z (Relation.TransGen (m.Leads group) r) (Relation.TransGen (n.Leads group) s) where
  forth _ path :=
    Matched.exists_path (Z := Z) (fun _ _ pair => (h.matched_leads pair group).forth) related path
  back _ path :=
    Matched.exists_path (Z := flip Z) (fun _ _ pair => (h.matched_leads pair group).back) related
      path

/-- **Truth.** Related worlds satisfy the same formulas. -/
theorem satisfies_iff (h : m.IsBisimulation n Z) (f : Formula) (related : Z r s) :
    m.satisfies f r = true ↔ n.satisfies f s = true := by
  induction f generalizing r s with
  | atom p => rw [satisfies, satisfies, h.valueOf_eq r s related]
  | not f ih => rw [satisfies_not_iff, satisfies_not_iff, ih related]
  | and fs ih =>
    rw [satisfies_and_iff, satisfies_and_iff]
    exact forall₂_congr fun f member => ih f member related
  | or fs ih =>
    rw [satisfies_or_iff, satisfies_or_iff]
    exact exists_congr fun f => and_congr_right fun member => ih f member related
  | imp f g ihf ihg => rw [satisfies_imp_iff, satisfies_imp_iff, ihf related, ihg related]
  | iff f g ihf ihg => rw [satisfies_iff_iff, satisfies_iff_iff, ihf related, ihg related]
  | knows a f ih =>
    rw [satisfies_knows_iff, satisfies_knows_iff]
    exact (h.matched_arcs related a).forall_iff fun _ _ => ih
  | possible a f ih =>
    rw [satisfies_possible_iff, satisfies_possible_iff]
    exact (h.matched_arcs related a).exists_iff fun _ _ => ih
  | everyone group f ih =>
    rw [satisfies_everyone_iff, satisfies_everyone_iff]
    exact forall₂_congr fun a _ => (h.matched_arcs related a).forall_iff fun _ _ => ih
  | common group f ih =>
    rw [satisfies_common_iff, satisfies_common_iff]
    exact (h.matched_path related group).forall_iff fun _ _ => ih

/-- Formulas are evaluated alike at related worlds. -/
theorem modallyEquivalent (h : m.IsBisimulation n Z) (related : Z r s) :
    m.ModallyEquivalent r n s := by
  obtain ⟨live, live'⟩ := h.contains r s related
  refine ⟨live, live', fun f => ⟨m.satisfies f r, rfl, ?_⟩⟩
  rw [Formula.evaluate, Bool.eq_iff_iff.2 (h.satisfies_iff f related)]

end IsBisimulation

/-! ## (2) Maps of worlds -/

/-- A map from the worlds of one model to those of another that keeps the true atoms, and takes the
alternatives of an agent at a world to its alternatives at the image. -/
structure IsFolding (g : WorldRef → WorldRef) (m n : Model) : Prop where
  /-- Worlds are taken to worlds. -/
  contains : ∀ r ∈ m.refs, n.contains (g r) = true
  /-- Atoms have the same values at a world and at its image. -/
  valueOf_eq : ∀ r ∈ m.refs, ∀ p, m.valueOf r p = n.valueOf (g r) p
  /-- The image of an alternative is an alternative at the image. -/
  map_accessible : ∀ r ∈ m.refs, ∀ a, ∀ t ∈ m.accessible a r, g t ∈ n.accessible a (g r)
  /-- Each alternative at the image is the image of an alternative. -/
  lift_accessible : ∀ r ∈ m.refs, ∀ a, ∀ u ∈ n.accessible a (g r), ∃ t ∈ m.accessible a r, g t = u

/-- A folding relates the worlds of a model to their images. -/
theorem IsFolding.isBisimulation (h : IsFolding g m n) :
    m.IsBisimulation n fun r s => r ∈ m.refs ∧ g r = s where
  contains := by
    rintro r _ ⟨here, rfl⟩
    exact ⟨contains_iff.2 here, h.contains r here⟩
  valueOf_eq := by
    rintro r _ ⟨here, rfl⟩
    exact h.valueOf_eq r here
  matched := by
    rintro r _ ⟨here, rfl⟩ a
    have inside : ∀ t ∈ m.accessible a r, t ∈ m.refs := fun t ht =>
      contains_iff.1 (contains_of_mem_accessible ht)
    constructor
    · intro t ht
      exact ⟨g t, h.map_accessible r here a t ht, inside t ht, rfl⟩
    · intro u hu
      obtain ⟨t, ht, image⟩ := h.lift_accessible r here a u hu
      exact ⟨t, ht, inside t ht, image⟩

/-- The atoms that are true at a reference, in order. -/
def truths (m : Model) (r : WorldRef) : List Atom :=
  (m.world? r).elim [] fun w => w.valuation.trueAtoms

/-- The atoms listed as true are those with the value true. -/
theorem mem_truths {p : Atom} : p ∈ m.truths r ↔ m.valueOf r p = true := by
  rw [truths, valueOf]
  cases m.world? r with
  | none => simp
  | some w => exact Valuation.mem_trueAtoms

/-- Atoms have the same values at two references if those that are true at one of them do. -/
theorem forall_valueOf_iff : (∀ p, m.valueOf r p = n.valueOf s p) ↔
    ∀ p ∈ m.truths r ++ n.truths s, m.valueOf r p = n.valueOf s p := by
  constructor
  · exact fun same p _ => same p
  · intro same p
    by_cases either : p ∈ m.truths r ++ n.truths s
    · exact same p either
    · rw [List.mem_append, mem_truths, mem_truths, not_or, Bool.not_eq_true, Bool.not_eq_true]
        at either
      rw [either.1, either.2]

/-- An agent that a model does not have has no alternatives. -/
theorem mem_agents_of_mem_accessible {a : Agent} (h : s ∈ m.accessible a r) : a ∈ m.agents := by
  by_contra none
  exact notMem_relation_of_notMem_agents none (mem_accessible.1 h)

/-- Whether a map is a folding shows at the atoms that are true somewhere, and for the agents of the
two models. -/
theorem isFolding_iff : IsFolding g m n ↔ ∀ r ∈ m.refs, n.contains (g r) = true ∧
    (∀ p ∈ m.truths r ++ n.truths (g r), m.valueOf r p = n.valueOf (g r) p) ∧
    (∀ a ∈ m.agents, ∀ t ∈ m.accessible a r, g t ∈ n.accessible a (g r)) ∧
    ∀ a ∈ n.agents, ∀ u ∈ n.accessible a (g r), ∃ t ∈ m.accessible a r, g t = u := by
  constructor
  · intro h r here
    exact ⟨h.contains r here, forall_valueOf_iff.1 (h.valueOf_eq r here),
      fun a _ => h.map_accessible r here a, fun a _ => h.lift_accessible r here a⟩
  · intro h
    constructor
    · exact fun r here => (h r here).1
    · exact fun r here => forall_valueOf_iff.2 (h r here).2.1
    · intro r here a t ht
      exact (h r here).2.2.1 a (mem_agents_of_mem_accessible ht) t ht
    · intro r here a u hu
      exact (h r here).2.2.2 a (mem_agents_of_mem_accessible hu) u hu

instance : Decidable (IsFolding g m n) := decidable_of_iff' _ isFolding_iff

/-! ## (3) Worlds that are not reached -/

/-- Some agent cannot rule out the second world at the first. -/
def Step (m : Model) (r s : WorldRef) : Prop := ∃ a, s ∈ m.accessible a r

/-- What is reached from a world is a world of the model. -/
theorem contains_of_steps (live : m.contains r = true) (path : Relation.ReflTransGen m.Step r s) :
    m.contains s = true := by
  induction path with
  | refl => exact live
  | tail _ step _ =>
    obtain ⟨a, near⟩ := step
    exact contains_of_mem_accessible near

/-- What is reached from a world is in each list with the world that no arc leaves. -/
theorem mem_of_steps {near : List WorldRef} (start : r ∈ near)
    (closed : ∀ x ∈ near, ∀ a ∈ m.agents, ∀ y ∈ m.accessible a x, y ∈ near)
    (path : Relation.ReflTransGen m.Step r s) : s ∈ near := by
  induction path with
  | refl => exact start
  | tail _ step ih =>
    obtain ⟨a, next⟩ := step
    exact closed _ ih a (mem_agents_of_mem_accessible next) _ next

/-- A submodel with all that is reached from a world relates each world that is reached to
itself. -/
theorem IsSubmodel.isBisimulation {kept : WorldRef → Prop} (h : n.IsSubmodel m kept)
    (live : m.contains r = true) (whole : ∀ s, Relation.ReflTransGen m.Step r s → kept s) :
    m.IsBisimulation n fun s t => Relation.ReflTransGen m.Step r s ∧ s = t where
  contains := by
    rintro s _ ⟨path, rfl⟩
    have here := contains_of_steps live path
    exact ⟨here, h.contains_iff.2 ⟨here, whole s path⟩⟩
  valueOf_eq := by
    rintro s _ ⟨path, rfl⟩ p
    exact (h.valueOf_eq (h.contains_iff.2 ⟨contains_of_steps live path, whole s path⟩) p).symm
  matched := by
    rintro s _ ⟨path, rfl⟩ a
    constructor
    · intro t near
      have further := path.tail ⟨a, near⟩
      rw [mem_accessible] at near
      exact ⟨t, mem_accessible.2 ((h.mem_relation_iff a _).2 ⟨near, whole s path, whole t further⟩),
        further, rfl⟩
    · intro u near
      rw [mem_accessible, h.mem_relation_iff, ← mem_accessible] at near
      exact ⟨u, near.1, path.tail ⟨a, near.1⟩, rfl⟩

/-! ## (4) Evaluation -/

/-- **Invariance under bisimulation.** Worlds of two models that are related by a bisimulation give
each formula the same truth value. So does a world and its image when the worlds of a model are
mapped to those of another with their true atoms and alternatives kept; other references, another
order of these, other names, other false atoms that are recorded and copies of worlds then make no
difference. And so does a world with and without worlds that are not reached from it. -/
theorem modallyEquivalent_of_bisimulation (m n : Model) :
    (∀ Z, m.IsBisimulation n Z → ∀ r s, Z r s → m.ModallyEquivalent r n s) ∧
    (∀ g, IsFolding g m n → ∀ r, m.contains r = true → m.ModallyEquivalent r n (g r)) ∧
    ∀ kept, n.IsSubmodel m kept → ∀ r, m.contains r = true →
      (∀ s, Relation.ReflTransGen m.Step r s → kept s) → m.ModallyEquivalent r n r := by
  refine ⟨fun Z h r s related => h.modallyEquivalent related, fun g h r live => ?_,
    fun kept h r live whole => ?_⟩
  · exact h.isBisimulation.modallyEquivalent ⟨contains_iff.1 live, rfl⟩
  · exact (h.isBisimulation live whole).modallyEquivalent ⟨.refl, rfl⟩

/-- Some worlds in a circle, and others from which the first of the circle is held possible. At each
of the circle the agent `a` holds just the next one possible. -/
def circle (inside outside : List World) : Model :=
  let round := inside.foldl Draft.addWorld Draft.empty
  let refs := round.model.refs
  let all := outside.foldl Draft.addWorld round
  let arcs := (refs.zip (refs.rotate 1)).map fun x => ⟨x.1, x.2⟩
  let arcs' := (all.model.refs.drop refs.length).map fun x => ⟨x, ⟨1, 1⟩⟩
  (all.addArcs ⟨"a"⟩ (arcs ++ arcs')).1.vouchReflexive.vouchSymmetric.finish

/-- Two worlds in a circle, `p` at the first of them, and a third outside. -/
def shortCircle : Model :=
  circle [⟨"on", .ofList [(⟨"p"⟩, true)]⟩, ⟨"off", .ofList [(⟨"p"⟩, false)]⟩] [⟨"out", .empty⟩]

/-- Four worlds in a circle, `p` at each second of them. -/
def longCircle : Model :=
  circle [⟨"#1", .empty⟩, ⟨"#2", .ofList [(⟨"p"⟩, true), (⟨"q"⟩, false)]⟩, ⟨"#3", .empty⟩,
    ⟨"#4", .ofList [(⟨"p"⟩, true)]⟩] []

/-- The long circle is wound up on the short one, world by world from the second to the first, and
no world of the short one reaches what is outside. So no formula tells apart the worlds with `p` of
the long circle, of the short one, and of the short one with nothing outside. -/
theorem modallyEquivalent_circle :
    let wind : WorldRef → WorldRef := fun r => ⟨r.slot % 2 + 1, 1⟩
    let bare := shortCircle.keep fun r => r.slot < 3
    (longCircle.worldCount = 4 ∧ shortCircle.worldCount = 3 ∧ bare.worldCount = 2) ∧
    (longCircle.IsBisimulation shortCircle (fun r s => r ∈ longCircle.refs ∧ wind r = s) ∧
      longCircle.ModallyEquivalent ⟨2, 1⟩ shortCircle ⟨1, 1⟩) ∧
    (IsFolding wind longCircle shortCircle ∧
      longCircle.ModallyEquivalent ⟨4, 1⟩ shortCircle ⟨1, 1⟩) ∧
    (∀ s, Relation.ReflTransGen shortCircle.Step ⟨1, 1⟩ s → s.slot < 3) ∧
      shortCircle.ModallyEquivalent ⟨1, 1⟩ bare ⟨1, 1⟩ := by
  intro wind bare
  have folding : IsFolding wind longCircle shortCircle := by decide +kernel
  have wound := folding.isBisimulation
  obtain ⟨related, folded, -⟩ := modallyEquivalent_of_bisimulation longCircle shortCircle
  obtain ⟨-, -, unreached⟩ := modallyEquivalent_of_bisimulation shortCircle bare
  have inside : ∀ s, Relation.ReflTransGen shortCircle.Step ⟨1, 1⟩ s → s.slot < 3 := by
    intro s path
    have near : ∀ x ∈ [(⟨1, 1⟩ : WorldRef), ⟨2, 1⟩], x.slot < 3 := by decide
    exact near s (mem_of_steps (by decide) (by decide +kernel) path)
  refine ⟨by decide +kernel, ⟨wound, ?_⟩, ⟨folding, ?_⟩, inside, ?_⟩
  · exact related _ wound ⟨2, 1⟩ ⟨1, 1⟩ (by decide +kernel)
  · exact folded wind folding ⟨4, 1⟩ (by decide +kernel)
  · refine unreached _ (shortCircle.isSubmodel_keep _) ⟨1, 1⟩ (by decide +kernel) fun s path => ?_
    exact decide_eq_true (inside s path)

end Model

end KnowledgePrograms
