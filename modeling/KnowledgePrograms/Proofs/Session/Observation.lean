import Mathlib.Data.Finset.Card
import KnowledgePrograms.Proofs.Kripke.Indistinguishability
import KnowledgePrograms.Proofs.Session.Protocol

/-! # When observations are true

What an agent observes of some atoms is either a fact, the conjunction of their literals, which is
true where it is observed; or, when the agent cannot rule out several worlds, that it does not know
this fact. Which of the two it is depends on how many worlds there are, not on whether they differ
in the atoms. So an observation is false when the agent cannot rule out several worlds and these all
agree with the real one on the atoms. An agent that is associated with nothing but what it tells
worlds apart by always observes something false when it cannot tell the real world from another.

* `Model.satisfies_fact_iff`: the fact observed at a world is true where the atoms have the values
  that they have at this world.
* `Model.satisfies_observation_eq_false_iff`: when an observation is false where it is made.
* `Model.satisfies_observation_fromObservability`: observations in a model made from what agents
  observe.
* `observation_false_iff_several_agree`: what comes of observing at a world of any model. -/

namespace KnowledgePrograms

open Std (ExtTreeMap ExtTreeSet)

namespace Model

variable {m : Model} {r s : WorldRef} {a : Agent} {atoms : ExtTreeSet Atom}

/-- The literal of an atom at one world is true where the atom has the value that it has there. -/
theorem satisfies_literalAt_iff {p : Atom} :
    m.satisfies (literalAt m r p) s = true ↔ m.valueOf s p = m.valueOf r p := by
  rw [literalAt]
  cases m.valueOf r p with
  | true => rw [if_pos rfl, satisfies]
  | false =>
    rw [if_neg Bool.false_ne_true, satisfies, satisfies]
    simp

/-- The conjunction of the literals of atoms at one world is true where each atom has the value that
it has there. -/
theorem satisfies_fact_iff :
    m.satisfies (.conjunction (atoms.toList.map (literalAt m r))) s = true ↔
      ∀ p ∈ atoms, m.valueOf s p = m.valueOf r p := by
  rw [satisfies_conjunction, List.all_map, List.all_eq_true]
  simp only [Function.comp_apply, satisfies_literalAt_iff, ExtTreeSet.mem_toList]

/-- There are several worlds that an agent cannot rule out iff its arcs lead to two of them. -/
theorem one_lt_length_accessible_iff : 1 < (m.accessible a r).length ↔
    ∃ s t, s ≠ t ∧ (⟨r, s⟩ : Arc) ∈ m.relation a ∧ (⟨r, t⟩ : Arc) ∈ m.relation a := by
  rw [← List.toFinset_card_of_nodup (m.nodup_accessible a r), Finset.one_lt_card_iff]
  simp only [List.mem_toFinset]
  constructor
  · rintro ⟨s, t, hs, ht, apart⟩
    exact ⟨s, t, apart, mem_accessible.1 hs, mem_accessible.1 ht⟩
  · rintro ⟨s, t, apart, hs, ht⟩
    exact ⟨s, t, mem_accessible.2 hs, mem_accessible.2 ht, apart⟩

/-- An observation is true where it is made, unless the arcs of the agent lead to several worlds and
each of them agrees on the atoms. -/
theorem satisfies_observation_eq_false_iff : m.satisfies (observation m r a atoms) r = false ↔
    (∃ s t, s ≠ t ∧ (⟨r, s⟩ : Arc) ∈ m.relation a ∧ (⟨r, t⟩ : Arc) ∈ m.relation a) ∧
      ∀ s, (⟨r, s⟩ : Arc) ∈ m.relation a → ∀ p ∈ atoms, m.valueOf s p = m.valueOf r p := by
  rw [← one_lt_length_accessible_iff, observation]
  split
  · next several =>
    -- The agent does not know the fact unless it is true wherever the arcs lead.
    rw [satisfies, Bool.not_eq_false', satisfies_knows_iff, and_iff_right several]
    simp only [satisfies_fact_iff]
  · next few =>
    have true_here : m.satisfies (.conjunction (atoms.toList.map (literalAt m r))) r = true :=
      satisfies_fact_iff.2 fun p _ => rfl
    rw [true_here]
    exact iff_of_false (by decide) fun h => few h.1

/-- In a model that is made from what agents observe, an agent that is associated with nothing but
what it observes makes a false observation wherever it cannot rule out another world. -/
theorem satisfies_observation_fromObservability {worlds : List World}
    {observed : ExtTreeMap Agent (ExtTreeSet Atom)} {seen : ExtTreeSet Atom}
    (sight : observed[a]? = some seen) (sub : ∀ p ∈ atoms, p ∈ seen) (apart : s ≠ r)
    (arc : (⟨r, s⟩ : Arc) ∈ (fromObservability worlds observed).2.relation a) :
    (fromObservability worlds observed).2.satisfies
      (observation (fromObservability worlds observed).2 r a atoms) r = false := by
  obtain ⟨w, -, here, -, -⟩ := (mem_relation_fromObservability sight).1 arc
  -- A world is related to itself too, so there are two, and both agree on all that is seen.
  have loop : (⟨r, r⟩ : Arc) ∈ (fromObservability worlds observed).2.relation a :=
    (mem_relation_fromObservability sight).2 ⟨w, w, here, here, fun _ _ => rfl⟩
  refine satisfies_observation_eq_false_iff.2 ⟨⟨s, r, apart, arc, loop⟩, fun t led p mem => ?_⟩
  obtain ⟨x, y, hx, hy, agreed⟩ := (mem_relation_fromObservability sight).1 led
  rw [valueOf_eq hx, valueOf_eq hy, agreed p (sub p mem)]

end Model

/-- **When observations are true.** Of any atoms an agent observes something at a world of a model,
and this has a truth value there. It is false exactly when arcs of the agent lead to at least two
worlds and all worlds they lead to give each of the atoms the value that it has at this world. -/
theorem observation_false_iff_several_agree (m : Model) (r : WorldRef) (a : Agent)
    (atoms : ExtTreeSet Atom) (live : m.contains r = true) :
    ∃ f b, Session.observationIn m r a atoms = .ok f ∧ f.evaluate (.pointed m r live) = .ok b ∧
      (b = false ↔
        (∃ s t, s ≠ t ∧ (⟨r, s⟩ : Arc) ∈ m.relation a ∧ (⟨r, t⟩ : Arc) ∈ m.relation a) ∧
        ∀ s, (⟨r, s⟩ : Arc) ∈ m.relation a → ∀ p ∈ atoms, m.valueOf s p = m.valueOf r p) :=
  ⟨observation m r a atoms, _, if_pos live, rfl, Model.satisfies_observation_eq_false_iff⟩

/-- An agent that sees `p` alone cannot tell two worlds apart that differ in `q`. Of `p` it observes
that it does not know it, which is false; of `q` it observes the same, and this is true. -/
theorem observation_false_iff_several_agree_two_worlds :
    let p : Atom := ⟨"p"⟩
    let q : Atom := ⟨"q"⟩
    let a : Agent := ⟨"a"⟩
    let v : Valuation := .set .empty p true
    let m : Model := (Model.fromObservability [⟨"u", v⟩, ⟨"w", v.set q true⟩]
      (ExtTreeMap.ofList [(a, ExtTreeSet.ofList [p])])).2
    let r : WorldRef := ⟨1, 1⟩
    ∃ live : m.contains r = true,
      (∃ f, Session.observationIn m r a (ExtTreeSet.ofList [p]) = .ok f ∧
        f.evaluate (.pointed m r live) = .ok false) ∧
      ∃ f, Session.observationIn m r a (ExtTreeSet.ofList [q]) = .ok f ∧
        f.evaluate (.pointed m r live) = .ok true := by
  intro p q a v m r
  have live : m.contains r = true := by decide +kernel
  have loop : (⟨r, r⟩ : Arc) ∈ m.relation a := by decide +kernel
  have other : (⟨r, ⟨2, 1⟩⟩ : Arc) ∈ m.relation a := by decide +kernel
  have agree : ∀ s ∈ m.accessible a r, ∀ x ∈ (ExtTreeSet.ofList [p]).toList,
      m.valueOf s x = m.valueOf r x := by decide +kernel
  have differ : m.valueOf ⟨2, 1⟩ q ≠ m.valueOf r q := by decide +kernel
  obtain ⟨f, b, observed, value, false_iff⟩ :=
    observation_false_iff_several_agree m r a (ExtTreeSet.ofList [p]) live
  obtain ⟨g, c, observed', value', false_iff'⟩ :=
    observation_false_iff_several_agree m r a (ExtTreeSet.ofList [q]) live
  have lies : b = false := by
    refine false_iff.2 ⟨⟨r, ⟨2, 1⟩, by decide, loop, other⟩, fun s led x mem => ?_⟩
    exact agree s (Model.mem_accessible.2 led) x (ExtTreeSet.mem_toList.2 mem)
  -- The other world differs in `q`, so not all worlds agree.
  have holds : c = true := Bool.eq_true_of_not_eq_false fun h =>
    differ ((false_iff'.1 h).2 ⟨2, 1⟩ other q (by decide +kernel))
  exact ⟨live, ⟨f, observed, lies ▸ value⟩, g, observed', holds ▸ value'⟩

end KnowledgePrograms
