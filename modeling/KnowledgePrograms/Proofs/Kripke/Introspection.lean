import KnowledgePrograms.Proofs.Formula.Truth
import KnowledgePrograms.Proofs.Kripke.Pairing
import KnowledgePrograms.Proofs.Kripke.Removal
import KnowledgePrograms.Proofs.Kripke.Semantics

/-! # True and introspective knowledge

An agent whose arcs are an equivalence between the worlds of a model knows only what is true, knows
what it knows, and knows what it does not know: its knowledge is that of the logic S5. In a model
made from what agents observe the arcs are such an equivalence, two worlds being alike for an agent
when they agree on all that it observes, whichever of them is compared with the other. Removals
leave it one, as they leave the worlds and the arcs between them.

* `Model.Alike`: the worlds that an agent cannot tell apart.
* `satisfies_factive`, `satisfies_positive`, `satisfies_negative`: knowledge over an equivalence.
* `equivalence_alike_removeAll`: observation gives an equivalence, whatever is removed.
* `knowledge_introspective`: knowledge in models made from what agents observe. -/

namespace KnowledgePrograms

open Std (ExtTreeMap ExtTreeSet)

namespace Model

variable {m n : Model} {a : Agent} {r : WorldRef}

/-! ## (1) Knowledge over an equivalence -/

/-- The agent cannot tell the two worlds of the model apart. -/
def Alike (m : Model) (a : Agent) (r s : { r : WorldRef // m.contains r = true }) : Prop :=
  (⟨r, s⟩ : Arc) ∈ m.relation a

/-- What is known is true. -/
theorem satisfies_factive (alike : Equivalence (m.Alike a)) (live : m.contains r = true)
    (f : Formula) : m.satisfies (.imp (.knows a f) f) r = true := by
  rw [satisfies_imp_iff, satisfies_knows_iff]
  intro known
  exact known r (alike.refl ⟨r, live⟩)

/-- What is known is known to be known. -/
theorem satisfies_positive (alike : Equivalence (m.Alike a)) (live : m.contains r = true)
    (f : Formula) : m.satisfies (.imp (.knows a f) (.knows a (.knows a f))) r = true := by
  simp only [satisfies_imp_iff, satisfies_knows_iff]
  intro known s hs t ht
  have live_s := (m.within_relation a _ hs).2
  have live_t := (m.within_relation a _ ht).2
  -- Two steps of an agent are one.
  have far : m.Alike a ⟨r, live⟩ ⟨t, live_t⟩ := alike.trans (y := ⟨s, live_s⟩) hs ht
  exact known t far

/-- What is not known is known not to be known. -/
theorem satisfies_negative (alike : Equivalence (m.Alike a)) (live : m.contains r = true)
    (f : Formula) :
    m.satisfies (.imp (.not (.knows a f)) (.knows a (.not (.knows a f)))) r = true := by
  simp only [satisfies_imp_iff, satisfies_not_iff, satisfies_knows_iff]
  intro unknown s hs known
  have live_s := (m.within_relation a _ hs).2
  apply unknown
  intro t ht
  have live_t := (m.within_relation a _ ht).2
  -- What `r` leads to, `s` leads to by way of `r`.
  have back : m.Alike a ⟨s, live_s⟩ ⟨r, live⟩ := alike.symm hs
  have far : m.Alike a ⟨s, live_s⟩ ⟨t, live_t⟩ := alike.trans back (z := ⟨t, live_t⟩) ht
  exact known t far

/-! ## (2) Observation -/

variable {worlds : List World} {observed : ExtTreeMap Agent (ExtTreeSet Atom)}
  {atoms : ExtTreeSet Atom}

/-- An equivalence between the worlds of a model is one between the worlds that are left of it. -/
theorem IsLeftOf.equivalence_alike (left : n.IsLeftOf m) (alike : Equivalence (m.Alike a)) :
    Equivalence (n.Alike a) := by
  have same : ∀ r s : { r : WorldRef // n.contains r = true },
      n.Alike a r s ↔ m.Alike a ⟨r, left.contains r.2⟩ ⟨s, left.contains s.2⟩ := by
    intro r s
    have arcs := left.mem_relation_iff a ⟨r, s⟩
    simp only [r.2, s.2, and_true] at arcs
    exact arcs
  refine ⟨?_, ?_, ?_⟩
  · intro r
    exact (same r r).2 (alike.refl _)
  · intro r s h
    exact (same s r).2 (alike.symm ((same r s).1 h))
  · intro r s t h h'
    exact (same r t).2 (alike.trans ((same r s).1 h) ((same s t).1 h'))

/-- Worlds that agree on what the agent observes are alike, and no others. -/
theorem alike_fromObservability_iff (sight : observed[a]? = some atoms)
    {r s : { r : WorldRef // (fromObservability worlds observed).2.contains r = true }} :
    (fromObservability worlds observed).2.Alike a r s ↔
      ∀ p ∈ atoms, (fromObservability worlds observed).2.valueOf r p
        = (fromObservability worlds observed).2.valueOf s p := by
  obtain ⟨w, hw⟩ := contains_iff_exists.1 r.2
  obtain ⟨v, hv⟩ := contains_iff_exists.1 s.2
  rw [Alike, mem_relation_iff_agreeOn sight, agreeOn_iff]
  simp [valueOf, hw, hv, World.valuesOf]

/-- In a model made from what agents observe the arcs of an agent that observes some atoms are an
equivalence, whatever is removed. -/
theorem equivalence_alike_removeAll (sight : observed[a]? = some atoms)
    (removals : List Removal) :
    Equivalence (((fromObservability worlds observed).2.removeAll removals).Alike a) := by
  refine (isLeftOf_removeAll _ removals).equivalence_alike ⟨?_, ?_, ?_⟩
  · intro r
    rw [alike_fromObservability_iff sight]
    exact fun _ _ => rfl
  · intro r s
    rw [alike_fromObservability_iff sight, alike_fromObservability_iff sight]
    exact fun h p hp => (h p hp).symm
  · intro r s t
    rw [alike_fromObservability_iff sight, alike_fromObservability_iff sight,
      alike_fromObservability_iff sight]
    exact fun h h' p hp => (h p hp).trans (h' p hp)

/-- An arc of an agent joins worlds that agree on what the agent observes. -/
theorem valueOf_eq_of_mem_relation_removeAll (sight : observed[a]? = some atoms)
    (removals : List Removal) {arc : Arc}
    (hArc : arc ∈ ((fromObservability worlds observed).2.removeAll removals).relation a)
    {p : Atom} (hp : p ∈ atoms) :
    ((fromObservability worlds observed).2.removeAll removals).valueOf arc.source p
      = ((fromObservability worlds observed).2.removeAll removals).valueOf arc.target p := by
  have left := isLeftOf_removeAll (fromObservability worlds observed).2 removals
  obtain ⟨old, source, target⟩ := (left.mem_relation_iff a arc).1 hArc
  have agree := (alike_fromObservability_iff (r := ⟨arc.source, left.contains source⟩)
    (s := ⟨arc.target, left.contains target⟩) sight).1 old
  rw [left.valueOf_eq source, left.valueOf_eq target]
  exact agree p hp

/-- An agent knows of every atom that it observes whether it is true. -/
theorem satisfies_knows_or_knows_not (sight : observed[a]? = some atoms) (removals : List Removal)
    {p : Atom} (hp : p ∈ atoms) (r : WorldRef) :
    ((fromObservability worlds observed).2.removeAll removals).satisfies
      (.disjunction [.knows a (.atom p), .knows a (.not (.atom p))]) r = true := by
  rw [satisfies_disjunction, List.any_eq_true]
  have same : ∀ s, (⟨r, s⟩ : Arc) ∈ ((fromObservability worlds observed).2.removeAll
      removals).relation a → _ := fun s hs =>
    valueOf_eq_of_mem_relation_removeAll sight removals hs hp
  by_cases here : ((fromObservability worlds observed).2.removeAll removals).valueOf r p = true
  · refine ⟨.knows a (.atom p), by simp, (satisfies_knows_iff _ _).2 fun s hs => ?_⟩
    rw [satisfies, ← same s hs, here]
  · refine ⟨.knows a (.not (.atom p)), by simp, (satisfies_knows_iff _ _).2 fun s hs => ?_⟩
    rw [satisfies_not_iff, satisfies, ← same s hs]
    exact here

/-- **Knowledge is true and introspective.** Take a model made from worlds and from what agents
observe, and remove worlds from it in any way. The arcs of an agent that observes some atoms join
worlds of the model and are an equivalence between them. So at every world what the agent knows is
true, what it knows it knows to be known, what it does not know it knows not to be known, and of
every atom that it observes it knows whether it is true. -/
theorem knowledge_introspective (worlds : List World)
    (observed : ExtTreeMap Agent (ExtTreeSet Atom)) (removals : List Removal) (a : Agent)
    (atoms : ExtTreeSet Atom) (sight : observed[a]? = some atoms) :
    let m := (fromObservability worlds observed).2.removeAll removals
    Equivalence (m.Alike a) ∧
    (∀ arc ∈ m.relation a, m.contains arc.source = true ∧ m.contains arc.target = true) ∧
    ∀ (r : WorldRef) (live : m.contains r = true),
      (∀ f : Formula,
        (Formula.imp (.knows a f) f).evaluate (.pointed m r live) = .ok true ∧
        (Formula.imp (.knows a f) (.knows a (.knows a f))).evaluate (.pointed m r live)
          = .ok true ∧
        (Formula.imp (.not (.knows a f)) (.knows a (.not (.knows a f)))).evaluate
          (.pointed m r live) = .ok true) ∧
      ∀ p ∈ atoms, (Formula.disjunction [.knows a (.atom p), .knows a (.not (.atom p))]).evaluate
        (.pointed m r live) = .ok true := by
  intro m
  have alike : Equivalence (m.Alike a) := equivalence_alike_removeAll sight removals
  refine ⟨alike, m.within_relation a, fun r live => ⟨fun f => ⟨?_, ?_, ?_⟩, fun p hp => ?_⟩⟩
  · exact congrArg Except.ok (satisfies_factive alike live f)
  · exact congrArg Except.ok (satisfies_positive alike live f)
  · exact congrArg Except.ok (satisfies_negative alike live f)
  · exact congrArg Except.ok (satisfies_knows_or_knows_not sight removals hp r)

/-- The worlds of two atoms, of which the agent observes the first. One of them is removed, and then
that `q` is unknown is announced. At the world with `p` alone the agent knows `p`, does not know `q`
and knows that it does not. -/
theorem knowledge_introspective_two_atoms :
    let p : Atom := ⟨"p"⟩
    let q : Formula := .atom ⟨"q"⟩
    let a : Agent := ⟨"a"⟩
    let observed := (∅ : ExtTreeMap Agent (ExtTreeSet Atom)).insert a {p}
    let removals : List Removal := [.world ⟨1, 1⟩, .announcement (.not (.knows a q))]
    let m := (fromObservability (World.allValuations [p, ⟨"q"⟩]) observed).2.removeAll removals
    observed[a]? = some {p} ∧ m.refs = [⟨3, 1⟩, ⟨4, 1⟩] ∧ Equivalence (m.Alike a) ∧
      m.satisfies (.knows a (.atom p)) ⟨3, 1⟩ = true ∧ m.satisfies (.knows a q) ⟨3, 1⟩ = false ∧
      m.satisfies (.knows a (.not (.knows a q))) ⟨3, 1⟩ = true := by
  intro p q a observed removals m
  have sight : observed[a]? = some {p} := ExtTreeMap.getElem?_insert_self
  have refs : m.refs = [⟨3, 1⟩, ⟨4, 1⟩] := by decide +kernel
  have known : m.satisfies (.knows a (.atom p)) ⟨3, 1⟩ = true := by decide +kernel
  have unknown : m.satisfies (.knows a q) ⟨3, 1⟩ = false := by decide +kernel
  have live : m.contains ⟨3, 1⟩ = true := contains_iff.2 (by simp [refs])
  obtain ⟨alike, -, laws⟩ := knowledge_introspective (World.allValuations [p, ⟨"q"⟩]) observed
    removals a {p} sight
  obtain ⟨-, -, negative⟩ := (laws ⟨3, 1⟩ live).1 q
  have negative : m.satisfies (.imp (.not (.knows a q)) (.knows a (.not (.knows a q)))) ⟨3, 1⟩
      = true := Except.ok.inj negative
  refine ⟨sight, refs, alike, known, unknown, (satisfies_imp_iff _ _).1 negative ?_⟩
  rw [satisfies_not_iff, unknown]
  decide

end Model

end KnowledgePrograms
