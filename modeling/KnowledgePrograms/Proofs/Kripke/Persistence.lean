import KnowledgePrograms.Kripke.Observability
import KnowledgePrograms.Proofs.Formula.Meaning
import KnowledgePrograms.Proofs.Kripke.Pointing
import KnowledgePrograms.Proofs.Kripke.Sameness

/-! # Persistence of positive knowledge

A formula is positive if it says of agents what they know only, never what they do not know or
consider possible. Removing worlds takes alternatives from agents, and paths from groups, so what is
known stays known: a positive formula that is true at a world remains true there while the world is
left. An announced formula need not be true afterwards, as what it says may be that it is not known.
If it is positive, though, it is, and announcing it once more does nothing.

* `Formula.IsPositive`: formulas without modalities under conjunction, disjunction and knowledge.
* `Model.IsLeftOf.satisfies_of_positive`: positive formulas remain true.
* `Model.positive_persists`: runs of removals, and announcements of positive formulas. -/

namespace KnowledgePrograms

open Std (ExtTreeMap ExtTreeSet)

/-- The formula is made from formulas without modalities by conjunction, disjunction and knowledge
of agents and groups. -/
inductive Formula.IsPositive : Formula → Prop
  | plain {f : Formula} (h : f.isModal = false) : IsPositive f
  | and {fs : List Formula} (operands : ∀ f ∈ fs, IsPositive f) : IsPositive (.and fs)
  | or {fs : List Formula} (operands : ∀ f ∈ fs, IsPositive f) : IsPositive (.or fs)
  | knows {a : Agent} {f : Formula} (inner : IsPositive f) : IsPositive (.knows a f)
  | everyone {group : ExtTreeSet Agent} {f : Formula} (inner : IsPositive f) :
      IsPositive (.everyone group f)
  | common {group : ExtTreeSet Agent} {f : Formula} (inner : IsPositive f) :
      IsPositive (.common group f)

namespace Model

variable {m n : Model} {f : Formula} {r s : WorldRef}

/-! ## (1) What is left of a model -/

/-- A formula without modalities is true at a world of a submodel iff it is true there in the
model. -/
theorem IsSubmodel.satisfies_plain {kept : WorldRef → Prop} (h : n.IsSubmodel m kept)
    (live : n.contains r = true) (plain : f.isModal = false) :
    n.satisfies f r = m.satisfies f r := by
  obtain ⟨w, here⟩ := contains_iff_exists.1 live
  have there := ((h.world?_eq_some_iff r w).1 here).1
  -- Both truth values are found on the valuation of the world.
  have found := Formula.evaluateOn_eq_satisfies (Model.valueOf_eq here) plain
  rw [Formula.evaluateOn_eq_satisfies (Model.valueOf_eq there) plain] at found
  exact (Except.ok.inj found).symm

/-- The arcs that are left were there before. -/
theorem IsLeftOf.mem_relation (h : n.IsLeftOf m) {a : Agent} {arc : Arc}
    (left : arc ∈ n.relation a) : arc ∈ m.relation a :=
  ((h.mem_relation_iff a arc).1 left).1

/-- The paths of a group that are left were there before. -/
theorem IsLeftOf.path (h : n.IsLeftOf m) {group : ExtTreeSet Agent}
    (path : Relation.TransGen (n.Leads group) r s) : Relation.TransGen (m.Leads group) r s := by
  have arcs : ∀ x y, n.Leads group x y → m.Leads group x y :=
    fun _ _ ⟨a, mem, arc⟩ => ⟨a, mem, h.mem_relation arc⟩
  exact Relation.TransGen.mono arcs r s path

/-! ## (2) Positive formulas -/

/-- **Persistence.** At a world that is left a positive formula is true if it was true before. -/
theorem IsLeftOf.satisfies_of_positive (h : n.IsLeftOf m) (positive : f.IsPositive)
    (live : n.contains r = true) (before : m.satisfies f r = true) :
    n.satisfies f r = true := by
  induction positive generalizing r with
  | plain plain => rwa [h.satisfies_plain live plain]
  | and _ ih =>
    rw [satisfies_and_iff] at before ⊢
    exact fun f hf => ih f hf live (before f hf)
  | or _ ih =>
    rw [satisfies_or_iff] at before ⊢
    obtain ⟨f, hf, true_f⟩ := before
    exact ⟨f, hf, ih f hf live true_f⟩
  | @knows a _ _ ih =>
    rw [satisfies_knows_iff] at before ⊢
    intro s arc
    exact ih (n.within_relation a _ arc).2 (before s (h.mem_relation arc))
  | everyone _ ih =>
    rw [satisfies_everyone_iff] at before ⊢
    intro a mem s arc
    exact ih (n.within_relation a _ arc).2 (before a mem s (h.mem_relation arc))
  | common _ ih =>
    rw [satisfies_common_iff] at before ⊢
    intro s path
    exact ih (contains_of_mem_reachable (mem_reachable.2 path)) (before s (h.path path))

/-- Announcing what is true everywhere removes nothing. -/
theorem announce_of_forall (everywhere : ∀ r, m.contains r = true → m.satisfies f r = true) :
    m.announce f = ([], m) := by
  have none_refutes : m.refuting f = [] := by
    refine List.eq_nil_iff_forall_not_mem.2 fun r refutes => ?_
    obtain ⟨live, untrue⟩ := mem_refuting.1 refutes
    rw [everywhere r live] at untrue
    cases untrue
  rw [announce, none_refutes]
  exact congrArg (Prod.mk []) (m.keep_all fun r => by simp)

/-- A positive formula is true everywhere after it is announced. -/
theorem satisfies_announce_self (positive : f.IsPositive)
    (live : (m.announce f).2.contains r = true) : (m.announce f).2.satisfies f r = true := by
  have left := m.isSubmodel_announce f
  exact left.isLeftOf.satisfies_of_positive positive live (left.contains_iff.1 live).2

/-- **Positive knowledge persists.** Whatever removals are made, at a world that is left a positive
formula evaluates to true if it did before. So after a positive formula is announced it is true
everywhere, and announcing it again removes nothing and leaves the same model. -/
theorem positive_persists (m : Model) (f : Formula) (positive : f.IsPositive) :
    (∀ (removals : List Removal) (r : WorldRef)
        (survives : (m.removeAll removals).contains r = true),
      ∃ live : m.contains r = true, f.evaluate (.pointed m r live) = .ok true →
        f.evaluate (.pointed (m.removeAll removals) r survives) = .ok true) ∧
    (∀ (r : WorldRef) (live : (m.announce f).2.contains r = true),
      f.evaluate (.pointed (m.announce f).2 r live) = .ok true) ∧
    ((m.announce f).2.announce f).1 = [] ∧
    ((m.announce f).2.announce f).2.sameAs (m.announce f).2 = true := by
  have again : (m.announce f).2.announce f = ([], (m.announce f).2) :=
    announce_of_forall fun _ => satisfies_announce_self positive
  refine ⟨fun removals r survives => ?_, fun r live => ?_, ?_, ?_⟩
  · have left := m.isLeftOf_removeAll removals
    refine ⟨left.contains survives, fun before => congrArg Except.ok ?_⟩
    exact left.satisfies_of_positive positive survives (Except.ok.inj before)
  · exact congrArg Except.ok (satisfies_announce_self positive live)
  · rw [again]
  · rw [again]
    exact sameAs_self _

/-- The worlds with `p` or `q` or both. One agent sees `p` and the other `q`. -/
def oneOfTwo : Model :=
  let observed := (∅ : ExtTreeMap Agent (ExtTreeSet Atom)).insert ⟨"a"⟩ {(⟨"p"⟩ : Atom)}
  let all := (Model.fromObservability (World.allValuations [⟨"p"⟩, ⟨"q"⟩])
    (observed.insert ⟨"b"⟩ {(⟨"q"⟩ : Atom)})).2
  (all.announce (.or [.atom ⟨"p"⟩, .atom ⟨"q"⟩])).2

/-- That `p` or `q` is common knowledge and the first agent knows `p` remains true where both are
while the other two worlds are removed, one by an announcement. Announced, it removes the world
without `p`, and no world when it is announced again. -/
theorem positive_persists_oneOfTwo :
    let p : Formula := .atom ⟨"p"⟩
    let both : ExtTreeSet Agent := {(⟨"a"⟩ : Agent), (⟨"b"⟩ : Agent)}
    let known : Formula := .and [.common both (.or [p, .atom ⟨"q"⟩]), .knows ⟨"a"⟩ p]
    let removals : List Removal := [.announcement (.not (.knows ⟨"b"⟩ p)), .world ⟨2, 1⟩]
    known.IsPositive ∧
    (∃ (live : oneOfTwo.contains ⟨4, 1⟩ = true)
        (survives : (oneOfTwo.removeAll removals).contains ⟨4, 1⟩ = true),
      known.evaluate (.pointed oneOfTwo ⟨4, 1⟩ live) = .ok true ∧
      known.evaluate (.pointed (oneOfTwo.removeAll removals) ⟨4, 1⟩ survives) = .ok true) ∧
    (oneOfTwo.announce known).1 = [⟨2, 1⟩] ∧
    ((oneOfTwo.announce known).2.announce known).1 = [] := by
  intro p both known removals
  have positive : known.IsPositive := by
    refine .and fun f hf => ?_
    rcases List.mem_pair.1 hf with rfl | rfl
    · exact .common (.plain rfl)
    · exact .knows (.plain rfl)
  have survives : (oneOfTwo.removeAll removals).contains ⟨4, 1⟩ = true := by decide +kernel
  have holds : oneOfTwo.satisfies known ⟨4, 1⟩ = true := by decide +kernel
  have removed : (oneOfTwo.announce known).1 = [⟨2, 1⟩] := by decide +kernel
  obtain ⟨persists, -, again, -⟩ := positive_persists oneOfTwo known positive
  obtain ⟨live, remains⟩ := persists removals ⟨4, 1⟩ survives
  have before : known.evaluate (.pointed oneOfTwo ⟨4, 1⟩ live) = .ok true :=
    congrArg Except.ok holds
  exact ⟨positive, ⟨live, survives, before, remains before⟩, removed, again⟩

end Model

end KnowledgePrograms
