import Mathlib.Data.List.Find
import KnowledgePrograms.Proofs.Kripke.Pointing
import KnowledgePrograms.Proofs.Kripke.Sameness

/-! # The comparison of models is a congruence

Models that compare as the same may differ in which false atoms their worlds record, and in which
slots are free. Neither shows in what is done with the worlds that the models have: formulas
evaluate alike, names lead to the same worlds, and announcing, removing and closing give the same
results and leave models that compare as the same again. Only the reference of a world that is
added depends on the free slots, so adding worlds is left out here.

* `Model.sameAs_iff_alike`: which models compare as the same.
* `Model.Same.evaluateAt_eq`, `Model.Same.findWorld_eq`, `Model.Same.keep`, `Model.Same.addLoops`,
  `Model.Same.addConverses`: what is done with models that are the same.
* `Model.sameAs_congruence`: the comparison is an equivalence, and all of this respects it. -/

namespace KnowledgePrograms

open Std (ExtTreeMap ExtTreeSet)

/-- The facts of two worlds are the same iff they have one name and give each atom the same
value. -/
theorem World.facts_eq_iff {w v : World} : w.facts = v.facts ↔
    w.name = v.name ∧ ∀ p, w.valuation.valueOf p = v.valuation.valueOf p := by
  rw [facts, facts, Prod.mk.injEq, Valuation.trueAtoms_eq_iff]

namespace Model

variable {m n : Model}

/-! ## (1) Which models compare as the same -/

/-- Models are the same iff they have the same frame and agents, with the same facts at each
world. -/
theorem same_iff : m.Same n ↔ m.SameFrame n ∧ m.agents = n.agents ∧
    ∀ r w v, m.world? r = some w → n.world? r = some v → w.facts = v.facts := by
  constructor
  · intro h
    refine ⟨h.frame, congrArg ExtTreeMap.keys h.relations_eq, fun r w v hw hv => ?_⟩
    have facts := h.facts_eq r
    rw [facts?, facts?, hw, hv] at facts
    exact Option.some.inj facts
  · rintro ⟨frame, agents, alike⟩
    refine ⟨fun r => ?_, relations_ext agents frame.mem_relation_iff⟩
    have live := frame.contains_eq r
    rw [contains_eq_isSome_facts?, contains_eq_isSome_facts?] at live
    -- There are facts in both models or in neither.
    cases hw : m.world? r with
    | none =>
      rw [facts?, hw, Option.map_none, Option.isSome_none, eq_comm, Option.isSome_eq_false_iff,
        Option.isNone_iff_eq_none] at live
      rw [facts?, hw, live, Option.map_none]
    | some w =>
      cases hv : n.world? r with
      | none =>
        rw [facts?, facts?, hw, hv] at live
        cases live
      | some v => rw [facts?, facts?, hw, hv, Option.map_some, Option.map_some, alike r w v hw hv]

/-- **Comparison, spelled out.** Models compare as the same iff they have worlds at the same
references and the same arcs, the same agents, and at each reference worlds of one name at which
the same atoms are true. -/
theorem sameAs_iff_alike : m.sameAs n = true ↔ m.SameFrame n ∧ m.agents = n.agents ∧
    ∀ r w v, m.world? r = some w → n.world? r = some v →
      w.name = v.name ∧ ∀ p, w.valuation.valueOf p = v.valuation.valueOf p := by
  rw [sameAs_iff, same_iff]
  simp only [World.facts_eq_iff]

/-- Comparing as the same is an equivalence. -/
theorem sameAs_equivalence : Equivalence fun m n : Model => m.sameAs n = true where
  refl := sameAs_self
  symm h := sameAs_iff.2 (sameAs_iff.1 h).symm
  trans h h' := sameAs_iff.2 ((sameAs_iff.1 h).trans (sameAs_iff.1 h'))

/-! ## (2) Reading models -/

/-- At each reference, also at one to no world, formulas evaluate alike in models that are the
same. -/
theorem Same.evaluateAt_eq (h : m.Same n) (f : Formula) (r : WorldRef) :
    (m.contextAt r >>= f.evaluateIn) = (n.contextAt r >>= f.evaluateIn) := by
  -- Either both models have a world there or pointing there fails in both.
  cases live : m.contains r with
  | true =>
    have live' : n.contains r = true := (h.contains_eq r).symm.trans live
    rw [contextAt_of_contains live, contextAt_of_contains live']
    show f.evaluateIn (.pointed m r live) = f.evaluateIn (.pointed n r live')
    rw [f.evaluateIn_pointed, f.evaluateIn_pointed, h.satisfies_eq]
  | false =>
    have missing : ¬ m.contains r = true := by simp [live]
    have missing' : ¬ n.contains r = true := by rwa [← h.contains_eq]
    rw [contextAt, contextAt, dif_neg missing, dif_neg missing']

/-- A name leads to the first reference to a world whose facts have it. -/
theorem findWorld_eq (m : Model) (name : String) : m.findWorld name =
    match m.refs.find? fun r => (m.facts? r).any fun x => x.1 == name with
    | some r => .ok r
    | none => .error (.unnamedWorld name) := by
  -- Among the entries of the table a world with the name is one whose facts have it, and which
  -- entry it is can be told from the references alone.
  have named : (m.worlds.live.toList.find? fun e =>
      (m.facts? e.1).any fun x => x.1 == name)
        = m.worlds.live.toList.find? fun e => e.2.name == name := by
    refine List.find?_congr fun e he => ?_
    have here : m.world? e.1 = some e.2 := ExtTreeMap.mem_toList_iff_getElem?_eq_some.1 he
    rw [facts?, here]
    rfl
  have refs : m.refs = m.worlds.live.toList.map Prod.fst := ExtTreeMap.map_fst_toList_eq_keys.symm
  rw [findWorld, refs, List.find?_map, ← named, Function.comp_def]
  cases m.worlds.live.toList.find? fun e => (m.facts? e.1).any fun x => x.1 == name <;> rfl

/-- Names lead to the same worlds in models that are the same. -/
theorem Same.findWorld_eq (h : m.Same n) (name : String) : m.findWorld name = n.findWorld name := by
  simp only [Model.findWorld_eq, h.frame.refs_eq, h.facts_eq]

/-! ## (3) Changing models -/

/-- Keeping the worlds that pass a test leaves models that are the same. -/
theorem Same.keep (h : m.Same n) (p : WorldRef → Bool) : (m.keep p).Same (n.keep p) :=
  h.submodel (m.isSubmodel_keep p) (n.isSubmodel_keep p) fun _ _ => Iff.rfl

/-- The world that is at a reference compares as equal in models that are the same. -/
theorem Same.world?_beq (h : m.Same n) (r : WorldRef) : (m.world? r == n.world? r) = true := by
  have facts := h.facts_eq r
  cases here : n.world? r with
  | none =>
    rw [facts?, facts?, here, Option.map_none, Option.map_eq_none_iff] at facts
    rw [facts]
    rfl
  | some w => rw [world?_beq_some_iff, facts, facts?, here, Option.map_some]

/-- Models that are the same stay the same when loops are added. -/
theorem Same.addLoops (h : m.Same n) : m.addLoops.Same n.addLoops where
  facts_eq := h.facts_eq
  relations_eq := by
    show (m.relations.map fun _ r => (r.addLoops m.refs).2)
      = n.relations.map fun _ r => (r.addLoops n.refs).2
    rw [h.relations_eq, h.frame.refs_eq]

/-- Models that are the same stay the same when converses are added. -/
theorem Same.addConverses (h : m.Same n) : m.addConverses.Same n.addConverses where
  facts_eq := h.facts_eq
  relations_eq := by
    show (m.relations.map fun _ r => r.addConverses.2) = n.relations.map fun _ r => r.addConverses.2
    rw [h.relations_eq]

/-! ## (4) The congruence -/

/-- What is done with one of the models has the same results when it is done with the other, and
leaves models that compare as the same. -/
structure Interchangeable (m n : Model) : Prop where
  /-- Formulas evaluate alike at each reference, also at one to no world. -/
  evaluateAt_eq : ∀ (f : Formula) (r : WorldRef),
    (m.contextAt r >>= f.evaluateIn) = (n.contextAt r >>= f.evaluateIn)
  /-- Names lead to the same worlds. -/
  findWorld_eq : ∀ name, m.findWorld name = n.findWorld name
  /-- Announcing a formula removes the same worlds. -/
  announce : ∀ f : Formula, ∃ gone left left', m.announceIn f = .ok (gone, left) ∧
    n.announceIn f = .ok (gone, left') ∧ left.sameAs left' = true
  /-- Worlds that compare as equal are removed, if any. -/
  remove : ∀ r, (m.world? r == n.world? r) = true ∧
    (m.removeWorld r).sameAs (n.removeWorld r) = true
  /-- As many loops are added for each agent. -/
  addLoops : (∀ a, ((m.relation a).addLoops m.refs).1 = ((n.relation a).addLoops n.refs).1) ∧
    m.addLoops.sameAs n.addLoops = true
  /-- As many converses are added for each agent. -/
  addConverses : (∀ a, (m.relation a).addConverses.1 = (n.relation a).addConverses.1) ∧
    m.addConverses.sameAs n.addConverses = true

/-- Models that are the same are interchangeable. -/
theorem Same.interchangeable (h : m.Same n) : m.Interchangeable n where
  evaluateAt_eq := h.evaluateAt_eq
  findWorld_eq := h.findWorld_eq
  announce f := by
    obtain ⟨gone, left⟩ := h.announce f
    refine ⟨(m.announce f).1, (m.announce f).2, (n.announce f).2, m.announceIn_eq f, ?_,
      sameAs_iff.2 left⟩
    rw [gone]
    exact n.announceIn_eq f
  remove r := ⟨h.world?_beq r, sameAs_iff.2 (h.keep (· != r))⟩
  addLoops := by
    refine ⟨fun a => ?_, sameAs_iff.2 h.addLoops⟩
    rw [h.relation_eq, h.frame.refs_eq]
  addConverses := by
    refine ⟨fun a => ?_, sameAs_iff.2 h.addConverses⟩
    rw [h.relation_eq]

/-- **The comparison of models is a congruence.** It is an equivalence. It holds of two models iff
they have worlds at the same references and the same arcs, the same agents, and at each reference
worlds of one name at which the same atoms are true. And models of which it holds are
interchangeable when formulas are evaluated, worlds looked up by name, formulas announced, worlds
removed and relations closed. -/
theorem sameAs_congruence :
    (Equivalence fun m n : Model => m.sameAs n = true) ∧
    ∀ m n : Model,
      (m.sameAs n = true ↔ m.SameFrame n ∧ m.agents = n.agents ∧
        ∀ r w v, m.world? r = some w → n.world? r = some v →
          w.name = v.name ∧ ∀ p, w.valuation.valueOf p = v.valuation.valueOf p) ∧
      (m.sameAs n = true → m.Interchangeable n) :=
  ⟨sameAs_equivalence, fun _ _ => ⟨sameAs_iff_alike, fun h => (sameAs_iff.1 h).interchangeable⟩⟩

/-- A model with a false atom on record and a slot that has come free compares as the same as one
without either, and so the two are interchangeable, though their texts and the references that they
hand out next are not the same. -/
theorem sameAs_congruence_false_atom :
    let v : Valuation := .set .empty ⟨"p"⟩ true
    let m : Model := ((Model.empty.addWorld ⟨"w", v⟩).addAgent ⟨"a"⟩).addLoops
    let two : Model := (Model.empty.addWorld ⟨"w", v.set ⟨"q"⟩ false⟩).addWorld ⟨"x", v⟩
    let n : Model := (two.addAgent ⟨"a"⟩).addLoops.removeWorld ⟨2, 1⟩
    m.text ≠ n.text ∧ m.fresh ≠ n.fresh ∧
      m.sameAs n = true ∧ n.sameAs m = true ∧ m.SameFrame n ∧ m.Interchangeable n := by
  intro v m two n
  obtain ⟨equivalence, compared⟩ := sameAs_congruence
  have same : m.sameAs n = true := by decide +kernel
  exact ⟨by decide +kernel, by decide +kernel, same, equivalence.symm same,
    ((compared m n).1.1 same).1, (compared m n).2 same⟩

end Model

end KnowledgePrograms
