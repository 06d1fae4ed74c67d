import KnowledgePrograms.Program.Explanation
import KnowledgePrograms.Proofs.Formula.Truth

/-! # The vocabulary of explanations

An explanation is put together from the conditions of a program and their negations, and is then
normalised. As none of this brings anything into a formula, an explanation speaks of what the
conditions speak of: of their atoms, and of knowledge only if one of them does. So the explanations
of a program without modalities can be evaluated on a valuation alone.

* `Program.exists_rule_of_explain`: what occurs in an explanation occurs in some condition.
* `Program.isModal_explain`, `Program.mem_atoms_explain`: the modality and the atoms of
  explanations.
* `passes_and_explanations_keep_vocabulary`: the vocabulary of all that formulas are turned into. -/

namespace KnowledgePrograms

namespace Program

/-- No condition has a modality. -/
def Plain (p : Program) : Prop := ∀ rule ∈ p.rules, rule.condition.isModal = false

variable {p : Program} {name : String} {limit : Nat} {e : Formula} {kind : Atom → Bool}
  {modal : Bool}

/-- What occurs in a place of an action occurs in what is excluded so far or in a condition. -/
theorem exists_of_mem_cases {default : Option Action} {excluded : List Formula}
    {rules : List Rule} {f : Formula} (place : f ∈ cases name default excluded rules)
    (found : (Reading.somewhere kind modal).read f = true) :
    (∃ g ∈ excluded, (Reading.somewhere kind modal).read g = true) ∨
      ∃ rule ∈ rules, (Reading.somewhere kind modal).read rule.condition = true := by
  induction rules generalizing excluded with
  | nil =>
    -- The only place left is the default, which is taken when all that is excluded holds.
    cases default with
    | none => simp [cases] at place
    | some action =>
      rw [cases] at place
      split at place
      · obtain rfl := List.mem_singleton.1 place
        rw [Reading.somewhere_conjunction, List.any_eq_true] at found
        exact .inl found
      · cases place
  | cons rule rest ih =>
    -- In the later places the negated condition is excluded too, with nothing new in it.
    have later : f ∈ cases name default (excluded ++ [rule.condition.negate]) rest →
        (∃ g ∈ excluded, (Reading.somewhere kind modal).read g = true) ∨
          ∃ other ∈ rule :: rest,
            (Reading.somewhere kind modal).read other.condition = true := by
      intro place
      rcases ih place with ⟨g, hg, foundThere⟩ | ⟨other, hOther, foundThere⟩
      · rcases List.mem_append.1 hg with hg | hg
        · exact .inl ⟨g, hg, foundThere⟩
        · obtain rfl := List.mem_singleton.1 hg
          rw [Reading.somewhere_negate] at foundThere
          exact .inr ⟨rule, List.mem_cons_self, foundThere⟩
      · exact .inr ⟨other, List.mem_cons_of_mem _ hOther, foundThere⟩
    rw [cases] at place
    split at place
    · rcases List.mem_cons.1 place with rfl | place
      · rw [Reading.somewhere_conjunction, List.any_append, Bool.or_eq_true, List.any_eq_true,
          List.any_cons, List.any_nil, Bool.or_false] at found
        exact found.imp_right fun foundHere => ⟨rule, List.mem_cons_self, foundHere⟩
      · exact later place
    · exact later place

/-- What occurs in an explanation occurs in some condition of the program. -/
theorem exists_rule_of_explain (explained : p.explain name limit = some e)
    (found : (Reading.somewhere kind modal).read e = true) :
    ∃ rule ∈ p.rules, (Reading.somewhere kind modal).read rule.condition = true := by
  rw [explain] at explained
  split at explained
  · cases explained
  · obtain rfl := Option.some.inj explained
    rw [Reading.somewhere_normalise, Reading.somewhere_disjunction, List.any_eq_true] at found
    obtain ⟨f, place, foundThere⟩ := found
    rcases exists_of_mem_cases place foundThere with ⟨g, hg, -⟩ | inRules
    · exact absurd hg List.not_mem_nil
    · exact inRules

/-- Without modalities in the conditions there are none in an explanation. -/
theorem isModal_explain (plain : p.Plain) (explained : p.explain name limit = some e) :
    e.isModal = false := by
  rw [← Bool.not_eq_true, Formula.isModal_eq_read]
  intro found
  obtain ⟨rule, hRule, foundThere⟩ := exists_rule_of_explain explained found
  rw [← Formula.isModal_eq_read, plain rule hRule] at foundThere
  cases foundThere

/-- An atom of an explanation is an atom of some condition. -/
theorem mem_atoms_explain (explained : p.explain name limit = some e) {q : Atom}
    (mem : q ∈ e.atoms) : ∃ rule ∈ p.rules, q ∈ rule.condition.atoms := by
  simp only [Formula.mem_atoms_iff_read] at mem ⊢
  exact exists_rule_of_explain explained mem

/-- **Nothing is brought in or lost.** A formula that is simplified, negated or normalised has the
atoms that it had and is modal just if it was. So explanations are free of modalities if all
conditions of the program are, and each of their atoms is one of some condition. -/
theorem passes_and_explanations_keep_vocabulary :
    (∀ (f : Formula) (limit : Nat),
      (f.simplify.atoms = f.atoms ∧ f.simplify.isModal = f.isModal) ∧
      (f.negate.atoms = f.atoms ∧ f.negate.isModal = f.isModal) ∧
      (f.normalise limit).atoms = f.atoms ∧ (f.normalise limit).isModal = f.isModal) ∧
    ∀ (p : Program) (name : String) (limit : Nat) (e : Formula),
      p.explain name limit = some e →
      (p.Plain → e.isModal = false) ∧
      ∀ q ∈ e.atoms, ∃ rule ∈ p.rules, q ∈ rule.condition.atoms := by
  constructor
  · intro f limit
    exact ⟨⟨f.atoms_simplify, f.isModal_simplify⟩, ⟨f.atoms_negate, f.isModal_negate⟩,
      f.atoms_normalise limit, f.isModal_normalise limit⟩
  · intro p name limit e explained
    exact ⟨fun plain => isModal_explain plain explained,
      fun q mem => mem_atoms_explain explained mem⟩

/-- The explanation of the second of two actions has the atoms of both conditions, also of the first
one, which is an equivalence and is taken apart when it is negated. -/
theorem passes_and_explanations_keep_vocabulary_iff :
    let first : Formula := .iff (.atom ⟨"p"⟩) (.atom ⟨"q"⟩)
    let p : Program :=
      ⟨[⟨first, .utterance "act" ""⟩, ⟨.atom ⟨"r"⟩, .utterance "other" ""⟩], none⟩
    (first.negate.normalise 1).atoms.toList = [⟨"p"⟩, ⟨"q"⟩] ∧
      ∃ e, p.explain "other" 1 = some e ∧ e.isModal = false ∧
        e.atoms.toList = [⟨"p"⟩, ⟨"q"⟩, ⟨"r"⟩] ∧
        ∀ q ∈ e.atoms, ∃ rule ∈ p.rules, q ∈ rule.condition.atoms := by
  intro first p
  obtain ⟨passes, explanations⟩ := passes_and_explanations_keep_vocabulary
  have negated := (passes first.negate 1).2.2.1.trans (passes first 1).2.1.1
  have plain : p.Plain := by
    intro rule hRule
    simp only [p, List.mem_cons, List.not_mem_nil, or_false] at hRule
    rcases hRule with rfl | rfl <;> rfl
  obtain ⟨e, explained⟩ : ∃ e, p.explain "other" 1 = some e := ⟨_, rfl⟩
  obtain ⟨plainThere, atoms⟩ := explanations p "other" 1 e explained
  refine ⟨?_, e, explained, plainThere plain, ?_, atoms⟩
  · rw [negated]
    decide +kernel
  · obtain rfl := Option.some.inj explained
    decide +kernel

end Program

end KnowledgePrograms
