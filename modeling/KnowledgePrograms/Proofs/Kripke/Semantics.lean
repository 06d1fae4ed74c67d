import KnowledgePrograms.Kripke.Draft
import KnowledgePrograms.Kripke.Satisfaction
import KnowledgePrograms.Proofs.Formula.Reading
import KnowledgePrograms.Proofs.Kripke.Search

/-! # Truth as satisfaction

`Model.Holds` says what it is for a world of a Kripke model to satisfy a formula: the atoms of a
world are those that its valuation records as true, connectives are classical, knowledge quantifies
over the arcs of an agent, and common knowledge over the paths of one or more arcs of the group.
The truth value that `Model.satisfies` gives a formula at a reference decides it, on any model. -/

namespace KnowledgePrograms

open Std (ExtTreeSet)

/-- An atom is true under a valuation iff it is recorded as true. -/
theorem Valuation.valueOf_iff {v : Valuation} {p : Atom} :
    v.valueOf p = true ↔ v.recorded? p = some true := by
  rw [valueOf]
  cases v.recorded? p <;> simp

namespace Model

variable {m : Model} {group : ExtTreeSet Agent} {r s : WorldRef}

/-! ## (1) Truth, operator by operator -/

/-- The value of an atom at a reference is true iff a world is there and records it as true. -/
theorem valueOf_iff {p : Atom} :
    m.valueOf r p = true ↔ ∃ w, m.world? r = some w ∧ w.valuation.recorded? p = some true := by
  rw [valueOf]
  cases m.world? r with
  | none => simp
  | some w => simp [Valuation.valueOf_iff]

/-- What a group reaches is a world of the model. -/
theorem contains_of_mem_reachable (h : s ∈ m.reachable group r) : m.contains s = true := by
  -- The last arc of the path leads there.
  obtain ⟨x, -, a, -, arc⟩ := Relation.TransGen.tail'_iff.1 (mem_reachable.1 h)
  exact (m.within_relation a _ arc).2

/-- A negation is true if the formula is not. -/
theorem satisfies_not_iff (f : Formula) :
    m.satisfies (.not f) r = true ↔ ¬ m.satisfies f r = true := by
  rw [satisfies]
  cases m.satisfies f r <;> simp

/-- A conjunction is true if all its operands are. -/
theorem satisfies_and_iff (fs : List Formula) :
    m.satisfies (.and fs) r = true ↔ ∀ f ∈ fs, m.satisfies f r = true := by
  rw [satisfies, satisfiesAll_eq, List.all_eq_true]

/-- A disjunction is true if one of its operands is. -/
theorem satisfies_or_iff (fs : List Formula) :
    m.satisfies (.or fs) r = true ↔ ∃ f ∈ fs, m.satisfies f r = true := by
  rw [satisfies, satisfiesAny_eq, List.any_eq_true]

/-- An implication is true if its conclusion is true whenever its premise is. -/
theorem satisfies_imp_iff (f g : Formula) :
    m.satisfies (.imp f g) r = true ↔ (m.satisfies f r = true → m.satisfies g r = true) := by
  rw [satisfies]
  cases m.satisfies f r <;> simp

/-- An equivalence is true if its sides are both true or both false. -/
theorem satisfies_iff_iff (f g : Formula) :
    m.satisfies (.iff f g) r = true ↔ (m.satisfies f r = true ↔ m.satisfies g r = true) := by
  rw [satisfies, beq_iff_eq, Bool.eq_iff_iff]

/-- An agent knows what is true wherever its arcs lead. -/
theorem satisfies_knows_iff (a : Agent) (f : Formula) :
    m.satisfies (.knows a f) r = true ↔
      ∀ s, (⟨r, s⟩ : Arc) ∈ m.relation a → m.satisfies f s = true := by
  rw [satisfies, List.all_eq_true]
  simp only [mem_accessible]

/-- An agent considers possible what is true somewhere its arcs lead. -/
theorem satisfies_possible_iff (a : Agent) (f : Formula) :
    m.satisfies (.possible a f) r = true ↔
      ∃ s, (⟨r, s⟩ : Arc) ∈ m.relation a ∧ m.satisfies f s = true := by
  rw [satisfies, List.any_eq_true]
  simp only [mem_accessible]

/-- Everyone in a group knows what each of them knows. -/
theorem satisfies_everyone_iff (group : ExtTreeSet Agent) (f : Formula) :
    m.satisfies (.everyone group f) r = true ↔
      ∀ a ∈ group, ∀ s, (⟨r, s⟩ : Arc) ∈ m.relation a → m.satisfies f s = true := by
  rw [satisfies, List.all_eq_true]
  simp only [ExtTreeSet.mem_toList, List.all_eq_true, mem_accessible]

/-- What is true wherever one or more arcs of a group lead is common knowledge in it. -/
theorem satisfies_common_iff (group : ExtTreeSet Agent) (f : Formula) :
    m.satisfies (.common group f) r = true ↔
      ∀ s, Relation.TransGen (m.Leads group) r s → m.satisfies f s = true := by
  rw [satisfies, List.all_eq_true]
  simp only [mem_reachable]

/-! ## (2) Satisfaction -/

/-- The world satisfies the formula. -/
def Holds (m : Model) : Formula → WorldRef → Prop
  | .atom p, r => ∃ w, m.world? r = some w ∧ w.valuation.recorded? p = some true
  | .not f, r => ¬ m.Holds f r
  | .and fs, r => ∀ f, (_ : f ∈ fs) → m.Holds f r
  | .or fs, r => ∃ f, ∃ _ : f ∈ fs, m.Holds f r
  | .imp f g, r => m.Holds f r → m.Holds g r
  | .iff f g, r => m.Holds f r ↔ m.Holds g r
  | .knows a f, r => ∀ s, (⟨r, s⟩ : Arc) ∈ m.relation a → m.Holds f s
  | .possible a f, r => ∃ s, (⟨r, s⟩ : Arc) ∈ m.relation a ∧ m.Holds f s
  | .everyone group f, r => ∀ a ∈ group, ∀ s, (⟨r, s⟩ : Arc) ∈ m.relation a → m.Holds f s
  | .common group f, r => ∀ s, Relation.TransGen (m.Leads group) r s → m.Holds f s
termination_by f => f

/-- A formula is true at a world iff the world satisfies it. -/
theorem satisfies_iff_holds (m : Model) (f : Formula) (r : WorldRef) :
    m.satisfies f r = true ↔ m.Holds f r := by
  induction f generalizing r with
  | atom p => rw [satisfies, Holds, valueOf_iff]
  | not f ih => rw [satisfies_not_iff, Holds, ih]
  | and fs ih =>
    rw [satisfies_and_iff, Holds]
    exact forall₂_congr fun f member => ih f member r
  | or fs ih =>
    rw [satisfies_or_iff, Holds]
    simp only [exists_prop]
    exact exists_congr fun f => and_congr_right fun member => ih f member r
  | imp f g ihf ihg => rw [satisfies_imp_iff, Holds, ihf, ihg]
  | iff f g ihf ihg => rw [satisfies_iff_iff, Holds, ihf, ihg]
  | knows a f ih =>
    rw [satisfies_knows_iff, Holds]
    exact forall_congr' fun s => imp_congr Iff.rfl (ih s)
  | possible a f ih =>
    rw [satisfies_possible_iff, Holds]
    exact exists_congr fun s => and_congr Iff.rfl (ih s)
  | everyone group f ih =>
    rw [satisfies_everyone_iff, Holds]
    refine forall_congr' fun a => imp_congr Iff.rfl ?_
    exact forall_congr' fun s => imp_congr Iff.rfl (ih s)
  | common group f ih =>
    rw [satisfies_common_iff, Holds]
    exact forall_congr' fun s => imp_congr Iff.rfl (ih s)

/-- A context can be pointed at any world of the model. -/
theorem contextAt_of_contains {m : Model} {r : WorldRef} (live : m.contains r = true) :
    m.contextAt r = .ok (.pointed m r live) := by
  rw [contextAt, dif_pos live]

end Model

end KnowledgePrograms
