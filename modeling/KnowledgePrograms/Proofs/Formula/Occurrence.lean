import Mathlib.Logic.Relation
import KnowledgePrograms.Proofs.Formula.Parts
import KnowledgePrograms.Proofs.Formula.Vocabulary

/-! # What occurs in a formula

What is reached from a formula by going from part to part occurs in it. As parts of parts come to an
end, no formula occurs in one of its own parts, and so formulas are ordered by where they occur.
What is looked for in a formula is found among what occurs: its atoms are those that occur as
formulas, and it is modal when a modality occurs.

* `Formula.occursIn_iff_path`: what occurs is what is reached from part to part.
* `Formula.mem_atoms_iff_occursIn`, `Formula.isModal_iff_occursIn`: atoms and modalities.
* `Formula.occursIn_partial_order`: the order of formulas by where they occur. -/

namespace KnowledgePrograms

namespace Formula

variable {f g h : Formula} {p : Atom}

/-! ## (1) Paths from part to part -/

/-- No path from part to part leads back to where it begins. -/
theorem eq_of_paths (there : Relation.ReflTransGen HasPart f g)
    (back : Relation.ReflTransGen HasPart g f) : f = g := by
  rcases Relation.reflTransGen_iff_eq_or_transGen.1 there with same | there
  · exact same.symm
  · have circle : Relation.TransGen HasPart f f := there.trans_left back
    exact absurd (Relation.transGen_swap.2 circle) (wellFounded_part.transGen.irrefl.irrefl f)

/-! ## (2) Occurrences -/

/-- Where a formula occurs among operands, it occurs in one of them. -/
theorem occursInAny_eq (g : Formula) (fs : List Formula) :
    occursInAny g fs = fs.any (occursIn g) := by
  induction fs with
  | nil => rfl
  | cons f fs ih => rw [occursInAny, ih, List.any_cons]

/-- A formula occurs in itself, and in what has a part that it occurs in. -/
theorem occursIn_iff :
    g.occursIn f = true ↔ g = f ∨ ∃ h, f.HasPart h ∧ g.occursIn h = true := by
  cases f <;> simp [occursIn, occursInAny_eq, HasPart, parts, or_assoc]

/-- A formula occurs in another one iff it is reached from there, from part to part. -/
theorem occursIn_iff_path : g.occursIn f = true ↔ Relation.ReflTransGen HasPart f g := by
  induction f using wellFounded_part.induction with
  | _ f ih =>
    rw [occursIn_iff, Relation.ReflTransGen.cases_head_iff, eq_comm]
    exact or_congr_right (exists_congr fun h => and_congr_right (ih h))

/-- A formula occurs in itself. -/
theorem occursIn_self (f : Formula) : f.occursIn f = true := occursIn_iff.2 (.inl rfl)

/-- What occurs in something that occurs in a formula occurs in the formula. -/
theorem occursIn_trans (inner : h.occursIn g = true) (outer : g.occursIn f = true) :
    h.occursIn f = true :=
  occursIn_iff_path.2 ((occursIn_iff_path.1 outer).trans (occursIn_iff_path.1 inner))

/-- Formulas that occur in each other are equal. -/
theorem occursIn_antisymm (inner : g.occursIn f = true) (outer : f.occursIn g = true) : f = g :=
  eq_of_paths (occursIn_iff_path.1 inner) (occursIn_iff_path.1 outer)

/-! ## (3) Atoms and modalities -/

/-- A formula has the occurrences of its parts, and an atom has one of itself. -/
theorem mem_occurrences_iff :
    p ∈ f.occurrences ↔ Formula.atom p = f ∨ ∃ g, f.HasPart g ∧ p ∈ g.occurrences := by
  cases f <;> simp [occurrences, occurrencesList_eq, HasPart, parts]

/-- The atoms of a formula are those that, as formulas, occur in it. -/
theorem mem_atoms_iff_occursIn : p ∈ f.atoms ↔ (Formula.atom p).occursIn f = true := by
  rw [mem_atoms]
  induction f using wellFounded_part.induction with
  | _ f ih =>
    rw [mem_occurrences_iff, occursIn_iff]
    exact or_congr_right (exists_congr fun g => and_congr_right (ih g))

/-- The outermost constructor of the formula is a modality. -/
def IsModality (f : Formula) : Prop :=
  match f with
  | .knows _ _ | .possible _ _ | .everyone _ _ | .common _ _ => True
  | _ => False

/-- A formula is modal if it is a modality or one of its parts is modal. -/
theorem isModal_iff :
    f.isModal = true ↔ f.IsModality ∨ ∃ g, f.HasPart g ∧ g.isModal = true := by
  cases f <;> simp [isModal, IsModality, HasPart, parts]

/-- A formula is modal iff a modality occurs in it. -/
theorem isModal_iff_occursIn :
    f.isModal = true ↔ ∃ g : Formula, g.IsModality ∧ g.occursIn f = true := by
  induction f using wellFounded_part.induction with
  | _ f ih =>
    rw [isModal_iff]
    constructor
    · rintro (modality | ⟨g, part, modal⟩)
      · exact ⟨f, modality, occursIn_self f⟩
      · obtain ⟨h, modality, inner⟩ := (ih g part).1 modal
        exact ⟨h, modality, occursIn_iff.2 (.inr ⟨g, part, inner⟩)⟩
    · rintro ⟨h, modality, inner⟩
      rcases occursIn_iff.1 inner with rfl | ⟨g, part, inner⟩
      · exact .inl modality
      · exact .inr ⟨g, part, (ih g part).2 ⟨h, modality, inner⟩⟩

/-! ## (4) The order by occurrence -/

/-- **Occurrence is the order of subformulas.** A formula occurs in another one iff it is reached
from it by going from part to part, any number of times. To occur is reflexive, transitive and
antisymmetric. If a formula occurs in another one, its atoms are among those of the other, and the
other is modal if it is. -/
theorem occursIn_partial_order (f g h : Formula) :
    (g.occursIn f = true ↔ Relation.ReflTransGen HasPart f g) ∧
    f.occursIn f = true ∧
    (g.occursIn f = true → h.occursIn g = true → h.occursIn f = true) ∧
    (g.occursIn f = true → f.occursIn g = true → f = g) ∧
    (g.occursIn f = true →
      (∀ p ∈ g.atoms, p ∈ f.atoms) ∧ (g.isModal = true → f.isModal = true)) := by
  refine ⟨occursIn_iff_path, occursIn_self f, fun outer inner => occursIn_trans inner outer,
    occursIn_antisymm, fun inner => ⟨fun p here => ?_, fun modal => ?_⟩⟩
  · exact mem_atoms_iff_occursIn.2 (occursIn_trans (mem_atoms_iff_occursIn.1 here) inner)
  · obtain ⟨m, modality, here⟩ := isModal_iff_occursIn.1 modal
    exact isModal_iff_occursIn.2 ⟨m, modality, occursIn_trans here inner⟩

/-- What is considered possible on the right side of an implication occurs in it, and so does the
atom that is negated there. The implication does not occur on its left side. -/
theorem occursIn_partial_order_right_side :
    let p : Formula := .atom ⟨"p"⟩
    let q : Formula := .atom ⟨"q"⟩
    let g : Formula := .possible ⟨"a"⟩ (.not p)
    let f : Formula := .imp q g
    Relation.ReflTransGen HasPart f g ∧ p.occursIn f = true ∧ f.occursIn q = false ∧
      (∀ r ∈ g.atoms, r ∈ f.atoms) ∧ f.isModal = true := by
  intro p q g f
  have outer : g.occursIn f = true := by decide +kernel
  obtain ⟨path, -, trans, -, found⟩ := occursIn_partial_order f g p
  exact ⟨path.1 outer, trans outer (by decide +kernel), by decide +kernel, (found outer).1,
    (found outer).2 rfl⟩

end Formula

end KnowledgePrograms
