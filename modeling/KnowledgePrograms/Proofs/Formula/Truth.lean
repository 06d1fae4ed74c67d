import KnowledgePrograms.Kripke.Satisfaction
import KnowledgePrograms.Proofs.Formula.Vocabulary

/-! # Truth and modality as readings

Truth at the worlds of a model is a reading on which negation obeys De Morgan's laws, and so is
whether a formula is modal, where negation does nothing and both conjunction and disjunction ask
for a modal operand. So simplified formulas are true where the formulas are and are modal when
they are, and negated formulas are true where the formulas are not.

* `satisfies_simplify`, `satisfies_negate`, `satisfies_normalise`: truth after the passes.
* `isModal_simplify`, `isModal_negate`, `isModal_normalise`: modality after the passes. -/

namespace KnowledgePrograms

/-! ## (1) Truth at the worlds of a model -/

namespace Model

/-- Truth at the worlds of a model as a reading. -/
def truth (m : Model) : Reading (WorldRef → Bool) where
  atom p r := m.valueOf r p
  not x r := !x r
  and xs r := xs.all fun x => x r
  or xs r := xs.any fun x => x r
  imp x y r := !x r || y r
  iff x y r := x r == y r
  knows a x r := (m.accessible a r).all x
  possible a x r := (m.accessible a r).any x
  everyone group x r := group.toList.all fun a => (m.accessible a r).all x
  common group x r := (m.reachable group r).all x

/-- The value of a formula under this reading is its truth. -/
theorem read_truth (m : Model) (f : Formula) : m.truth.read f = m.satisfies f := by
  induction f with
  | atom p =>
    funext r
    rw [Reading.read, satisfies, truth]
  | not f ih =>
    funext r
    rw [Reading.read, satisfies, ih, truth]
  | and fs ih =>
    funext r
    rw [Reading.read, Reading.readEach_eq, List.map_congr_left ih, satisfies, satisfiesAll_eq]
    exact List.all_map
  | or fs ih =>
    funext r
    rw [Reading.read, Reading.readEach_eq, List.map_congr_left ih, satisfies, satisfiesAny_eq]
    exact List.any_map
  | imp f g ihf ihg | iff f g ihf ihg =>
    funext r
    rw [Reading.read, satisfies, ihf, ihg, truth]
  | knows a f ih | possible a f ih | everyone group f ih | common group f ih =>
    funext r
    rw [Reading.read, satisfies, ih, truth]

/-- The values of formulas under this reading are their truth. -/
theorem map_read_truth (m : Model) (fs : List Formula) :
    fs.map m.truth.read = fs.map m.satisfies :=
  List.map_congr_left fun f _ => m.read_truth f

/-- Negation obeys De Morgan's laws on truth. -/
theorem deMorgan_truth (m : Model) : m.truth.DeMorgan where
  and_congr {xs ys} same := by
    funext r
    show (xs.all fun x => x r) = ys.all fun x => x r
    rw [Bool.eq_iff_iff, List.all_eq_true, List.all_eq_true]
    exact forall_congr' fun x => imp_congr (same x) Iff.rfl
  and_singleton x := by
    funext r
    simp [truth]
  and_append xs ys := by
    funext r
    simp [truth]
  not_not x := by
    funext r
    simp [truth]
  not_and xs := by
    funext r
    simp [truth, List.any_map, List.not_all_eq_any_not, Function.comp_def]
  not_imp x y := by
    funext r
    simp [truth]
  not_iff x y := by
    funext r
    simp only [truth, List.any_cons, List.all_cons, List.any_nil, List.all_nil]
    cases x r <;> cases y r <;> rfl
  not_possible a x := by
    funext r
    simp only [truth, List.not_any_eq_all_not]

/-- A conjunction of a list is true where all members are. -/
theorem satisfies_all (m : Model) (fs : List Formula) (r : WorldRef) :
    m.satisfies (.all fs) r = fs.all fun f => m.satisfies f r := by
  rw [← read_truth, m.deMorgan_truth.read_all, map_read_truth]
  exact List.all_map

/-- A disjunction of a list is true where one of the members is. -/
theorem satisfies_any (m : Model) (fs : List Formula) (r : WorldRef) :
    m.satisfies (.any fs) r = fs.any fun f => m.satisfies f r := by
  rw [← read_truth, m.deMorgan_truth.read_any, map_read_truth]
  exact List.any_map

/-- A conjunction, also one of a single operand, is true where all its operands are. -/
theorem satisfies_conjunction (m : Model) (fs : List Formula) (r : WorldRef) :
    m.satisfies (.conjunction fs) r = fs.all fun f => m.satisfies f r := by
  rw [← read_truth, m.deMorgan_truth.read_conjunction, map_read_truth]
  exact List.all_map

/-- A disjunction, also one of a single operand, is true where one of its operands is. -/
theorem satisfies_disjunction (m : Model) (fs : List Formula) (r : WorldRef) :
    m.satisfies (.disjunction fs) r = fs.any fun f => m.satisfies f r := by
  rw [← read_truth, m.deMorgan_truth.read_disjunction, map_read_truth]
  exact List.any_map

/-- A simplified formula is true where the formula is. -/
theorem satisfies_simplify (m : Model) (f : Formula) (r : WorldRef) :
    m.satisfies f.simplify r = m.satisfies f r := by
  rw [← read_truth, m.deMorgan_truth.read_simplify, read_truth]

/-- A negated formula is true where the formula is false. -/
theorem satisfies_negate (m : Model) (f : Formula) (r : WorldRef) :
    m.satisfies f.negate r = !m.satisfies f r := by
  rw [← read_truth, m.deMorgan_truth.read_negate, read_truth, truth]

/-- A normalised formula is true where the formula is. -/
theorem satisfies_normalise (m : Model) (limit : Nat) (f : Formula) (r : WorldRef) :
    m.satisfies (f.normalise limit) r = m.satisfies f r := by
  rw [← read_truth, m.deMorgan_truth.read_normalise, read_truth]

end Model

/-! ## (2) Modality -/

namespace Formula

/-- Whether a formula is modal as a reading, with true for modal. -/
def modality : Reading Bool where
  atom _ := false
  not x := x
  and xs := xs.any id
  or xs := xs.any id
  imp x y := x || y
  iff x y := x || y
  knows _ _ := true
  possible _ _ := true
  everyone _ _ := true
  common _ _ := true

/-- The value of a formula under this reading is whether it is modal. -/
theorem read_modality (f : Formula) : modality.read f = f.isModal := f.isModal_eq_read.symm

/-- Negation, which does nothing to modality, obeys De Morgan's laws on it. -/
theorem deMorgan_modality : modality.DeMorgan := Reading.deMorgan_somewhere (fun _ => false) true

/-- A simplified formula is modal when the formula is. -/
theorem isModal_simplify (f : Formula) : f.simplify.isModal = f.isModal := by
  rw [← read_modality, deMorgan_modality.read_simplify, read_modality]

/-- A negated formula is modal when the formula is. -/
theorem isModal_negate (f : Formula) : f.negate.isModal = f.isModal := by
  rw [← read_modality, deMorgan_modality.read_negate, read_modality, modality]

/-- A normalised formula is modal when the formula is. -/
theorem isModal_normalise (limit : Nat) (f : Formula) :
    (f.normalise limit).isModal = f.isModal := by
  rw [← read_modality, deMorgan_modality.read_normalise, read_modality]

end Formula

end KnowledgePrograms
