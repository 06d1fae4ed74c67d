import KnowledgePrograms.Proofs.Formula.Reading

/-! # The vocabulary of formulas

A formula speaks of the atoms that occur in it, and maybe of knowledge. A reading looks up just
these atoms, so the value of a formula depends on no others. Whether something of a kind occurs in a
formula is itself a reading, on which negation does nothing and all connectives do the same. It
obeys De Morgan's laws, so simplifying, negating and normalising a formula bring in nothing and lose
nothing, however operands are merged and parts are repeated.

* `Reading.read_withAtom`: a reading depends on the atoms that occur.
* `Reading.somewhere`, `Reading.read_somewhere`: whether something of a kind occurs.
* `Formula.atoms_simplify`, `Formula.atoms_negate`, `Formula.atoms_normalise`: the atoms after the
  passes. -/

namespace KnowledgePrograms

open Std (ExtTreeSet)

universe u

variable {β : Type u}

/-! ## (1) The atoms of a formula -/

namespace Formula

/-- The occurrences in a list of operands are those in the operands. -/
theorem occurrencesList_eq (fs : List Formula) : occurrencesList fs = fs.flatMap occurrences := by
  induction fs with
  | nil => rfl
  | cons f fs ih => rw [occurrencesList, ih, List.flatMap_cons]

/-- The atoms of a formula are those with an occurrence. -/
theorem mem_atoms {f : Formula} {p : Atom} : p ∈ f.atoms ↔ p ∈ f.occurrences := by
  rw [atoms, ExtTreeSet.mem_ofList, List.contains_iff_mem]

end Formula

namespace Reading

/-- The reading with other values for atoms. -/
def withAtom (R : Reading β) (value : Atom → β) : Reading β := { R with atom := value }

/-- A reading depends on the atoms of a formula: if these have the values that they had, so has the
formula. -/
theorem read_withAtom (R : Reading β) (value : Atom → β) {f : Formula}
    (same : ∀ p ∈ f.atoms, R.atom p = value p) : (R.withAtom value).read f = R.read f := by
  simp only [Formula.mem_atoms] at same
  -- What occurs in a part occurs in the formula, so the values of all parts are the same.
  induction f with
  | atom p => exact (same p (by simp [Formula.occurrences])).symm
  | not f ih => rw [read, read, ih same, withAtom]
  | and fs ih | or fs ih =>
    rw [Formula.occurrences, Formula.occurrencesList_eq, List.forall_mem_flatMap] at same
    have values := List.map_congr_left fun f hf => ih f hf (same f hf)
    rw [read, read, readEach_eq, readEach_eq, values, withAtom]
  | imp f g ihf ihg | iff f g ihf ihg =>
    rw [Formula.occurrences, List.forall_mem_append] at same
    rw [read, read, ihf same.1, ihg same.2, withAtom]
  | knows a f ih | possible a f ih | everyone group f ih | common group f ih =>
    rw [read, read, ih same, withAtom]

/-! ## (2) What occurs in a formula -/

/-- Whether an atom of some kind occurs or, if modalities are looked for too, a modality. -/
def somewhere (kind : Atom → Bool) (modal : Bool) : Reading Bool where
  atom := kind
  not x := x
  and xs := xs.any id
  or xs := xs.any id
  imp x y := x || y
  iff x y := x || y
  knows _ x := modal || x
  possible _ x := modal || x
  everyone _ x := modal || x
  common _ x := modal || x

variable (kind : Atom → Bool) (modal : Bool)

/-- Negation, which does nothing to what occurs, obeys De Morgan's laws on it. -/
theorem deMorgan_somewhere : (somewhere kind modal).DeMorgan where
  and_congr {xs ys} same := by
    show xs.any id = ys.any id
    rw [Bool.eq_iff_iff, List.any_eq_true, List.any_eq_true]
    exact exists_congr fun x => and_congr (same x) Iff.rfl
  and_singleton x := by simp [somewhere]
  and_append xs ys := by simp [somewhere]
  not_not x := rfl
  not_and xs := by simp [somewhere]
  not_imp x y := by simp [somewhere]
  not_iff x y := by
    simp only [somewhere, List.any_cons, List.any_nil, id]
    cases x <;> cases y <;> rfl
  not_possible _ _ := rfl

end Reading

namespace Formula

/-- Some operand is modal when one of them is. -/
@[simp] theorem anyModal_eq (fs : List Formula) : anyModal fs = fs.any isModal := by
  induction fs with
  | nil => rfl
  | cons f fs ih => rw [anyModal, ih, List.any_cons]

end Formula

namespace Reading

variable (kind : Atom → Bool) (modal : Bool)

/-- What is looked for occurs in some operand if an occurrence in some operand is of the kind, or
modalities are looked for and some operand is modal. -/
theorem any_somewhere {fs : List Formula}
    (each : ∀ f ∈ fs, (somewhere kind modal).read f
      = (f.occurrences.any kind || (modal && f.isModal))) :
    (fs.map (somewhere kind modal).read).any id
      = ((fs.flatMap Formula.occurrences).any kind || (modal && fs.any Formula.isModal)) := by
  rw [List.map_congr_left each, Bool.eq_iff_iff]
  -- Found in some operand is either kind of occurrence; the two are looked for apart.
  cases modal <;> simp [and_or_left, exists_or]

/-- What is looked for occurs in a formula if one of its occurrences is of the kind, or modalities
are looked for and it is modal. -/
theorem read_somewhere (f : Formula) : (somewhere kind modal).read f
    = (f.occurrences.any kind || (modal && f.isModal)) := by
  induction f with
  | atom p => simp [read, somewhere, Formula.occurrences, Formula.isModal]
  | not f ih => rw [read, ih, somewhere, Formula.occurrences, Formula.isModal]
  | and fs ih | or fs ih =>
    rw [read, readEach_eq, Formula.occurrences, Formula.occurrencesList_eq, Formula.isModal,
      Formula.anyModal_eq]
    exact any_somewhere kind modal ih
  | imp f g ihf ihg | iff f g ihf ihg =>
    rw [read, ihf, ihg, somewhere, Formula.occurrences, Formula.isModal, List.any_append,
      Bool.and_or_distrib_left]
    ac_rfl
  | knows a f ih | possible a f ih | everyone group f ih | common group f ih =>
    rw [read, ih, somewhere, Formula.occurrences, Formula.isModal]
    cases modal <;> simp

/-- In a conjunction, also one of a single operand, occurs what occurs in one of its operands. -/
theorem somewhere_conjunction (fs : List Formula) :
    (somewhere kind modal).read (.conjunction fs) = fs.any (somewhere kind modal).read := by
  rw [(deMorgan_somewhere kind modal).read_conjunction]
  exact List.any_map

/-- In a disjunction, also one of a single operand, occurs what occurs in one of its operands. -/
theorem somewhere_disjunction (fs : List Formula) :
    (somewhere kind modal).read (.disjunction fs) = fs.any (somewhere kind modal).read := by
  rw [(deMorgan_somewhere kind modal).read_disjunction]
  exact List.any_map

/-- In a negated formula occurs what occurs in the formula. -/
theorem somewhere_negate (f : Formula) :
    (somewhere kind modal).read f.negate = (somewhere kind modal).read f :=
  (deMorgan_somewhere kind modal).read_negate f

/-- In a normalised formula occurs what occurs in the formula. -/
theorem somewhere_normalise (limit : Nat) (f : Formula) :
    (somewhere kind modal).read (f.normalise limit) = (somewhere kind modal).read f :=
  (deMorgan_somewhere kind modal).read_normalise limit f

end Reading

/-! ## (3) The passes -/

namespace Formula

variable {f g : Formula}

/-- An atom occurs in a formula iff an occurrence of the atom is found when it is looked for. -/
theorem mem_atoms_iff_read {p : Atom} :
    p ∈ f.atoms ↔ (Reading.somewhere (· == p) false).read f = true := by
  rw [Reading.read_somewhere, mem_atoms]
  simp

/-- A formula is modal iff a modality is found when just modalities are looked for. -/
theorem isModal_eq_read (f : Formula) :
    f.isModal = (Reading.somewhere (fun _ => false) true).read f := by
  rw [Reading.read_somewhere]
  simp

/-- A formula in which just what occurs in another one is found has the same atoms. -/
theorem atoms_eq_of_read_eq
    (same : ∀ kind, (Reading.somewhere kind false).read g = (Reading.somewhere kind false).read f) :
    g.atoms = f.atoms :=
  ExtTreeSet.ext_mem fun p => by rw [mem_atoms_iff_read, mem_atoms_iff_read, same]

/-- A simplified formula has the atoms of the formula. -/
theorem atoms_simplify (f : Formula) : f.simplify.atoms = f.atoms :=
  atoms_eq_of_read_eq fun kind => (Reading.deMorgan_somewhere kind false).read_simplify f

/-- A negated formula has the atoms of the formula. -/
theorem atoms_negate (f : Formula) : f.negate.atoms = f.atoms :=
  atoms_eq_of_read_eq fun kind => Reading.somewhere_negate kind false f

/-- A normalised formula has the atoms of the formula. -/
theorem atoms_normalise (limit : Nat) (f : Formula) : (f.normalise limit).atoms = f.atoms :=
  atoms_eq_of_read_eq fun kind => Reading.somewhere_normalise kind false limit f

end Formula

end KnowledgePrograms
