import KnowledgePrograms.Program.Explanation
import KnowledgePrograms.Proofs.Formula.NegationNormal
import KnowledgePrograms.Proofs.Formula.Order

/-! # Fixed points of simplification

A pass that merges keeps the outermost constructor of every formula it is applied to. So what it
puts among the operands of a conjunction, which is never a merged conjunction itself, is not a
conjunction, and its result is flat. As the first pass of simplification reaches negation normal
form, on which simplifying is merging, the second pass reaches flat negation normal form. On this
form a pass changes nothing.

* `Formula.Everywhere P`: what holds of a formula and of everything that occurs in it.
* `Formula.IsFlat`, `Formula.IsOrdered`: no nested operands, and operands that are sets.
* `everywhere_flatten`, `flatten_eq_self`: merging reaches flat formulas, and leaves them.
* `simplify_settles_in_two_passes`: the fixed points, and the passes it takes to reach one. -/

namespace KnowledgePrograms

open Std (ExtTreeSet)

namespace Formula

/-! ## (1) Flat formulas -/

/-- The property holds of the formula and of everything that occurs in it. -/
inductive Everywhere (P : Formula → Prop) : Formula → Prop
  | atom (p : Atom) (here : P (.atom p)) : Everywhere P (.atom p)
  | not {f : Formula} (here : P (.not f)) (inner : Everywhere P f) : Everywhere P (.not f)
  | and {fs : List Formula} (here : P (.and fs)) (operands : ∀ f ∈ fs, Everywhere P f) :
      Everywhere P (.and fs)
  | or {fs : List Formula} (here : P (.or fs)) (operands : ∀ f ∈ fs, Everywhere P f) :
      Everywhere P (.or fs)
  | imp {f g : Formula} (here : P (.imp f g)) (left : Everywhere P f) (right : Everywhere P g) :
      Everywhere P (.imp f g)
  | iff {f g : Formula} (here : P (.iff f g)) (left : Everywhere P f) (right : Everywhere P g) :
      Everywhere P (.iff f g)
  | knows {a : Agent} {f : Formula} (here : P (.knows a f)) (inner : Everywhere P f) :
      Everywhere P (.knows a f)
  | possible {a : Agent} {f : Formula} (here : P (.possible a f)) (inner : Everywhere P f) :
      Everywhere P (.possible a f)
  | everyone {group : ExtTreeSet Agent} {f : Formula} (here : P (.everyone group f))
      (inner : Everywhere P f) : Everywhere P (.everyone group f)
  | common {group : ExtTreeSet Agent} {f : Formula} (here : P (.common group f))
      (inner : Everywhere P f) : Everywhere P (.common group f)

/-- A conjunction has no conjunction among its operands, and a disjunction no disjunction. -/
def Unnested : Formula → Prop
  | .and fs => ∀ gs, .and gs ∉ fs
  | .or fs => ∀ gs, .or gs ∉ fs
  | _ => True

/-- The operands of a conjunction or disjunction are strictly ascending, each standing for itself
once. -/
def OperandsAscend : Formula → Prop
  | .and fs => Ascending fs
  | .or fs => Ascending fs
  | _ => True

/-- No conjunction, at any depth, has a conjunction among its operands, and no disjunction a
disjunction. -/
def IsFlat (f : Formula) : Prop := f.Everywhere Unnested

/-- All operands, at any depth, are kept as sets. It is so of every formula whose conjunctions and
disjunctions are made by `all` and `any`. -/
def IsOrdered (f : Formula) : Prop := f.Everywhere OperandsAscend

/-- The formula is in flat negation normal form: every negation stands on what it may stand on, and
no conjunction or disjunction is nested in one of its kind. -/
def IsFlatNnf (f : Formula) : Prop := f.IsNnf ∧ f.IsFlat

/-! ## (2) Merging reaches flat formulas -/

variable {P : Formula → Prop} {f : Formula} {fs gs : List Formula}

/-- What holds of a conjunction of a list and everywhere in the list holds everywhere in it. -/
theorem everywhere_all (here : P (all fs)) (operands : ∀ f ∈ fs, Everywhere P f) :
    Everywhere P (all fs) := by
  apply Everywhere.and here
  intro f hf
  exact operands f (mem_sortAscending.1 hf)

/-- What holds of a disjunction of a list and everywhere in the list holds everywhere in it. -/
theorem everywhere_any (here : P (any fs)) (operands : ∀ f ∈ fs, Everywhere P f) :
    Everywhere P (any fs) := by
  apply Everywhere.or here
  intro f hf
  exact operands f (mem_sortAscending.1 hf)

/-- What holds of every merged formula holds everywhere in a merged formula, and so it does in the
operands that are merged. -/
theorem everywhere_flatten_parts (merged : ∀ f : Formula, P f.flatten) :
    (∀ f : Formula, f.flatten.Everywhere P) ∧
    (∀ fs, ∀ g ∈ flattenDisjuncts fs, Everywhere P g) ∧
    (∀ fs, ∀ g ∈ flattenConjuncts fs, Everywhere P g) := by
  apply flatten.mutual_induct (fun f => f.flatten.Everywhere P)
    (fun fs => ∀ g ∈ flattenDisjuncts fs, Everywhere P g)
    (fun fs => ∀ g ∈ flattenConjuncts fs, Everywhere P g)
  -- The formulas, one constructor after the other.
  · intro p
    have here := merged (.atom p)
    rw [flatten] at here ⊢
    exact .atom p here
  · intro f ih
    have here := merged (.not f)
    rw [flatten] at here ⊢
    exact .not here ih
  · intro fs ih
    have here := merged (.and fs)
    rw [flatten] at here ⊢
    exact everywhere_all here ih
  · intro fs ih
    have here := merged (.or fs)
    rw [flatten] at here ⊢
    exact everywhere_any here ih
  · intro f g ihf ihg
    have here := merged (.imp f g)
    rw [flatten] at here ⊢
    exact .imp here ihf ihg
  · intro f g ihf ihg
    have here := merged (.iff f g)
    rw [flatten] at here ⊢
    exact .iff here ihf ihg
  · intro a f ih
    have here := merged (.knows a f)
    rw [flatten] at here ⊢
    exact .knows here ih
  · intro a f ih
    have here := merged (.possible a f)
    rw [flatten] at here ⊢
    exact .possible here ih
  · intro group f ih
    have here := merged (.everyone group f)
    rw [flatten] at here ⊢
    exact .everyone here ih
  · intro group f ih
    have here := merged (.common group f)
    rw [flatten] at here ⊢
    exact .common here ih
  -- The operands of a disjunction: a nested disjunction is merged, any other operand flattened.
  · rw [flattenDisjuncts]
    exact List.forall_mem_nil _
  · intro gs fs ihg ihf
    rw [flattenDisjuncts, List.forall_mem_append]
    exact ⟨ihg, ihf⟩
  · intro f fs single ihf ihfs
    rw [flattenDisjuncts.eq_3 f fs single, List.forall_mem_cons]
    exact ⟨ihf, ihfs⟩
  -- The operands of a conjunction likewise.
  · rw [flattenConjuncts]
    exact List.forall_mem_nil _
  · intro gs fs ihg ihf
    rw [flattenConjuncts, List.forall_mem_append]
    exact ⟨ihg, ihf⟩
  · intro f fs single ihf ihfs
    rw [flattenConjuncts.eq_3 f fs single, List.forall_mem_cons]
    exact ⟨ihf, ihfs⟩

/-- What holds of every merged formula holds everywhere in a merged formula. -/
theorem everywhere_flatten (merged : ∀ f : Formula, P f.flatten) (f : Formula) :
    f.flatten.Everywhere P :=
  (everywhere_flatten_parts merged).1 f

/-- Only a conjunction is merged into a conjunction. -/
theorem exists_eq_and_of_flatten (h : f.flatten = .and gs) : ∃ fs, f = .and fs := by
  cases f with
  | and fs => exact ⟨fs, rfl⟩
  | _ => simp [flatten, any] at h

/-- Only a disjunction is merged into a disjunction. -/
theorem exists_eq_or_of_flatten (h : f.flatten = .or gs) : ∃ fs, f = .or fs := by
  cases f with
  | or fs => exact ⟨fs, rfl⟩
  | _ => simp [flatten, all] at h

/-- No conjunction is left among the merged operands of a conjunction. -/
theorem and_notMem_flattenConjuncts (fs gs : List Formula) : .and gs ∉ flattenConjuncts fs := by
  cases fs with
  | nil =>
    rw [flattenConjuncts]
    exact List.not_mem_nil
  | cons f fs =>
    have later := and_notMem_flattenConjuncts fs gs
    by_cases nested : ∃ hs, f = .and hs
    · obtain ⟨hs, rfl⟩ := nested
      rw [flattenConjuncts, List.mem_append]
      exact fun h => h.elim (and_notMem_flattenConjuncts hs gs) later
    · -- Any other operand stays what it is, so it does not become a conjunction.
      have single : ∀ hs, f = .and hs → False := fun hs eq => nested ⟨hs, eq⟩
      rw [flattenConjuncts.eq_3 f fs single, List.mem_cons]
      rintro (h | h)
      · exact nested (exists_eq_and_of_flatten h.symm)
      · exact later h
termination_by sizeOf fs

/-- No disjunction is left among the merged operands of a disjunction. -/
theorem or_notMem_flattenDisjuncts (fs gs : List Formula) : .or gs ∉ flattenDisjuncts fs := by
  cases fs with
  | nil =>
    rw [flattenDisjuncts]
    exact List.not_mem_nil
  | cons f fs =>
    have later := or_notMem_flattenDisjuncts fs gs
    by_cases nested : ∃ hs, f = .or hs
    · obtain ⟨hs, rfl⟩ := nested
      rw [flattenDisjuncts, List.mem_append]
      exact fun h => h.elim (or_notMem_flattenDisjuncts hs gs) later
    · have single : ∀ hs, f = .or hs → False := fun hs eq => nested ⟨hs, eq⟩
      rw [flattenDisjuncts.eq_3 f fs single, List.mem_cons]
      rintro (h | h)
      · exact nested (exists_eq_or_of_flatten h.symm)
      · exact later h
termination_by sizeOf fs

/-- A merged formula has no operand of its own kind. -/
theorem unnested_flatten (f : Formula) : f.flatten.Unnested := by
  cases f with
  | and fs =>
    rw [flatten]
    intro gs h
    exact and_notMem_flattenConjuncts fs gs (mem_sortAscending.1 h)
  | or fs =>
    rw [flatten]
    intro gs h
    exact or_notMem_flattenDisjuncts fs gs (mem_sortAscending.1 h)
  | _ => trivial

/-- The operands of a merged formula are a set. -/
theorem operandsAscend_flatten (f : Formula) : f.flatten.OperandsAscend := by
  cases f with
  | and fs | or fs =>
    rw [flatten]
    exact ascending_sortAscending _
  | _ => trivial

/-! ## (3) Merging leaves flat formulas -/

/-- Merging changes nothing about a flat formula with sets of operands, nor about operands of this
kind that are not nested. -/
theorem flatten_eq_self_parts :
    (∀ f : Formula, f.IsFlat → f.IsOrdered → f.flatten = f) ∧
    (∀ fs, (∀ f ∈ fs, IsFlat f) → (∀ f ∈ fs, IsOrdered f) → (∀ gs, .or gs ∉ fs) →
      flattenDisjuncts fs = fs) ∧
    (∀ fs, (∀ f ∈ fs, IsFlat f) → (∀ f ∈ fs, IsOrdered f) → (∀ gs, .and gs ∉ fs) →
      flattenConjuncts fs = fs) := by
  apply flatten.mutual_induct (fun f => f.IsFlat → f.IsOrdered → f.flatten = f)
    (fun fs => (∀ f ∈ fs, IsFlat f) → (∀ f ∈ fs, IsOrdered f) → (∀ gs, .or gs ∉ fs) →
      flattenDisjuncts fs = fs)
    (fun fs => (∀ f ∈ fs, IsFlat f) → (∀ f ∈ fs, IsOrdered f) → (∀ gs, .and gs ∉ fs) →
      flattenConjuncts fs = fs)
  -- The formulas, one constructor after the other. Operands that ascend are sorted already.
  · intro p _ _
    rw [flatten]
  · intro f ih flat ordered
    cases flat with | not _ flat =>
    cases ordered with | not _ ordered =>
    rw [flatten, ih flat ordered]
  · intro fs ih flat ordered
    cases flat with | and unnested flat =>
    cases ordered with | and ascend ordered =>
    rw [flatten, ih flat ordered unnested, all, operandSet, Ascending.sortAscending_eq ascend]
  · intro fs ih flat ordered
    cases flat with | or unnested flat =>
    cases ordered with | or ascend ordered =>
    rw [flatten, ih flat ordered unnested, any, operandSet, Ascending.sortAscending_eq ascend]
  · intro f g ihf ihg flat ordered
    cases flat with | imp _ flatf flatg =>
    cases ordered with | imp _ orderedf orderedg =>
    rw [flatten, ihf flatf orderedf, ihg flatg orderedg]
  · intro f g ihf ihg flat ordered
    cases flat with | iff _ flatf flatg =>
    cases ordered with | iff _ orderedf orderedg =>
    rw [flatten, ihf flatf orderedf, ihg flatg orderedg]
  · intro a f ih flat ordered
    cases flat with | knows _ flat =>
    cases ordered with | knows _ ordered =>
    rw [flatten, ih flat ordered]
  · intro a f ih flat ordered
    cases flat with | possible _ flat =>
    cases ordered with | possible _ ordered =>
    rw [flatten, ih flat ordered]
  · intro group f ih flat ordered
    cases flat with | everyone _ flat =>
    cases ordered with | everyone _ ordered =>
    rw [flatten, ih flat ordered]
  · intro group f ih flat ordered
    cases flat with | common _ flat =>
    cases ordered with | common _ ordered =>
    rw [flatten, ih flat ordered]
  -- The operands of a disjunction, none of which is merged.
  · intro _ _ _
    rw [flattenDisjuncts]
  · intro gs fs _ _ _ _ unnested
    exact absurd List.mem_cons_self (unnested gs)
  · intro f fs single ihf ihfs flat ordered unnested
    obtain ⟨flatf, flat⟩ := List.forall_mem_cons.1 flat
    obtain ⟨orderedf, ordered⟩ := List.forall_mem_cons.1 ordered
    have later : ∀ gs, .or gs ∉ fs := fun gs h => unnested gs (List.mem_cons_of_mem _ h)
    rw [flattenDisjuncts.eq_3 f fs single, ihf flatf orderedf, ihfs flat ordered later]
  -- The operands of a conjunction likewise.
  · intro _ _ _
    rw [flattenConjuncts]
  · intro gs fs _ _ _ _ unnested
    exact absurd List.mem_cons_self (unnested gs)
  · intro f fs single ihf ihfs flat ordered unnested
    obtain ⟨flatf, flat⟩ := List.forall_mem_cons.1 flat
    obtain ⟨orderedf, ordered⟩ := List.forall_mem_cons.1 ordered
    have later : ∀ gs, .and gs ∉ fs := fun gs h => unnested gs (List.mem_cons_of_mem _ h)
    rw [flattenConjuncts.eq_3 f fs single, ihf flatf orderedf, ihfs flat ordered later]

/-- Merging changes nothing about a flat formula whose operands are sets. -/
theorem flatten_eq_self (flat : f.IsFlat) (ordered : f.IsOrdered) : f.flatten = f :=
  flatten_eq_self_parts.1 f flat ordered

/-! ## (4) The fixed points of simplification -/

/-- The second pass of simplification only merges. -/
theorem simplify_simplify (f : Formula) : f.simplify.simplify = f.simplify.flatten :=
  simplify_eq_flatten (isNnf_simplify f)

/-- Two passes reach operands that are sets. -/
theorem isOrdered_simplify_simplify (f : Formula) : f.simplify.simplify.IsOrdered := by
  rw [simplify_simplify]
  exact everywhere_flatten operandsAscend_flatten f.simplify

/-- Two passes reach flat negation normal form. -/
theorem isFlatNnf_simplify_simplify (f : Formula) : f.simplify.simplify.IsFlatNnf := by
  refine ⟨isNnf_simplify f.simplify, ?_⟩
  rw [simplify_simplify]
  exact everywhere_flatten unnested_flatten f.simplify

/-- A pass changes nothing about a formula in flat negation normal form whose operands are sets. -/
theorem IsFlatNnf.simplify_eq (h : f.IsFlatNnf) (ordered : f.IsOrdered) : f.simplify = f := by
  rw [simplify_eq_flatten h.1, flatten_eq_self h.2 ordered]

/-- The formulas that a pass leaves as they are. -/
theorem simplify_eq_self_iff : f.simplify = f ↔ f.IsOrdered ∧ f.IsFlatNnf := by
  constructor
  · -- A fixed point is what two passes make of it.
    intro fixed
    have ordered := isOrdered_simplify_simplify f
    have flat := isFlatNnf_simplify_simplify f
    rw [fixed, fixed] at ordered flat
    exact ⟨ordered, flat⟩
  · rintro ⟨ordered, flat⟩
    exact flat.simplify_eq ordered

/-- Two passes reach a fixed point. -/
theorem simplify_simplify_simplify (f : Formula) :
    f.simplify.simplify.simplify = f.simplify.simplify :=
  (isFlatNnf_simplify_simplify f).simplify_eq (isOrdered_simplify_simplify f)

/-- Further passes leave a fixed point as it is. -/
theorem settle_of_simplify_eq (passes : Nat) (fixed : f.simplify = f) : settle passes f = f := by
  cases passes with
  | zero => rfl
  | succ passes => rw [settle, if_pos fixed]

/-- With two passes or more a formula is normalised to what two passes make of it. -/
theorem normalise_eq (f : Formula) {limit : Nat} (enough : 2 ≤ limit) :
    f.normalise limit = f.simplify.simplify := by
  obtain ⟨passes, rfl⟩ : ∃ passes, limit = passes + 2 := ⟨limit - 2, by omega⟩
  -- The passes stop after the first if it reached a fixed point, and else after the second.
  show settle (passes + 1) f.simplify = f.simplify.simplify
  rw [settle]
  split
  · next fixed => exact fixed.symm
  · exact settle_of_simplify_eq passes (simplify_simplify_simplify f)

end Formula

/-- With two passes or more an explanation does not depend on the number of passes. -/
theorem Program.explain_eq (p : Program) (name : String) {limit : Nat} (enough : 2 ≤ limit) :
    p.explain name limit = p.explain name 2 := by
  rw [explain, explain]
  split
  · rfl
  · rw [Formula.normalise_eq _ enough, Formula.normalise_eq _ (Nat.le_refl 2)]

/-- With two passes an explanation is a fixed point. -/
theorem Program.simplify_explain {p : Program} {name : String} {e : Formula}
    (explained : p.explain name 2 = some e) : e.simplify = e := by
  rw [explain] at explained
  split at explained
  · cases explained
  · obtain rfl := Option.some.inj explained
    rw [Formula.normalise_eq _ (Nat.le_refl 2), Formula.simplify_simplify_simplify]

namespace Formula

/-- **Simplification settles in two passes.** A pass leaves a formula as it is exactly when the
formula is in flat negation normal form, its operands being sets, and two passes always reach such a
formula. So normalisation with two passes or more gives what two passes give, and explanations that
are normalised with two passes or more are all the same and fixed points. -/
theorem simplify_settles_in_two_passes (f : Formula) :
    (f.simplify = f ↔ f.IsOrdered ∧ f.IsFlatNnf) ∧
    f.simplify.simplify.IsOrdered ∧ f.simplify.simplify.IsFlatNnf ∧
    f.simplify.simplify.simplify = f.simplify.simplify ∧
    (∀ limit, 2 ≤ limit → f.normalise limit = f.simplify.simplify ∧
      (f.normalise limit).simplify = f.normalise limit) ∧
    ∀ (p : Program) (name : String) (limit : Nat), 2 ≤ limit →
      p.explain name limit = p.explain name 2 ∧
      ∀ e, p.explain name limit = some e → e.IsFlatNnf ∧ e.simplify = e := by
  refine ⟨simplify_eq_self_iff, isOrdered_simplify_simplify f, isFlatNnf_simplify_simplify f,
    simplify_simplify_simplify f, ?_, ?_⟩
  · intro limit enough
    rw [normalise_eq f enough]
    exact ⟨rfl, simplify_simplify_simplify f⟩
  · intro p name limit enough
    refine ⟨p.explain_eq name enough, ?_⟩
    intro e explained
    rw [p.explain_eq name enough] at explained
    have fixed := Program.simplify_explain explained
    exact ⟨(simplify_eq_self_iff.1 fixed).2, fixed⟩

/-- Of `p ∨ ¬(q ∧ r)` the first pass leaves a nested disjunction, which the second merges. So it
takes two passes, and no more, to normalise it and to explain the action that it is a condition
of. -/
theorem simplify_settles_in_two_passes_nested :
    let p : Formula := .atom ⟨"p"⟩
    let q : Formula := .atom ⟨"q"⟩
    let r : Formula := .atom ⟨"r"⟩
    let f : Formula := .any [p, .not (.all [q, r])]
    let flat : Formula := .any [p, .not q, .not r]
    let act : Program := ⟨[⟨f, .utterance "act" ""⟩], none⟩
    f.normalise 1 ≠ flat ∧ f.simplify.simplify = flat ∧ flat.IsFlatNnf ∧
      (2 ≤ 16 ∧ f.normalise 16 = flat) ∧
      (2 ≤ 3 ∧ act.explain "act" 3 = some flat ∧ flat.simplify = flat) := by
  intro p q r f flat act
  have two : f.simplify.simplify = flat := by decide +kernel
  have explained : act.explain "act" 3 = some flat := by decide +kernel
  obtain ⟨-, -, isFlatNnf, -, normalised, explanations⟩ := simplify_settles_in_two_passes f
  rw [two] at isFlatNnf
  have enough : f.normalise 16 = flat := (normalised 16 (by decide)).1.trans two
  have fixed : flat.simplify = flat := ((explanations act "act" 3 (by decide)).2 flat explained).2
  exact ⟨by decide +kernel, two, isFlatNnf, ⟨by decide, enough⟩, by decide, explained, fixed⟩

end Formula

end KnowledgePrograms
