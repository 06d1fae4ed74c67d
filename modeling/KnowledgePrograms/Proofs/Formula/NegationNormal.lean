import KnowledgePrograms.Logic.Formula.NormalForm

/-! # Negation normal form

Simplification and negation give formulas whose negations stand only on what has no dual: on atoms,
on knowledge, and on group and common knowledge. On such a formula a pass that simplifies finds no
negation to push inward, so that it is a pass that merges (`simplify_eq_flatten`). The negation of a
connective, which is merged in the end, is therefore the same as its dual simplified.

* `Formula.IsNnf` is the normal form, which `simplify` and `negate` reach in one pass.
* `negate_and`, `negate_or`, `negate_imp`, `negate_iff`: negation as simplification of the dual. -/

namespace KnowledgePrograms

open Std (ExtTreeSet)

namespace Formula

/-- What a negation may stand on: an atom, knowledge, or group or common knowledge. -/
def TakesNot : Formula → Prop
  | .atom _ => True
  | .knows _ _ => True
  | .everyone _ _ => True
  | .common _ _ => True
  | _ => False

/-- Every negation in the formula, at any depth, stands on what it may stand on. -/
inductive IsNnf : Formula → Prop
  | atom (p : Atom) : IsNnf (.atom p)
  | not {f : Formula} (takes : f.TakesNot) (inner : IsNnf f) : IsNnf (.not f)
  | and {fs : List Formula} (operands : ∀ f ∈ fs, IsNnf f) : IsNnf (.and fs)
  | or {fs : List Formula} (operands : ∀ f ∈ fs, IsNnf f) : IsNnf (.or fs)
  | imp {f g : Formula} (left : IsNnf f) (right : IsNnf g) : IsNnf (.imp f g)
  | iff {f g : Formula} (left : IsNnf f) (right : IsNnf g) : IsNnf (.iff f g)
  | knows (a : Agent) {f : Formula} (inner : IsNnf f) : IsNnf (.knows a f)
  | possible (a : Agent) {f : Formula} (inner : IsNnf f) : IsNnf (.possible a f)
  | everyone (group : ExtTreeSet Agent) {f : Formula} (inner : IsNnf f) : IsNnf (.everyone group f)
  | common (group : ExtTreeSet Agent) {f : Formula} (inner : IsNnf f) : IsNnf (.common group f)

/-! ## (1) The normal form is kept -/

/-- A conjunction of formulas in normal form is in normal form. -/
theorem isNnf_all {fs : List Formula} (h : ∀ f ∈ fs, f.IsNnf) : (all fs).IsNnf := by
  apply IsNnf.and
  intro f hf
  exact h f (mem_sortAscending.1 hf)

/-- A disjunction of formulas in normal form is in normal form. -/
theorem isNnf_any {fs : List Formula} (h : ∀ f ∈ fs, f.IsNnf) : (any fs).IsNnf := by
  apply IsNnf.or
  intro f hf
  exact h f (mem_sortAscending.1 hf)

/-- Merging keeps the outermost constructor under a negation. -/
theorem TakesNot.flatten {f : Formula} (h : f.TakesNot) : f.flatten.TakesNot := by
  cases f <;> first | exact h.elim | trivial

/-- The negation of what takes a negation is the negation of it simplified. -/
theorem TakesNot.negate {f : Formula} (h : f.TakesNot) : f.negate = .not f.simplify := by
  cases f <;> first | exact h.elim | rfl

/-- Merging keeps the normal form of a formula, and of the operands it merges. -/
theorem isNnf_flatten_parts :
    (∀ f : Formula, f.IsNnf → f.flatten.IsNnf) ∧
    (∀ fs, (∀ f ∈ fs, IsNnf f) → ∀ g ∈ flattenDisjuncts fs, g.IsNnf) ∧
    (∀ fs, (∀ f ∈ fs, IsNnf f) → ∀ g ∈ flattenConjuncts fs, g.IsNnf) := by
  apply flatten.mutual_induct (fun f => f.IsNnf → f.flatten.IsNnf)
    (fun fs => (∀ f ∈ fs, IsNnf f) → ∀ g ∈ flattenDisjuncts fs, g.IsNnf)
    (fun fs => (∀ f ∈ fs, IsNnf f) → ∀ g ∈ flattenConjuncts fs, g.IsNnf)
  -- The formulas, one constructor after the other.
  · intro p h
    rwa [flatten]
  · intro f ih h
    cases h with
    | not takes inner =>
      rw [flatten]
      exact .not takes.flatten (ih inner)
  · intro fs ih h
    cases h with
    | and operands =>
      rw [flatten]
      exact isNnf_all (ih operands)
  · intro fs ih h
    cases h with
    | or operands =>
      rw [flatten]
      exact isNnf_any (ih operands)
  · intro f g ihf ihg h
    cases h with
    | imp hf hg =>
      rw [flatten]
      exact .imp (ihf hf) (ihg hg)
  · intro f g ihf ihg h
    cases h with
    | iff hf hg =>
      rw [flatten]
      exact .iff (ihf hf) (ihg hg)
  · intro a f ih h
    cases h with
    | knows _ inner =>
      rw [flatten]
      exact .knows a (ih inner)
  · intro a f ih h
    cases h with
    | possible _ inner =>
      rw [flatten]
      exact .possible a (ih inner)
  · intro group f ih h
    cases h with
    | everyone _ inner =>
      rw [flatten]
      exact .everyone group (ih inner)
  · intro group f ih h
    cases h with
    | common _ inner =>
      rw [flatten]
      exact .common group (ih inner)
  -- The operands of a disjunction: a nested disjunction is merged, any other operand flattened.
  · intro h
    rwa [flattenDisjuncts]
  · intro gs fs ihg ihf h
    obtain ⟨nested, rest⟩ := List.forall_mem_cons.1 h
    cases nested with
    | or operands =>
      rw [flattenDisjuncts, List.forall_mem_append]
      exact ⟨ihg operands, ihf rest⟩
  · intro f fs single ihf ihfs h
    obtain ⟨first, rest⟩ := List.forall_mem_cons.1 h
    rw [flattenDisjuncts.eq_3 f fs single, List.forall_mem_cons]
    exact ⟨ihf first, ihfs rest⟩
  -- The operands of a conjunction likewise.
  · intro h
    rwa [flattenConjuncts]
  · intro gs fs ihg ihf h
    obtain ⟨nested, rest⟩ := List.forall_mem_cons.1 h
    cases nested with
    | and operands =>
      rw [flattenConjuncts, List.forall_mem_append]
      exact ⟨ihg operands, ihf rest⟩
  · intro f fs single ihf ihfs h
    obtain ⟨first, rest⟩ := List.forall_mem_cons.1 h
    rw [flattenConjuncts.eq_3 f fs single, List.forall_mem_cons]
    exact ⟨ihf first, ihfs rest⟩

/-! ## (2) The normal form is reached -/

/-- Simplifying and negating give formulas in normal form, and so do they operand by operand. -/
theorem isNnf_simplify_parts :
    (∀ f : Formula, f.simplify.IsNnf) ∧
    (∀ fs, ∀ g ∈ simplifyDisjuncts fs, g.IsNnf) ∧
    (∀ fs, ∀ g ∈ simplifyConjuncts fs, g.IsNnf) ∧
    (∀ f : Formula, f.negate.IsNnf) ∧
    (∀ fs, ∀ g ∈ negateEach fs, g.IsNnf) := by
  have flat := isNnf_flatten_parts.1
  apply simplify.mutual_induct (fun f => f.simplify.IsNnf)
    (fun fs => ∀ g ∈ simplifyDisjuncts fs, g.IsNnf)
    (fun fs => ∀ g ∈ simplifyConjuncts fs, g.IsNnf)
    (fun f => f.negate.IsNnf)
    (fun fs => ∀ g ∈ negateEach fs, g.IsNnf)
  -- The simplified formulas, one constructor after the other.
  · intro p
    rw [simplify]
    exact .atom p
  · intro f ih
    rwa [simplify]
  · intro fs ih
    rw [simplify]
    exact isNnf_all ih
  · intro fs ih
    rw [simplify]
    exact isNnf_any ih
  · intro f g ihf ihg
    rw [simplify]
    exact .imp ihf ihg
  · intro f g ihf ihg
    rw [simplify]
    exact .iff ihf ihg
  · intro a f ih
    rw [simplify]
    exact .knows a ih
  · intro a f ih
    rw [simplify]
    exact .possible a ih
  · intro group f ih
    rw [simplify]
    exact .everyone group ih
  · intro group f ih
    rw [simplify]
    exact .common group ih
  -- The negated formulas. The dual of a connective is in normal form before it is merged.
  · intro p
    rw [negate]
    exact .not trivial (.atom p)
  · intro f ih
    rwa [negate]
  · intro fs ih
    rw [negate]
    exact flat _ (isNnf_any ih)
  · intro fs ih
    rw [negate]
    exact flat _ (isNnf_all ih)
  · intro f g ihf ihg
    rw [negate]
    exact flat _ (isNnf_all (by simp [ihf, ihg]))
  · intro f g ihf ihg' ihf' ihg
    rw [negate]
    have left : (all [f.simplify, g.negate]).IsNnf := isNnf_all (by simp [ihf, ihg'])
    have right : (all [f.negate, g.simplify]).IsNnf := isNnf_all (by simp [ihf', ihg])
    exact flat _ (isNnf_any (by simp [left, right]))
  · intro a f ih
    rw [negate]
    exact .not trivial (.knows a ih)
  · intro a f ih
    rw [negate]
    exact .knows a ih
  · intro group f ih
    rw [negate]
    exact .not trivial (.everyone group ih)
  · intro group f ih
    rw [negate]
    exact .not trivial (.common group ih)
  -- The operands of a disjunction: a nested disjunction is merged, any other operand simplified.
  · rw [simplifyDisjuncts]
    exact List.forall_mem_nil _
  · intro gs fs ihg ihf
    rw [simplifyDisjuncts, List.forall_mem_append]
    exact ⟨ihg, ihf⟩
  · intro f fs single ihf ihfs
    rw [simplifyDisjuncts.eq_3 f fs single, List.forall_mem_cons]
    exact ⟨ihf, ihfs⟩
  -- The operands of a conjunction likewise.
  · rw [simplifyConjuncts]
    exact List.forall_mem_nil _
  · intro gs fs ihg ihf
    rw [simplifyConjuncts, List.forall_mem_append]
    exact ⟨ihg, ihf⟩
  · intro f fs single ihf ihfs
    rw [simplifyConjuncts.eq_3 f fs single, List.forall_mem_cons]
    exact ⟨ihf, ihfs⟩
  -- The negated operands, one by one.
  · rw [negateEach]
    exact List.forall_mem_nil _
  · intro f fs ihf ihfs
    rw [negateEach, List.forall_mem_cons]
    exact ⟨ihf, ihfs⟩

/-- One pass of simplification reaches the normal form. -/
theorem isNnf_simplify (f : Formula) : f.simplify.IsNnf := isNnf_simplify_parts.1 f

/-- The negation of a formula is in normal form. -/
theorem isNnf_negate (f : Formula) : f.negate.IsNnf := isNnf_simplify_parts.2.2.2.1 f

/-- The negations of formulas are in normal form. -/
theorem isNnf_negateEach (fs : List Formula) : ∀ g ∈ negateEach fs, g.IsNnf :=
  isNnf_simplify_parts.2.2.2.2 fs

/-! ## (3) Simplification of formulas in normal form -/

/-- On formulas in normal form simplifying is merging, and so it is operand by operand. -/
theorem simplify_eq_flatten_parts :
    (∀ f : Formula, f.IsNnf → f.simplify = f.flatten) ∧
    (∀ fs, (∀ f ∈ fs, IsNnf f) → simplifyDisjuncts fs = flattenDisjuncts fs) ∧
    (∀ fs, (∀ f ∈ fs, IsNnf f) → simplifyConjuncts fs = flattenConjuncts fs) := by
  apply flatten.mutual_induct (fun f => f.IsNnf → f.simplify = f.flatten)
    (fun fs => (∀ f ∈ fs, IsNnf f) → simplifyDisjuncts fs = flattenDisjuncts fs)
    (fun fs => (∀ f ∈ fs, IsNnf f) → simplifyConjuncts fs = flattenConjuncts fs)
  -- The formulas, one constructor after the other. What takes a negation keeps it.
  · intro p _
    rw [simplify, flatten]
  · intro f ih h
    cases h with
    | not takes inner => rw [simplify, flatten, takes.negate, ih inner]
  · intro fs ih h
    cases h with
    | and operands => rw [simplify, flatten, ih operands]
  · intro fs ih h
    cases h with
    | or operands => rw [simplify, flatten, ih operands]
  · intro f g ihf ihg h
    cases h with
    | imp hf hg => rw [simplify, flatten, ihf hf, ihg hg]
  · intro f g ihf ihg h
    cases h with
    | iff hf hg => rw [simplify, flatten, ihf hf, ihg hg]
  · intro a f ih h
    cases h with
    | knows _ inner => rw [simplify, flatten, ih inner]
  · intro a f ih h
    cases h with
    | possible _ inner => rw [simplify, flatten, ih inner]
  · intro group f ih h
    cases h with
    | everyone _ inner => rw [simplify, flatten, ih inner]
  · intro group f ih h
    cases h with
    | common _ inner => rw [simplify, flatten, ih inner]
  -- The operands of a disjunction: the same ones are merged, and the others agree by induction.
  · intro _
    rw [simplifyDisjuncts, flattenDisjuncts]
  · intro gs fs ihg ihf h
    obtain ⟨nested, rest⟩ := List.forall_mem_cons.1 h
    cases nested with
    | or operands => rw [simplifyDisjuncts, flattenDisjuncts, ihg operands, ihf rest]
  · intro f fs single ihf ihfs h
    obtain ⟨first, rest⟩ := List.forall_mem_cons.1 h
    rw [simplifyDisjuncts.eq_3 f fs single, flattenDisjuncts.eq_3 f fs single, ihf first, ihfs rest]
  -- The operands of a conjunction likewise.
  · intro _
    rw [simplifyConjuncts, flattenConjuncts]
  · intro gs fs ihg ihf h
    obtain ⟨nested, rest⟩ := List.forall_mem_cons.1 h
    cases nested with
    | and operands => rw [simplifyConjuncts, flattenConjuncts, ihg operands, ihf rest]
  · intro f fs single ihf ihfs h
    obtain ⟨first, rest⟩ := List.forall_mem_cons.1 h
    rw [simplifyConjuncts.eq_3 f fs single, flattenConjuncts.eq_3 f fs single, ihf first, ihfs rest]

/-- On a formula in normal form simplifying is merging. -/
theorem simplify_eq_flatten {f : Formula} (h : f.IsNnf) : f.simplify = f.flatten :=
  simplify_eq_flatten_parts.1 f h

/-! ## (4) Negation by duality -/

variable (f g : Formula) (fs : List Formula)

/-- What the negation of an implication is simplified from is in normal form. -/
theorem isNnf_dual_imp : (all [f.simplify, g.negate]).IsNnf :=
  isNnf_all (by simp [isNnf_simplify, isNnf_negate])

/-- What the negation of an equivalence is simplified from is in normal form. -/
theorem isNnf_dual_iff :
    (any [all [f.simplify, g.negate], all [f.negate, g.simplify]]).IsNnf := by
  have right : (all [f.negate, g.simplify]).IsNnf :=
    isNnf_all (by simp [isNnf_simplify, isNnf_negate])
  exact isNnf_any (by simp [isNnf_dual_imp, right])

/-- The negation of a conjunction is the simplified disjunction of the negations. -/
theorem negate_and : (Formula.and fs).negate = (any (negateEach fs)).simplify := by
  rw [negate, simplify_eq_flatten (isNnf_any (isNnf_negateEach fs))]

/-- The negation of a disjunction is the simplified conjunction of the negations. -/
theorem negate_or : (Formula.or fs).negate = (all (negateEach fs)).simplify := by
  rw [negate, simplify_eq_flatten (isNnf_all (isNnf_negateEach fs))]

/-- The negation of an implication is simplified from its first part and the negated second. -/
theorem negate_imp : (Formula.imp f g).negate = (all [f.simplify, g.negate]).simplify := by
  rw [negate, simplify_eq_flatten (isNnf_dual_imp f g)]

/-- The negation of an equivalence is simplified from the two ways in which its parts differ. -/
theorem negate_iff : (Formula.iff f g).negate =
    (any [all [f.simplify, g.negate], all [f.negate, g.simplify]]).simplify := by
  rw [negate, simplify_eq_flatten (isNnf_dual_iff f g)]

end Formula

end KnowledgePrograms
