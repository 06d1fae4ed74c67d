import KnowledgePrograms.Logic.Formula.NormalForm

/-! # Readings of formulas

A reading gives every formula a value of some type, from the values of its parts. Truth is a
reading, and so is whether a formula is modal. When negation obeys De Morgan's laws under a
reading, and conjunction depends only on the set of the values it joins, then simplification does
not change the value of a formula, and the negation of a formula has the negated value.

* `Formula.inductionOn` is induction on formulas, in which every operand is a part.
* `Reading.read` is the value of a formula, `Reading.DeMorgan` the laws.
* `read_flatten`, `read_simplify`, `read_negate`, `read_normalise`: what the passes do to the value.
* `read_conjunction`, `read_disjunction`: the value does not depend on how operands are joined. -/

namespace KnowledgePrograms

open Std (ExtTreeSet)

universe u

/-- Induction on formulas: what is to be shown of a formula may be assumed of its parts, and so of
each operand of a conjunction or disjunction. -/
@[elab_as_elim, induction_eliminator]
theorem Formula.inductionOn {motive : Formula → Prop}
    (atom : ∀ p, motive (.atom p))
    (not : ∀ f, motive f → motive (.not f))
    (and : ∀ fs, (∀ f ∈ fs, motive f) → motive (.and fs))
    (or : ∀ fs, (∀ f ∈ fs, motive f) → motive (.or fs))
    (imp : ∀ f g, motive f → motive g → motive (.imp f g))
    (iff : ∀ f g, motive f → motive g → motive (.iff f g))
    (knows : ∀ a f, motive f → motive (.knows a f))
    (possible : ∀ a f, motive f → motive (.possible a f))
    (everyone : ∀ group f, motive f → motive (.everyone group f))
    (common : ∀ group f, motive f → motive (.common group f)) (f : Formula) : motive f := by
  -- Of a list of operands the motive is shown member by member.
  have nil : ∀ f ∈ ([] : List Formula), motive f := nofun
  have cons : ∀ f fs, motive f → (∀ g ∈ fs, motive g) → ∀ g ∈ f :: fs, motive g :=
    fun _ _ first rest => List.forall_mem_cons.2 ⟨first, rest⟩
  exact @Formula.rec motive (fun fs => ∀ f ∈ fs, motive f) atom not and or imp iff knows possible
    everyone common nil cons f

/-- What each connective and each modality does with the values of the parts of a formula. -/
structure Reading (β : Type u) where
  /-- The value of an atom. -/
  atom : Atom → β
  /-- The value of a negation. -/
  not : β → β
  /-- The value of a conjunction of operands with these values. -/
  and : List β → β
  /-- The value of a disjunction of operands with these values. -/
  or : List β → β
  /-- The value of an implication. -/
  imp : β → β → β
  /-- The value of an equivalence. -/
  iff : β → β → β
  /-- The value of the knowledge of an agent. -/
  knows : Agent → β → β
  /-- The value of what an agent considers possible. -/
  possible : Agent → β → β
  /-- The value of the knowledge of everyone in a group. -/
  everyone : ExtTreeSet Agent → β → β
  /-- The value of the common knowledge of a group. -/
  common : ExtTreeSet Agent → β → β

namespace Reading

variable {β : Type u}

mutual

/-- The value of a formula. -/
def read (R : Reading β) : Formula → β
  | .atom p => R.atom p
  | .not f => R.not (R.read f)
  | .and fs => R.and (R.readEach fs)
  | .or fs => R.or (R.readEach fs)
  | .imp f g => R.imp (R.read f) (R.read g)
  | .iff f g => R.iff (R.read f) (R.read g)
  | .knows a f => R.knows a (R.read f)
  | .possible a f => R.possible a (R.read f)
  | .everyone group f => R.everyone group (R.read f)
  | .common group f => R.common group (R.read f)

/-- The values of the operands. -/
def readEach (R : Reading β) : List Formula → List β
  | [] => []
  | f :: fs => R.read f :: R.readEach fs

end

/-- The values of the operands are read one by one. -/
@[simp] theorem readEach_eq (R : Reading β) (fs : List Formula) :
    R.readEach fs = fs.map R.read := by
  induction fs with
  | nil => rfl
  | cons f fs ih => rw [readEach, ih, List.map_cons]

/-- Conjunction depends on the set of its operands only, and can be made in parts; negation is its
own inverse and turns each connective into its dual. -/
structure DeMorgan (R : Reading β) : Prop where
  /-- Neither order nor repetition of operands counts. -/
  and_congr : ∀ {xs ys : List β}, (∀ x, x ∈ xs ↔ x ∈ ys) → R.and xs = R.and ys
  /-- The conjunction of a single operand is the operand. -/
  and_singleton : ∀ x, R.and [x] = x
  /-- Operands can be joined part by part. -/
  and_append : ∀ xs ys, R.and (xs ++ ys) = R.and [R.and xs, R.and ys]
  /-- The negation of a negation is what is negated. -/
  not_not : ∀ x, R.not (R.not x) = x
  /-- The negation of a conjunction is the disjunction of the negations. -/
  not_and : ∀ xs, R.not (R.and xs) = R.or (xs.map R.not)
  /-- An implication fails when the first part holds and the second does not. -/
  not_imp : ∀ x y, R.not (R.imp x y) = R.and [x, R.not y]
  /-- An equivalence fails when one of its parts holds without the other. -/
  not_iff : ∀ x y, R.not (R.iff x y) = R.or [R.and [x, R.not y], R.and [R.not x, y]]
  /-- What is not considered possible is known not to be. -/
  not_possible : ∀ a x, R.not (R.possible a x) = R.knows a (R.not x)

namespace DeMorgan

variable {R : Reading β}

/-! ## (1) The dual laws -/

/-- A disjunction is the negated conjunction of the negations. -/
theorem or_eq (law : R.DeMorgan) (xs : List β) : R.or xs = R.not (R.and (xs.map R.not)) := by
  have twice : (xs.map R.not).map R.not = xs := by
    rw [List.map_map]
    exact (List.map_congr_left fun x _ => law.not_not x).trans (List.map_id xs)
  rw [law.not_and, twice]

/-- The negation of a disjunction is the conjunction of the negations. -/
theorem not_or (law : R.DeMorgan) (xs : List β) : R.not (R.or xs) = R.and (xs.map R.not) := by
  rw [law.or_eq, law.not_not]

/-- Neither order nor repetition of operands of a disjunction counts. -/
theorem or_congr (law : R.DeMorgan) {xs ys : List β} (same : ∀ x, x ∈ xs ↔ x ∈ ys) :
    R.or xs = R.or ys := by
  have negated : R.and (xs.map R.not) = R.and (ys.map R.not) := by
    apply law.and_congr
    intro x
    simp only [List.mem_map, same]
  rw [law.or_eq, law.or_eq, negated]

/-- The disjunction of a single operand is the operand. -/
theorem or_singleton (law : R.DeMorgan) (x : β) : R.or [x] = x := by
  rw [law.or_eq, List.map_singleton, law.and_singleton, law.not_not]

/-- Operands of a disjunction can be joined part by part. -/
theorem or_append (law : R.DeMorgan) (xs ys : List β) :
    R.or (xs ++ ys) = R.or [R.or xs, R.or ys] := by
  rw [law.or_eq (xs ++ ys), List.map_append, law.and_append, law.or_eq [R.or xs, R.or ys]]
  simp only [List.map_cons, List.map_nil, law.not_or]

/-- A conjunction can be made of its first operand and the conjunction of the others. -/
theorem and_cons (law : R.DeMorgan) (x : β) (xs : List β) :
    R.and (x :: xs) = R.and [x, R.and xs] := by
  have parts := law.and_append [x] xs
  rwa [law.and_singleton] at parts

/-- A disjunction can be made of its first operand and the disjunction of the others. -/
theorem or_cons (law : R.DeMorgan) (x : β) (xs : List β) :
    R.or (x :: xs) = R.or [x, R.or xs] := by
  have parts := law.or_append [x] xs
  rwa [law.or_singleton] at parts

/-! ## (2) Joining formulas -/

/-- The values of the operands kept are those of the operands given. -/
theorem mem_map_operandSet {fs : List Formula} {x : β} :
    x ∈ (Formula.operandSet fs).map R.read ↔ x ∈ fs.map R.read := by
  simp only [List.mem_map, Formula.operandSet, mem_sortAscending]

/-- The value of a conjunction of a list is the conjunction of the values. -/
theorem read_all (law : R.DeMorgan) (fs : List Formula) :
    R.read (.all fs) = R.and (fs.map R.read) := by
  rw [Formula.all, read, readEach_eq]
  exact law.and_congr fun x => mem_map_operandSet

/-- The value of a disjunction of a list is the disjunction of the values. -/
theorem read_any (law : R.DeMorgan) (fs : List Formula) :
    R.read (.any fs) = R.or (fs.map R.read) := by
  rw [Formula.any, read, readEach_eq]
  exact law.or_congr fun x => mem_map_operandSet

/-- The value does not change when a single operand stands for its conjunction. -/
theorem read_conjunction (law : R.DeMorgan) (fs : List Formula) :
    R.read (.conjunction fs) = R.and (fs.map R.read) := by
  rw [← law.read_all, Formula.conjunction, Formula.all]
  split
  · next f single =>
    rw [single, read, readEach_eq, List.map_singleton, law.and_singleton]
  · rfl

/-- The value does not change when a single operand stands for its disjunction. -/
theorem read_disjunction (law : R.DeMorgan) (fs : List Formula) :
    R.read (.disjunction fs) = R.or (fs.map R.read) := by
  rw [← law.read_any, Formula.disjunction, Formula.any]
  split
  · next f single =>
    rw [single, read, readEach_eq, List.map_singleton, law.or_singleton]
  · rfl

/-! ## (3) Operand by operand -/

/-- The operands of a nested conjunction may be merged into the others. -/
theorem and_merged (law : R.DeMorgan) {xs ys : List β} {gs fs : List Formula}
    (hg : R.and xs = R.and (gs.map R.read)) (hf : R.and ys = R.and (fs.map R.read)) :
    R.and (xs ++ ys) = R.and ((.and gs :: fs).map R.read) := by
  rw [law.and_append, hg, hf, List.map_cons, read, readEach_eq, ← law.and_cons]

/-- An operand of a conjunction may be replaced by its value, beside the joint value of the rest. -/
theorem and_kept (law : R.DeMorgan) {x : β} {ys : List β} {f : Formula} {fs : List Formula}
    (hx : x = R.read f) (hf : R.and ys = R.and (fs.map R.read)) :
    R.and (x :: ys) = R.and ((f :: fs).map R.read) := by
  rw [law.and_cons, hx, hf, List.map_cons, ← law.and_cons]

/-- The operands of a nested disjunction may be merged into the others. -/
theorem or_merged (law : R.DeMorgan) {xs ys : List β} {gs fs : List Formula}
    (hg : R.or xs = R.or (gs.map R.read)) (hf : R.or ys = R.or (fs.map R.read)) :
    R.or (xs ++ ys) = R.or ((.or gs :: fs).map R.read) := by
  rw [law.or_append, hg, hf, List.map_cons, read, readEach_eq, ← law.or_cons]

/-- An operand of a disjunction may be replaced by its value, beside the joint value of the rest. -/
theorem or_kept (law : R.DeMorgan) {x : β} {ys : List β} {f : Formula} {fs : List Formula}
    (hx : x = R.read f) (hf : R.or ys = R.or (fs.map R.read)) :
    R.or (x :: ys) = R.or ((f :: fs).map R.read) := by
  rw [law.or_cons, hx, hf, List.map_cons, ← law.or_cons]

/-! ## (4) The passes -/

/-- Merging keeps the value of a formula, and the joint value of the operands it merges. -/
theorem read_flatten_parts (law : R.DeMorgan) :
    (∀ f : Formula, R.read f.flatten = R.read f) ∧
    (∀ fs, R.or ((Formula.flattenDisjuncts fs).map R.read) = R.or (fs.map R.read)) ∧
    (∀ fs, R.and ((Formula.flattenConjuncts fs).map R.read) = R.and (fs.map R.read)) := by
  apply Formula.flatten.mutual_induct (fun f => R.read f.flatten = R.read f)
    (fun fs => R.or ((Formula.flattenDisjuncts fs).map R.read) = R.or (fs.map R.read))
    (fun fs => R.and ((Formula.flattenConjuncts fs).map R.read) = R.and (fs.map R.read))
  -- The formulas, one constructor after the other.
  · intro p
    rw [Formula.flatten]
  · intro f ih
    rw [Formula.flatten, read, read, ih]
  · intro fs ih
    rw [Formula.flatten, law.read_all, read, readEach_eq, ih]
  · intro fs ih
    rw [Formula.flatten, law.read_any, read, readEach_eq, ih]
  · intro f g ihf ihg
    rw [Formula.flatten, read, read, ihf, ihg]
  · intro f g ihf ihg
    rw [Formula.flatten, read, read, ihf, ihg]
  · intro a f ih
    rw [Formula.flatten, read, read, ih]
  · intro a f ih
    rw [Formula.flatten, read, read, ih]
  · intro group f ih
    rw [Formula.flatten, read, read, ih]
  · intro group f ih
    rw [Formula.flatten, read, read, ih]
  -- The operands of a disjunction: a nested disjunction is merged, any other operand flattened.
  · rw [Formula.flattenDisjuncts]
  · intro gs fs ihg ihf
    rw [Formula.flattenDisjuncts, List.map_append]
    exact law.or_merged ihg ihf
  · intro f fs single ihf ihfs
    rw [Formula.flattenDisjuncts.eq_3 f fs single, List.map_cons]
    exact law.or_kept ihf ihfs
  -- The operands of a conjunction likewise.
  · rw [Formula.flattenConjuncts]
  · intro gs fs ihg ihf
    rw [Formula.flattenConjuncts, List.map_append]
    exact law.and_merged ihg ihf
  · intro f fs single ihf ihfs
    rw [Formula.flattenConjuncts.eq_3 f fs single, List.map_cons]
    exact law.and_kept ihf ihfs

/-- Merging keeps the value of a formula. -/
theorem read_flatten (law : R.DeMorgan) (f : Formula) : R.read f.flatten = R.read f :=
  law.read_flatten_parts.1 f

/-- Simplifying keeps the value of a formula and the joint value of the operands it merges, and
negating gives the negated value. -/
theorem read_simplify_parts (law : R.DeMorgan) :
    (∀ f : Formula, R.read f.simplify = R.read f) ∧
    (∀ fs, R.or ((Formula.simplifyDisjuncts fs).map R.read) = R.or (fs.map R.read)) ∧
    (∀ fs, R.and ((Formula.simplifyConjuncts fs).map R.read) = R.and (fs.map R.read)) ∧
    (∀ f : Formula, R.read f.negate = R.not (R.read f)) ∧
    (∀ fs, (Formula.negateEach fs).map R.read = (fs.map R.read).map R.not) := by
  apply Formula.simplify.mutual_induct (fun f => R.read f.simplify = R.read f)
    (fun fs => R.or ((Formula.simplifyDisjuncts fs).map R.read) = R.or (fs.map R.read))
    (fun fs => R.and ((Formula.simplifyConjuncts fs).map R.read) = R.and (fs.map R.read))
    (fun f => R.read f.negate = R.not (R.read f))
    (fun fs => (Formula.negateEach fs).map R.read = (fs.map R.read).map R.not)
  -- The simplified formulas, one constructor after the other.
  · intro p
    rw [Formula.simplify]
  · intro f ih
    rw [Formula.simplify, ih, read]
  · intro fs ih
    rw [Formula.simplify, law.read_all, read, readEach_eq, ih]
  · intro fs ih
    rw [Formula.simplify, law.read_any, read, readEach_eq, ih]
  · intro f g ihf ihg
    rw [Formula.simplify, read, read, ihf, ihg]
  · intro f g ihf ihg
    rw [Formula.simplify, read, read, ihf, ihg]
  · intro a f ih
    rw [Formula.simplify, read, read, ih]
  · intro a f ih
    rw [Formula.simplify, read, read, ih]
  · intro group f ih
    rw [Formula.simplify, read, read, ih]
  · intro group f ih
    rw [Formula.simplify, read, read, ih]
  -- The negated formulas. A connective turns into its dual, which a pass then merges.
  · intro p
    simp only [Formula.negate, read]
  · intro f ih
    rw [Formula.negate, ih, read, law.not_not]
  · intro fs ih
    rw [Formula.negate, law.read_flatten, law.read_any, ih, read, readEach_eq, law.not_and]
  · intro fs ih
    rw [Formula.negate, law.read_flatten, law.read_all, ih, read, readEach_eq, law.not_or]
  · intro f g ihf ihg
    rw [Formula.negate, law.read_flatten, law.read_all, read, law.not_imp]
    simp only [List.map_cons, List.map_nil, ihf, ihg]
  · intro f g ihf ihg' ihf' ihg
    rw [Formula.negate, law.read_flatten, law.read_any, read, law.not_iff]
    simp only [List.map_cons, List.map_nil, law.read_all, ihf, ihg, ihf', ihg']
  · intro a f ih
    rw [Formula.negate, read, read, read, ih]
  · intro a f ih
    rw [Formula.negate, read, read, ih, law.not_possible]
  · intro group f ih
    rw [Formula.negate, read, read, read, ih]
  · intro group f ih
    rw [Formula.negate, read, read, read, ih]
  -- The operands of a disjunction: a nested disjunction is merged, any other operand simplified.
  · rw [Formula.simplifyDisjuncts]
  · intro gs fs ihg ihf
    rw [Formula.simplifyDisjuncts, List.map_append]
    exact law.or_merged ihg ihf
  · intro f fs single ihf ihfs
    rw [Formula.simplifyDisjuncts.eq_3 f fs single, List.map_cons]
    exact law.or_kept ihf ihfs
  -- The operands of a conjunction likewise.
  · rw [Formula.simplifyConjuncts]
  · intro gs fs ihg ihf
    rw [Formula.simplifyConjuncts, List.map_append]
    exact law.and_merged ihg ihf
  · intro f fs single ihf ihfs
    rw [Formula.simplifyConjuncts.eq_3 f fs single, List.map_cons]
    exact law.and_kept ihf ihfs
  -- The negated operands, one by one.
  · rw [Formula.negateEach]
    rfl
  · intro f fs ihf ihfs
    rw [Formula.negateEach, List.map_cons, List.map_cons, List.map_cons, ihf, ihfs]

/-- Simplifying keeps the value of a formula. -/
theorem read_simplify (law : R.DeMorgan) (f : Formula) : R.read f.simplify = R.read f :=
  law.read_simplify_parts.1 f

/-- Negating a formula gives the negated value. -/
theorem read_negate (law : R.DeMorgan) (f : Formula) : R.read f.negate = R.not (R.read f) :=
  law.read_simplify_parts.2.2.2.1 f

/-- Simplifying again and again keeps the value of a formula. -/
theorem read_settle (law : R.DeMorgan) (passes : Nat) (f : Formula) :
    R.read (Formula.settle passes f) = R.read f := by
  induction passes generalizing f with
  | zero => rfl
  | succ passes ih =>
    rw [Formula.settle]
    split
    · rfl
    · rw [ih, law.read_simplify]

/-- Normalising keeps the value of a formula, whatever the number of passes. -/
theorem read_normalise (law : R.DeMorgan) (limit : Nat) (f : Formula) :
    R.read (f.normalise limit) = R.read f := by
  rw [Formula.normalise, law.read_settle, law.read_simplify]

end DeMorgan

end Reading

end KnowledgePrograms
