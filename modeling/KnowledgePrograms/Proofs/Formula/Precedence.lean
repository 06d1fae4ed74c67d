import Mathlib.Tactic.MkIffOfInductiveProp
import KnowledgePrograms.Proofs.Formula.Order

/-! # Precedence and canonical operands

Which of two formulas comes first can be said without comparing: the one with the earlier
constructor, then the one with the earlier names, then the one with the earlier parts, lists of
names and of parts in the order of a dictionary, where a word comes before its continuations. Since
this order is total, the ascending list of some formulas is determined by what these formulas are,
and joining them gives one formula, in whichever order they come and however often.

* `Formula.Precedes`, `Formula.order_eq_lt_iff`: the order said without comparing.
* `Formula.operandSet_eq_iff`: the operands kept are determined by the members of a list.
* `Formula.order_total_operands_canonical`: the laws of the order and of operands. -/

namespace KnowledgePrograms

namespace Formula

variable {f g : Formula} {fs gs hs : List Formula}

/-! ## (1) Precedence -/

/-- The first formula comes before the second one. -/
@[mk_iff]
inductive Precedes : Formula → Formula → Prop
  /-- Its outermost constructor is an earlier one. -/
  | rank {f g : Formula} (lower : f.rank < g.rank) : Precedes f g
  /-- With the same constructor, an earlier list of names is written. -/
  | names {f g : Formula} (alike : f.rank = g.rank)
      (earlier : List.Lex (fun x y => compare x y = .lt) f.names g.names) : Precedes f g
  /-- With the same constructor and names, it has an earlier list of parts. -/
  | parts {f g : Formula} (alike : f.rank = g.rank) (named : f.names = g.names)
      (earlier : List.Lex Precedes f.parts g.parts) : Precedes f g

/-- If operands compare as less just when they come before, so do lists of them. -/
theorem orderList_eq_lt_iff (each : ∀ f ∈ fs, ∀ g, f.order g = .lt ↔ f.Precedes g) :
    orderList fs gs = .lt ↔ List.Lex Precedes fs gs := by
  induction fs generalizing gs with
  | nil => cases gs <;> simp [orderList]
  | cons f fs ih =>
    obtain ⟨first, rest⟩ := List.forall_mem_cons.1 each
    cases gs with
    | nil => simp [orderList]
    | cons g gs =>
      rw [orderList, Ordering.then_eq_lt, first g, order_eq_iff, ih rest, List.cons_lex_cons_iff]

/-- A formula compares as less than another one iff it comes before. -/
theorem order_eq_lt_iff (f g : Formula) : f.order g = .lt ↔ f.Precedes g := by
  induction f using wellFounded_part.induction generalizing g with
  | _ f ih =>
    -- The three stages of the comparison are the three ways to come before.
    rw [order_eq, Ordering.then_eq_lt, Ordering.then_eq_lt, Nat.compare_eq_lt, Nat.compare_eq_eq,
      compare_list_eq_lt_iff, Std.LawfulEqCmp.compare_eq_iff_eq, orderList_eq_lt_iff ih,
      precedes_iff, and_or_left]

/-! ## (2) Canonical operands -/

/-- The operands kept are the members of the list, in ascending order. -/
theorem ascending_operandSet (fs : List Formula) : Ascending (operandSet fs) :=
  ascending_sortAscending fs

/-- The operands kept are the members of the list. -/
theorem mem_operandSet : f ∈ operandSet fs ↔ f ∈ fs := mem_sortAscending

/-- Only one ascending list has the members of a list. -/
theorem eq_operandSet (ascending : Ascending gs) (same : ∀ f, f ∈ gs ↔ f ∈ fs) :
    gs = operandSet fs :=
  ascending.ext (ascending_operandSet fs) fun f => (same f).trans mem_operandSet.symm

/-- The same operands are kept of two lists iff they have the same members. -/
theorem operandSet_eq_iff : operandSet fs = operandSet gs ↔ ∀ f, f ∈ fs ↔ f ∈ gs := by
  constructor
  · intro same f
    rw [← mem_operandSet, same, mem_operandSet]
  · intro same
    exact eq_operandSet (ascending_operandSet fs) fun f => mem_operandSet.trans (same f)

/-- The conjunctions of two lists are equal iff the lists have the same members. -/
theorem all_eq_iff : all fs = all gs ↔ ∀ f, f ∈ fs ↔ f ∈ gs := by
  rw [all, all, and.injEq, operandSet_eq_iff]

/-- The disjunctions of two lists are equal iff the lists have the same members. -/
theorem any_eq_iff : any fs = any gs ↔ ∀ f, f ∈ fs ↔ f ∈ gs := by
  rw [any, any, or.injEq, operandSet_eq_iff]

/-! ## (3) Order and operands -/

/-- **Formulas are totally ordered and operands canonical.** One formula compares as less than
another when it comes before, by constructor, then by names, then by parts; and formulas compare as
equal when they are equal. The comparison is antisymmetric, transitive and total. So just one
ascending list has the members of a given list, and the conjunction and the disjunction of the
members, also where a single one stands for itself, depend on nothing but what the members are. -/
theorem order_total_operands_canonical (f g h : Formula) (fs gs : List Formula) :
    (compare f g = .lt ↔ f.Precedes g) ∧
    (compare f g = .eq ↔ f = g) ∧
    compare g f = (compare f g).swap ∧
    ((compare f g).isLE = true → (compare g f).isLE = true → f = g) ∧
    ((compare f g).isLE = true → (compare g h).isLE = true → (compare f h).isLE = true) ∧
    ((compare f g).isLE = true ∨ (compare g f).isLE = true) ∧
    (Ascending gs ∧ (∀ f, f ∈ gs ↔ f ∈ fs) ↔ gs = operandSet fs) ∧
    (all fs = all gs ↔ ∀ f, f ∈ fs ↔ f ∈ gs) ∧
    (any fs = any gs ↔ ∀ f, f ∈ fs ↔ f ∈ gs) ∧
    ((∀ f, f ∈ fs ↔ f ∈ gs) →
      conjunction fs = conjunction gs ∧ disjunction fs = disjunction gs) := by
  have turned : compare g f = (compare f g).swap := Std.OrientedCmp.eq_swap
  refine ⟨order_eq_lt_iff f g, order_eq_iff, turned, ?_, Std.TransCmp.isLE_trans, ?_, ?_,
    all_eq_iff, any_eq_iff, fun same => ?_⟩
  · intro le ge
    have same : compare f g = .eq := Std.OrientedCmp.isLE_antisymm le ge
    exact Std.LawfulEqOrd.eq_of_compare same
  · rw [turned]
    cases compare f g <;> simp
  · constructor
    · rintro ⟨ascending, same⟩
      exact eq_operandSet ascending same
    · rintro rfl
      exact ⟨ascending_operandSet fs, fun f => mem_operandSet⟩
  · rw [conjunction, conjunction, disjunction, disjunction, operandSet_eq_iff.2 same]
    exact ⟨rfl, rfl⟩

/-- A conjunction comes before one with a further operand, and both before what an agent knows. When
the operands are given the other way round, and one of them twice, the same is joined of them. -/
theorem order_total_operands_canonical_repeated :
    let p : Formula := .atom ⟨"p"⟩
    let q : Formula := .atom ⟨"q"⟩
    let f := all [p]
    let g := all [p, q]
    let h : Formula := .knows ⟨"a"⟩ p
    f.Precedes g ∧ (compare g h).isLE = true ∧ (compare f h).isLE = true ∧
      all [q, p, q] = g ∧ conjunction [q, p, q] = conjunction [p, q] ∧
      disjunction [q, p, q] = disjunction [p, q] := by
  intro p q f g h
  have below : compare f g = .lt := by decide +kernel
  have same : ∀ f, f ∈ [q, p, q] ↔ f ∈ [p, q] := fun f => by simp; tauto
  have le : (compare g h).isLE = true := by decide +kernel
  obtain ⟨earlier, -, -, -, trans, -, -, joined, -, collapsed⟩ :=
    order_total_operands_canonical f g h [q, p, q] [p, q]
  have le' : (compare f g).isLE = true := by rw [below]; rfl
  obtain ⟨conjoined, disjoined⟩ := collapsed same
  exact ⟨earlier.1 below, le, trans le' le, joined.2 same, conjoined, disjoined⟩

end Formula

end KnowledgePrograms
