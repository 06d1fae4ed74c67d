import KnowledgePrograms.Proofs.Formula.Parts

/-! # The order of formulas

Formulas are compared by their outermost constructors, then by the names written with these, and
then by their parts, lists of names and of parts like words of a dictionary. This is a total order:
the comparison the other way round is the inverse, and what is below something below is below. Both
follow by induction on the first formula, as the order of formulas is put together from orders of
numbers, of names and of parts.

* `compare_list_eq_lt_iff`: how lists are compared.
* `Formula.order_swap`: comparing the other way round.
* `Formula.order_lt_trans`: transitivity. -/

namespace KnowledgePrograms

/-! ## (1) Comparing in stages -/

/-- What compares in two stages is below when it is below in the first, or else in the second. If
both stages are transitive then so is the whole, provided that what is equal in the first stage can
be replaced there. -/
theorem then_lt_trans {o₁ o₂ o₃ p₁ p₂ p₃ : Ordering} (h₁ : o₁.then p₁ = .lt)
    (h₂ : o₂.then p₂ = .lt) (first : o₁ = .lt → o₂ = .lt → o₃ = .lt) (left : o₁ = .eq → o₃ = o₂)
    (right : o₂ = .eq → o₃ = o₁) (second : p₁ = .lt → p₂ = .lt → p₃ = .lt) :
    o₃.then p₃ = .lt := by
  rw [Ordering.then_eq_lt] at h₁ h₂ ⊢
  rcases h₁ with h₁ | ⟨h₁, h₁'⟩
  · rcases h₂ with h₂ | ⟨h₂, -⟩
    · exact .inl (first h₁ h₂)
    · exact .inl ((right h₂).trans h₁)
  · rcases h₂ with h₂ | ⟨h₂, h₂'⟩
    · exact .inl ((left h₁).trans h₂)
    · exact .inr ⟨(left h₁).trans h₂, second h₁' h₂'⟩

/-- Numbers and lists of names, which are ordered already, may be compared in a first stage. -/
theorem compare_then_lt_trans {α : Type} [Ord α] [Std.TransOrd α] [Std.LawfulEqOrd α] {a b c : α}
    {p₁ p₂ p₃ : Ordering} (h₁ : (compare a b).then p₁ = .lt) (h₂ : (compare b c).then p₂ = .lt)
    (second : p₁ = .lt → p₂ = .lt → p₃ = .lt) : (compare a c).then p₃ = .lt := by
  refine then_lt_trans h₁ h₂ Std.TransCmp.lt_trans ?_ ?_ second
  · intro same
    rw [Std.LawfulEqOrd.eq_of_compare same]
  · intro same
    rw [Std.LawfulEqOrd.eq_of_compare same]

/-- Lists compare as less iff the one is before the other in the lexicographic order. -/
theorem compare_list_eq_lt_iff {α : Type} [Ord α] [Std.LawfulEqOrd α] {xs ys : List α} :
    compare xs ys = .lt ↔ List.Lex (fun x y => compare x y = .lt) xs ys := by
  induction xs generalizing ys with
  | nil =>
    cases ys with
    | nil => simp
    | cons y ys => simp
  | cons x xs ih =>
    cases ys with
    | nil => simp
    | cons y ys =>
      rw [List.compare_cons_cons, Ordering.then_eq_lt, ih, List.cons_lex_cons_iff,
        Std.LawfulEqCmp.compare_eq_iff_eq]

namespace Formula

variable {f g : Formula} {fs gs hs : List Formula}

/-! ## (2) The other way round -/

/-- If comparing operands the other way round inverts the outcome, so does comparing lists of
them. -/
theorem orderList_swap (each : ∀ f ∈ fs, ∀ g, f.order g = (g.order f).swap) (gs : List Formula) :
    orderList fs gs = (orderList gs fs).swap := by
  induction fs generalizing gs with
  | nil => cases gs <;> rfl
  | cons f fs ih =>
    obtain ⟨first, rest⟩ := List.forall_mem_cons.1 each
    cases gs with
    | nil => rfl
    | cons g gs => rw [orderList, orderList, Ordering.swap_then, ← first g, ← ih rest gs]

/-- Comparing two formulas the other way round inverts the outcome. -/
theorem order_swap (f g : Formula) : f.order g = (g.order f).swap := by
  induction f using wellFounded_part.induction generalizing g with
  | _ f ih =>
    rw [order_eq, order_eq g, Ordering.swap_then, Ordering.swap_then, ← orderList_swap ih,
      ← Std.OrientedOrd.eq_swap, ← Std.OrientedOrd.eq_swap]

/-! ## (3) Transitivity -/

/-- If what is below something below is below among operands, so it is among lists of them. -/
theorem orderList_lt_trans
    (each : ∀ f ∈ fs, ∀ g h, f.order g = .lt → g.order h = .lt → f.order h = .lt)
    (fg : orderList fs gs = .lt) (gh : orderList gs hs = .lt) : orderList fs hs = .lt := by
  induction fs generalizing gs hs with
  | nil =>
    cases hs with
    | nil => cases gs <;> cases gh
    | cons h hs => rfl
  | cons f fs ih =>
    obtain ⟨first, rest⟩ := List.forall_mem_cons.1 each
    cases gs with
    | nil => cases fg
    | cons g gs =>
      cases hs with
      | nil => cases gh
      | cons h hs =>
        refine then_lt_trans fg gh (first g h) ?_ ?_ (ih rest)
        · intro same
          rw [eq_of_order f g same]
        · intro same
          rw [eq_of_order g h same]

/-- A formula below one that is below a third is below the third. -/
theorem order_lt_trans (f g h : Formula) (fg : f.order g = .lt) (gh : g.order h = .lt) :
    f.order h = .lt := by
  induction f using wellFounded_part.induction generalizing g h with
  | _ f ih =>
    rw [order_eq] at fg gh ⊢
    refine compare_then_lt_trans fg gh fun fg gh => ?_
    exact compare_then_lt_trans fg gh (orderList_lt_trans ih)

/-! ## (4) The order is total -/

instance : Std.TransOrd Formula where
  eq_swap := order_swap _ _
  isLE_trans {f g h} fg gh := by
    -- Of formulas that are not above each other either two are equal or all are below.
    cases first : f.order g with
    | eq => rwa [eq_of_order f g first]
    | gt => rw [show compare f g = .gt from first] at fg; cases fg
    | lt =>
      cases second : g.order h with
      | eq => rwa [← eq_of_order g h second]
      | gt => rw [show compare g h = .gt from second] at gh; cases gh
      | lt => rw [show compare f h = .lt from order_lt_trans f g h first second]; rfl

end Formula

end KnowledgePrograms
