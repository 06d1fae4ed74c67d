/-! # Strictly ascending lists

A finite set that cannot be a tree, because its type is part of the type of its members, is kept as
the strictly ascending list of its members. Such a list is determined by its members.

* `insertAscending x xs` puts `x` at its place among `xs`, unless it is there already.
* `Ascending xs` says that the list increases strictly, and `ascending_sortAscending` that sorting
  leads to such a list.
* `Ascending.ext`: ascending lists with the same members are equal. -/

namespace KnowledgePrograms

universe u

variable {α : Type u} [Ord α]

/-! ## (1) Insertion -/

/-- Put `x` before the first member that is greater, in the place of an equal one if there is
one. -/
@[specialize] def insertAscending (x : α) : List α → List α
  | [] => [x]
  | y :: ys =>
      match compare x y with
      | .lt => x :: y :: ys
      | .eq => x :: ys
      | .gt => y :: insertAscending x ys

/-- The members of a list in ascending order, each once. -/
@[specialize] def sortAscending (xs : List α) : List α := xs.foldr insertAscending []

/-- The list increases strictly. -/
def Ascending (xs : List α) : Prop := xs.Pairwise fun x y => compare x y = .lt

/-! ## (2) Ascending lists -/

/-- The empty list is ascending. -/
@[simp] theorem ascending_nil : Ascending ([] : List α) := List.Pairwise.nil

/-- A list is ascending when its head is below all of an ascending tail. -/
theorem ascending_cons {x : α} {xs : List α} :
    Ascending (x :: xs) ↔ (∀ y ∈ xs, compare x y = .lt) ∧ Ascending xs :=
  List.pairwise_cons

/-- A member after the insertion is the new one or was there before. -/
theorem mem_of_mem_insertAscending {x y : α} {xs : List α} (h : y ∈ insertAscending x xs) :
    y = x ∨ y ∈ xs := by
  induction xs with
  | nil => simpa [insertAscending] using h
  | cons z zs ih =>
    rw [insertAscending] at h
    split at h
    · simpa using h
    · rcases List.mem_cons.1 h with h | h
      · exact .inl h
      · exact .inr (List.mem_cons_of_mem _ h)
    · rcases List.mem_cons.1 h with h | h
      · exact .inr (h ▸ List.mem_cons_self)
      · rcases ih h with h | h
        · exact .inl h
        · exact .inr (List.mem_cons_of_mem _ h)

section Lawful

variable [Std.LawfulEqOrd α]

/-- The members after the insertion are the new one and those before. -/
theorem mem_insertAscending {x y : α} {xs : List α} :
    y ∈ insertAscending x xs ↔ y = x ∨ y ∈ xs := by
  refine ⟨mem_of_mem_insertAscending, fun h => ?_⟩
  induction xs with
  | nil => simpa [insertAscending] using h
  | cons z zs ih =>
    rw [insertAscending]
    split
    · exact List.mem_cons.2 h
    · next eq =>
      cases Std.LawfulEqCmp.eq_of_compare eq
      rcases h with rfl | h
      · exact List.mem_cons_self
      · exact h
    · rcases h with rfl | h
      · exact List.mem_cons_of_mem _ (ih (.inl rfl))
      · rcases List.mem_cons.1 h with rfl | h
        · exact List.mem_cons_self
        · exact List.mem_cons_of_mem _ (ih (.inr h))

/-- Sorting keeps the members of a list. -/
@[simp] theorem mem_sortAscending {xs : List α} {y : α} : y ∈ sortAscending xs ↔ y ∈ xs := by
  induction xs with
  | nil => exact Iff.rfl
  | cons x xs ih => rw [sortAscending, List.foldr_cons, mem_insertAscending, ← sortAscending, ih,
      List.mem_cons]

end Lawful

section Transitive

variable [Std.TransOrd α]

/-- No member is below itself. -/
theorem compare_self_ne_lt (x : α) : compare x x ≠ .lt := by
  rw [(Std.ReflCmp.compare_self : compare x x = .eq)]
  simp

/-- Insertion keeps a list ascending. -/
theorem ascending_insertAscending (x : α) {xs : List α} (h : Ascending xs) :
    Ascending (insertAscending x xs) := by
  induction xs with
  | nil => simp [insertAscending, Ascending]
  | cons y ys ih =>
    obtain ⟨below, rest⟩ := ascending_cons.1 h
    rw [insertAscending]
    split
    · next lt =>
      refine ascending_cons.2 ⟨fun z hz => ?_, h⟩
      rcases List.mem_cons.1 hz with rfl | hz
      · exact lt
      · exact Std.TransCmp.lt_trans lt (below z hz)
    · next eq =>
      refine ascending_cons.2 ⟨fun z hz => ?_, rest⟩
      exact Std.TransCmp.lt_of_eq_of_lt eq (below z hz)
    · next gt =>
      refine ascending_cons.2 ⟨fun z hz => ?_, ih rest⟩
      rcases mem_of_mem_insertAscending hz with rfl | hz
      · exact Std.OrientedCmp.lt_of_gt gt
      · exact below z hz

/-- A sorted list is ascending. -/
theorem ascending_sortAscending (xs : List α) : Ascending (sortAscending xs) := by
  induction xs with
  | nil => exact ascending_nil
  | cons x xs ih => exact ascending_insertAscending x ih

/-- Extensionality: ascending lists with the same members are equal. -/
theorem Ascending.ext {xs ys : List α} (hx : Ascending xs) (hy : Ascending ys)
    (same : ∀ z, z ∈ xs ↔ z ∈ ys) : xs = ys := by
  induction xs generalizing ys with
  | nil =>
    cases ys with
    | nil => rfl
    | cons y ys => exact absurd ((same y).2 List.mem_cons_self) List.not_mem_nil
  | cons x xs ih =>
    cases ys with
    | nil => exact absurd ((same x).1 List.mem_cons_self) List.not_mem_nil
    | cons y ys =>
      obtain ⟨belowX, restX⟩ := ascending_cons.1 hx
      obtain ⟨belowY, restY⟩ := ascending_cons.1 hy
      have head : x = y := by
        rcases List.mem_cons.1 ((same x).1 List.mem_cons_self) with h | h
        · exact h
        · rcases List.mem_cons.1 ((same y).2 List.mem_cons_self) with h' | h'
          · exact h'.symm
          · exact absurd (Std.TransCmp.lt_trans (belowX y h') (belowY x h)) (compare_self_ne_lt _)
      subst head
      have tail : xs = ys := by
        refine ih restX restY fun z => ?_
        constructor
        · intro hz
          rcases List.mem_cons.1 ((same z).1 (List.mem_cons_of_mem _ hz)) with rfl | h
          · exact absurd (belowX z hz) (compare_self_ne_lt _)
          · exact h
        · intro hz
          rcases List.mem_cons.1 ((same z).2 (List.mem_cons_of_mem _ hz)) with rfl | h
          · exact absurd (belowY z hz) (compare_self_ne_lt _)
          · exact h
      rw [tail]

/-- Sorting leaves an ascending list as it is. -/
theorem Ascending.sortAscending_eq [Std.LawfulEqOrd α] {xs : List α} (h : Ascending xs) :
    sortAscending xs = xs :=
  (ascending_sortAscending xs).ext h fun _ => mem_sortAscending

end Transitive

end KnowledgePrograms
