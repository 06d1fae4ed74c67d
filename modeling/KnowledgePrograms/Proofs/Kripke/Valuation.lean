import KnowledgePrograms.Proofs.Formula.Order
import KnowledgePrograms.Proofs.Kripke.Sameness

/-! # Comparing valuations

A valuation gives each of the endlessly many atoms a value, and is compared by the finitely many
that it makes true. Atoms that are recorded as false are passed over whenever valuations are
compared, ordered or hashed, so that all three see the same: what values the atoms have.

* `Valuation.compare_eq_lt_iff`: the order is the lexicographic one of the sorted true atoms.
* `Valuation.feed`: what is fed to a hasher, and `Valuation.beq_iff_feed` when it is the same.
* `Valuation.restrict`, `Valuation.agreesOn_iff_restrict`: agreement on some atoms.
* `Valuation.comparison_semantic`: all of this by the values of atoms. -/

namespace KnowledgePrograms

namespace Valuation

variable {u v w : Valuation} {p q : Atom} {atoms : List Atom}

/-! ## (1) The order -/

/-- Valuations are compared by their lists of true atoms. -/
theorem compare_eq (v w : Valuation) : compare v w = compare v.trueAtoms w.trueAtoms := rfl

instance : Std.TransOrd Valuation where
  eq_swap {v w} := (Std.OrientedCmp.eq_swap : compare v.trueAtoms w.trueAtoms = _)
  isLE_trans {_ _ _} := @Std.TransCmp.isLE_trans (List Atom) compare _ _ _ _

instance : Std.LawfulBEqOrd Valuation where
  compare_eq_iff_beq {v w} := by
    rw [compare_eq, Std.LawfulEqCmp.compare_eq_iff_eq, trueAtoms_eq_iff, beq_iff]

/-- A valuation is less than another one iff its true atoms, sorted, come before those of the
other in the lexicographic order. -/
theorem compare_eq_lt_iff :
    compare v w = .lt ↔ List.Lex (fun p q => compare p q = .lt) v.trueAtoms w.trueAtoms := by
  rw [compare_eq, compare_list_eq_lt_iff]

/-! ## (2) Hashing -/

/-- Feed a valuation to a hasher: run through the recorded atoms and write down each that is
true. -/
def feed {σ : Type} (write : σ → Atom → σ) (v : Valuation) (state : σ) : σ :=
  v.pairs.foldl (fun state e => if e.2 then write state e.1 else state) state

/-- What is written down are the true atoms, in order. -/
theorem feed_eq {σ : Type} (write : σ → Atom → σ) (v : Valuation) (state : σ) :
    v.feed write state = v.trueAtoms.foldl write state := by
  rw [feed, trueAtoms, List.foldl_filterMap]
  congr
  funext s e
  cases e.2 <;> rfl

/-- Valuations count as equal iff all hashers are fed the same. -/
theorem beq_iff_feed :
    (v == w) = true ↔
      ∀ (σ : Type) (write : σ → Atom → σ) (state : σ), v.feed write state = w.feed write state := by
  rw [beq_iff, ← trueAtoms_eq_iff]
  constructor
  · intro same σ write state
    rw [feed_eq, feed_eq, same]
  · intro same
    -- One that keeps all it is fed is left with the list of true atoms.
    have kept := same (List Atom) (fun ps p => p :: ps) []
    simpa [feed_eq] using kept

/-! ## (3) Agreement -/

/-- The valuation that records of some atoms what the valuation does, and nothing of others. -/
def restrict (v : Valuation) (atoms : List Atom) : Valuation :=
  ⟨v.recorded.filter fun p _ => p ∈ atoms⟩

/-- After restriction the atoms have their values, and all others are false. -/
theorem valueOf_restrict (v : Valuation) (atoms : List Atom) (p : Atom) :
    (v.restrict atoms).valueOf p = if p ∈ atoms then v.valueOf p else false := by
  rw [valueOf, recorded?, restrict, Std.ExtTreeMap.getElem?_filter', valueOf, recorded?]
  by_cases mem : p ∈ atoms
  · cases v.recorded[p]? <;> simp [mem, Option.filter_some]
  · simp [mem]

/-- Valuations agree on atoms iff they give each of these the same value. -/
theorem agreesOn_iff : v.agreesOn w atoms = true ↔ ∀ p ∈ atoms, v.valueOf p = w.valueOf p := by
  simp [agreesOn]

/-- Valuations agree on atoms iff they count as equal when they are restricted to these. -/
theorem agreesOn_iff_restrict :
    v.agreesOn w atoms = true ↔ (v.restrict atoms == w.restrict atoms) = true := by
  rw [agreesOn_iff, beq_iff]
  refine forall_congr' fun p => ?_
  rw [valueOf_restrict, valueOf_restrict]
  by_cases mem : p ∈ atoms
  · simp [mem]
  · simp [mem]

/-! ## (4) All comparisons -/

/-- **Comparison by values.** Valuations count as equal iff they give each atom the same value, and
this is when they compare as equal. Comparison is a total order: swapped valuations compare the
other way around, and it is transitive. It is the lexicographic order of the lists of true atoms,
which are strictly ascending and have just the atoms with the value true. Valuations count as equal
iff all hashers are fed the same, and then have the same hash. They agree on atoms iff they count as
equal when they are restricted to these. -/
theorem comparison_semantic (u v w : Valuation) (atoms : List Atom) :
    ((v == w) = true ↔ ∀ p, v.valueOf p = w.valueOf p) ∧
    ((v == w) = true ↔ compare v w = .eq) ∧
    compare w v = (compare v w).swap ∧
    ((compare u v).isLE = true → (compare v w).isLE = true → (compare u w).isLE = true) ∧
    (compare v w = .lt ↔ List.Lex (fun p q => compare p q = .lt) v.trueAtoms w.trueAtoms) ∧
    (Ascending v.trueAtoms ∧ ∀ p, p ∈ v.trueAtoms ↔ v.valueOf p = true) ∧
    ((v == w) = true ↔
      ∀ (σ : Type) (write : σ → Atom → σ) (state : σ), v.feed write state = w.feed write state) ∧
    ((v == w) = true → hash v = hash w) ∧
    (v.agreesOn w atoms = true ↔ (v.restrict atoms == w.restrict atoms) = true) := by
  refine ⟨beq_iff, ?_, ?_, ?_, compare_eq_lt_iff, ⟨v.ascending_trueAtoms, ?_⟩, beq_iff_feed, ?_,
    agreesOn_iff_restrict⟩
  · exact Std.LawfulBEqCmp.compare_eq_iff_beq.symm
  · exact Std.OrientedCmp.eq_swap
  · exact Std.TransCmp.isLE_trans
  · exact fun p => mem_trueAtoms
  · intro same
    show hash v.trueAtoms = hash w.trueAtoms
    rw [trueAtoms_eq_iff.2 (beq_iff.1 same)]

/-- An atom that is set to false is like one that was never recorded, and a world with it is the
same as one without. -/
example : (⟨"w", .ofList [(⟨"p"⟩, true), (⟨"p"⟩, false)]⟩ : World) == ⟨"w", .empty⟩ := by
  decide +kernel

end Valuation

end KnowledgePrograms
