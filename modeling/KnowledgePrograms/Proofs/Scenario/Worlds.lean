import Mathlib.Data.Finset.Card
import Std.Data.String.ToNat
import KnowledgePrograms.Proofs.Kripke.AllValuations
import KnowledgePrograms.Proofs.Kripke.Submodel
import KnowledgePrograms.Scenario.MuddyChildren

/-! # The worlds of the muddy children

A world is told by the set of children that are muddy in it: there is just one world for each set
of children, and a child cannot tell two worlds apart when their sets differ at most in the child.
So what a child holds possible is a family of sets of children.

* `base`: the model that all children start with, and `muddyAt` the set of a world.
* `exists_muddyAt_eq`, `muddyAt_inj`: there is just one world for each set.
* `mem_relation_child`: which worlds a child cannot tell apart.
* `exists_findWorld_base`: the world of a set is found by its name. -/

namespace KnowledgePrograms

open Std (ExtTreeMap ExtTreeSet)

namespace MuddyChildren

variable {count i j : Nat} {r s : WorldRef}

/-! ## (1) Names and numbers -/

/-- Children of different numbers are different. -/
theorem child_inj : child i = child j ↔ i = j := by
  rw [child, child, Agent.mk.injEq, String.append_right_inj]
  exact Nat.repr_inj

/-- Atoms of different numbers are different. -/
theorem muddyAtom_inj : muddyAtom i = muddyAtom j ↔ i = j := by
  rw [muddyAtom, muddyAtom, Atom.mk.injEq, String.append_right_inj]
  exact Nat.repr_inj

/-- The children are numbered from one on. -/
theorem mem_numbers : i ∈ numbers count ↔ 1 ≤ i ∧ i ≤ count := by
  rw [numbers, List.mem_range'_1]
  omega

/-- No number is given twice. -/
theorem nodup_numbers (count : Nat) : (numbers count).Nodup := List.nodup_range'

/-- As many children as are counted. -/
theorem card_numbers (count : Nat) : (numbers count).toFinset.card = count := by
  rw [List.toFinset_card_of_nodup (nodup_numbers count), numbers, List.length_range']

/-- The children are numbered in order. -/
theorem getElem?_numbers (inside : i < count) : (numbers count)[i]? = some (i + 1) := by
  rw [numbers, List.getElem?_range' inside, Nat.one_mul, Nat.add_comm]

/-- The atoms of the children, in the order of their numbers. -/
def atoms (count : Nat) : List Atom := (numbers count).map muddyAtom

/-- No atom is given twice. -/
theorem nodup_atoms (count : Nat) : (atoms count).Nodup :=
  (nodup_numbers count).map fun _ _ same => muddyAtom_inj.1 same

/-- The atom of a child is at the place of its number. -/
theorem getElem?_atoms (inside : i < count) : (atoms count)[i]? = some (muddyAtom (i + 1)) := by
  rw [atoms, List.getElem?_map, getElem?_numbers inside, Option.map_some]

/-- A child observes the atoms of the others. -/
theorem mem_othersAtoms {p : Atom} :
    p ∈ othersAtoms count i ↔ ∃ j ∈ numbers count, j ≠ i ∧ muddyAtom j = p := by
  rw [othersAtoms, ExtTreeSet.mem_ofList, List.contains_iff_mem, List.mem_map]
  simp only [List.mem_filter, bne_iff_ne, and_assoc]

/-- Every child has its sight. -/
theorem getElem?_sights (hi : i ∈ numbers count) :
    (sights count)[child i]? = some (othersAtoms count i) := by
  have distinct : (((numbers count).map fun i => (child i, othersAtoms count i)).map
      Prod.fst).Nodup := by
    rw [List.map_map]
    exact (nodup_numbers count).map fun _ _ same => child_inj.1 same
  exact (getElem?_ofList_iff distinct).2 (List.mem_map_of_mem hi)

/-! ## (2) The sets of the worlds -/

/-- The model that the children start with. -/
def base (count : Nat) : Model :=
  (Model.fromObservability (World.allValuations (atoms count)) (sights count)).2

/-- The children that are muddy in a world. -/
def muddyAt (count : Nat) (r : WorldRef) : Finset Nat :=
  (numbers count).toFinset.filter fun i => (base count).valueOf r (muddyAtom i) = true

/-- A child is muddy in a world iff its atom is true there. -/
theorem mem_muddyAt :
    i ∈ muddyAt count r ↔ i ∈ numbers count ∧ (base count).valueOf r (muddyAtom i) = true := by
  rw [muddyAt, Finset.mem_filter, List.mem_toFinset]

/-- The atom of a child is true in the worlds in which the child is muddy. -/
theorem valueOf_muddyAtom (hi : i ∈ numbers count) :
    (base count).valueOf r (muddyAtom i) = decide (i ∈ muddyAt count r) := by
  rw [Bool.eq_iff_iff, decide_eq_true_iff, mem_muddyAt]
  exact ⟨fun muddy => ⟨hi, muddy⟩, And.right⟩

/-- Only children are muddy. -/
theorem muddyAt_subset : muddyAt count r ⊆ (numbers count).toFinset := Finset.filter_subset _ _

/-- What is at a reference is the world of a row of values. -/
theorem exists_row {w : World} (here : (base count).world? r = some w) :
    ∃ row : List Bool, row.length = count ∧ World.ofRow (atoms count) row = w := by
  have listed := WorldTable.exists_get?_addAll_empty.1 ⟨r, here⟩
  obtain ⟨row, full, rfl⟩ := World.mem_allValuations.1 listed
  refine ⟨row, ?_, rfl⟩
  simpa [atoms, numbers] using full

/-- The world of a row of values is in the model, and in it just the children are muddy that the row
says to be. -/
theorem exists_world_of_row (count : Nat) (p : Nat → Bool) :
    ∃ r, (base count).world? r = some (World.ofRow (atoms count) ((numbers count).map p)) ∧
      ∀ i ∈ numbers count, (base count).valueOf r (muddyAtom i) = p i := by
  have full : ((numbers count).map p).length = (atoms count).length := by
    rw [atoms, List.length_map, List.length_map]
  obtain ⟨r, found⟩ := WorldTable.exists_get?_addAll_empty.2
    (World.mem_allValuations.2 ⟨_, full, rfl⟩)
  have here : (base count).world? r = _ := found
  refine ⟨r, here, ?_⟩
  intro i hi
  obtain ⟨index, rfl⟩ : ∃ index, i = index + 1 := ⟨i - 1, by have := mem_numbers.1 hi; omega⟩
  have inside : index < count := (mem_numbers.1 hi).2
  have value := World.valueOf_ofRow (nodup_atoms count) full (getElem?_atoms inside)
  rw [List.getElem?_map, getElem?_numbers inside, Option.map_some] at value
  rw [Model.valueOf_eq here]
  exact (Option.some.inj value).symm

/-- There is a world for every set of children. -/
theorem exists_muddyAt_eq {x : Finset Nat} (children : x ⊆ (numbers count).toFinset) :
    ∃ r, (base count).contains r = true ∧ muddyAt count r = x := by
  obtain ⟨r, here, values⟩ := exists_world_of_row count fun i => decide (i ∈ x)
  refine ⟨r, Model.contains_iff_exists.2 ⟨_, here⟩, ?_⟩
  ext i
  rw [mem_muddyAt]
  constructor
  · rintro ⟨hi, muddy⟩
    rw [values i hi] at muddy
    exact of_decide_eq_true muddy
  · intro muddy
    have hi := List.mem_toFinset.1 (children muddy)
    rw [values i hi]
    exact ⟨hi, decide_eq_true muddy⟩

/-- There are no two worlds of one set. -/
theorem muddyAt_inj (hr : (base count).contains r = true) (hs : (base count).contains s = true)
    (same : muddyAt count r = muddyAt count s) : r = s := by
  obtain ⟨w, hw⟩ := Model.contains_iff_exists.1 hr
  obtain ⟨v, hv⟩ := Model.contains_iff_exists.1 hs
  obtain ⟨row, full, rfl⟩ := exists_row hw
  obtain ⟨row', full', rfl⟩ := exists_row hv
  have length : (atoms count).length = count := by
    rw [atoms, List.length_map, numbers, List.length_range']
  -- The rows agree in every place, as the values of the atoms do, and rows tell worlds apart.
  have rows : row = row' := by
    refine List.ext_getElem? fun index => ?_
    by_cases inside : index < count
    · have hi : index + 1 ∈ numbers count := mem_numbers.2 (by omega)
      have place := getElem?_atoms inside
      rw [World.valueOf_ofRow (nodup_atoms count) (full.trans length.symm) place,
        World.valueOf_ofRow (nodup_atoms count) (full'.trans length.symm) place,
        ← Model.valueOf_eq hw, ← Model.valueOf_eq hv, valueOf_muddyAtom hi, valueOf_muddyAtom hi,
        same]
    · rw [List.getElem?_eq_none (by omega), List.getElem?_eq_none (by omega)]
  rw [← rows] at hv
  exact WorldTable.get?_addAll_empty_inj (World.nodup_allValuations _) hw hv

/-! ## (3) What a child cannot tell apart -/

/-- A child cannot tell two worlds apart iff the same of the others are muddy in them. -/
theorem mem_relation_child (hi : i ∈ numbers count) :
    (⟨r, s⟩ : Arc) ∈ (base count).relation (child i) ↔
      (base count).contains r = true ∧ (base count).contains s = true ∧
        (muddyAt count r).erase i = (muddyAt count s).erase i := by
  rw [base, Model.mem_relation_fromObservability (getElem?_sights hi), ← base,
    Model.contains_iff_exists, Model.contains_iff_exists]
  constructor
  · rintro ⟨w, v, hw, hv, agree⟩
    refine ⟨⟨w, hw⟩, ⟨v, hv⟩, ?_⟩
    ext j
    rw [Finset.mem_erase, Finset.mem_erase, mem_muddyAt, mem_muddyAt]
    refine and_congr_right fun other => and_congr_right fun hj => ?_
    rw [Model.valueOf_eq hw, Model.valueOf_eq hv,
      agree _ (mem_othersAtoms.2 ⟨j, hj, other, rfl⟩)]
  · rintro ⟨⟨w, hw⟩, ⟨v, hv⟩, same⟩
    refine ⟨w, v, hw, hv, ?_⟩
    intro p hp
    obtain ⟨j, hj, other, rfl⟩ := mem_othersAtoms.1 hp
    have alike : j ∈ (muddyAt count r).erase i ↔ j ∈ (muddyAt count s).erase i := by rw [same]
    simp only [Finset.mem_erase, ne_eq, other, not_false_eq_true, true_and] at alike
    rw [← Model.valueOf_eq hw, ← Model.valueOf_eq hv, valueOf_muddyAtom hj, valueOf_muddyAtom hj,
      decide_eq_decide]
    exact alike

/-! ## (4) The world of a set -/

/-- The world in which just some children are muddy is found by its name. -/
theorem exists_findWorld_base (count : Nat) (muddy : ExtTreeSet Nat) :
    ∃ r, (base count).findWorld (worldName count muddy) = .ok r ∧
      (base count).contains r = true ∧
      ∀ i, i ∈ muddyAt count r ↔ i ∈ numbers count ∧ i ∈ muddy := by
  obtain ⟨s, there, values⟩ := exists_world_of_row count fun i => muddy.contains i
  obtain ⟨r, w, found, here, named⟩ := Model.exists_findWorld ⟨s, _, there, rfl⟩
  -- The name writes the row, so the world that is found is the one of the row.
  obtain ⟨row, -, rfl⟩ := exists_row here
  obtain rfl := World.rowName_inj.1 named
  obtain rfl : r = s := WorldTable.get?_addAll_empty_inj (World.nodup_allValuations _) here there
  refine ⟨r, found, Model.contains_iff_exists.2 ⟨_, here⟩, fun i => ?_⟩
  rw [mem_muddyAt]
  refine and_congr_right fun hi => ?_
  rw [values i hi, ExtTreeSet.contains_iff_mem]

end MuddyChildren

end KnowledgePrograms
