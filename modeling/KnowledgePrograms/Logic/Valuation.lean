import Std.Data.ExtTreeMap
import KnowledgePrograms.Logic.Name

/-! # Valuations

A valuation gives every atom a truth value. It records the atoms it was told of, true or false, and
any other atom is false. The record shows in the text of a valuation alone: two valuations count as
equal, and are ordered, by the atoms that are true. -/

namespace KnowledgePrograms

open Std (ExtTreeMap)

/-- A truth value for every atom, false for an atom that is not recorded. -/
structure Valuation where
  /-- The atoms with a recorded value. -/
  recorded : ExtTreeMap Atom Bool
deriving Inhabited

namespace Valuation

/-- The valuation that records nothing. -/
def empty : Valuation := ⟨∅⟩

/-- The value recorded for an atom, if there is one. -/
def recorded? (v : Valuation) (p : Atom) : Option Bool := v.recorded[p]?

/-- The value of an atom. -/
def valueOf (v : Valuation) (p : Atom) : Bool := (v.recorded? p).getD false

/-- The valuation with a new value recorded for an atom. -/
def set (v : Valuation) (p : Atom) (b : Bool) : Valuation := ⟨v.recorded.insert p b⟩

/-- The valuation that records the pairs of a list, later ones over earlier ones. -/
def ofList (pairs : List (Atom × Bool)) : Valuation := ⟨.ofList pairs⟩

/-- The recorded atoms with their values, in the order of the atoms. -/
def pairs (v : Valuation) : List (Atom × Bool) := v.recorded.toList

/-- The atoms that are true, in order. -/
def trueAtoms (v : Valuation) : List Atom :=
  v.pairs.filterMap fun e => if e.2 then some e.1 else none

/-- Valuations count as equal when the same atoms are true. -/
instance : BEq Valuation := ⟨fun v w => v.trueAtoms == w.trueAtoms⟩

/-- Valuations are ordered lexicographically by the atoms that are true. -/
instance : Ord Valuation := ⟨fun v w => compare v.trueAtoms w.trueAtoms⟩

instance : Hashable Valuation := ⟨fun v => hash v.trueAtoms⟩

/-- Whether two valuations give each atom of a list the same value. -/
def agreesOn (v w : Valuation) (atoms : List Atom) : Bool :=
  atoms.all fun p => v.valueOf p == w.valueOf p

/-- The recorded atoms with a space between two, a false one after a minus sign. -/
def text (v : Valuation) : String :=
  " ".intercalate <| v.pairs.map fun e => if e.2 then e.1.name else "-" ++ e.1.name

instance : ToString Valuation := ⟨text⟩

/-- After `set` the atom has the new value and every other atom its own. -/
theorem valueOf_set (v : Valuation) (p q : Atom) (b : Bool) :
    (v.set p b).valueOf q = if p = q then b else v.valueOf q := by
  simp only [valueOf, recorded?, set, ExtTreeMap.getElem?_insert, Std.LawfulEqCmp.compare_eq_iff_eq]
  split <;> rfl

/-- An atom is listed as true iff its value is true. -/
theorem mem_trueAtoms {v : Valuation} {p : Atom} : p ∈ v.trueAtoms ↔ v.valueOf p = true := by
  rw [trueAtoms, List.mem_filterMap, valueOf, recorded?]
  constructor
  · rintro ⟨⟨q, b⟩, h, eq⟩
    cases b
    · cases eq
    · cases eq
      rw [ExtTreeMap.mem_toList_iff_getElem?_eq_some.1 h]
      rfl
  · intro h
    cases hp : v.recorded[p]? with
    | none => rw [hp] at h; cases h
    | some b =>
      rw [hp] at h
      cases h
      exact ⟨(p, true), ExtTreeMap.mem_toList_iff_getElem?_eq_some.2 hp, rfl⟩

end Valuation

end KnowledgePrograms
