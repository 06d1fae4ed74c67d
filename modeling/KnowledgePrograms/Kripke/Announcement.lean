import KnowledgePrograms.Kripke.Satisfaction

/-! # Public announcement

Announcing a formula removes the worlds at which it is false and the arcs that touch them. The
formula is read at every world before any world is removed, as it speaks of the present state of
affairs. Announcements made one after the other are each read on what the earlier ones left. -/

namespace KnowledgePrograms

open Std (ExtTreeSet)

namespace Model

/-- The worlds at which a formula is false, in order. -/
def refuting (m : Model) (f : Formula) : List WorldRef :=
  m.refs.filter fun r => !m.satisfies f r

/-- Announce a formula: the worlds removed, in order, and the model that is left. -/
def announce (m : Model) (f : Formula) : List WorldRef × Model :=
  let refuted := m.refuting f
  let gone := (∅ : ExtTreeSet WorldRef).insertMany refuted
  (refuted, m.keep fun r => r ∉ gone)

/-- A refuting world is a world of the model at which the formula is false. -/
theorem mem_refuting {m : Model} {f : Formula} {r : WorldRef} :
    r ∈ m.refuting f ↔ m.contains r = true ∧ m.satisfies f r = false := by
  rw [refuting, List.mem_filter, contains_iff, Bool.not_eq_true']

/-- After an announcement a reference refers to what it did if the formula was true there. -/
theorem world?_announce (m : Model) (f : Formula) (r : WorldRef) :
    (m.announce f).2.world? r = if m.satisfies f r then m.world? r else none := by
  rw [announce, world?_keep]
  cases live : m.contains r with
  | false =>
    have gone : m.world? r = none := by
      rw [contains, WorldTable.contains_eq_isSome] at live
      exact Option.isNone_iff_eq_none.1 (Option.isSome_eq_false_iff.1 live)
    simp [gone]
  | true => simp [mem_refuting, live]

/-- Announce formulas one after the other: how many worlds are removed, and the model that is
left. -/
def announceEach (m : Model) : List Formula → Nat × Model
  | [] => (0, m)
  | f :: fs =>
      let (removed, left) := m.announce f
      let (count, last) := left.announceEach fs
      (removed.length + count, last)

end Model

end KnowledgePrograms
