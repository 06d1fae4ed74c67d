import Mathlib.Data.List.Perm.Subperm
import KnowledgePrograms.Proofs.Kripke.Submodel

/-! # Removals

A model loses worlds in two ways: one is removed by its reference, or a formula is announced and
the worlds at which it is false are removed. However often this is done, what is left is a
submodel: the worlds that are still there are as they were, and so are the arcs between them.

* `Removal`, `Model.removeAll`: runs of removals.
* `Model.IsLeftOf`: a model is what is left of another one.
* `Model.isLeftOf_removeAll`: what a run of removals leaves.
* `Model.length_announce_add_worldCount`: the worlds that an announcement removes are counted. -/

namespace KnowledgePrograms

open Std (ExtTreeMap)

/-- A way for a model to lose worlds. -/
inductive Removal where
  /-- Remove the world referred to, if there is one. -/
  | world (r : WorldRef)
  /-- Announce a formula. -/
  | announcement (f : Formula)

/-- The removal does not take the world from the model. -/
def Removal.Spares (m : Model) (r : WorldRef) : Removal → Prop
  | .world s => r ≠ s
  | .announcement f => m.satisfies f r = true

namespace Model

variable {l m n : Model} {kept : WorldRef → Prop} {r : WorldRef}

/-! ## (1) What is left of a model -/

/-- The first model is what is left of the second: its worlds are as they were, and its arcs are
the arcs that were between them. -/
def IsLeftOf (n m : Model) : Prop := n.IsSubmodel m fun r => n.contains r = true

/-- A submodel is what is left, whatever property its worlds were kept for. -/
theorem IsSubmodel.isLeftOf (h : n.IsSubmodel m kept) : n.IsLeftOf m := by
  refine h.congr fun r live => ?_
  simp [h.contains_iff, live]

/-- A model is left of itself. -/
theorem isLeftOf_self (m : Model) : m.IsLeftOf m := m.isSubmodel_self.isLeftOf

/-- What is left of what is left of a model is left of the model. -/
theorem IsLeftOf.trans (h : l.IsLeftOf n) (h' : n.IsLeftOf m) : l.IsLeftOf m :=
  (IsSubmodel.trans h h').isLeftOf

/-- The worlds that are left are worlds of the model. -/
theorem IsLeftOf.contains (h : n.IsLeftOf m) (live : n.contains r = true) : m.contains r = true :=
  (IsSubmodel.contains_iff h).1 live |>.1

/-- There are as many worlds as there are references to worlds. -/
theorem length_refs (m : Model) : m.refs.length = m.worldCount := ExtTreeMap.length_keys

/-- No reference to a world is listed twice. -/
theorem nodup_refs (m : Model) : m.refs.Nodup := WorldTable.nodup_keys m.worlds.live

/-- No more worlds are left than there were. -/
theorem IsLeftOf.worldCount_le (h : n.IsLeftOf m) : n.worldCount ≤ m.worldCount := by
  have sub : n.refs ⊆ m.refs := fun r hr => contains_iff.1 (h.contains (contains_iff.2 hr))
  have fewer : n.refs.Subperm m.refs := n.nodup_refs.subperm sub
  rw [← length_refs, ← length_refs]
  exact fewer.length_le

/-! ## (2) Runs of removals -/

/-- What a removal leaves of a model. -/
def remove (m : Model) : Removal → Model
  | .world r => m.removeWorld r
  | .announcement f => (m.announce f).2

/-- What removals that are made one after the other leave of a model. -/
def removeAll (m : Model) (removals : List Removal) : Model := removals.foldl remove m

/-- A removal leaves the worlds that it spares. -/
theorem isSubmodel_remove (m : Model) (x : Removal) :
    (m.remove x).IsSubmodel m fun r => x.Spares m r := by
  cases x with
  | world s =>
    refine (m.isSubmodel_keep _).congr fun r _ => ?_
    simp [Removal.Spares]
  | announcement f => exact m.isSubmodel_announce f

/-- A run of removals leaves a submodel. -/
theorem isLeftOf_removeAll (m : Model) (removals : List Removal) :
    (m.removeAll removals).IsLeftOf m := by
  induction removals generalizing m with
  | nil => exact m.isLeftOf_self
  | cons x rest ih => exact (ih (m.remove x)).trans (m.isSubmodel_remove x).isLeftOf

/-! ## (3) Counting what announcements remove -/

/-- What an announcement removes and what it leaves are together the worlds of the model. -/
theorem length_announce_add_worldCount (m : Model) (f : Formula) :
    (m.announce f).1.length + (m.announce f).2.worldCount = m.worldCount := by
  let passes : WorldRef → Bool := fun r => m.satisfies f r
  have refuted : (m.announce f).1 = m.refs.filter fun r => !passes r := rfl
  have left : (m.announce f).2.refs = m.refs.filter passes := by
    show (m.keep _).worlds.live.keys = _
    have keys : (m.keep fun r => decide (r ∉ (∅ : Std.ExtTreeSet WorldRef).insertMany
        (m.refuting f))).worlds.live.keys = m.refs.filter _ := ExtTreeMap.keys_filter_key
    refine keys.trans (List.filter_congr fun r hr => ?_)
    simp [mem_refuting, contains_iff.2 hr, passes]
  have parts := (List.filter_append_perm passes m.refs).length_eq
  rw [List.length_append, ← left, ← refuted, length_refs, length_refs] at parts
  omega

/-- Announcements that are made one after the other remove the worlds that are then missing. -/
theorem announceEach_add_worldCount (m : Model) (fs : List Formula) :
    (m.announceEach fs).1 + (m.announceEach fs).2.worldCount = m.worldCount := by
  induction fs generalizing m with
  | nil => simp [announceEach]
  | cons f rest ih =>
    have first := m.length_announce_add_worldCount f
    have later := ih (m.announce f).2
    simp only [announceEach]
    omega

/-- Announcements that are made in two parts are made of what the first part has left. -/
theorem announceEach_append (m : Model) (fs gs : List Formula) :
    m.announceEach (fs ++ gs)
      = ((m.announceEach fs).1 + ((m.announceEach fs).2.announceEach gs).1,
          ((m.announceEach fs).2.announceEach gs).2) := by
  induction fs generalizing m with
  | nil => simp [announceEach]
  | cons f rest ih =>
    simp only [List.cons_append, announceEach, ih]
    rw [Nat.add_assoc]

/-- Announcements that are made one after the other leave a submodel. -/
theorem isLeftOf_announceEach (m : Model) (fs : List Formula) :
    (m.announceEach fs).2.IsLeftOf m := by
  induction fs generalizing m with
  | nil => exact m.isLeftOf_self
  | cons f rest ih => exact (ih (m.announce f).2).trans (m.isSubmodel_announce f).isLeftOf

end Model

end KnowledgePrograms
