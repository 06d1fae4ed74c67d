import KnowledgePrograms.Kripke.Observability
import KnowledgePrograms.Proofs.Formula.FixedPoint
import KnowledgePrograms.Proofs.Formula.Truth
import KnowledgePrograms.Proofs.Kripke.Removal
import KnowledgePrograms.Proofs.Kripke.Semantics

/-! # Reduction of announcements

What is true after an announcement can be said before it: an agent knows something after `f` is
announced exactly if it knows before that, should `f` be true, this will then be the case. Applied
modality by modality, this reduces a formula about the model after the announcement to one about the
model before it. Group knowledge reduces as the knowledge of its members does. Common knowledge does
not, as paths through worlds that are removed are lost.

* `Formula.reduce f g`: what `g` says after `f` is announced, said before.
* `Model.satisfies_announce_iff`: the reduced formula is true where the formula will be.
* `Model.announcement_reduces`: evaluation before and after an announcement. -/

namespace KnowledgePrograms

open Std (ExtTreeMap ExtTreeSet)

namespace Formula

/-! ## (1) Reduced formulas -/

mutual

/-- What a formula says after `f` is announced, said before. Common knowledge, for which there is no
such rule, is left where it stands. -/
def reduce (f : Formula) : Formula → Formula
  | .atom p => .atom p
  | .not g => .not (f.reduce g)
  | .and gs => .all (f.reduceEach gs)
  | .or gs => .any (f.reduceEach gs)
  | .imp g h => .imp (f.reduce g) (f.reduce h)
  | .iff g h => .iff (f.reduce g) (f.reduce h)
  | .knows a g => .knows a (.imp f (f.reduce g))
  | .possible a g => .possible a (.all [f, f.reduce g])
  | .everyone group g => .everyone group (.imp f (f.reduce g))
  | .common group g => .common group (f.reduce g)

/-- What the operands say after `f` is announced, said before. -/
def reduceEach (f : Formula) : List Formula → List Formula
  | [] => []
  | g :: gs => f.reduce g :: f.reduceEach gs

end

/-- The operands are reduced one by one. -/
@[simp] theorem reduceEach_eq (f : Formula) (gs : List Formula) :
    f.reduceEach gs = gs.map f.reduce := by
  induction gs with
  | nil => rfl
  | cons g gs ih => rw [reduceEach, ih, List.map_cons]

/-- No common knowledge is spoken of, at any depth. -/
def IsCommonFree (g : Formula) : Prop := g.Everywhere fun h => ∀ group k, h ≠ .common group k

end Formula

namespace Model

variable {m : Model} {a : Agent} {f g : Formula} {r s : WorldRef}

/-! ## (2) Truth after an announcement -/

/-- The worlds after an announcement are those at which the formula was true. -/
theorem contains_announce_iff :
    (m.announce f).2.contains r = true ↔ m.contains r = true ∧ m.satisfies f r = true :=
  (m.isSubmodel_announce f).contains_iff

/-- From a world that is left, an arc leads after an announcement where it led before if the formula
was true there. -/
theorem mem_relation_announce_iff (survives : (m.announce f).2.contains r = true) :
    (⟨r, s⟩ : Arc) ∈ (m.announce f).2.relation a ↔
      (⟨r, s⟩ : Arc) ∈ m.relation a ∧ m.satisfies f s = true := by
  have true_r := (contains_announce_iff.1 survives).2
  rw [(m.isSubmodel_announce f).mem_relation_iff]
  simp only [true_r, true_and]

/-- Where an arc leads after an announcement a world is left. -/
theorem contains_announce_of_arc (arc : (⟨r, s⟩ : Arc) ∈ m.relation a)
    (holds : m.satisfies f s = true) : (m.announce f).2.contains s = true :=
  contains_announce_iff.2 ⟨(m.within_relation a _ arc).2, holds⟩

/-- **Reduction.** At a world that is left a formula without common knowledge is true after an
announcement iff the reduced formula was true before. -/
theorem satisfies_announce_iff (free : g.IsCommonFree)
    (survives : (m.announce f).2.contains r = true) :
    (m.announce f).2.satisfies g r = true ↔ m.satisfies (f.reduce g) r = true := by
  induction free generalizing r with
  | atom p _ =>
    rw [Formula.reduce, satisfies, satisfies, (m.isSubmodel_announce f).valueOf_eq survives]
  | not _ _ ih => rw [Formula.reduce, satisfies_not_iff, satisfies_not_iff, ih survives]
  | @and gs _ _ ih =>
    rw [Formula.reduce, Formula.reduceEach_eq, satisfies_all, List.all_map, List.all_eq_true,
      satisfies_and_iff]
    exact forall₂_congr fun g hg => ih g hg survives
  | @or gs _ _ ih =>
    rw [Formula.reduce, Formula.reduceEach_eq, satisfies_any, List.any_map, List.any_eq_true,
      satisfies_or_iff]
    exact exists_congr fun g => and_congr_right fun hg => ih g hg survives
  | imp _ _ _ ihg ihh =>
    rw [Formula.reduce, satisfies_imp_iff, satisfies_imp_iff, ihg survives, ihh survives]
  | iff _ _ _ ihg ihh =>
    rw [Formula.reduce, satisfies_iff_iff, satisfies_iff_iff, ihg survives, ihh survives]
  -- An agent is led to the worlds left alone, so before it has to ask whether `f` is true there.
  | knows _ _ ih =>
    rw [Formula.reduce, satisfies_knows_iff, satisfies_knows_iff]
    simp only [satisfies_imp_iff, mem_relation_announce_iff survives, and_imp]
    exact forall₂_congr fun s arc => imp_congr_right fun holds =>
      ih (contains_announce_of_arc arc holds)
  | possible _ _ ih =>
    rw [Formula.reduce, satisfies_possible_iff, satisfies_possible_iff]
    simp only [satisfies_all, List.all_cons, List.all_nil, Bool.and_true, Bool.and_eq_true,
      mem_relation_announce_iff survives, and_assoc]
    exact exists_congr fun s => and_congr_right fun arc => and_congr_right fun holds =>
      ih (contains_announce_of_arc arc holds)
  | everyone _ _ ih =>
    rw [Formula.reduce, satisfies_everyone_iff, satisfies_everyone_iff]
    simp only [satisfies_imp_iff, mem_relation_announce_iff survives, and_imp]
    exact forall₄_congr fun a _ s arc => imp_congr_right fun holds =>
      ih (contains_announce_of_arc arc holds)
  | common here _ _ => exact absurd rfl (here _ _)

/-- **Announcements reduce.** The worlds after an announcement are those at which the formula was
true. At each of them a formula without common knowledge evaluates after the announcement, and the
reduced formula before it, to the same truth value. -/
theorem announcement_reduces (m : Model) (f g : Formula) (free : g.IsCommonFree) :
    (∀ r, (m.announce f).2.contains r = true ↔
      ∃ live : m.contains r = true, f.evaluate (.pointed m r live) = .ok true) ∧
    ∀ (r : WorldRef) (survives : (m.announce f).2.contains r = true),
      ∃ (live : m.contains r = true) (b : Bool),
        g.evaluate (.pointed (m.announce f).2 r survives) = .ok b ∧
        (f.reduce g).evaluate (.pointed m r live) = .ok b := by
  refine ⟨fun r => ?_, fun r survives => ?_⟩
  · simp only [contains_announce_iff, Formula.evaluate, Except.ok.injEq, exists_prop]
  · obtain ⟨live, -⟩ := contains_announce_iff.1 survives
    have same : m.satisfies (f.reduce g) r = (m.announce f).2.satisfies g r :=
      Bool.eq_iff_iff.2 (satisfies_announce_iff free survives).symm
    exact ⟨live, _, rfl, congrArg Except.ok same⟩

/-- A world without `p` and one with `p`. One agent sees `p`, the other sees nothing. -/
def halfSeen : Model :=
  (Model.fromObservability [⟨"u", .empty⟩, ⟨"v", .ofList [(⟨"p"⟩, true)]⟩]
    ((∅ : ExtTreeMap Agent (ExtTreeSet Atom))
      |>.insert ⟨"seer"⟩ {(⟨"p"⟩ : Atom)}
      |>.insert ⟨"blind"⟩ ∅)).2

/-- That `p` is true without being known becomes false when it is announced, and its reduction was
false before. -/
theorem announcement_reduces_unsuccessful :
    let p : Formula := .atom ⟨"p"⟩
    let unknown : Formula := .and [p, .not (.knows ⟨"blind"⟩ p)]
    let r : WorldRef := ⟨2, 1⟩
    unknown.IsCommonFree ∧ ∃ (live : halfSeen.contains r = true)
      (survives : (halfSeen.announce unknown).2.contains r = true),
      unknown.evaluate (.pointed halfSeen r live) = .ok true ∧
      unknown.evaluate (.pointed (halfSeen.announce unknown).2 r survives) = .ok false ∧
      (unknown.reduce unknown).evaluate (.pointed halfSeen r live) = .ok false := by
  intro p unknown r
  have plain : p.IsCommonFree := .atom _ nofun
  have ignorance : (Formula.not (.knows ⟨"blind"⟩ p)).IsCommonFree :=
    .not nofun (.knows nofun plain)
  have free : unknown.IsCommonFree := by
    refine .and nofun fun h hh => ?_
    rcases List.mem_pair.1 hh with rfl | rfl
    · exact plain
    · exact ignorance
  have live : halfSeen.contains r = true := by decide +kernel
  have holds : halfSeen.satisfies unknown r = true := by decide +kernel
  have after : (halfSeen.announce unknown).2.satisfies unknown r = false := by decide +kernel
  obtain ⟨left, reduces⟩ := announcement_reduces halfSeen unknown unknown free
  have survives := (left r).2 ⟨live, congrArg Except.ok holds⟩
  obtain ⟨live, b, value, before⟩ := reduces r survives
  have untrue : b = false := (Except.ok.inj value).symm.trans after
  subst untrue
  exact ⟨free, live, survives, congrArg Except.ok holds, value, before⟩

end Model

end KnowledgePrograms
