import KnowledgePrograms.Proofs.Formula.Truth
import KnowledgePrograms.Proofs.Kripke.Semantics

/-! # Common knowledge as a limit

That a formula is common knowledge in a group is found by a search for the worlds that the arcs of
the group lead to. That everyone in the group knows it is found arc by arc, and the operator can be
put before a formula any number of times. The two are told apart by the paths that they look at:
`k` times over, what everyone knows is what is true at the end of each path of `k` arcs, while what
is common knowledge is true at the end of every path of one or more. So common knowledge is all of
these at once, and it is what everyone knows to be true and common knowledge.

* `satisfies_everyone_iff_leads`, `satisfies_common_iff_leads`: both operators, one arc at a time.
* `common_is_limit`: what is common knowledge, and how it is a fixed point. -/

namespace KnowledgePrograms

open Std (ExtTreeSet)

namespace Model

variable {m : Model} {group : ExtTreeSet Agent} {f : Formula} {r s : WorldRef}

/-! ## (1) One arc at a time -/

/-- Everyone in a group knows what is true wherever an arc of the group leads. -/
theorem satisfies_everyone_iff_leads :
    m.satisfies (.everyone group f) r = true ↔
      ∀ s, m.Leads group r s → m.satisfies f s = true := by
  rw [satisfies_everyone_iff]
  constructor
  · rintro known s ⟨a, member, arc⟩
    exact known a member s arc
  · intro known a member s arc
    exact known s ⟨a, member, arc⟩

/-- What is common knowledge in a group is true, and is common knowledge, wherever an arc of the
group leads. -/
theorem satisfies_common_iff_leads :
    m.satisfies (.common group f) r = true ↔
      ∀ s, m.Leads group r s → m.satisfies f s = true ∧ m.satisfies (.common group f) s = true := by
  simp only [satisfies_common_iff]
  constructor
  · intro known s arc
    exact ⟨known s (.single arc), fun t path => known t (.head arc path)⟩
  · -- A path is an arc, or an arc with a path after it.
    intro known s path
    obtain ⟨t, arc, rest⟩ := Relation.TransGen.head'_iff.1 path
    rcases Relation.reflTransGen_iff_eq_or_transGen.1 rest with rfl | path'
    · exact (known s arc).1
    · exact (known t arc).2 s path'

/-! ## (2) The limit -/

/-- What is common knowledge everyone knows, everyone knows that everyone knows, and so on. -/
theorem satisfies_iterate_everyone_of_common (known : m.satisfies (.common group f) r = true)
    (k : Nat) : m.satisfies ((Formula.everyone group)^[k + 1] f) r = true := by
  induction k generalizing r with
  | zero =>
    exact satisfies_everyone_iff_leads.2 fun s arc => (satisfies_common_iff_leads.1 known s arc).1
  | succ k ih =>
    rw [Function.iterate_succ_apply', satisfies_everyone_iff_leads]
    intro s arc
    exact ih (satisfies_common_iff_leads.1 known s arc).2

/-- What everyone knows to any depth is true at the end of each path of the group. -/
theorem satisfies_of_path
    (known : ∀ k, m.satisfies ((Formula.everyone group)^[k + 1] f) r = true)
    (path : Relation.TransGen (m.Leads group) r s) : m.satisfies f s = true := by
  -- Each arc of the path takes one operator away, from the left.
  induction path using Relation.TransGen.head_induction_on with
  | single arc => exact satisfies_everyone_iff_leads.1 (known 0) s arc
  | @head r t arc _ ih =>
    refine ih fun k => ?_
    have deeper := known (k + 1)
    rw [Function.iterate_succ_apply', satisfies_everyone_iff_leads] at deeper
    exact deeper t arc

/-- What is common knowledge is what everyone knows to any depth. -/
theorem satisfies_common_iff_iterate :
    m.satisfies (.common group f) r = true ↔
      ∀ k, m.satisfies ((Formula.everyone group)^[k + 1] f) r = true :=
  ⟨satisfies_iterate_everyone_of_common,
    fun known => (satisfies_common_iff group f).2 fun _ path => satisfies_of_path known path⟩

/-- What is common knowledge is what everyone knows to be true and to be common knowledge. -/
theorem satisfies_common_eq_everyone :
    m.satisfies (.common group f) r
      = m.satisfies (.everyone group (.all [f, .common group f])) r := by
  rw [Bool.eq_iff_iff, satisfies_common_iff_leads, satisfies_everyone_iff_leads]
  simp only [satisfies_all, List.all_cons, List.all_nil, Bool.and_true, Bool.and_eq_true]

/-! ## (3) As formulas are evaluated -/

/-- **Common knowledge is the limit of what everyone knows.** At a world of a model, a formula is
common knowledge in a group exactly if everyone knows it, everyone knows that everyone knows it, and
so on to any depth. Whether it is common knowledge is also whether everyone knows that it is true
and common knowledge. -/
theorem common_is_limit (m : Model) (r : WorldRef) (live : m.contains r = true)
    (group : ExtTreeSet Agent) (f : Formula) :
    ((Formula.common group f).evaluate (.pointed m r live) = .ok true ↔
      ∀ k, 1 ≤ k → ((Formula.everyone group)^[k] f).evaluate (.pointed m r live) = .ok true) ∧
    ∃ b, (Formula.common group f).evaluate (.pointed m r live) = .ok b ∧
      (Formula.everyone group (.all [f, .common group f])).evaluate (.pointed m r live)
        = .ok b := by
  refine ⟨?_, m.satisfies (.common group f) r, rfl, ?_⟩
  · simp only [Formula.evaluate, Except.ok.injEq]
    rw [satisfies_common_iff_iterate]
    constructor
    · intro known k positive
      obtain ⟨j, rfl⟩ := Nat.exists_eq_add_of_le' positive
      exact known j
    · intro known k
      exact known (k + 1) (Nat.le_add_left 1 k)
  · rw [satisfies_common_eq_everyone]
    rfl

/-- Four worlds in a row, of which only the last is without `p`. The agent `a` cannot tell the first
two apart, nor the last two, and the agent `b` those in the middle. -/
def row : Model :=
  let worlds := [("1", true), ("2", true), ("3", true), ("4", false)].foldl
    (fun d w => d.addWorld ⟨w.1, .ofList [(⟨"p"⟩, w.2)]⟩) Draft.empty
  let left := (worlds.relateAll ⟨"a"⟩ [⟨1, 1⟩, ⟨2, 1⟩]).1
  let right := (left.relateAll ⟨"a"⟩ [⟨3, 1⟩, ⟨4, 1⟩]).1
  (right.relateAll ⟨"b"⟩ [⟨2, 1⟩, ⟨3, 1⟩]).1.finish

/-- At the first world of the row everyone knows that everyone knows `p`. No more is known of it, so
it is not common knowledge. -/
theorem common_is_limit_row :
    let p : Formula := .atom ⟨"p"⟩
    let group : ExtTreeSet Agent := {(⟨"a"⟩ : Agent), ⟨"b"⟩}
    ∃ live : row.contains ⟨1, 1⟩ = true,
      (∀ k < 3, ((Formula.everyone group)^[k] p).evaluate (.pointed row ⟨1, 1⟩ live) = .ok true) ∧
      ((Formula.everyone group)^[3] p).evaluate (.pointed row ⟨1, 1⟩ live) = .ok false ∧
      (Formula.common group p).evaluate (.pointed row ⟨1, 1⟩ live) = .ok false ∧
      (Formula.everyone group (.all [p, .common group p])).evaluate (.pointed row ⟨1, 1⟩ live)
        = .ok false := by
  intro p group
  have live : row.contains ⟨1, 1⟩ = true := by decide +kernel
  have shallow : ∀ k < 3, row.satisfies ((Formula.everyone group)^[k] p) ⟨1, 1⟩ = true := by
    decide +kernel
  have deep : row.satisfies ((Formula.everyone group)^[3] p) ⟨1, 1⟩ = false := by decide +kernel
  obtain ⟨limit, b, common, everyone⟩ := common_is_limit row ⟨1, 1⟩ live group p
  cases b with
  | true =>
    have known := limit.1 common 3 (by decide)
    rw [Formula.evaluate, deep] at known
    cases known
  | false =>
    refine ⟨live, fun k bound => ?_, ?_, common, everyone⟩
    · rw [Formula.evaluate, shallow k bound]
    · rw [Formula.evaluate, deep]

end Model

end KnowledgePrograms
