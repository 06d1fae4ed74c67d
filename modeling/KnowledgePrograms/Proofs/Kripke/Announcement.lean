import KnowledgePrograms.Proofs.Kripke.Persistence
import KnowledgePrograms.Proofs.Kripke.Pointing

/-! # The effect of an announcement

An announcement points at the worlds of a model in the order of their slots, notes those at which
the formula is false, and only then removes them one by one. So what it removes is decided by the
model as it was, however the formula speaks of what other worlds there are: a world may go because
of a world that goes with it.

* `pairwise_slot_refs`: no slot comes twice, and the lower ones come first.
* `mem_refuting_iff`: what an announcement removes, in terms of satisfaction.
* `announcement_removes_refuting`: what it removes, and what it leaves of the others. -/

namespace KnowledgePrograms

open Std (ExtTreeMap ExtTreeSet)

/-! ## (1) The order of worlds -/

/-- Of two references with different slots the one that comes first has the lower slot. -/
theorem WorldRef.slot_lt_of_compare {r s : WorldRef} (before : compare r s = .lt)
    (apart : r.slot ≠ s.slot) : r.slot < s.slot := by
  rcases Ordering.then_eq_lt.1 before with lower | ⟨same, -⟩
  · exact Nat.compare_eq_lt.1 lower
  · exact absurd (Nat.compare_eq_eq.1 same) apart

/-- The worlds of a table are in different slots. -/
theorem WorldTable.pairwise_slot_ne (t : WorldTable) :
    t.refs.Pairwise fun r s => r.slot ≠ s.slot := by
  have distinct : ((t.live.keys ++ t.freed).map WorldRef.slot).Nodup :=
    t.slots.nodup_iff.2 List.nodup_range'
  rw [List.map_append] at distinct
  exact List.pairwise_map.1 (List.nodup_append.1 distinct).1

namespace Model

variable {m : Model} {f : Formula} {r : WorldRef}

/-- The worlds of a model are listed by ascending slots. -/
theorem pairwise_slot_refs (m : Model) : m.refs.Pairwise fun r s => r.slot < s.slot := by
  have ordered : m.refs.Pairwise fun r s => compare r s = .lt := m.worlds.live.ordered_keys
  refine (ordered.and m.worlds.pairwise_slot_ne).imp fun ⟨before, apart⟩ => ?_
  exact WorldRef.slot_lt_of_compare before apart

/-! ## (2) What is removed and what is left -/

/-- The worlds of a model that do not satisfy a formula refute it. -/
theorem mem_refuting_iff : r ∈ m.refuting f ↔ m.contains r = true ∧ ¬ m.Holds f r := by
  rw [mem_refuting, ← satisfies_iff_holds, Bool.not_eq_true]

/-- The worlds that refute a formula are listed by ascending slots. -/
theorem pairwise_slot_refuting (m : Model) (f : Formula) :
    (m.refuting f).Pairwise fun r s => r.slot < s.slot :=
  m.pairwise_slot_refs.sublist List.filter_sublist

/-- An announcement leaves the worlds that do not refute the formula. -/
theorem isSubmodel_announce_refuting (m : Model) (f : Formula) :
    (m.announce f).2.IsSubmodel m fun r => r ∉ m.refuting f := by
  refine (m.isSubmodel_announce f).congr fun r live => ?_
  rw [mem_refuting]
  simp [live]

/-- **An announcement removes the refuting worlds.** It points at all worlds and removes some one by
one, which does not fail. Those removed are told by ascending slots, and they are just the worlds
that did not satisfy the formula in the model as it was. Each other world is at its reference as it
was; no agent loses its relation, and of the arcs of an agent those are left that have both ends
left. If every world satisfied the formula, the model is the one that it was. -/
theorem announcement_removes_refuting (m : Model) (f : Formula) :
    ∃ gone left, m.announceIn f = .ok (gone, left) ∧ m.announce f = (gone, left) ∧
      gone.Pairwise (fun r s => r.slot < s.slot) ∧
      (∀ r, r ∈ gone ↔ m.contains r = true ∧ ¬ m.Holds f r) ∧
      (∀ r, left.world? r = if r ∈ gone then none else m.world? r) ∧
      left.agents = m.agents ∧
      (∀ a arc, arc ∈ left.relation a ↔
        arc ∈ m.relation a ∧ left.contains arc.source = true ∧ left.contains arc.target = true) ∧
      ((∀ r, m.contains r = true → m.Holds f r) → gone = [] ∧ left = m) := by
  have submodel := m.isSubmodel_announce_refuting f
  refine ⟨m.refuting f, (m.announce f).2, m.announceIn_eq f, rfl, m.pairwise_slot_refuting f,
    fun r => mem_refuting_iff, fun r => ?_, submodel.agents_eq, ?_, fun everywhere => ?_⟩
  · rw [Option.ext_iff]
    intro w
    rw [submodel.world?_eq_some_iff]
    by_cases gone : r ∈ m.refuting f
    · simp [gone]
    · simp [gone]
  · exact submodel.isLeftOf.mem_relation_iff
  · have idle : m.announce f = ([], m) :=
      announce_of_forall fun r live => (m.satisfies_iff_holds f r).2 (everywhere r live)
    exact ⟨congrArg Prod.fst idle, congrArg Prod.snd idle⟩

/-- A world with `p` and a world without, which the agent cannot tell apart. -/
def inDoubt : Model :=
  let worlds := (Draft.empty.addWorld ⟨"w", .ofList [(⟨"p"⟩, true)]⟩).addWorld ⟨"v", .empty⟩
  (worlds.addArcs ⟨"a"⟩ [⟨⟨1, 1⟩, ⟨2, 1⟩⟩]).1.finish

/-- That the agent knows `p` removes both worlds, the one with `p` because of the other, without
which the agent would know `p` there. -/
theorem announcement_removes_refuting_inDoubt :
    let p : Formula := .atom ⟨"p"⟩
    let known : Formula := .knows ⟨"a"⟩ p
    (∃ left, inDoubt.announceIn known = .ok ([⟨1, 1⟩, ⟨2, 1⟩], left) ∧ left.worldCount = 0 ∧
      left.agents = [⟨"a"⟩]) ∧
    (inDoubt.removeWorld ⟨2, 1⟩).Holds known ⟨1, 1⟩ := by
  intro p known
  have removed : (inDoubt.announce known).1 = [⟨1, 1⟩, ⟨2, 1⟩] := by decide +kernel
  have two : inDoubt.worldCount = 2 := by decide +kernel
  have agents : inDoubt.agents = [⟨"a"⟩] := by decide +kernel
  have alone : (inDoubt.removeWorld ⟨2, 1⟩).satisfies known ⟨1, 1⟩ = true := by decide +kernel
  obtain ⟨gone, left, succeeds, same, -, -, -, agents_eq, -⟩ :=
    announcement_removes_refuting inDoubt known
  have counted := inDoubt.length_announce_add_worldCount known
  rw [same, two] at counted
  rw [same] at removed
  cases removed
  have empty : left.worldCount = 0 := Nat.add_left_cancel counted
  refine ⟨⟨left, succeeds, empty, agents_eq.trans agents⟩, ?_⟩
  exact (satisfies_iff_holds _ known _).1 alone

end Model

end KnowledgePrograms
