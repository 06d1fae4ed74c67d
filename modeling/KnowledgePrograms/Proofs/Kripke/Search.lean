import Mathlib.Logic.Function.Iterate
import Mathlib.Logic.Relation
import KnowledgePrograms.Kripke.Reachability

/-! # The search for reachable worlds

A search runs until its frontier is empty, and as each step leaves less pending it makes no more
steps than there are worlds to reach, and one for the start. What is reached then is what has a path
to it: a world is reached along a path only, and when the frontier is empty all arcs from the start
and from reached worlds have been followed.

* `Search.exists_iterate_eq_run`: the search as a loop, and its end.
* `Search.Sound`, `Search.Sound.step`: what each step of the loop keeps.
* `Model.search_ends`: reachable worlds are those that one or more arcs of the group lead to. -/

namespace KnowledgePrograms

open Std (ExtTreeMap ExtTreeSet)

namespace Search

variable {next : WorldRef → List WorldRef} {worlds xs : List WorldRef} {start x y : WorldRef}
  {s : Search}

/-! ## (1) The end of a search -/

/-- With an empty frontier a search is over. -/
theorem run_of_frontier_eq_nil (inside : ∀ x, ∀ y ∈ next x, y ∈ worlds) (done : s.frontier = []) :
    s.run next inside = s.reached := by
  rw [run, if_pos done]

/-- With arcs left to follow a search goes on after a step. -/
theorem run_of_frontier_ne_nil (inside : ∀ x, ∀ y ∈ next x, y ∈ worlds) (more : s.frontier ≠ []) :
    s.run next inside = (s.step next).run next inside := by
  rw [run, if_neg more]

/-- A search ends, after no more steps than there is pending. -/
theorem exists_iterate_eq_run (inside : ∀ x, ∀ y ∈ next x, y ∈ worlds) (s : Search) :
    ∃ steps ≤ s.pending worlds, (step next)^[steps] s = ⟨s.run next inside, []⟩ := by
  induction s using run.induct next inside with
  | case1 s done =>
    refine ⟨0, Nat.zero_le _, ?_⟩
    rw [run_of_frontier_eq_nil inside done, ← done]
    rfl
  | case2 s more ih =>
    obtain ⟨steps, bound, ends⟩ := ih
    have less := pending_step_lt inside more
    refine ⟨steps + 1, by omega, ?_⟩
    rw [Function.iterate_succ_apply, ends, run_of_frontier_ne_nil inside more]

/-- At the start all worlds are pending, and the start itself. -/
theorem pending_start (worlds : List WorldRef) (r : WorldRef) :
    (Search.start r).pending worlds = worlds.length + 1 := by
  have all : (worlds.filter fun x => x ∉ (Search.start r).reached) = worlds :=
    List.filter_eq_self.2 fun x _ => by simp [Search.start]
  rw [pending, all]
  rfl

/-- A search depends on nothing but the arcs, not on the worlds that bound it. -/
theorem run_congr {next' : WorldRef → List WorldRef} {others : List WorldRef}
    (inside : ∀ x, ∀ y ∈ next x, y ∈ worlds) (inside' : ∀ x, ∀ y ∈ next' x, y ∈ others)
    (same : next = next') (s : Search) : s.run next inside = s.run next' inside' := by
  subst same
  induction s using run.induct next inside with
  | case1 s done =>
    rw [run_of_frontier_eq_nil inside done, run_of_frontier_eq_nil inside' done]
  | case2 s more ih =>
    rw [run_of_frontier_ne_nil inside more, run_of_frontier_ne_nil inside' more, ih]

/-! ## (2) What a search keeps -/

/-- Worlds that are met are reached, besides those that were. -/
theorem mem_reached_foldl_meet : y ∈ (xs.foldl meet s).reached ↔ y ∈ xs ∨ y ∈ s.reached := by
  induction xs generalizing s with
  | nil => simp
  | cons x rest ih =>
    have met : y ∈ (s.meet x).reached ↔ y = x ∨ y ∈ s.reached := by
      rw [meet]
      split
      · next old => exact ⟨.inr, fun h => h.elim (fun same => same ▸ old) id⟩
      · rw [ExtTreeSet.mem_insert, Std.LawfulEqCmp.compare_eq_iff_eq, eq_comm]
    rw [List.foldl_cons, ih, met, List.mem_cons, or_left_comm, or_assoc]

/-- Worlds that are met join the frontier, unless they were reached before. -/
theorem mem_frontier_foldl_meet :
    y ∈ (xs.foldl meet s).frontier ↔ (y ∈ xs ∧ y ∉ s.reached) ∨ y ∈ s.frontier := by
  induction xs generalizing s with
  | nil => simp
  | cons x rest ih =>
    rw [List.foldl_cons, ih, meet]
    split
    · next old => grind
    · next new =>
      rw [ExtTreeSet.mem_insert, Std.LawfulEqCmp.compare_eq_iff_eq]
      grind

/-- What holds throughout a search from `start`. -/
structure Sound (next : WorldRef → List WorldRef) (start : WorldRef) (s : Search) : Prop where
  /-- A world is reached along a path. -/
  path : ∀ x ∈ s.reached, Relation.TransGen (fun x y => y ∈ next x) start x
  /-- The frontier has the start and reached worlds. -/
  frontier : ∀ x ∈ s.frontier, x = start ∨ x ∈ s.reached
  /-- From the start and from reached worlds, unless they are in the frontier, arcs lead to reached
  worlds. -/
  closed : ∀ x, x = start ∨ x ∈ s.reached → x ∈ s.frontier ∨ ∀ y ∈ next x, y ∈ s.reached

/-- A search starts with no world reached. -/
theorem sound_start (next : WorldRef → List WorldRef) (start : WorldRef) :
    Sound next start (.start start) where
  path x hx := absurd hx ExtTreeSet.not_mem_empty
  frontier x hx := .inl (List.mem_singleton.1 hx)
  closed x hx := by
    rcases hx with rfl | hx
    · exact .inl List.mem_cons_self
    · exact absurd hx ExtTreeSet.not_mem_empty

/-- A step keeps what holds throughout a search. -/
theorem Sound.step (h : Sound next start s) : Sound next start (s.step next) := by
  obtain ⟨reached, frontier⟩ := s
  cases frontier with
  | nil => exact h
  | cons r rest =>
    have hr := h.frontier r List.mem_cons_self
    refine ⟨fun x hx => ?_, fun x hx => ?_, fun x hx => ?_⟩
    · -- The path to a world just met is the path to `r`, if `r` is not the start, and one arc.
      rcases mem_reached_foldl_meet.1 hx with arc | old
      · rcases hr with rfl | hr
        · exact .single arc
        · exact (h.path r hr).tail arc
      · exact h.path x old
    · rcases mem_frontier_foldl_meet.1 hx with ⟨arc, -⟩ | old
      · exact .inr (mem_reached_foldl_meet.2 (.inl arc))
      · refine (h.frontier x (List.mem_cons_of_mem _ old)).imp_right fun old => ?_
        exact mem_reached_foldl_meet.2 (.inr old)
    · -- A world just met is in the frontier, and `r` leaves it with all its arcs followed.
      have before : x = start ∨ x ∈ reached ∨ x ∈ next r ∧ x ∉ reached := by
        rcases hx with same | hx
        · exact .inl same
        · rcases mem_reached_foldl_meet.1 hx with arc | old
          · exact .inr ((em (x ∈ reached)).imp_right fun new => ⟨arc, new⟩)
          · exact .inr (.inl old)
      rcases or_assoc.2 before with known | new
      · rcases h.closed x known with there | followed
        · rcases List.mem_cons.1 there with rfl | there
          · exact .inr fun y arc => mem_reached_foldl_meet.2 (.inl arc)
          · exact .inl (mem_frontier_foldl_meet.2 (.inr there))
        · exact .inr fun y arc => mem_reached_foldl_meet.2 (.inr (followed y arc))
      · exact .inl (mem_frontier_foldl_meet.2 (.inl new))

/-- Any number of steps keep what holds throughout a search. -/
theorem Sound.iterate (h : Sound next start s) (steps : Nat) :
    Sound next start ((Search.step next)^[steps] s) := by
  induction steps generalizing s with
  | zero => exact h
  | succ steps ih => exact ih h.step

/-- When a search has ended, the reached worlds are those with a path to them. -/
theorem Sound.mem_reached_iff {reached : ExtTreeSet WorldRef} (h : Sound next start ⟨reached, []⟩) :
    x ∈ reached ↔ Relation.TransGen (fun x y => y ∈ next x) start x := by
  have closed : ∀ x, x = start ∨ x ∈ reached → ∀ y ∈ next x, y ∈ reached := fun x hx =>
    (h.closed x hx).resolve_left List.not_mem_nil
  constructor
  · exact h.path x
  · intro path
    induction path with
    | single arc => exact closed start (.inl rfl) _ arc
    | tail _ arc ih => exact closed _ (.inr ih) _ arc

/-- A search finds the worlds with a path to them. -/
theorem mem_run_start (inside : ∀ x, ∀ y ∈ next x, y ∈ worlds) :
    x ∈ (Search.start start).run next inside
      ↔ Relation.TransGen (fun x y => y ∈ next x) start x := by
  obtain ⟨steps, -, ends⟩ := exists_iterate_eq_run inside (.start start)
  have sound := (sound_start next start).iterate steps
  rw [ends] at sound
  exact sound.mem_reached_iff

end Search

/-! ## (3) Reachable worlds -/

/-- No member of a set is listed twice. -/
theorem nodup_toList {α : Type} [Ord α] [Std.TransOrd α] [Std.LawfulEqOrd α] (xs : ExtTreeSet α) :
    xs.toList.Nodup :=
  ExtTreeSet.distinct_toList.imp fun apart same => apart (Std.LawfulEqCmp.compare_eq_iff_eq.2 same)

namespace Model

variable {m : Model} {group : ExtTreeSet Agent} {r s : WorldRef}

/-- Some agent of the group cannot rule out the second world at the first. -/
def Leads (m : Model) (group : ExtTreeSet Agent) (x y : WorldRef) : Prop :=
  ∃ a ∈ group, (⟨x, y⟩ : Arc) ∈ m.relation a

/-- No world that an agent cannot rule out is listed twice. -/
theorem nodup_accessible (m : Model) (a : Agent) (r : WorldRef) : (m.accessible a r).Nodup := by
  rw [accessible_eq]
  exact nodup_toList _

/-- The arcs of a group are followed from agent to agent. -/
theorem mem_successors : s ∈ m.successors group r ↔ m.Leads group r s := by
  simp only [successors, List.mem_flatMap, ExtTreeSet.mem_toList, mem_accessible, Leads]

/-- The worlds that a group reaches are those that one or more of its arcs lead to. -/
theorem mem_reachable : s ∈ m.reachable group r ↔ Relation.TransGen (m.Leads group) r s := by
  have arcs : (fun x y => y ∈ m.successors group x) = m.Leads group := by
    funext x y
    exact propext mem_successors
  rw [reachable, ExtTreeSet.mem_toList, Search.mem_run_start, arcs]

/-- The search for the worlds that a group reaches from a world ends after at most one step for each
world of the model and one for the start. The worlds that are reached then are the reachable ones,
and they are those that one or more arcs of the group lead to. -/
theorem search_ends (m : Model) (group : ExtTreeSet Agent) (r : WorldRef) :
    ∃ steps ≤ m.worldCount + 1, ∃ reached : ExtTreeSet WorldRef,
      (Search.step (m.successors group))^[steps] (.start r) = ⟨reached, []⟩ ∧
      m.reachable group r = reached.toList ∧
      ∀ s, s ∈ reached ↔ Relation.TransGen (m.Leads group) r s := by
  have inside := m.mem_refs_of_mem_successors group
  obtain ⟨steps, bound, ends⟩ := Search.exists_iterate_eq_run inside (.start r)
  refine ⟨steps, ?_, _, ends, rfl, fun s => ?_⟩
  · rwa [Search.pending_start, refs, WorldTable.refs, ExtTreeMap.length_keys] at bound
  · rw [← mem_reachable, reachable, ExtTreeSet.mem_toList]

end Model

end KnowledgePrograms
