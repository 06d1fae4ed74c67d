import KnowledgePrograms.Kripke.Model

/-! # Worlds reachable by a group

What is common knowledge in a group depends on all worlds that some path of the group reaches, a
path being one or more arcs, each of some agent of the group. They are searched for with a set of
the worlds reached so far and a frontier of those whose arcs are still to be followed. Each step
takes the world reached last from the frontier, and every world that an arc leads to from there is
put into the set and on the frontier if it is not in the set yet.

Nothing in a step makes the search end. It does because arcs lead to worlds of the model alone: each
of these is put on the frontier once, and each step takes one from it (`Search.pending_step_lt`). -/

namespace KnowledgePrograms

open Std (ExtTreeSet)

/-- How far a search has got. -/
structure Search where
  /-- The worlds reached so far. -/
  reached : ExtTreeSet WorldRef
  /-- The worlds whose arcs are still to be followed, the one reached last first. -/
  frontier : List WorldRef

namespace Search

/-- The search that is to follow the arcs of one world, and has reached none. -/
def start (r : WorldRef) : Search := ⟨∅, [r]⟩

/-- An arc leads to a world: unless it was reached before, it is now. -/
def meet (s : Search) (x : WorldRef) : Search :=
  if x ∈ s.reached then s else ⟨s.reached.insert x, x :: s.frontier⟩

/-- Take the first world of the frontier and follow its arcs. -/
def step (next : WorldRef → List WorldRef) (s : Search) : Search :=
  match s.frontier with
  | [] => s
  | x :: rest => (next x).foldl meet ⟨s.reached, rest⟩

/-- How many of some worlds are not reached, and how many are to be followed. -/
def pending (s : Search) (worlds : List WorldRef) : Nat :=
  (worlds.filter fun x => x ∉ s.reached).length + s.frontier.length

/-- To meet one of the worlds leaves no more pending. -/
theorem pending_meet_le {worlds : List WorldRef} (s : Search) {x : WorldRef} (mem : x ∈ worlds) :
    (s.meet x).pending worlds ≤ s.pending worlds := by
  rw [meet]
  split
  · exact Nat.le_refl _
  · next new =>
    -- What is put on the frontier is among the unreached worlds no longer.
    have fewer : (worlds.filter fun y => y ∉ s.reached.insert x)
        = (worlds.filter fun y => y ∉ s.reached).filter fun y => y != x := by
      rw [List.filter_filter]
      refine List.filter_congr fun y _ => ?_
      rw [Bool.eq_iff_iff]
      simp [ExtTreeSet.mem_insert, eq_comm (a := x)]
    have less : (worlds.filter fun y => y ∉ s.reached.insert x).length
        < (worlds.filter fun y => y ∉ s.reached).length := by
      rw [fewer]
      exact List.length_filter_lt_length_iff_exists.2
        ⟨x, List.mem_filter.2 ⟨mem, decide_eq_true new⟩, by simp⟩
    simp only [pending, List.length_cons]
    omega

/-- To meet some of the worlds leaves no more pending. -/
theorem pending_foldl_meet_le {worlds : List WorldRef} (s : Search) {xs : List WorldRef}
    (inside : ∀ x ∈ xs, x ∈ worlds) : (xs.foldl meet s).pending worlds ≤ s.pending worlds := by
  induction xs generalizing s with
  | nil => exact Nat.le_refl _
  | cons x rest ih =>
    have first := s.pending_meet_le (inside x List.mem_cons_self)
    have later := ih (s.meet x) fun y hy => inside y (List.mem_cons_of_mem _ hy)
    exact Nat.le_trans later first

/-- A step leaves less pending, if arcs lead to none but the worlds. -/
theorem pending_step_lt {next : WorldRef → List WorldRef} {worlds : List WorldRef} {s : Search}
    (inside : ∀ x, ∀ y ∈ next x, y ∈ worlds) (more : s.frontier ≠ []) :
    (s.step next).pending worlds < s.pending worlds := by
  obtain ⟨reached, frontier⟩ := s
  cases frontier with
  | nil => exact absurd rfl more
  | cons x rest =>
    have followed := pending_foldl_meet_le ⟨reached, rest⟩ (inside x)
    exact Nat.lt_of_le_of_lt followed (Nat.lt_succ_self _)

/-- Step on until the frontier is empty: the worlds reached then. -/
def run (next : WorldRef → List WorldRef) {worlds : List WorldRef}
    (inside : ∀ x, ∀ y ∈ next x, y ∈ worlds) (s : Search) : ExtTreeSet WorldRef :=
  if s.frontier = [] then s.reached else run next inside (s.step next)
termination_by s.pending worlds
decreasing_by exact pending_step_lt inside ‹_›

end Search

namespace Model

/-- The worlds that arcs of a group lead to from a world, agent by agent. -/
def successors (m : Model) (group : ExtTreeSet Agent) (x : WorldRef) : List WorldRef :=
  group.toList.flatMap fun a => m.accessible a x

/-- The arcs of a group lead to worlds of the model. -/
theorem mem_refs_of_mem_successors (m : Model) (group : ExtTreeSet Agent) (x : WorldRef) :
    ∀ y ∈ m.successors group x, y ∈ m.refs := by
  intro y hy
  obtain ⟨a, _, arc⟩ := List.mem_flatMap.1 hy
  exact contains_iff.1 (contains_of_mem_accessible arc)

/-- The worlds reached from a world by one or more arcs of the group, in order. -/
def reachable (m : Model) (group : ExtTreeSet Agent) (r : WorldRef) : List WorldRef :=
  ((Search.start r).run (m.successors group) (m.mem_refs_of_mem_successors group)).toList

end Model

end KnowledgePrograms
