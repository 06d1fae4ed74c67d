import Mathlib.Data.Finset.Powerset
import KnowledgePrograms.Proofs.Kripke.Removal
import KnowledgePrograms.Proofs.Kripke.Search
import KnowledgePrograms.Proofs.Scenario.Worlds

/-! # The answers of the muddy children

What a child holds possible is a family of sets of children, the sets of those that may be muddy. In
the world of one of them the child cannot rule out the set with itself and the set without itself
if they are in the family. So it knows that it is muddy if the set without it is not in the family,
it knows that it is clean if the set with it is not, and it knows neither if both are.

* `answer`: what a child answers, given the family.
* `Shows`, `Shows.worldCount_eq`: a model with the family, and how many worlds it has.
* `satisfies_knows_muddy`, `satisfies_knows_clean`: what a child knows in a model with the family.
* `action_chooseAt`: what the program of a child selects in such a model. -/

namespace KnowledgePrograms

namespace MuddyChildren

/-- What a child may answer. -/
inductive Answer where
  /-- That it is muddy. -/
  | muddy
  /-- That it is clean. -/
  | clean
  /-- That it does not know. -/
  | unknown
deriving DecidableEq

/-- The action by which a child gives an answer. -/
def Answer.action : Answer → Action
  | .muddy => muddyAnswer
  | .clean => cleanAnswer
  | .unknown => unknownAnswer

/-- Different answers are given by actions of different names. -/
theorem Answer.name_action_inj {x y : Answer} : x.action.name = y.action.name ↔ x = y := by
  cases x <;> cases y <;> decide

/-- What a child answers in the world of a set of muddy children, given which sets are possible. -/
def answer (possible : Finset Nat → Bool) (i : Nat) (muddy : Finset Nat) : Answer :=
  if !possible (muddy.erase i) then .muddy
  else if !possible (insert i muddy) then .clean
  else .unknown

section Answer

variable {possible : Finset Nat → Bool} {i : Nat} {muddy : Finset Nat}

/-- A child answers that it is muddy iff the set without it is not possible. -/
theorem answer_eq_muddy_iff :
    answer possible i muddy = .muddy ↔ possible (muddy.erase i) = false := by
  rw [answer]
  cases possible (muddy.erase i) <;> cases possible (insert i muddy) <;> simp

/-- A child answers that it is clean iff the set without it is possible and the one with it is
not. -/
theorem answer_eq_clean_iff : answer possible i muddy = .clean ↔
    possible (muddy.erase i) = true ∧ possible (insert i muddy) = false := by
  rw [answer]
  cases possible (muddy.erase i) <;> cases possible (insert i muddy) <;> simp

/-- A child does not know iff the set without it and the set with it are possible. -/
theorem answer_eq_unknown_iff : answer possible i muddy = .unknown ↔
    possible (muddy.erase i) = true ∧ possible (insert i muddy) = true := by
  rw [answer]
  cases possible (muddy.erase i) <;> cases possible (insert i muddy) <;> simp

end Answer

/-! ## (1) What a child knows -/

/-- The model has the worlds of the possible sets, as they are at the start. -/
def Shows (count : Nat) (possible : Finset Nat → Bool) (m : Model) : Prop :=
  m.IsSubmodel (base count) fun r => possible (muddyAt count r) = true

variable {count i : Nat} {possible : Finset Nat → Bool} {m : Model} {r s : WorldRef}

/-- Only what is possible of the sets of children counts for the worlds of a model. -/
theorem Shows.congr {possible' : Finset Nat → Bool} (h : Shows count possible m)
    (same : ∀ x ⊆ (numbers count).toFinset, possible x = possible' x) : Shows count possible' m :=
  Model.IsSubmodel.congr h fun r _ => by rw [same _ muddyAt_subset]

/-- The worlds of the model are those of the possible sets. -/
theorem Shows.contains_iff (h : Shows count possible m) :
    m.contains r = true ↔ (base count).contains r = true ∧ possible (muddyAt count r) = true :=
  Model.IsSubmodel.contains_iff h

/-- The model has a world of every possible set. -/
theorem Shows.exists_contains (h : Shows count possible m) {x : Finset Nat}
    (children : x ⊆ (numbers count).toFinset) (hx : possible x = true) :
    ∃ s, m.contains s = true ∧ muddyAt count s = x := by
  obtain ⟨s, live, rfl⟩ := exists_muddyAt_eq children
  exact ⟨s, h.contains_iff.2 ⟨live, hx⟩, rfl⟩

/-- The model has as many worlds as there are possible sets. -/
theorem Shows.worldCount_eq (h : Shows count possible m) : m.worldCount =
    ((numbers count).toFinset.powerset.filter fun x => possible x = true).card := by
  have distinct : (m.refs.map (muddyAt count)).Nodup := by
    refine m.nodup_refs.map_on fun r hr s hs same => ?_
    have startR := (h.contains_iff.1 (Model.contains_iff.2 hr)).1
    have startS := (h.contains_iff.1 (Model.contains_iff.2 hs)).1
    exact muddyAt_inj startR startS same
  have sets : (m.refs.map (muddyAt count)).toFinset
      = (numbers count).toFinset.powerset.filter fun x => possible x = true := by
    ext x
    rw [List.mem_toFinset, List.mem_map, Finset.mem_filter, Finset.mem_powerset]
    constructor
    · rintro ⟨r, hr, rfl⟩
      exact ⟨muddyAt_subset, (h.contains_iff.1 (Model.contains_iff.2 hr)).2⟩
    · rintro ⟨children, hx⟩
      obtain ⟨r, live, same⟩ := h.exists_contains children hx
      exact ⟨r, Model.contains_iff.1 live, same⟩
  rw [← sets, List.toFinset_card_of_nodup distinct, List.length_map, m.length_refs]

/-- The model that the children start with shows every set possible. -/
theorem shows_base (count : Nat) : Shows count (fun _ => true) (base count) :=
  (base count).isSubmodel_self.congr fun _ _ => by simp

/-- If every set is possible there are two to the number of children. -/
theorem card_sets (count : Nat) :
    ((numbers count).toFinset.powerset.filter fun _ => true = true).card = 2 ^ count := by
  rw [Finset.filter_true_of_mem fun _ _ => rfl, Finset.card_powerset, card_numbers]

/-- At a world of the model the atom of a child is true iff the child is muddy there. -/
theorem Shows.valueOf_muddyAtom (h : Shows count possible m) (hi : i ∈ numbers count)
    (live : m.contains r = true) :
    m.valueOf r (muddyAtom i) = decide (i ∈ muddyAt count r) := by
  rw [Model.IsSubmodel.valueOf_eq h live, MuddyChildren.valueOf_muddyAtom hi]

/-- At a world of the model a child cannot rule out the worlds of the model in which the same of the
others are muddy. -/
theorem Shows.mem_accessible_child (h : Shows count possible m) (hi : i ∈ numbers count)
    (live : m.contains r = true) :
    s ∈ m.accessible (child i) r ↔
      m.contains s = true ∧ (muddyAt count r).erase i = (muddyAt count s).erase i := by
  obtain ⟨start, possibleHere⟩ := h.contains_iff.1 live
  rw [Model.mem_accessible, h.mem_relation_iff, mem_relation_child hi, h.contains_iff]
  tauto

/-- A child knows that it is muddy iff the set without it is not possible. -/
theorem Shows.satisfies_knows_muddy (h : Shows count possible m) (hi : i ∈ numbers count)
    (live : m.contains r = true) :
    m.satisfies (.knows (child i) (.atom (muddyAtom i))) r
      = !possible ((muddyAt count r).erase i) := by
  rw [Bool.eq_iff_iff, Model.satisfies, List.all_eq_true, Bool.not_eq_true', Bool.eq_false_iff]
  constructor
  · -- If the set without the child were possible, it would be clean in a world it cannot rule out.
    intro known without
    have children : (muddyAt count r).erase i ⊆ (numbers count).toFinset :=
      (Finset.erase_subset i _).trans muddyAt_subset
    obtain ⟨s, there, others⟩ := h.exists_contains children without
    have muddy := known s ((h.mem_accessible_child hi live).2 ⟨there, by rw [others]; simp⟩)
    rw [Model.satisfies, h.valueOf_muddyAtom hi there, others] at muddy
    simp at muddy
  · intro without s hs
    obtain ⟨there, same⟩ := (h.mem_accessible_child hi live).1 hs
    rw [Model.satisfies, h.valueOf_muddyAtom hi there, decide_eq_true_iff]
    by_contra clean
    rw [Finset.erase_eq_of_notMem clean] at same
    rw [same] at without
    exact without (h.contains_iff.1 there).2

/-- A child knows that it is clean iff the set with it is not possible. -/
theorem Shows.satisfies_knows_clean (h : Shows count possible m) (hi : i ∈ numbers count)
    (live : m.contains r = true) :
    m.satisfies (.knows (child i) (.not (.atom (muddyAtom i)))) r
      = !possible (insert i (muddyAt count r)) := by
  rw [Bool.eq_iff_iff, Model.satisfies, List.all_eq_true, Bool.not_eq_true', Bool.eq_false_iff]
  constructor
  · -- If the set with the child were possible, it would be muddy in a world it cannot rule out.
    intro known joined
    have children : insert i (muddyAt count r) ⊆ (numbers count).toFinset :=
      Finset.insert_subset (List.mem_toFinset.2 hi) muddyAt_subset
    obtain ⟨s, there, others⟩ := h.exists_contains children joined
    have clean := known s ((h.mem_accessible_child hi live).2 ⟨there, by rw [others]; simp⟩)
    rw [Model.satisfies, Model.satisfies, h.valueOf_muddyAtom hi there, others] at clean
    simp at clean
  · intro joined s hs
    obtain ⟨there, same⟩ := (h.mem_accessible_child hi live).1 hs
    rw [Model.satisfies, Model.satisfies, h.valueOf_muddyAtom hi there, Bool.not_eq_true',
      decide_eq_false_iff_not]
    intro muddy
    have equal : insert i (muddyAt count r) = muddyAt count s := by
      rw [← Finset.insert_erase muddy, ← same]
      ext j
      by_cases own : j = i <;> simp [own]
    rw [equal] at joined
    exact joined (h.contains_iff.1 there).2

/-! ## (2) What a child answers -/

/-- The program of a child has a rule for either thing it may know. -/
theorem program_eq (a : Agent) (own : Atom) : program a own =
    ⟨[⟨.knows a (.atom own), muddyAnswer⟩, ⟨.knows a (.not (.atom own)), cleanAnswer⟩],
      some unknownAnswer⟩ := by
  simp [program, Program.push, Program.others, Program.setDefault, Program.empty]

/-- The program of a child selects what the child answers. -/
theorem Shows.action_chooseAt (h : Shows count possible m) (hi : i ∈ numbers count)
    (live : m.contains r = true) :
    ((program (child i) (muddyAtom i)).chooseAt m r).map Selection.action
      = some (answer possible i (muddyAt count r)).action := by
  rw [program_eq, Program.chooseAt, Program.choose, Program.firstRule, Program.firstRule,
    h.satisfies_knows_muddy hi live, h.satisfies_knows_clean hi live, answer]
  cases possible ((muddyAt count r).erase i) <;> cases possible (insert i (muddyAt count r)) <;> rfl

end MuddyChildren

end KnowledgePrograms
