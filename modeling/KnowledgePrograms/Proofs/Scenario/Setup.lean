import KnowledgePrograms.Proofs.Scenario.Answers
import KnowledgePrograms.Proofs.Session.History
import KnowledgePrograms.Proofs.Session.Member

/-! # Setting up the muddy children

`MuddyChildren.setup` succeeds whenever the muddy ones are among the children. In the scenario that
it gives, each child runs its program, hears whom it is to hear, and holds every world possible.

* `exists_arrange`: arranging who hears whom cannot fail.
* `Gathered`, `Assembled`: how a session of children and a scenario stand, whatever the settings.
* `Plays`, `Standing`: how they stand if the settings let the children attend, `Attends`.
* `IsNew`, `exists_isNew`: what is set up.
* `exists_setup`: how a scenario stands at first. -/

namespace KnowledgePrograms

open Std (ExtTreeMap ExtTreeSet)

namespace MuddyChildren

/-! ## (1) Arranging -/

/-- The numbers of the children that a child hears. -/
def audible (count : Nat) (hearing : Hearing) (i : Nat) : List Nat :=
  match hearing with
  | .all => numbers count
  | .none => []
  | .ring => [i, i % count + 1]

variable {count i : Nat} {hearing : Hearing}

/-- A child hears the children of these numbers. -/
theorem hears_eq : hears count hearing i = (audible count hearing i).map child := by
  cases hearing <;> rfl

/-- Only children are heard. -/
theorem mem_numbers_of_mem_audible (hi : i ∈ numbers count) {j : Nat}
    (hj : j ∈ audible count hearing i) : j ∈ numbers count := by
  cases hearing with
  | all => exact hj
  | none => cases hj
  | ring =>
    rcases List.mem_pair.1 hj with rfl | rfl
    · exact hi
    · have positive : 0 < count := by have := mem_numbers.1 hi; omega
      have below := Nat.mod_lt i positive
      exact mem_numbers.2 (by omega)

/-- The member that observes its own atom too and hears whom the child of a number hears. -/
def seated (count : Nat) (hearing : Hearing) (i : Nat) (x : Member) : Member :=
  (x.withObserved (x.observed.insertMany [muddyAtom i])).withHeard
    (.ofList (hears count hearing i))

/-- A child of the session is seated: neither what it observes nor whom it hears is refused. -/
theorem exists_seat (hearing : Hearing) (s : Session) (hi : i ∈ numbers count)
    (known : ∀ j ∈ numbers count, s.members.contains (child j) = true) :
    ∃ u t : Session, s.associate (child i) [muddyAtom i] = .ok u ∧
      u.setHeard (child i) (hears count hearing i) = .ok t ∧
      t.settings = s.settings ∧ t.counters = s.counters ∧
      (∀ a, t.members.contains a = s.members.contains a) ∧
      t.members[child i]? = s.members[child i]?.map (seated count hearing i) ∧
      ∀ a, child i ≠ a → t.members[a]? = s.members[a]? := by
  let heard : ExtTreeSet Agent := .ofList (hears count hearing i)
  let u := s.withMembers (s.members.modify (child i)
    fun x => x.withObserved (x.observed.insertMany [muddyAtom i]))
  let t := u.withMembers (u.members.modify (child i) fun x => x.withHeard heard)
  have observes : s.associate (child i) [muddyAtom i] = .ok u := by
    refine Session.change_eq_ok fun b hb => ?_
    rw [List.mem_singleton.1 hb]
    exact known i hi
  have listens : u.setHeard (child i) (hears count hearing i) = .ok t := by
    refine Session.change_eq_ok fun b hb => ?_
    show (s.members.modify (child i) _).contains b = true
    rw [ExtTreeMap.contains_modify]
    rcases List.mem_cons.1 hb with rfl | hb
    · exact known i hi
    · rw [ExtTreeSet.mem_toList, ExtTreeSet.mem_ofList, List.contains_iff_mem, hears_eq,
        List.mem_map] at hb
      obtain ⟨j, hj, rfl⟩ := hb
      exact known j (mem_numbers_of_mem_audible hi hj)
  refine ⟨u, t, observes, listens, rfl, rfl, ?_, ?_, ?_⟩
  · intro a
    show ((s.members.modify (child i) _).modify (child i) _).contains a = _
    rw [ExtTreeMap.contains_modify, ExtTreeMap.contains_modify]
  · show ((s.members.modify (child i) _).modify (child i) _)[child i]? = _
    rw [ExtTreeMap.getElem?_modify_self, ExtTreeMap.getElem?_modify_self, Option.map_map]
    rfl
  · intro a other
    have apart : ¬ compare (child i) a = .eq :=
      fun same => other (Std.LawfulEqCmp.eq_of_compare same)
    show ((s.members.modify (child i) _).modify (child i) _)[a]? = _
    rw [ExtTreeMap.getElem?_modify, if_neg apart, ExtTreeMap.getElem?_modify, if_neg apart]

/-- One child is seated after the other, and none is refused. -/
theorem exists_arrange (hearing : Hearing) (s : Session) {ns : List Nat}
    (children : ∀ i ∈ ns, i ∈ numbers count) (distinct : ns.Nodup)
    (known : ∀ i ∈ numbers count, s.members.contains (child i) = true) :
    ∃ t, arrange count hearing s ns = .ok t ∧ t.settings = s.settings ∧ t.counters = s.counters ∧
      (∀ i ∈ ns, t.members[child i]? = s.members[child i]?.map (seated count hearing i)) ∧
      ∀ a, (∀ i ∈ ns, child i ≠ a) → t.members[a]? = s.members[a]? := by
  induction ns generalizing s with
  | nil => exact ⟨s, rfl, rfl, rfl, by simp, fun _ _ => rfl⟩
  | cons i rest ih =>
    obtain ⟨other, distinctRest⟩ := List.nodup_cons.1 distinct
    obtain ⟨u, s', observes, listens, settings, counters, contains, changed, kept⟩ :=
      exists_seat hearing s (children i List.mem_cons_self) known
    obtain ⟨t, arranged, settings', counters', changed', kept'⟩ :=
      ih s' (fun j hj => children j (List.mem_cons_of_mem _ hj)) distinctRest
        fun j hj => (contains _).trans (known j hj)
    refine ⟨t, ?_, settings'.trans settings, counters'.trans counters, ?_, ?_⟩
    · rw [arrange, observes]
      show u.setHeard (child i) (hears count hearing i) >>= _ = _
      rw [listens]
      exact arranged
    · -- Seating a child leaves the others where they are, whether seated already or not yet.
      intro j hj
      rcases List.mem_cons.1 hj with rfl | hj
      · rw [kept' (child j), changed]
        intro l hl same
        exact other (child_inj.1 same ▸ hl)
      · rw [changed' j hj, kept (child j)]
        intro same
        exact other (child_inj.1 same ▸ hj)
    · intro a others
      rw [kept' a fun j hj => others j (List.mem_cons_of_mem _ hj),
        kept a (others i List.mem_cons_self)]

/-! ## (2) How a scenario stands -/

/-- The members of a session are children. -/
structure OfChildren (count : Nat) (s : Session) : Prop where
  /-- Every member is a child. -/
  exists_child : ∀ (a : Agent) (x : Member), s.members[a]? = some x →
    ∃ i ∈ numbers count, child i = a

/-- The members of a session are the children, whatever its settings. Each runs its program, hears
whom it is to hear, and has a model that shows what it holds possible. -/
structure Gathered (count : Nat) (hearing : Hearing) (views : Nat → Finset Nat → Bool)
    (s : Session) : Prop extends OfChildren count s where
  /-- Every child is a member. -/
  exists_member : ∀ i ∈ numbers count, ∃ x : Member, s.members[child i]? = some x ∧
    x.actor.program = program (child i) (muddyAtom i) ∧
    x.heard = .ofList (hears count hearing i) ∧ Shows count (views i) x.model

/-- By the settings a child is told at once all answers that it hears, its own among them. -/
structure Attends (hearing : Hearing) (settings : Settings) : Prop where
  /-- The answers that a child hears are conjoined. -/
  conjoined : settings.redistribution.value = .conjoined
  /-- Who hears any child hears itself too. -/
  selfHearing : hearing ≠ .none → settings.selfHearing.value = true

/-- The children are gathered in a session in which they are told the answers at once. -/
structure Plays (count : Nat) (hearing : Hearing) (views : Nat → Finset Nat → Bool)
    (s : Session) : Prop extends Gathered count hearing views s, Attends hearing s.settings

/-- The father of a scenario with some muddy children has something true to say. -/
structure Poses (count : Nat) (muddy : Finset Nat) (m : MuddyChildren) : Prop where
  /-- The actual world is one of those that the children start with. -/
  contains_actual : (base count).contains m.actual = true
  /-- The muddy children of the actual world. -/
  muddyAt_actual : muddyAt count m.actual = muddy
  /-- The father says that some child is muddy. -/
  father_eq : m.father = .disjunction ((numbers count).map fun i => .atom (muddyAtom i))

/-- In a scenario with some muddy children the children are gathered as given after some rounds. -/
structure Assembled (count : Nat) (hearing : Hearing) (muddy : Finset Nat) (rounds : Nat)
    (views : Nat → Finset Nat → Bool) (m : MuddyChildren) : Prop extends Poses count muddy m where
  /-- The children are gathered. -/
  gathered : Gathered count hearing views m.session
  /-- The number of rounds so far. -/
  rounds_eq : m.session.counters.rounds = rounds

/-- The children of a scenario are assembled after some rounds, and are told the answers at once. -/
structure Standing (count : Nat) (hearing : Hearing) (muddy : Finset Nat) (rounds : Nat)
    (views : Nat → Finset Nat → Bool) (m : MuddyChildren) : Prop
    extends Assembled count hearing muddy rounds views m, Attends hearing m.session.settings

/-- The children of a set of numbers. -/
def numberSet (muddy : ExtTreeSet Nat) : Finset Nat := muddy.toList.toFinset

/-- A number is in the set iff it is given. -/
theorem mem_numberSet {muddy : ExtTreeSet Nat} : i ∈ numberSet muddy ↔ i ∈ muddy := by
  rw [numberSet, List.mem_toFinset, ExtTreeSet.mem_toList]

/-- If a number is given then there is one in the set. -/
theorem nonempty_numberSet {muddy : ExtTreeSet Nat} (given : muddy ≠ ∅) :
    (numberSet muddy).Nonempty := by
  rw [Finset.nonempty_iff_ne_empty]
  intro empty
  refine given (ExtTreeSet.ext_mem fun i => ?_)
  rw [← mem_numberSet, empty]
  simp

/-- Two numbers are given. -/
theorem mem_ofList_pair {a b : Nat} : i ∈ ExtTreeSet.ofList [a, b] ↔ i = a ∨ i = b := by
  rw [ExtTreeSet.mem_ofList, List.contains_iff_mem, List.mem_pair]

/-- If two numbers are given then there is one. -/
theorem ofList_pair_ne_empty {a b : Nat} : (.ofList [a, b] : ExtTreeSet Nat) ≠ ∅ := by
  rw [ne_eq, ExtTreeSet.ofList_eq_empty_iff]
  exact List.cons_ne_nil _ _

/-! ## (3) What is set up -/

/-- The actor of a child. -/
def childActor (i : Nat) : Actor := .new (child i) (program (child i) (muddyAtom i))

/-- In a scenario that is just set up the children are seated, each with the whole model. -/
structure IsNew (count : Nat) (hearing : Hearing) (muddy : Finset Nat) (settings : Settings)
    (m : MuddyChildren) : Prop extends OfChildren count m.session, Poses count muddy m where
  /-- The settings are the given ones, save that who hears any child hears itself too. -/
  settings_eq : m.session.settings = settingsFor hearing settings
  /-- Nothing has been counted. -/
  counters_eq : m.session.counters = ⟨0, 0, 0⟩
  /-- Every child is seated, and has the model that the children start with. -/
  seat : ∀ i ∈ numbers count, m.session.members[child i]?
    = some (seated count hearing i (Session.newMember (base count) (childActor i)))

/-- The session of the children is started and arranged. -/
theorem exists_session (hearing : Hearing) (settings : Settings) (positive : 0 < count) :
    ∃ s t, Session.start (settingsFor hearing settings) (base count)
        ((numbers count).map childActor) = .ok s ∧
      arrange count hearing s (numbers count) = .ok t ∧
      t.settings = settingsFor hearing settings ∧ t.counters = ⟨0, 0, 0⟩ ∧
      (∀ (a : Agent) (x : Member), t.members[a]? = some x → ∃ i ∈ numbers count, child i = a) ∧
      ∀ i ∈ numbers count, t.members[child i]?
        = some (seated count hearing i (Session.newMember (base count) (childActor i))) := by
  have nonempty : (numbers count).map childActor ≠ [] := by
    rw [ne_eq, List.map_eq_nil_iff]
    intro none
    have first : 1 ∈ numbers count := mem_numbers.2 ⟨Nat.le_refl 1, positive⟩
    rw [none] at first
    cases first
  have distinct : (((numbers count).map childActor).map Actor.agent).Nodup := by
    rw [List.map_map]
    exact (nodup_numbers count).map fun _ _ same => child_inj.1 same
  obtain ⟨s, started, settings_s, counters_s, added, actors⟩ :=
    Session.exists_start (settingsFor hearing settings) (base count) nonempty distinct
  have member : ∀ i ∈ numbers count,
      s.members[child i]? = some (Session.newMember (base count) (childActor i)) :=
    fun i hi => added (childActor i) (List.mem_map_of_mem hi)
  have known : ∀ i ∈ numbers count, s.members.contains (child i) = true := by
    intro i hi
    rw [ExtTreeMap.contains_eq_isSome_getElem?, member i hi]
    rfl
  obtain ⟨t, arranged, settings_t, counters_t, seats, kept⟩ :=
    exists_arrange hearing s (fun _ hi => hi) (nodup_numbers count) known
  refine ⟨s, t, started, arranged, settings_t.trans settings_s, counters_t.trans counters_s, ?_, ?_⟩
  · intro a x hx
    by_contra none
    have unseated : ∀ i ∈ numbers count, child i ≠ a := fun i hi same => none ⟨i, hi, same⟩
    rw [kept a unseated] at hx
    obtain ⟨actor, hActor, rfl⟩ := actors a x hx
    obtain ⟨i, hi, rfl⟩ := List.mem_map.1 hActor
    exact none ⟨i, hi, rfl⟩
  · intro i hi
    rw [seats i hi, member i hi, Option.map_some]

/-- The scenario is set up if there are children and the muddy ones are among them. -/
theorem exists_isNew (hearing : Hearing) {muddy : ExtTreeSet Nat} (settings : Settings)
    (positive : 0 < count) (inRange : ∀ i ∈ muddy, 1 ≤ i ∧ i ≤ count) :
    ∃ m, setup count muddy hearing settings = .ok m ∧
      IsNew count hearing (numberSet muddy) settings m := by
  obtain ⟨actual, found, live, sets⟩ := exists_findWorld_base count muddy
  obtain ⟨s, t, started, arranged, settings_t, counters, actors, seats⟩ :=
    exists_session hearing settings positive
  have valid : muddy.toList.find? (fun i => i == 0 || decide (i > count)) = none := by
    rw [List.find?_eq_none]
    intro i hi
    have inside := inRange i (ExtTreeSet.mem_toList.1 hi)
    simp only [Bool.or_eq_true, beq_iff_eq, decide_eq_true_eq]
    omega
  refine ⟨⟨t, actual, (numbers count).map child,
    .disjunction ((numbers count).map fun i => .atom (muddyAtom i))⟩, ?_,
    ⟨⟨actors⟩, ⟨live, ?_, rfl⟩, settings_t, counters, seats⟩⟩
  · -- Setting up is a chain of steps, none of which fails.
    simp only [setup, if_neg (Nat.ne_of_gt positive), valid]
    show ((base count).findWorld (worldName count muddy)).mapError SetupError.lookup >>= _ = _
    rw [found]
    show Session.start (settingsFor hearing settings) (base count)
      ((numbers count).map childActor) >>= _ = _
    rw [started]
    show arrange count hearing s (numbers count) >>= _ = _
    rw [arranged]
    rfl
  · ext i
    rw [mem_numberSet, sets]
    exact and_iff_right_of_imp fun hi => mem_numbers.2 (inRange i hi)

/-- In a scenario that is just set up each child holds every set possible. -/
theorem IsNew.assembled {muddy : Finset Nat} {settings : Settings} {m : MuddyChildren}
    (h : IsNew count hearing muddy settings m) :
    Assembled count hearing muddy 0 (fun _ _ => true) m where
  toPoses := h.toPoses
  gathered := ⟨h.toOfChildren, fun i hi => ⟨_, h.seat i hi, rfl, rfl, shows_base count⟩⟩
  rounds_eq := by rw [h.counters_eq]

/-- In a scenario that is just set up who hears any child hears itself too. -/
theorem IsNew.selfHearing {muddy : Finset Nat} {settings : Settings} {m : MuddyChildren}
    (h : IsNew count hearing muddy settings m) (hears : hearing ≠ .none) :
    m.session.settings.selfHearing.value = true := by
  rw [h.settings_eq, settingsFor, if_neg hears]
  rfl

/-- In a scenario that is just set up, with explanations conjoined, the children are told the
answers at once. -/
theorem IsNew.standing {muddy : Finset Nat} {settings : Settings} {m : MuddyChildren}
    (h : IsNew count hearing muddy settings m)
    (conjoined : settings.redistribution.value = .conjoined) :
    Standing count hearing muddy 0 (fun _ _ => true) m where
  toAssembled := h.assembled
  conjoined := by rw [h.settings_eq]; exact conjoined
  selfHearing := h.selfHearing

/-- In a scenario that is just set up each child has the model that the children start with. -/
theorem IsNew.model?_eq {muddy : Finset Nat} {settings : Settings} {m : MuddyChildren}
    (h : IsNew count hearing muddy settings m) {i : Nat} (hi : i ∈ numbers count) :
    m.session.model? (child i) = some (base count) := by
  rw [Session.model?_eq, h.seat i hi]
  rfl

/-- The scenario is set up if some child is muddy and the muddy ones are among the children. -/
theorem exists_setup (hearing : Hearing) {muddy : ExtTreeSet Nat} {settings : Settings}
    (nonempty : muddy ≠ ∅) (inRange : ∀ i ∈ muddy, 1 ≤ i ∧ i ≤ count)
    (conjoined : settings.redistribution.value = .conjoined) :
    ∃ m, setup count muddy hearing settings = .ok m ∧
      Standing count hearing (numberSet muddy) 0 (fun _ _ => true) m ∧
      m.session.settings.roundLimit = settings.roundLimit ∧
      ∀ i ∈ numbers count, m.session.model? (child i) = some (base count) := by
  have positive : 0 < count := by
    obtain ⟨i, hi⟩ := nonempty_numberSet nonempty
    have range := inRange i (mem_numberSet.1 hi)
    omega
  obtain ⟨m, ok, new⟩ := exists_isNew hearing settings positive inRange
  exact ⟨m, ok, new.standing conjoined, by rw [new.settings_eq]; rfl, fun i hi => new.model?_eq hi⟩

end MuddyChildren

end KnowledgePrograms
