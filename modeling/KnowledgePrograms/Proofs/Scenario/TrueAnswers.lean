import KnowledgePrograms.Proofs.Scenario.Rounds
import KnowledgePrograms.Proofs.Session.Conservation

/-! # The answers of the muddy children are true and final

When explanations are not conjoined, or no child is muddy, the models of the children may drift
apart, and rounds may fail. Whatever happens, a model only loses worlds, and as long as rounds
succeed the actual world is in it. So the sets that a child holds possible become fewer, and the
actual set is one of them when the child answers. A child that knows of itself whether it is muddy
then is right, and still knows it when less is possible.

* `answer_true`, `answer_final`: answers by the sets held possible.
* `setsOf`, `shows_setsOf`: the sets that a model holds possible.
* `asked_shrinksTo_asked`, `Underway.exists_answer`: the models on which the children answer.
* `answers_true_and_final`: the answers in the rounds of a scenario. -/

namespace KnowledgePrograms

open Std (ExtTreeMap ExtTreeSet)

namespace MuddyChildren

variable {count i : Nat} {hearing : Hearing} {muddy : Finset Nat} {m : MuddyChildren} {n l : Model}

/-! ## (1) What is held possible -/

section Answers

variable {possible possible' : Finset Nat → Bool}

/-- A child that holds the actual set possible is right when it says that it is muddy, or clean. -/
theorem answer_true (actual : possible muddy = true) :
    (answer possible i muddy = .muddy → i ∈ muddy) ∧
      (answer possible i muddy = .clean → i ∉ muddy) := by
  rw [answer_eq_muddy_iff, answer_eq_clean_iff]
  constructor
  · intro without
    by_contra clean
    rw [Finset.erase_eq_of_notMem clean, actual] at without
    cases without
  · rintro ⟨-, joined⟩ member
    rw [Finset.insert_eq_of_mem member, actual] at joined
    cases joined

/-- A child that says that it is muddy, or clean, says the same when it holds less possible, but
still the actual set. -/
theorem answer_final (fewer : ∀ x, possible' x = true → possible x = true)
    (actual : possible' muddy = true) (known : answer possible i muddy ≠ .unknown) :
    answer possible' i muddy = answer possible i muddy := by
  have impossible : ∀ x, possible x = false → possible' x = false := by
    intro x hx
    rw [Bool.eq_false_iff] at hx ⊢
    exact fun hx' => hx (fewer x hx')
  cases said : answer possible i muddy with
  | muddy => exact answer_eq_muddy_iff.2 (impossible _ (answer_eq_muddy_iff.1 said))
  | clean =>
    have clean : i ∉ muddy := (answer_true (fewer muddy actual)).2 said
    refine answer_eq_clean_iff.2 ⟨?_, impossible _ (answer_eq_clean_iff.1 said).2⟩
    rw [Finset.erase_eq_of_notMem clean]
    exact actual
  | unknown => exact absurd said known

end Answers

/-- Whether a model has a world in which just the children of a set are muddy. -/
def setsOf (count : Nat) (n : Model) (x : Finset Nat) : Bool :=
  n.refs.any fun r => decide (muddyAt count r = x)

/-- A model holds a set possible iff it has a world of the set. -/
theorem setsOf_iff {x : Finset Nat} :
    setsOf count n x = true ↔ ∃ r, n.contains r = true ∧ muddyAt count r = x := by
  simp only [setsOf, List.any_eq_true, decide_eq_true_iff, Model.contains_iff]

/-- What is left of a model holds no set possible that the model does not. -/
theorem setsOf_of_isLeftOf (left : l.IsLeftOf n) {x : Finset Nat} (h : setsOf count l x = true) :
    setsOf count n x = true := by
  obtain ⟨r, live, rfl⟩ := setsOf_iff.1 h
  exact setsOf_iff.2 ⟨r, left.contains live, rfl⟩

/-- What is left of the model that the children start with shows the sets that it holds possible. -/
theorem shows_setsOf (left : n.IsLeftOf (base count)) : Shows count (setsOf count n) n := by
  refine Model.IsSubmodel.congr left fun r live => ?_
  rw [setsOf_iff]
  constructor
  · exact fun here => ⟨r, here, rfl⟩
  · -- There is no other world of the set.
    rintro ⟨s, here, same⟩
    rwa [← muddyAt_inj (left.contains here) live same]

/-! ## (2) Scenarios that are underway -/

/-- Each child runs its program, on what is left of the model that the children started with. -/
structure Underway (count : Nat) (muddy : Finset Nat) (m : MuddyChildren) : Prop where
  /-- Each child runs its program. -/
  runs : ∀ i ∈ numbers count,
    m.session.program? (child i) = some (program (child i) (muddyAtom i))
  /-- Each child has what is left of the model. -/
  holds : ∀ i ∈ numbers count, ∃ n, m.session.models[child i]? = some n ∧ n.IsLeftOf (base count)
  /-- The muddy children of the actual world. -/
  muddyAt_actual : muddyAt count m.actual = muddy

/-- A scenario that is just set up is underway. -/
theorem IsNew.underway {settings : Settings} (h : IsNew count hearing muddy settings m) :
    Underway count muddy m where
  runs i hi := by
    rw [Session.program?, h.seat i hi]
    rfl
  holds i hi := ⟨base count, h.model?_eq hi, (base count).isLeftOf_self⟩
  muddyAt_actual := h.muddyAt_actual

/-- A scenario stays underway in a round, also where it fails. -/
theorem Underway.round (h : Underway count muddy m) : Underway count muddy m.round.1 where
  runs i hi := (m.session.program?_round m.announcement m.actual (child i)).trans (h.runs i hi)
  holds i hi := by
    obtain ⟨n, hn, left⟩ := h.holds i hi
    obtain ⟨l, hl, left'⟩ :=
      (m.session.shrinksTo_round m.announcement m.actual).exists_model hn
    exact ⟨l, hl, left'.trans left⟩
  muddyAt_actual := h.muddyAt_actual

/-- A scenario stays underway. -/
theorem Underway.after (h : Underway count muddy m) (rounds : Nat) :
    Underway count muddy (m.after rounds) := by
  induction rounds with
  | zero => exact h
  | succ rounds ih => exact ih.round

/-! ## (3) The models on which the children answer -/

/-- The session of the children once the father has spoken and asked. -/
def asked (m : MuddyChildren) : Session := m.session.tellAll m.announcement

/-- From one question of the father to the next models lose worlds. -/
theorem asked_shrinksTo_round (m : MuddyChildren) : m.asked.ShrinksTo m.round.1.asked :=
  (m.session.tellAll_shrinksTo_round m.announcement m.actual).trans
    (m.round.1.session.shrinksTo_tell fun _ _ => [m.round.1.announcement])

/-- From a question of the father to any later one models lose worlds. -/
theorem asked_shrinksTo_asked (m : MuddyChildren) {rounds later : Nat} (h : rounds ≤ later) :
    (m.after rounds).asked.ShrinksTo (m.after later).asked := by
  induction later, h using Nat.le_induction with
  | base => exact .of_models_eq rfl rfl
  | succ later _ ih => exact ih.trans (asked_shrinksTo_round (m.after later))

/-- In a round that succeeds a child answers by the sets that it holds possible, and the actual set
is one of them. -/
theorem Underway.exists_answer (h : Underway count muddy m) (hi : i ∈ numbers count)
    {report : Round} (ok : m.round.2 = .ok report) :
    ∃ n, m.asked.models[child i]? = some n ∧ setsOf count n muddy = true ∧
      report.action? (child i) = some (answer (setsOf count n) i muddy).action.name := by
  obtain ⟨n₀, hn₀, left₀⟩ := h.holds i hi
  obtain ⟨n, hn, left⟩ :=
    (m.session.shrinksTo_tell fun _ _ => [m.announcement]).exists_model hn₀
  obtain ⟨live, reported⟩ := Session.action?_of_ok ok (h.runs i hi) hn
  have selected := (shows_setsOf (left.trans left₀)).action_chooseAt hi live
  obtain ⟨selection, chosen, action⟩ := Option.map_eq_some_iff.1 selected
  rw [h.muddyAt_actual] at action
  refine ⟨n, hn, setsOf_iff.2 ⟨m.actual, live, h.muddyAt_actual⟩, ?_⟩
  rw [reported, chosen, Option.map_some, action]

/-! ## (4) The answers -/

/-- **No child is ever wrong or changes its mind.** However many of the children are muddy, whoever
hears whom, and whatever the settings: in each round of the scenario that succeeds, whether or not
others before it have failed, a child that says that it is muddy is, and one that says that it is
clean is, and what it says it also says in each later round that succeeds. -/
theorem answers_true_and_final (count : Nat) (muddy : ExtTreeSet Nat) (hearing : Hearing)
    (settings : Settings) (positive : 0 < count) (inRange : ∀ i ∈ muddy, 1 ≤ i ∧ i ≤ count) :
    ∃ m, setup count muddy hearing settings = .ok m ∧
      ∀ i ∈ numbers count, ∀ rounds report, (m.after rounds).round.2 = .ok report →
        (report.action? (child i) = some "muddy" → i ∈ muddy) ∧
        (report.action? (child i) = some "clean" → i ∉ muddy) ∧
        ∀ later report', rounds < later → (m.after later).round.2 = .ok report' →
          report.action? (child i) = some "muddy" ∨ report.action? (child i) = some "clean" →
          report'.action? (child i) = report.action? (child i) := by
  obtain ⟨m, ok, new⟩ := exists_isNew hearing settings positive inRange
  refine ⟨m, ok, fun i hi rounds report ended => ?_⟩
  obtain ⟨n, hn, actual, reported⟩ := (new.underway.after rounds).exists_answer hi ended
  have said (x : Answer) : report.action? (child i) = some x.action.name ↔
      answer (setsOf count n) i (numberSet muddy) = x := by
    rw [reported, Option.some.injEq, Answer.name_action_inj]
  have right := answer_true (i := i) actual
  rw [← said, ← said, mem_numberSet] at right
  refine ⟨right.1, right.2, fun later report' after ended' known => ?_⟩
  obtain ⟨l, hl, actual', reported'⟩ := (new.underway.after later).exists_answer hi ended'
  have left := (m.asked_shrinksTo_asked (Nat.le_of_lt after)).isLeftOf_of_models hn hl
  have certain : answer (setsOf count n) i (numberSet muddy) ≠ .unknown := by
    rcases known with known | known
    · rw [(said .muddy).1 known]
      exact nofun
    · rw [(said .clean).1 known]
      exact nofun
  have fewer : ∀ x, setsOf count l x = true → setsOf count n x = true := fun _ =>
    setsOf_of_isLeftOf left
  rw [reported', reported, answer_final fewer actual' certain]

/-- Of three children the first two are muddy. When they hear each other, the first knows in the
second round that it is muddy, and the third in the third round that it is clean. So both are right,
and say so again in the fourth. -/
theorem answers_true_and_final_two_of_three :
    let muddy : ExtTreeSet Nat := .ofList [1, 2]
    (∀ i ∈ muddy, 1 ≤ i ∧ i ≤ 3) ∧ ∃ m second third fourth,
      setup 3 muddy .all .standard = .ok m ∧ (m.after 1).round.2 = .ok second ∧
      (m.after 2).round.2 = .ok third ∧ (m.after 3).round.2 = .ok fourth ∧
      second.action? (child 1) = some "muddy" ∧ third.action? (child 3) = some "clean" ∧
      1 ∈ muddy ∧ 3 ∉ muddy ∧
      fourth.action? (child 1) = some "muddy" ∧ fourth.action? (child 3) = some "clean" := by
  intro muddy
  have inRange : ∀ i ∈ muddy, 1 ≤ i ∧ i ≤ 3 := by
    intro i hi
    rcases mem_ofList_pair.1 hi with rfl | rfl <;> decide
  have checked : ((setup 3 muddy .all .standard).toOption.any fun m =>
      (m.after 1).round.2.toOption.any (fun report => report.action? (child 1) == some "muddy") &&
      (m.after 2).round.2.toOption.any (fun report => report.action? (child 3) == some "clean") &&
      (m.after 3).round.2.toOption.any fun _ => true) = true := by
    decide +kernel
  obtain ⟨m, ok, rounds⟩ := exists_ok_of_any checked
  rw [Bool.and_eq_true, Bool.and_eq_true] at rounds
  obtain ⟨second, ended₂, knows⟩ := exists_ok_of_any rounds.1.1
  obtain ⟨third, ended₃, knows'⟩ := exists_ok_of_any rounds.1.2
  obtain ⟨fourth, ended₄, -⟩ := exists_ok_of_any rounds.2
  obtain ⟨m', ok', answers⟩ := answers_true_and_final 3 muddy .all .standard (by decide) inRange
  obtain rfl := Except.ok.inj (ok.symm.trans ok')
  obtain ⟨right, -, final⟩ := answers 1 (by decide) 1 second ended₂
  obtain ⟨-, right', final'⟩ := answers 3 (by decide) 2 third ended₃
  have knows := eq_of_beq knows
  have knows' := eq_of_beq knows'
  refine ⟨inRange, m, second, third, fourth, ok, ended₂, ended₃, ended₄, knows, knows',
    right knows, right' knows', ?_, ?_⟩
  · rw [final 3 fourth (by decide) ended₄ (.inl knows), knows]
  · rw [final' 3 fourth (by decide) ended₄ (.inr knows'), knows']

end MuddyChildren

end KnowledgePrograms
