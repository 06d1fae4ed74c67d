import KnowledgePrograms.Proofs.Scenario.PublicAnswers

/-! # Muddy children who hear nothing

When no child hears any other, nothing is told after the father's words. So all that a child ever
learns is that some child is muddy. That is enough for one who is the only muddy child and sees no
other; everybody else has a set with it and one without it to choose from, in each round anew, and
so nobody finishes.

* `someMuddy`: what the children hold possible, and `card_someMuddy` how much that is.
* `Gathered.inform_none`, `Assembled.round_none`: what a round does.
* `Assembled.after_none`: how the scenario stands after any number of rounds.
* `silent_children_learn_nothing`: what the children answer, and how long they go on. -/

namespace KnowledgePrograms

open Std (ExtTreeMap ExtTreeSet)

namespace MuddyChildren

variable {count rounds i : Nat} {actual x : Finset Nat} {views : Nat → Finset Nat → Bool}
  {n : Model} {r : WorldRef} {s : Session} {m : MuddyChildren}

/-! ## (1) What the father said -/

/-- What the children hold possible who hear nothing: at first anything, later what the father
said. -/
def someMuddy (rounds : Nat) (_ : Nat) (muddy : Finset Nat) : Bool :=
  decide (rounds = 0 ∨ muddy.Nonempty)

/-- Once the father has spoken, some child is muddy. -/
theorem told_someMuddy :
    told rounds (someMuddy rounds) i = fun muddy => decide (1 ≤ muddy.card) := by
  funext x
  rw [Bool.eq_iff_iff, told, someMuddy]
  simp only [Bool.and_eq_true, decide_eq_true_iff, Bool.or_eq_true, bne_iff_ne, Finset.one_le_card]
  tauto

/-- The father's words remain what the children hold possible. -/
theorem someMuddy_succ : someMuddy (rounds + 1) i = fun muddy => decide (1 ≤ muddy.card) := by
  funext x
  rw [someMuddy, decide_eq_decide, Finset.one_le_card]
  exact or_iff_right rounds.succ_ne_zero

/-- There is one set without muddy children among all. -/
theorem card_someMuddy (count : Nat) :
    ((numbers count).toFinset.powerset.filter fun x => someMuddy (rounds + 1) i x = true).card
      = 2 ^ count - 1 := by
  have others : ((numbers count).toFinset.powerset.filter fun x =>
      someMuddy (rounds + 1) i x = true) = (numbers count).toFinset.powerset.erase ∅ := by
    ext x
    rw [Finset.mem_filter, Finset.mem_erase, someMuddy_succ, decide_eq_true_iff,
      Finset.one_le_card, Finset.nonempty_iff_ne_empty, and_comm]
  rw [others, Finset.card_erase_of_mem (Finset.empty_mem_powerset _), Finset.card_powerset,
    card_numbers]

/-- Two children or more have several worlds to choose from. -/
theorem Shows.three_le_worldCount (h : Shows count (someMuddy rounds i) n) (two : 2 ≤ count) :
    3 ≤ n.worldCount := by
  have four : 2 ^ 2 ≤ 2 ^ count := Nat.pow_le_pow_right (by decide) two
  rw [h.worldCount_eq]
  cases rounds with
  | zero =>
    have all : ((numbers count).toFinset.powerset.filter fun x => someMuddy 0 i x = true).card
        = 2 ^ count := card_sets count
    omega
  | succ rounds =>
    rw [card_someMuddy]
    omega

/-! ## (2) Rounds in which nothing is heard -/

/-- Children who hear nothing hold possible what they held possible. -/
theorem Gathered.inform_none (h : Gathered count .none views s) :
    Gathered count .none views (s.inform r) := by
  refine h.of_map _ (Session.getElem?_members_inform s r) (fun _ _ => rfl) (fun _ _ => rfl) ?_
  intro i _ x heard shows
  have silent : s.newsFor r (child i) x = [] := Session.newsFor_eq_nil heard
  rw [silent]
  exact shows

/-- Every round succeeds. In it a child knows only if it is the only one that is muddy. -/
theorem Assembled.round_none (h : Assembled count .none actual rounds (someMuddy rounds) m)
    (nonempty : actual.Nonempty) :
    ∃ report, m.round.2 = .ok report ∧
      (∀ i ∈ numbers count, report.action? (child i)
        = some (if i ∈ actual ∧ actual.card = 1 then "muddy" else "unknown")) ∧
      Assembled count .none actual (rounds + 1) (someMuddy (rounds + 1)) m.round.1 := by
  have least : 1 ≤ actual.card := Finset.card_pos.2 nonempty
  have same : told rounds (someMuddy rounds) = someMuddy (rounds + 1) := by
    funext i
    rw [told_someMuddy, someMuddy_succ]
  have kept : ∀ i ∈ numbers count, someMuddy (rounds + 1) i actual = true := by
    intro i _
    rw [someMuddy_succ]
    exact decide_eq_true least
  have informs := h.tellAll.inform_none (r := m.actual)
  rw [same] at informs
  obtain ⟨report, ok, actions, assembled, -⟩ := h.round_eq_ok (by rwa [same]) informs kept
  refine ⟨report, ok, fun i hi => ?_, assembled⟩
  rw [actions i hi, told_someMuddy, answer_card least]
  split <;> rfl

/-- After any number of rounds the children know what the father said, and no more. -/
theorem Assembled.after_none (h : Assembled count .none actual 0 (someMuddy 0) m)
    (nonempty : actual.Nonempty) (rounds : Nat) :
    Assembled count .none actual rounds (someMuddy rounds) (m.after rounds) := by
  induction rounds with
  | zero => exact h
  | succ rounds ih =>
    obtain ⟨_, _, _, assembled⟩ := ih.round_none nonempty
    exact assembled

/-- Two children or more never finish. -/
theorem Assembled.isFinished_none (h : Assembled count .none actual rounds (someMuddy rounds) m)
    (two : 2 ≤ count) (nonempty : actual.Nonempty) : m.isFinished = .ok false := by
  obtain ⟨finished, result, alone⟩ := h.isFinished_iff fun i _ => decide_eq_true (.inr nonempty)
  cases finished with
  | false => exact result
  | true =>
    have first : 1 ∈ numbers count := mem_numbers.2 (by omega)
    have second : 2 ∈ numbers count := mem_numbers.2 (by omega)
    -- Each of two children may be the only one that is muddy.
    have single : ∀ j ∈ numbers count, ({j} : Finset Nat) = actual := by
      intro j hj
      have possible : someMuddy rounds 1 {j} = true :=
        decide_eq_true (.inr (Finset.singleton_nonempty j))
      exact alone.1 rfl 1 first {j} (by simpa using hj) possible
    have same := (single 1 first).trans (single 2 second).symm
    rw [Finset.singleton_inj] at same
    cases same

/-! ## (3) Runs -/

/-- As each child has several worlds, the session goes on. -/
theorem Assembled.status_none (h : Assembled count .none actual rounds (someMuddy rounds) m)
    (two : 2 ≤ count) : m.session.status = .running := by
  rw [Session.status_eq_running_iff]
  constructor
  · intro a model found
    obtain ⟨i, hi, -, shows⟩ := h.gathered.exists_shows found
    have several := shows.three_le_worldCount two
    omega
  · have first : 1 ∈ numbers count := mem_numbers.2 (by omega)
    obtain ⟨model, found, shows⟩ := h.gathered.exists_model first
    have several := shows.three_le_worldCount two
    exact ⟨child 1, model, found, by omega⟩

/-- **Children who hear nothing learn only what the father said.** Let some of two children or more
be muddy, let nobody hear any, and let the settings be whatever they are. Then the scenario is set
up, and every round succeeds. In each of them a child that is the only muddy one says that it is
muddy, and all others say that they do not know; and after it each child has just the worlds in
which some child is muddy, all but one. A run reports as many rounds as its limit allows, and the
session is still running then. -/
theorem silent_children_learn_nothing (count : Nat) (muddy : ExtTreeSet Nat) (settings : Settings)
    (two : 2 ≤ count) (nonempty : muddy ≠ ∅) (inRange : ∀ i ∈ muddy, 1 ≤ i ∧ i ≤ count) :
    ∃ m, setup count muddy .none settings = .ok m ∧
      (∀ i, i ∈ muddyAt count m.actual ↔ i ∈ muddy) ∧
      (∀ rounds, ∃ report, (m.after rounds).round.2 = .ok report ∧
        (∀ i ∈ numbers count, report.action? (child i)
          = some (if i ∈ muddy ∧ muddy.size = 1 then "muddy" else "unknown")) ∧
        ∀ i ∈ numbers count, ∃ model,
          (m.after (rounds + 1)).session.model? (child i) = some model ∧
          model.IsSubmodel (base count) (fun v => (muddyAt count v).Nonempty) ∧
          model.worldCount = 2 ^ count - 1) ∧
      ∃ reports, m.run = (m.after settings.roundLimit.value, .ok reports) ∧
        reports.length = settings.roundLimit.value ∧
        reports.map .ok = (List.range settings.roundLimit.value).map
          (fun rounds => (m.after rounds).round.2) ∧
        m.run.1.session.status = .running := by
  have someone := nonempty_numberSet nonempty
  obtain ⟨m, ok, new⟩ := exists_isNew .none settings (by omega : 0 < count) inRange
  have assembled (rounds : Nat) : Assembled count .none (numberSet muddy) rounds (someMuddy rounds)
      (m.after rounds) := Assembled.after_none new.assembled someone rounds
  have limit : m.session.settings.roundLimit.value = settings.roundLimit.value := by
    rw [new.settings_eq]
    rfl
  refine ⟨m, ok, fun i => by rw [new.muddyAt_actual, mem_numberSet], fun rounds => ?_, ?_⟩
  · obtain ⟨report, succeeds, actions, -⟩ := (assembled rounds).round_none someone
    refine ⟨report, succeeds, fun i hi => ?_, fun i hi => ?_⟩
    · rw [actions i hi, card_numberSet]
      simp only [mem_numberSet]
    · obtain ⟨model, found, shows⟩ := (assembled (rounds + 1)).gathered.exists_model hi
      refine ⟨model, found, Model.IsSubmodel.congr shows fun v _ => ?_, ?_⟩
      · rw [someMuddy_succ, decide_eq_true_iff, Finset.one_le_card]
      · rw [shows.worldCount_eq, card_someMuddy]
  · have succeeds (rounds : Nat) : ∃ report, (m.after rounds).round.2 = .ok report := by
      obtain ⟨report, succeeds, -⟩ := (assembled rounds).round_none someone
      exact ⟨report, succeeds⟩
    obtain ⟨reports, ran, reported⟩ := runFor_of_unfinished succeeds
      (fun r _ => (assembled r).isFinished_none two someone) settings.roundLimit.value
    have run : m.run = (m.after settings.roundLimit.value, .ok reports) := by
      rw [MuddyChildren.run, limit, ran]
    refine ⟨reports, run, by simpa using congrArg List.length reported, reported, ?_⟩
    rw [run]
    exact (assembled _).status_none two

/-- Of three children the second is muddy and sees no other, so it says that it is muddy each time.
The others never know. A run takes as many rounds as the standard limit allows. -/
theorem silent_children_learn_nothing_one_of_three :
    let muddy : ExtTreeSet Nat := .ofList [2]
    2 ≤ 3 ∧ muddy ≠ ∅ ∧ (∀ i ∈ muddy, 1 ≤ i ∧ i ≤ 3) ∧
      ∃ m report, setup 3 muddy .none .standard = .ok m ∧ (m.after 2).round.2 = .ok report ∧
        report.action? (child 2) = some "muddy" ∧ report.action? (child 3) = some "unknown" ∧
        (∃ reports, m.run.2 = .ok reports ∧ reports.length = 64) ∧
        m.run.1.session.status = .running := by
  intro muddy
  have one {i : Nat} : i ∈ muddy ↔ i = 2 := by
    rw [ExtTreeSet.mem_ofList, List.contains_iff_mem, List.mem_singleton]
  have nonempty : muddy ≠ ∅ := by
    rw [ne_eq, ExtTreeSet.ofList_eq_empty_iff]
    exact List.cons_ne_nil _ _
  have inRange : ∀ i ∈ muddy, 1 ≤ i ∧ i ≤ 3 := by
    intro i hi
    rw [one.1 hi]
    decide
  have size : muddy.size = 1 := ExtTreeSet.size_ofList (by decide)
  obtain ⟨m, ok, -, rounds, reports, ran, length, -, running⟩ :=
    silent_children_learn_nothing 3 muddy .standard (by decide) nonempty inRange
  obtain ⟨report, succeeds, actions, -⟩ := rounds 2
  refine ⟨by decide, nonempty, inRange, m, report, ok, succeeds, ?_, ?_,
    ⟨reports, by rw [ran], length⟩, running⟩
  · rw [actions 2 (by decide), if_pos ⟨one.2 rfl, size⟩]
  · rw [actions 3 (by decide), if_neg]
    rintro ⟨muddy, -⟩
    cases one.1 muddy

end MuddyChildren

end KnowledgePrograms
