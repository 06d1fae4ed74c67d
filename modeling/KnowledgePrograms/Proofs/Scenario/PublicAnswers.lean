import KnowledgePrograms.Proofs.Scenario.Rounds

/-! # Muddy children who hear every answer

When every child hears every answer, all children hold the same sets possible. Before the last
answers are given these are the sets with enough children: in each round no child knows anything
unless there are just as many muddy children as the round counts, so that when all have said that
they do not know, each knows that there are more. When there are just as many, the muddy ones see
fewer and know, and by their answers everybody knows.

* `next_atLeast_of_lt`, `next_atLeast_of_eq`: what a round makes of the sets with enough children.
* `Standing.after_all`, `Standing.lastRound`: how the scenario stands after some rounds.
* `muddy_children_know`: what the children answer in each round, and how long it takes them. -/

namespace KnowledgePrograms

open Std (ExtTreeSet)

namespace MuddyChildren

variable {count rounds i : Nat} {actual x : Finset Nat} {m : MuddyChildren}

/-! ## (1) Sets with enough children -/

/-- What the children hold possible after some rounds in which none of them knew: at first
anything, later that more children are muddy than rounds have passed. -/
def atLeast (rounds : Nat) (_ : Nat) (muddy : Finset Nat) : Bool :=
  decide (rounds = 0 ∨ rounds + 1 ≤ muddy.card)

/-- What the children hold possible when they know everything. -/
def exactly (actual : Finset Nat) (_ : Nat) (muddy : Finset Nat) : Bool := decide (muddy = actual)

/-- Once the father has spoken, more children are muddy than rounds have passed. -/
theorem told_atLeast :
    told rounds (atLeast rounds) i = fun muddy => decide (rounds + 1 ≤ muddy.card) := by
  funext x
  rw [Bool.eq_iff_iff, told, atLeast]
  simp only [Bool.and_eq_true, decide_eq_true_iff, Bool.or_eq_true, bne_iff_ne, ← Finset.card_pos]
  omega

/-- If at least some number of children are known to be muddy, a child knows something only when it
is one of just so many, and then it knows that it is muddy. -/
theorem answer_card {least : Nat} (enough : least ≤ x.card) :
    answer (fun x => decide (least ≤ x.card)) i x
      = if i ∈ x ∧ x.card = least then .muddy else .unknown := by
  split
  · next last =>
    obtain ⟨muddy, just⟩ := last
    have positive := Finset.card_pos.2 ⟨i, muddy⟩
    rw [answer_eq_muddy_iff, decide_eq_false_iff_not, Finset.card_erase_of_mem muddy]
    omega
  · next other =>
    rw [answer_eq_unknown_iff, decide_eq_true_iff, decide_eq_true_iff]
    refine ⟨?_, enough.trans (Finset.card_le_card (Finset.subset_insert i x))⟩
    by_cases muddy : i ∈ x
    · have more : x.card ≠ least := fun just => other ⟨muddy, just⟩
      rw [Finset.card_erase_of_mem muddy]
      omega
    · rwa [Finset.erase_eq_of_notMem muddy]

/-- Who knows everything knows itself. -/
theorem answer_exactly :
    answer (exactly actual i) i actual = if i ∈ actual then .muddy else .clean := by
  split
  · next muddy =>
    rw [answer_eq_muddy_iff, exactly, decide_eq_false_iff_not, Finset.erase_eq_self, not_not]
    exact muddy
  · next clean =>
    rw [answer_eq_clean_iff, exactly, exactly, decide_eq_true_iff, decide_eq_false_iff_not,
      Finset.erase_eq_self, Finset.insert_eq_self]
    exact ⟨clean, clean⟩

/-- What a round makes of the sets with enough children: those of them are left in which every child
would have answered the same. -/
theorem next_atLeast_iff : next count .all actual rounds (atLeast rounds) i x = true ↔
    rounds + 1 ≤ x.card ∧ ∀ j ∈ numbers count,
      answer (fun x => decide (rounds + 1 ≤ x.card)) j x
        = answer (fun x => decide (rounds + 1 ≤ x.card)) j actual := by
  simp only [next, informed_iff, told_atLeast, decide_eq_true_iff, audible]

/-- A round in which nobody knows rules out the sets with just enough children. -/
theorem next_atLeast_of_lt (more : rounds + 1 < actual.card)
    (children : x ⊆ (numbers count).toFinset) :
    next count .all actual rounds (atLeast rounds) i x = atLeast (rounds + 1) i x := by
  have unknown (j : Nat) : answer (fun x => decide (rounds + 1 ≤ x.card)) j actual = .unknown := by
    rw [answer_card more.le, if_neg fun last => more.ne' last.2]
  rw [Bool.eq_iff_iff, next_atLeast_iff, atLeast, decide_eq_true_iff]
  simp only [unknown, Nat.succ_ne_zero, false_or]
  constructor
  · -- In a set with just enough children any of them would have known that it is muddy.
    rintro ⟨enough, unknown⟩
    obtain ⟨j, hj⟩ := Finset.card_pos.1 (Nat.lt_of_lt_of_le rounds.succ_pos enough)
    have same := unknown j (List.mem_toFinset.1 (children hj))
    rw [answer_card enough] at same
    by_contra just
    rw [if_pos ⟨hj, by omega⟩] at same
    cases same
  · intro enough
    refine ⟨by omega, fun j _ => ?_⟩
    rw [answer_card (by omega), if_neg fun last => by omega]

/-- A round in which the muddy children know rules out every set but theirs. -/
theorem next_atLeast_of_eq (just : rounds + 1 = actual.card)
    (inside : actual ⊆ (numbers count).toFinset) (children : x ⊆ (numbers count).toFinset) :
    next count .all actual rounds (atLeast rounds) i x = exactly actual i x := by
  rw [Bool.eq_iff_iff, next_atLeast_iff, exactly, decide_eq_true_iff]
  constructor
  · rintro ⟨enough, same⟩
    have knows : ∀ j ∈ numbers count, (j ∈ x ∧ x.card = rounds + 1 ↔ j ∈ actual) := by
      intro j hj
      have agree := same j hj
      rw [answer_card enough, answer_card just.le] at agree
      by_cases before : j ∈ x ∧ x.card = rounds + 1 <;> by_cases muddy : j ∈ actual <;>
        simp [before, muddy, just.symm] at agree ⊢
    -- Some child is muddy and knows it, so it is one of just so many in the set.
    obtain ⟨j, hj⟩ := Finset.card_pos.1 (by omega : 0 < actual.card)
    have size := ((knows j (List.mem_toFinset.1 (inside hj))).2 hj).2
    ext l
    constructor
    · intro hl
      exact (knows l (List.mem_toFinset.1 (children hl))).1 ⟨hl, size⟩
    · intro hl
      exact ((knows l (List.mem_toFinset.1 (inside hl))).2 hl).1
  · rintro rfl
    exact ⟨just.le, fun _ _ => rfl⟩

/-! ## (2) The rounds -/

/-- As long as fewer rounds have passed than there are muddy children, the next round succeeds. In
it a child knows only if it is the turn of the muddy children, and it is one of them. -/
theorem Standing.round_all (h : Standing count .all actual rounds (atLeast rounds) m)
    (more : rounds < actual.card) :
    ∃ report, m.round.2 = .ok report ∧
      (∀ i ∈ numbers count, report.action? (child i)
        = some (if i ∈ actual ∧ actual.card = rounds + 1 then "muddy" else "unknown")) ∧
      Standing count .all actual (rounds + 1) (next count .all actual rounds (atLeast rounds))
        m.round.1 ∧
      m.round.1.session.settings = m.session.settings := by
  have first : ∀ i ∈ numbers count, told rounds (atLeast rounds) i actual = true := by
    intro i _
    rw [told_atLeast]
    exact decide_eq_true more
  have second : ∀ i ∈ numbers count,
      next count .all actual rounds (atLeast rounds) i actual = true :=
    fun i _ => next_atLeast_iff.2 ⟨more, fun _ _ => rfl⟩
  obtain ⟨report, ok, actions, stands, settings⟩ := h.round_eq_ok first second
  refine ⟨report, ok, fun i hi => ?_, stands, settings⟩
  rw [actions i hi, told_atLeast, answer_card more]
  split <;> rfl

/-- After fewer rounds than there are muddy children, all children know that more children are muddy
than rounds have passed. -/
theorem Standing.after_all (h : Standing count .all actual 0 (atLeast 0) m) (rounds : Nat)
    (more : rounds < actual.card) :
    Standing count .all actual rounds (atLeast rounds) (m.after rounds) ∧
      (m.after rounds).session.settings = m.session.settings := by
  induction rounds with
  | zero => exact ⟨h, rfl⟩
  | succ rounds ih =>
    obtain ⟨stands, settings⟩ := ih (by omega)
    obtain ⟨_, _, _, stands', settings'⟩ := stands.round_all (by omega)
    exact ⟨stands'.congr fun i _ x hx => next_atLeast_of_lt more hx, settings'.trans settings⟩

/-- After as many rounds as there are muddy children, all children know everything. -/
theorem Standing.after_card (h : Standing count .all actual 0 (atLeast 0) m)
    (inside : actual ⊆ (numbers count).toFinset) (nonempty : actual.Nonempty) :
    Standing count .all actual actual.card (exactly actual) (m.after actual.card) := by
  have positive := Finset.card_pos.2 nonempty
  obtain ⟨rounds, just⟩ : ∃ rounds, actual.card = rounds + 1 := ⟨actual.card - 1, by omega⟩
  obtain ⟨stands, -⟩ := h.after_all rounds (by omega)
  obtain ⟨_, _, _, stands', -⟩ := stands.round_all (by omega)
  rw [just]
  exact stands'.congr fun i _ x hx => next_atLeast_of_eq just.symm inside hx

/-- The round after which all children know everything: as many rounds as there are muddy children,
but if all are muddy one less, as only the set of all has so many. -/
def lastRound (count muddy : Nat) : Nat := if muddy < count then muddy else max 1 (count - 1)

/-- No more rounds are needed than there are muddy children. -/
theorem lastRound_le (inside : actual ⊆ (numbers count).toFinset) (nonempty : actual.Nonempty) :
    0 < lastRound count actual.card ∧ lastRound count actual.card ≤ actual.card := by
  have most := Finset.card_le_card inside
  have least := Finset.card_pos.2 nonempty
  rw [card_numbers] at most
  rw [lastRound]
  split <;> omega

/-- After the last round all children know everything. -/
theorem Standing.after_lastRound (h : Standing count .all actual 0 (atLeast 0) m)
    (inside : actual ⊆ (numbers count).toFinset) (nonempty : actual.Nonempty) :
    Standing count .all actual (lastRound count actual.card) (exactly actual)
      (m.after (lastRound count actual.card)) := by
  have most := Finset.card_le_card inside
  have least := Finset.card_pos.2 nonempty
  rw [card_numbers] at most
  by_cases whole : lastRound count actual.card = actual.card
  · rw [whole]
    exact h.after_card inside nonempty
  · -- All children are muddy, and more than one.
    have all : lastRound count actual.card + 1 = actual.card ∧ actual.card = count ∧
        lastRound count actual.card ≠ 0 := by
      rw [lastRound] at whole ⊢
      split at whole <;> split <;> omega
    obtain ⟨before, full, later⟩ := all
    obtain ⟨stands, -⟩ := h.after_all (lastRound count actual.card) (by omega)
    refine stands.congr fun i _ x hx => ?_
    rw [atLeast, exactly, decide_eq_decide, before]
    constructor
    · intro enough
      have everyone : actual = (numbers count).toFinset :=
        Finset.eq_of_subset_of_card_le inside (by rw [card_numbers, full])
      exact Finset.eq_of_subset_of_card_le (everyone ▸ hx) (enough.resolve_left later)
    · rintro rfl
      exact .inr (Nat.le_refl _)

/-- Before the last round the children have not finished. -/
theorem Standing.isFinished_after (h : Standing count .all actual 0 (atLeast 0) m)
    (inside : actual ⊆ (numbers count).toFinset) (nonempty : actual.Nonempty)
    (positive : 0 < rounds) (early : rounds < lastRound count actual.card) :
    (m.after rounds).isFinished = .ok false := by
  have few := (lastRound_le inside nonempty).2
  obtain ⟨stands, -⟩ := h.after_all rounds (by omega)
  obtain ⟨finished, result, alone⟩ := stands.isFinished_iff fun i _ => by
    rw [atLeast]
    exact decide_eq_true (.inr (by omega))
  obtain ⟨i, muddy⟩ := nonempty
  -- There is another set that is large enough: that of all children, or one child less.
  obtain ⟨x, children, enough, other⟩ : ∃ x ⊆ (numbers count).toFinset,
      rounds + 1 ≤ x.card ∧ x ≠ actual := by
    rw [lastRound] at early
    split at early
    · next fewer =>
      refine ⟨_, Finset.Subset.refl _, by rw [card_numbers]; omega, ?_⟩
      rintro rfl
      rw [card_numbers] at fewer
      omega
    · refine ⟨actual.erase i, (Finset.erase_subset i actual).trans inside, ?_, ?_⟩
      · rw [Finset.card_erase_of_mem muddy]
        omega
      · exact fun same => Finset.erase_eq_self.1 same muddy
  cases finished with
  | false => exact result
  | true =>
    have only := alone.1 rfl i (List.mem_toFinset.1 (inside muddy)) x children
      (decide_eq_true (.inr enough))
    exact absurd only other

/-- After the last round the children have finished. -/
theorem Standing.isFinished_lastRound (h : Standing count .all actual 0 (atLeast 0) m)
    (inside : actual ⊆ (numbers count).toFinset) (nonempty : actual.Nonempty) :
    (m.after (lastRound count actual.card)).isFinished = .ok true := by
  have stands := h.after_lastRound inside nonempty
  obtain ⟨finished, result, alone⟩ := stands.isFinished_iff fun i _ => decide_eq_true rfl
  rw [result, alone.2]
  intro i _ x _ hx
  exact of_decide_eq_true hx

/-- A run ends with the last round, unless the limit comes before. -/
theorem Standing.run_all (h : Standing count .all actual 0 (atLeast 0) m)
    (inside : actual ⊆ (numbers count).toFinset) (nonempty : actual.Nonempty) :
    ∃ reports,
      m.run = (m.after (min (lastRound count actual.card) m.session.settings.roundLimit.value),
        .ok reports) ∧
      reports.length = min (lastRound count actual.card) m.session.settings.roundLimit.value := by
  have few := lastRound_le inside nonempty
  -- No round up to the last one fails, and none before it is the last.
  have succeeds (r : Nat) (hr : r < lastRound count actual.card) :
      ∃ report, (m.after r).round.2 = .ok report := by
    obtain ⟨stands, -⟩ := h.after_all r (by omega)
    obtain ⟨report, ok, -⟩ := stands.round_all (by omega)
    exact ⟨report, ok⟩
  obtain ⟨reports, ran, reported⟩ := runFor_eq few.1 succeeds
    (fun r positive hr => h.isFinished_after inside nonempty positive hr)
    (fun _ => h.isFinished_lastRound inside nonempty)
  exact ⟨reports, ran, by simpa using congrArg List.length reported⟩

/-- When all children know everything, so they say in the next round. -/
theorem Standing.round_exactly (h : Standing count .all actual rounds (exactly actual) m)
    (later : 0 < rounds) :
    ∃ report, m.round.2 = .ok report ∧ ∀ i ∈ numbers count,
      report.action? (child i) = some (if i ∈ actual then "muddy" else "clean") := by
  have still := told_of_pos (exactly actual) later
  have first : ∀ i ∈ numbers count, told rounds (exactly actual) i actual = true := by
    intro i _
    rw [still]
    exact decide_eq_true rfl
  have second : ∀ i ∈ numbers count,
      next count .all actual rounds (exactly actual) i actual = true := by
    intro i hi
    refine informed_iff.2 ⟨first i hi, fun j _ => ?_⟩
    rw [still]
    rfl
  obtain ⟨report, ok, actions, -⟩ := h.round_eq_ok first second
  refine ⟨report, ok, fun i hi => ?_⟩
  rw [actions i hi, still, answer_exactly]
  split <;> rfl

/-! ## (3) The muddy children -/

/-- The set of some numbers has as many as are given. -/
theorem card_numberSet (muddy : ExtTreeSet Nat) : (numberSet muddy).card = muddy.size := by
  rw [numberSet, List.toFinset_card_of_nodup (nodup_toList muddy), ExtTreeSet.length_toList]

/-- **Muddy children who hear every answer.** Let some of the children be muddy, and let each hear
every answer. Then the scenario is set up. In each round before there have been as many as there are
muddy children, all children say that they do not know, and then each holds possible just the worlds
with more muddy children than rounds have passed; in the round after these, the muddy children say
that they are muddy. A run ends with `lastRound`, unless its limit comes before. If it does not,
then each child has the actual world alone, and in one more round all say what they are. -/
theorem muddy_children_know (count : Nat) (muddy : ExtTreeSet Nat) (settings : Settings)
    (nonempty : muddy ≠ ∅) (inRange : ∀ i ∈ muddy, 1 ≤ i ∧ i ≤ count)
    (conjoined : settings.redistribution.value = .conjoined) :
    ∃ m, setup count muddy .all settings = .ok m ∧
      (base count).contains m.actual = true ∧
      (∀ i, i ∈ muddyAt count m.actual ↔ i ∈ muddy) ∧
      (∀ i ∈ numbers count, m.session.model? (child i) = some (base count)) ∧
      (∀ r, 0 < r → r < muddy.size → ∃ report, (m.after (r - 1)).round.2 = .ok report ∧
        (∀ i ∈ numbers count, report.action? (child i) = some "unknown") ∧
        ∀ i ∈ numbers count, ∃ model, (m.after r).session.model? (child i) = some model ∧
          model.IsSubmodel (base count) fun v => r + 1 ≤ (muddyAt count v).card) ∧
      (∃ report, (m.after (muddy.size - 1)).round.2 = .ok report ∧
        ∀ i ∈ muddy, report.action? (child i) = some "muddy") ∧
      (∃ reports, m.run.2 = .ok reports ∧
        reports.length = min (lastRound count muddy.size) settings.roundLimit.value) ∧
      (lastRound count muddy.size ≤ settings.roundLimit.value →
        (∀ i ∈ numbers count, ∃ model, m.run.1.session.model? (child i) = some model ∧
          ∀ v, model.contains v = true ↔ v = m.actual) ∧
        ∃ report, m.run.1.round.2 = .ok report ∧ ∀ i ∈ numbers count,
          report.action? (child i) = some (if i ∈ muddy then "muddy" else "clean")) := by
  have someone := nonempty_numberSet nonempty
  have inside : numberSet muddy ⊆ (numbers count).toFinset := by
    intro i hi
    rw [List.mem_toFinset, mem_numbers]
    exact inRange i (mem_numberSet.1 hi)
  obtain ⟨m, ok, stands, limit, models⟩ := exists_setup .all nonempty inRange conjoined
  have few := lastRound_le inside someone
  have last := stands.after_lastRound inside someone
  obtain ⟨reports, ran, length⟩ := stands.run_all inside someone
  rw [limit] at ran length
  simp only [card_numberSet] at few last ran length
  refine ⟨m, ok, stands.contains_actual, ?_, models, ?_, ?_, ⟨reports, by rw [ran], length⟩, ?_⟩
  · intro i
    rw [stands.muddyAt_actual, mem_numberSet]
  · intro r positive more
    obtain ⟨before, -⟩ := stands.after_all (r - 1) (by rw [card_numberSet]; omega)
    obtain ⟨report, succeeds, actions, -⟩ := before.round_all (by rw [card_numberSet]; omega)
    refine ⟨report, succeeds, fun i hi => ?_, fun i hi => ?_⟩
    · rw [actions i hi, if_neg]
      rintro ⟨-, just⟩
      rw [card_numberSet] at just
      omega
    · obtain ⟨now, -⟩ := stands.after_all r (by rw [card_numberSet]; omega)
      obtain ⟨model, found, shows⟩ := now.gathered.exists_model hi
      refine ⟨model, found, Model.IsSubmodel.congr shows fun v _ => ?_⟩
      rw [atLeast, decide_eq_true_iff, or_iff_right positive.ne']
  · obtain ⟨before, -⟩ := stands.after_all (muddy.size - 1)
      (by rw [card_numberSet]; omega)
    obtain ⟨report, succeeds, actions, -⟩ := before.round_all (by rw [card_numberSet]; omega)
    refine ⟨report, succeeds, fun i hi => ?_⟩
    rw [actions i (mem_numbers.2 (inRange i hi)), if_pos]
    refine ⟨mem_numberSet.2 hi, ?_⟩
    rw [card_numberSet]
    omega
  · intro within
    rw [ran, Nat.min_eq_left within]
    refine ⟨fun i hi => ?_, ?_⟩
    · obtain ⟨model, found, shows⟩ := last.gathered.exists_model hi
      refine ⟨model, found, fun v => ?_⟩
      rw [shows.contains_iff, exactly, decide_eq_true_iff, ← stands.muddyAt_actual]
      constructor
      · rintro ⟨live, same⟩
        exact muddyAt_inj live stands.contains_actual same
      · rintro rfl
        exact ⟨stands.contains_actual, rfl⟩
    · obtain ⟨report, succeeds, actions⟩ := last.round_exactly few.1
      refine ⟨report, succeeds, fun i hi => ?_⟩
      rw [actions i hi]
      simp only [mem_numberSet]

/-- Of three children the first and the third are muddy. A run takes two rounds, and in one more
round the first says that it is muddy and the second that it is clean. -/
theorem muddy_children_know_two_of_three :
    let muddy : ExtTreeSet Nat := .ofList [1, 3]
    muddy ≠ ∅ ∧ (∀ i ∈ muddy, 1 ≤ i ∧ i ≤ 3) ∧
      Settings.standard.redistribution.value = .conjoined ∧
      ∃ m, setup 3 muddy .all .standard = .ok m ∧
        (∃ reports, m.run.2 = .ok reports ∧ reports.length = 2) ∧
        ∃ report, m.run.1.round.2 = .ok report ∧ report.action? (child 1) = some "muddy" ∧
          report.action? (child 2) = some "clean" := by
  intro muddy
  have nonempty : muddy ≠ ∅ := ofList_pair_ne_empty
  have inRange : ∀ i ∈ muddy, 1 ≤ i ∧ i ≤ 3 := by
    intro i hi
    rcases mem_ofList_pair.1 hi with rfl | rfl <;> decide
  have size : muddy.size = 2 := ExtTreeSet.size_ofList (by decide)
  obtain ⟨m, ok, -, -, -, -, -, ⟨reports, ran, length⟩, known⟩ :=
    muddy_children_know 3 muddy .standard nonempty inRange rfl
  rw [size] at length known
  obtain ⟨-, report, succeeds, actions⟩ := known (by decide)
  refine ⟨nonempty, inRange, rfl, m, ok, ⟨reports, ran, length⟩, report, succeeds, ?_, ?_⟩
  · rw [actions 1 (by decide), if_pos (mem_ofList_pair.2 (.inl rfl))]
  · rw [actions 2 (by decide), if_neg]
    rw [mem_ofList_pair]
    decide

end MuddyChildren

end KnowledgePrograms
