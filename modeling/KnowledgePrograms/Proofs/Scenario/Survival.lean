import KnowledgePrograms.Proofs.Scenario.PublicAnswers

/-! # Whether the actual world survives

A child hears an answer as a fact about the child that gives it, and reads this fact in its own
model. If all children hear the same, their models stay the same, and what is a fact in one is a
fact in the others. In a ring of three children or more each hears itself and the next one, so that
their models differ after a round, and an answer may be wrong where it is heard. It is when no
children are muddy but some child and the next one: after the first round that child has ruled out
more than the next one has, and knows what the next one says that it does not know.

* `Standing.survives`: what all rounds keep if it holds at first and each round keeps it.
* `Standing.survives_alike`, `Standing.survives_ring`: hearing the same, and a ring in which enough
  children are muddy.
* `Standing.lost_ring`: a ring in which they are not.
* `actual_survives`: in which scenarios the actual world survives. -/

namespace KnowledgePrograms

open Std (ExtTreeSet)

namespace MuddyChildren

variable {count rounds i j : Nat} {hearing : Hearing} {actual x : Finset Nat} {m : MuddyChildren}
  {views : Nat → Finset Nat → Bool}

/-! ## (1) What all rounds keep -/

/-- The next round succeeds, and every child has the actual world. -/
def Survives (count : Nat) (m : MuddyChildren) : Prop :=
  (∃ report, m.round.2 = .ok report) ∧ ∀ i ∈ numbers count, ∃ model,
    m.session.model? (child i) = some model ∧ model.contains m.actual = true

/-- A child that holds the actual set possible and some child muddy is told nothing else. -/
theorem told_actual (nonempty : actual.Nonempty) (holds : views i actual = true) :
    told rounds views i actual = true := by
  rw [told, holds, decide_eq_true nonempty, Bool.or_true, Bool.and_true]

/-- The actual world survives if what the children hold possible has a property that it has at
first, that each round keeps, and with which all hold the actual set possible. -/
theorem Standing.survives (P : (Nat → Finset Nat → Bool) → Prop)
    (start : P fun _ _ => true)
    (step : ∀ rounds views, P views → P (next count hearing actual rounds views))
    (holds : ∀ views, P views → ∀ i ∈ numbers count, views i actual = true)
    (h : Standing count hearing actual 0 (fun _ _ => true) m) (nonempty : actual.Nonempty)
    (rounds : Nat) : Survives count (m.after rounds) := by
  have succeeds {rounds : Nat} {views : Nat → Finset Nat → Bool} {m : MuddyChildren}
      (kept : P views) (h : Standing count hearing actual rounds views m) :
      ∃ report, m.round.2 = .ok report ∧
        Standing count hearing actual (rounds + 1) (next count hearing actual rounds views)
          m.round.1 := by
    obtain ⟨report, ok, -, stands, -⟩ := h.round_eq_ok
      (fun i hi => told_actual nonempty (holds views kept i hi))
      (holds _ (step rounds views kept))
    exact ⟨report, ok, stands⟩
  -- So after any number of rounds the children stand with something that has the property.
  have stands : ∃ views, P views ∧ Standing count hearing actual rounds views (m.after rounds) := by
    induction rounds with
    | zero => exact ⟨_, start, h⟩
    | succ rounds ih =>
      obtain ⟨views, kept, stands⟩ := ih
      obtain ⟨_, _, stands'⟩ := succeeds kept stands
      exact ⟨_, step rounds views kept, stands'⟩
  obtain ⟨views, kept, stands⟩ := stands
  obtain ⟨report, ok, -⟩ := succeeds kept stands
  refine ⟨⟨report, ok⟩, fun i hi => ?_⟩
  obtain ⟨model, found, shows⟩ := stands.gathered.exists_model hi
  refine ⟨model, found, shows.contains_iff.2 ⟨stands.contains_actual, ?_⟩⟩
  rw [stands.muddyAt_actual]
  exact holds views kept i hi

/-! ## (2) Hearing the same -/

/-- If all children hear the same children, the actual world survives. -/
theorem Standing.survives_alike (h : Standing count hearing actual 0 (fun _ _ => true) m)
    (nonempty : actual.Nonempty)
    (same : ∀ i ∈ numbers count, ∀ j ∈ numbers count, ∀ c,
      c ∈ audible count hearing i → c ∈ audible count hearing j)
    (rounds : Nat) : Survives count (m.after rounds) := by
  refine h.survives (fun views => (∀ i ∈ numbers count, ∀ j ∈ numbers count, views i = views j) ∧
      ∀ i ∈ numbers count, views i actual = true) ⟨fun _ _ _ _ => rfl, fun _ _ => rfl⟩ ?_
    (fun _ kept => kept.2) nonempty rounds
  rintro rounds views ⟨alike, holds⟩
  have alike' : ∀ i ∈ numbers count, ∀ j ∈ numbers count,
      told rounds views i = told rounds views j := by
    intro i hi j hj
    funext x
    rw [told, told, alike i hi j hj]
  constructor
  · -- What is left to one child is left to any other.
    have sub : ∀ i ∈ numbers count, ∀ j ∈ numbers count, ∀ x,
        next count hearing actual rounds views i x = true →
        next count hearing actual rounds views j x = true := by
      intro i hi j hj x hx
      obtain ⟨before, answers⟩ := informed_iff.1 hx
      rw [alike' i hi j hj] at before answers
      exact informed_iff.2 ⟨before, fun c hc => answers c (same j hj i hi c hc)⟩
    intro i hi j hj
    funext x
    exact Bool.eq_iff_iff.2 ⟨sub i hi j hj x, sub j hj i hi x⟩
  · -- An answer that is heard is right, as the one who hears it holds the same possible.
    intro i hi
    refine informed_iff.2 ⟨told_actual nonempty (holds i hi), fun c hc => ?_⟩
    rw [alike' i hi c (mem_numbers_of_mem_audible hi hc)]

/-! ## (3) Hearing the next child -/

/-- The child after a child in the ring. -/
def following (count i : Nat) : Nat := i % count + 1

/-- The next child has the next number, and after the last comes the first. -/
theorem following_eq (hi : i ∈ numbers count) :
    following count i = if i = count then 1 else i + 1 := by
  have range := mem_numbers.1 hi
  rw [following]
  split
  · next last => rw [last, Nat.mod_self]
  · next other => rw [Nat.mod_eq_of_lt (by omega)]

/-- The next child is a child. -/
theorem following_mem (hi : i ∈ numbers count) : following count i ∈ numbers count := by
  have range := mem_numbers.1 hi
  rw [following_eq hi, mem_numbers]
  split <;> omega

/-- In a ring of three children or more the next child and the one after it are others. -/
theorem following_ne (three : 3 ≤ count) (hi : i ∈ numbers count) :
    following count i ≠ i ∧ following count (following count i) ≠ i := by
  have range := mem_numbers.1 hi
  rw [following_eq (following_mem hi), following_eq hi]
  split <;> split <;> omega

/-- In a ring of two children, as of one, each child hears all. -/
theorem audible_ring_of_le_two (two : count ≤ 2) (hi : i ∈ numbers count) (hj : j ∈ numbers count)
    {c : Nat} (hc : c ∈ audible count .ring i) : c ∈ audible count .ring j := by
  have rangeI := mem_numbers.1 hi
  have rangeJ := mem_numbers.1 hj
  have eqI := following_eq hi
  have eqJ := following_eq hj
  rw [following] at eqI eqJ
  rw [audible, List.mem_pair] at hc ⊢
  split at eqI <;> split at eqJ <;> omega

/-- Each child holds every set possible that has other children than itself and the next one. -/
def AllowsOthers (count : Nat) (views : Nat → Finset Nat → Bool) : Prop :=
  ∀ i ∈ numbers count, ∀ x, ¬ x ⊆ {i, following count i} → views i x = true

/-- The father rules out no set with a child in it. -/
theorem AllowsOthers.told (kept : AllowsOthers count views) :
    AllowsOthers count (told rounds views) := by
  intro i hi x other
  refine told_actual ?_ (kept i hi x other)
  rw [Finset.nonempty_iff_ne_empty]
  rintro rfl
  exact other (Finset.empty_subset _)

/-- While others than a child and the next one are muddy and may be, neither of the two can be known
to be muddy or clean. -/
theorem AllowsOthers.answer_eq (kept : AllowsOthers count views) (hi : i ∈ numbers count)
    (other : ¬ x ⊆ {i, following count i}) (hj : j ∈ audible count .ring i) :
    answer (views i) j x = .unknown := by
  obtain ⟨e, he, outside⟩ := Finset.not_subset.1 other
  have different : e ≠ j := by
    rintro rfl
    refine outside ?_
    rcases List.mem_pair.1 hj with rfl | rfl
    · exact Finset.mem_insert_self _ _
    · exact Finset.mem_insert_of_mem (Finset.mem_singleton_self _)
  rw [answer_eq_unknown_iff]
  constructor
  · exact kept i hi _ fun sub => outside (sub (Finset.mem_erase.2 ⟨different, he⟩))
  · exact kept i hi _ fun sub => outside (sub (Finset.mem_insert_of_mem he))

/-- If more children are muddy than any child and the next one, the actual world survives in a
ring. -/
theorem Standing.survives_ring (h : Standing count .ring actual 0 (fun _ _ => true) m)
    (nonempty : actual.Nonempty)
    (enough : ∀ i ∈ numbers count, ¬ actual ⊆ {i, following count i}) (rounds : Nat) :
    Survives count (m.after rounds) := by
  refine h.survives (AllowsOthers count) (fun _ _ _ _ => rfl) ?_
    (fun views kept i hi => kept i hi actual (enough i hi)) nonempty rounds
  -- A set with others in it is kept: everyone that is heard says that it does not know.
  intro rounds views kept i hi x other
  refine informed_iff.2 ⟨kept.told i hi x other, fun j hj => ?_⟩
  have number := mem_numbers_of_mem_audible hi hj
  rw [kept.told.answer_eq hi other hj,
    kept.told.answer_eq number (enough j number) List.mem_cons_self]

/-! ## (4) Hearing what is wrong -/

/-- When it is only known that some child is muddy, a child knows itself to be muddy if it is the
only one. -/
theorem answer_nonempty (nonempty : x.Nonempty) :
    answer (fun x => decide (1 ≤ x.card)) i x = if x = {i} then .muddy else .unknown := by
  have alone : (i ∈ x ∧ x.card = 1) ↔ x = {i} := by
    constructor
    · rintro ⟨hi, one⟩
      obtain ⟨a, rfl⟩ := Finset.card_eq_one.1 one
      rw [Finset.mem_singleton.1 hi]
    · rintro rfl
      exact ⟨Finset.mem_singleton_self i, Finset.card_singleton i⟩
  rw [answer_card (Finset.card_pos.2 nonempty)]
  simp only [alone]

/-- What a child holds possible after the first round: the sets in which a child that it hears is
the only muddy one just if it is the only one in fact. -/
theorem next_zero_iff (nonempty : actual.Nonempty) :
    next count hearing actual 0 (atLeast 0) i x = true ↔
      x.Nonempty ∧ ∀ j ∈ audible count hearing i, (x = {j} ↔ actual = {j}) := by
  rw [next, informed_iff]
  simp only [told_atLeast, decide_eq_true_iff, Nat.zero_add]
  rw [Finset.one_le_card]
  refine and_congr_right fun some => forall₂_congr fun j _ => ?_
  rw [answer_nonempty some, answer_nonempty nonempty]
  by_cases before : x = {j} <;> by_cases now : actual = {j} <;> simp [before, now]

/-- If no children are muddy but some child and the next one, then either just one child is, or just
a child and the next one. -/
theorem exists_eq_of_subset (nonempty : actual.Nonempty)
    (few : ∃ i ∈ numbers count, actual ⊆ {i, following count i}) :
    ∃ c ∈ numbers count, actual = {c} ∨ actual = {c, following count c} := by
  obtain ⟨i, hi, sub⟩ := few
  rw [Finset.subset_insert_iff, Finset.subset_singleton_iff] at sub
  by_cases muddy : i ∈ actual
  · refine ⟨i, hi, ?_⟩
    rw [← Finset.insert_erase muddy]
    rcases sub with none | one
    · rw [none]
      exact .inl rfl
    · rw [one]
      exact .inr rfl
  · rw [Finset.erase_eq_of_notMem muddy] at sub
    exact ⟨following count i, following_mem hi, .inl (sub.resolve_left nonempty.ne_empty)⟩

/-- Two children are not one. -/
theorem pair_ne_singleton {k : Nat} (different : j ≠ i) : ({i, j} : Finset Nat) ≠ {k} := by
  intro same
  have first : i ∈ ({k} : Finset Nat) := same ▸ Finset.mem_insert_self _ _
  have second : j ∈ ({k} : Finset Nat) :=
    same ▸ Finset.mem_insert_of_mem (Finset.mem_singleton_self _)
  rw [Finset.mem_singleton] at first second
  exact different (second.trans first.symm)

/-- Whether just a child is muddy or it and another: without the other it is the child, with the
other it is both. -/
theorem erase_insert_of_pair (different : j ≠ i) (pair : actual = {i} ∨ actual = {i, j}) :
    actual.erase j = {i} ∧ insert j actual = {i, j} := by
  rcases pair with rfl | rfl
  · refine ⟨Finset.erase_eq_of_notMem ?_, Finset.pair_comm j i⟩
    rwa [Finset.mem_singleton]
  · refine ⟨?_, Finset.insert_eq_self.2 (Finset.mem_insert_of_mem (Finset.mem_singleton_self j))⟩
    rw [Finset.pair_comm, Finset.erase_insert]
    rwa [Finset.mem_singleton]

/-- The next child, which has heard itself and the one after it, does not know in the second round
whether it is muddy. -/
theorem answer_following (three : 3 ≤ count) (hi : i ∈ numbers count) (nonempty : actual.Nonempty)
    (pair : actual = {i} ∨ actual = {i, following count i}) :
    answer (next count .ring actual 0 (atLeast 0) (following count i)) (following count i) actual
      = .unknown := by
  obtain ⟨first, second⟩ := following_ne three hi
  have single : ∀ j ∈ audible count .ring (following count i), ({i} : Finset Nat) ≠ {j} := by
    intro j hj same
    obtain rfl := Finset.singleton_inj.1 same
    rcases List.mem_pair.1 hj with same | same
    · exact first same.symm
    · exact second same.symm
  -- No child that it hears is the only one that is muddy.
  have others : ∀ j ∈ audible count .ring (following count i), actual ≠ {j} := by
    intro j hj
    rcases pair with rfl | rfl
    · exact single j hj
    · exact pair_ne_singleton first
  obtain ⟨without, joined⟩ := erase_insert_of_pair first pair
  rw [answer_eq_unknown_iff, without, joined, next_zero_iff nonempty, next_zero_iff nonempty]
  constructor
  · refine ⟨Finset.singleton_nonempty i, fun j hj => ?_⟩
    exact iff_of_false (single j hj) (others j hj)
  · refine ⟨Finset.insert_nonempty i _, fun j hj => ?_⟩
    exact iff_of_false (pair_ne_singleton first) (others j hj)

/-- The child before it, which has heard it, knows whether it is muddy: it has heard itself as
well, and so whether it is the only one. -/
theorem answer_following_ne (three : 3 ≤ count) (hi : i ∈ numbers count)
    (nonempty : actual.Nonempty) (pair : actual = {i} ∨ actual = {i, following count i}) :
    answer (next count .ring actual 0 (atLeast 0) i) (following count i) actual ≠ .unknown := by
  obtain ⟨first, -⟩ := following_ne three hi
  obtain ⟨without, joined⟩ := erase_insert_of_pair first pair
  rw [ne_eq, answer_eq_unknown_iff, without, joined, next_zero_iff nonempty, next_zero_iff nonempty]
  -- If it held both sets possible, it would be the only muddy one in both, having heard itself.
  rintro ⟨⟨-, alone⟩, -, both⟩
  have only := (alone i List.mem_cons_self).1 rfl
  exact pair_ne_singleton first ((both i List.mem_cons_self).2 only)

/-- If no children are muddy but some child and the next one, the actual world is lost in the second
round in a ring of three children or more. -/
theorem Standing.lost_ring (h : Standing count .ring actual 0 (fun _ _ => true) m)
    (nonempty : actual.Nonempty) (three : 3 ≤ count)
    (few : ∃ i ∈ numbers count, actual ⊆ {i, following count i}) :
    (∃ report, m.round.2 = .ok report) ∧
      ∃ a, (m.after 1).round.2 = .error (.invalidModel a m.actual) := by
  have kept (i : Nat) : next count .ring actual 0 (atLeast 0) i actual = true :=
    (next_zero_iff nonempty).2 ⟨nonempty, fun _ _ => Iff.rfl⟩
  obtain ⟨report, ok, -, stands, -⟩ := h.round_eq_ok
    (fun i _ => told_actual nonempty rfl) fun i _ => kept i
  refine ⟨⟨report, ok⟩, ?_⟩
  obtain ⟨c, hc, pair⟩ := exists_eq_of_subset nonempty few
  refine stands.round_eq_error (fun i _ => told_actual nonempty (kept i)) ⟨c, hc, ?_⟩
  rw [← Bool.not_eq_true, next, informed_iff, told_of_pos _ Nat.one_pos]
  rintro ⟨-, answers⟩
  -- The child would agree with the next one, which does not know what the child knows.
  have agree := answers (following count c) (List.mem_cons_of_mem _ List.mem_cons_self)
  exact answer_following_ne three hc nonempty pair
    (agree.trans (answer_following three hc nonempty pair))

/-! ## (5) The scenarios in which the actual world survives -/

/-- The children are three or more in a ring, and no children are muddy but some child and the next
one. -/
def DriftsApart (count : Nat) (hearing : Hearing) (muddy : ExtTreeSet Nat) : Prop :=
  hearing = .ring ∧ 3 ≤ count ∧
    ∃ i ∈ numbers count, ∀ j ∈ muddy, j = i ∨ j = following count i

/-- **The actual world survives unless the children drift apart.** Let some of the children be
muddy. Then the scenario is set up, for any way of hearing. If the children do not drift apart, then
every round succeeds, however many there are, and all children keep the actual world throughout. If
they do, then the first round succeeds and the second fails, as a child is left without the actual
world. -/
theorem actual_survives (count : Nat) (muddy : ExtTreeSet Nat) (hearing : Hearing)
    (settings : Settings) (nonempty : muddy ≠ ∅) (inRange : ∀ i ∈ muddy, 1 ≤ i ∧ i ≤ count)
    (conjoined : settings.redistribution.value = .conjoined) :
    ∃ m, setup count muddy hearing settings = .ok m ∧
      (¬ DriftsApart count hearing muddy → ∀ rounds, Survives count (m.after rounds)) ∧
      (DriftsApart count hearing muddy → (∃ report, m.round.2 = .ok report) ∧
        ∃ a, (m.after 1).round.2 = .error (.invalidModel a m.actual)) := by
  have someone := nonempty_numberSet nonempty
  obtain ⟨m, ok, stands, -, -⟩ := exists_setup hearing nonempty inRange conjoined
  have within (i : Nat) : numberSet muddy ⊆ {i, following count i} ↔
      ∀ j ∈ muddy, j = i ∨ j = following count i := by
    simp only [Finset.subset_iff, mem_numberSet, Finset.mem_insert, Finset.mem_singleton]
  refine ⟨m, ok, fun together rounds => ?_, ?_⟩
  · cases hearing with
    | all => exact stands.survives_alike someone (fun _ _ _ _ _ hc => hc) rounds
    | none => exact stands.survives_alike someone (fun _ _ _ _ _ hc => hc) rounds
    | ring =>
      by_cases three : 3 ≤ count
      · refine stands.survives_ring someone (fun i hi few => ?_) rounds
        exact together ⟨rfl, three, i, hi, (within i).1 few⟩
      · refine stands.survives_alike someone (fun i hi j hj c hc => ?_) rounds
        exact audible_ring_of_le_two (by omega) hi hj hc
  · rintro ⟨rfl, three, i, hi, few⟩
    exact stands.lost_ring someone three ⟨i, hi, (within i).2 few⟩

/-- In a ring of four children of which the first and the third are muddy, no round loses the actual
world. -/
theorem actual_survives_ring_of_four :
    let muddy : ExtTreeSet Nat := .ofList [1, 3]
    muddy ≠ ∅ ∧ (∀ i ∈ muddy, 1 ≤ i ∧ i ≤ 4) ∧
      Settings.standard.redistribution.value = .conjoined ∧ ¬ DriftsApart 4 .ring muddy ∧
      ∃ m, setup 4 muddy .ring .standard = .ok m ∧ ∀ rounds, Survives 4 (m.after rounds) := by
  intro muddy
  have nonempty : muddy ≠ ∅ := ofList_pair_ne_empty
  have inRange : ∀ i ∈ muddy, 1 ≤ i ∧ i ≤ 4 := by
    intro i hi
    rcases mem_ofList_pair.1 hi with rfl | rfl <;> decide
  have together : ¬ DriftsApart 4 .ring muddy := by
    rintro ⟨-, -, i, hi, few⟩
    have first := few 1 (mem_ofList_pair.2 (.inl rfl))
    have third := few 3 (mem_ofList_pair.2 (.inr rfl))
    have range := mem_numbers.1 hi
    have successor := following_eq hi
    split at successor <;> omega
  obtain ⟨m, ok, survives, -⟩ := actual_survives 4 muddy .ring .standard nonempty inRange rfl
  exact ⟨nonempty, inRange, rfl, together, m, ok, survives together⟩

/-- In a ring of three children of which the first is muddy, the second round loses the actual
world: of the second child, which does not know whether it is muddy, the first knows that it is
clean. -/
theorem actual_lost_ring_of_three :
    Settings.standard.redistribution.value = .conjoined ∧
      ∃ m, setup 3 (.ofList [1]) .ring .standard = .ok m ∧
        (∃ report, m.round.2 = .ok report) ∧
        (m.after 1).round.2 = .error (.invalidModel (child 1) m.actual) := by
  have checked : ((setup 3 (.ofList [1]) .ring .standard).toOption.any fun m =>
      m.round.2.isOk && match (m.after 1).round.2 with
        | .ok _ => false
        | .error e => e == .invalidModel (child 1) m.actual) = true := by
    decide +kernel
  refine ⟨rfl, ?_⟩
  cases ready : setup 3 (.ofList [1]) .ring .standard with
  | error e =>
    rw [ready] at checked
    cases checked
  | ok m =>
    rw [ready] at checked
    simp only [Except.toOption, Option.any_some, Bool.and_eq_true] at checked
    obtain ⟨first, second⟩ := checked
    refine ⟨m, rfl, ?_, ?_⟩
    · cases round : m.round.2 with
      | error e =>
        rw [round] at first
        cases first
      | ok report => exact ⟨report, rfl⟩
    · cases round : (m.after 1).round.2 with
      | ok report =>
        rw [round] at second
        cases second
      | error e =>
        rw [round] at second
        rw [eq_of_beq second]

end MuddyChildren

end KnowledgePrograms
