import KnowledgePrograms.Proofs.Session.Conservation
import KnowledgePrograms.Proofs.Session.Protocol
import KnowledgePrograms.Proofs.Session.Report

/-! # How rounds and announcements fail

A round fails exactly where the session it leaves cannot be said to be finished at the real world,
and with the same error: the world is missing from the model of the agent that is named, which is
the least such agent. As a world that is missing stays missing, all later rounds at it fail too.
Likewise an announcement fails exactly where the session it leaves cannot be said to be finished.

* `snd_round_eq_error_iff`, `rounds_of_error`, `rounds_of_ok`: what a round results in, and whether
  it is counted.
* `round_of_lost`: a round that loses the world before anything is selected.
* `ShrinksTo.exists_error_round`: a world that is missing makes every later round fail.
* `failures_match_queries`: rounds, announcements and queries on any session. -/

namespace KnowledgePrograms

open Std (ExtTreeMap ExtTreeSet)

namespace Session

variable {s t : Session} {f : Formula} {r : WorldRef} {a : Agent} {e : RunError}

/-! ## (1) The result of a round -/

/-- A round fails iff some model lacks the world afterwards. -/
theorem snd_round_eq_error_iff :
    (s.round f r).2 = .error e ↔
      ∃ a, (s.round f r).1.firstWithout? r = some a ∧ e = .invalidModel a r := by
  rcases round_cases s f r with ⟨a, missing, ended⟩ | ⟨-, a, missing, ended⟩ |
    ⟨-, left, report, ended⟩
  · simp [ended, missing, eq_comm]
  · simp [ended, missing, eq_comm]
  · have counted : ((s.tellAll f).inform r).countRound.firstWithout? r = none := left
    simp [ended, counted]

/-- A round that fails is not counted. -/
theorem rounds_of_error (failed : (s.round f r).2 = .error e) :
    (s.round f r).1.counters.rounds = s.counters.rounds := by
  rcases round_cases s f r with ⟨a, -, ended⟩ | ⟨-, a, -, ended⟩ | ⟨-, -, report, ended⟩
  · rw [ended]
    rfl
  · rw [ended]
    rfl
  · rw [ended] at failed
    cases failed

/-- A round that succeeds is counted, and its number is that of the rounds counted. -/
theorem rounds_of_ok {report : Round} (succeeded : (s.round f r).2 = .ok report) :
    (s.round f r).1.counters.rounds = s.counters.rounds + 1 ∧
      report.number = (s.round f r).1.counters.rounds := by
  rcases round_cases s f r with ⟨a, -, ended⟩ | ⟨-, a, -, ended⟩ | ⟨first, second, -⟩
  · rw [ended] at succeeded
    cases succeeded
  · rw [ended] at succeeded
    cases succeeded
  · rw [round_eq_ok first second] at succeeded ⊢
    obtain rfl := Except.ok.inj succeeded
    exact ⟨rfl, rfl⟩

/-- A round whose announcement alone loses the world is that announcement. -/
theorem round_of_lost (lost : (s.announce f).1.isFinishedAt r = .error e) :
    (s.round f r).1 = (s.announce f).1 ∧ (s.round f r).2 = .error e := by
  rw [fst_announce] at lost ⊢
  obtain ⟨a, missing, rfl⟩ := isFinishedAt_eq_error_iff.1 lost
  simp only [round, missing, and_self]

/-- An announcement leaves the actors as they are. -/
theorem actor?_announce (s : Session) (f : Formula) (a : Agent) :
    (s.announce f).1.actor? a = s.actor? a := by
  rw [fst_announce, actor?, getElem?_members_tellAll, actor?, Option.map_map]
  rfl

/-! ## (2) Later rounds -/

/-- When a model lacks the world, a round fails. -/
theorem exists_error_of_missing {m : Model} (hm : (s.round f r).1.models[a]? = some m)
    (missing : m.contains r = false) : ∃ e, (s.round f r).2 = .error e := by
  cases first : (s.round f r).1.firstWithout? r with
  | some b => exact ⟨_, snd_round_eq_error_iff.2 ⟨b, first, rfl⟩⟩
  | none =>
    rw [getElem?_models] at hm
    obtain ⟨x, hx, rfl⟩ := Option.map_eq_some_iff.1 hm
    rw [firstWithout?_eq_none_iff.1 first a x hx] at missing
    cases missing

/-- As a model that lacks the world never regains it, every round at the world fails that is held
on a session which the models shrink to. -/
theorem ShrinksTo.exists_error_round (h : s.ShrinksTo t) (missing : s.firstWithout? r = some a)
    (g : Formula) : ∃ e, (t.round g r).2 = .error e := by
  obtain ⟨⟨m, hm, gone⟩, -⟩ := firstWithout?_eq_some_iff.1 missing
  have later : s.ShrinksTo (t.round g r).1 := h.trans (t.shrinksTo_round g r)
  obtain ⟨n, hn, left⟩ := later.exists_model hm
  refine exists_error_of_missing hn ?_
  by_contra live
  rw [Bool.not_eq_false] at live
  rw [left.contains live] at gone
  cases gone

/-! ## (3) Rounds, announcements and queries -/

/-- **Failures match the queries.** For every session, formula and reference, to a world or not:
a round comes to what it is as a run through the agents, so that no other error occurs in it; it
fails iff the session that it leaves cannot be said to be finished at the world, and with the same
error, which names the least agent whose model lacks the world; it is counted iff it succeeds, and
its report has the number of the rounds counted; if its announcement alone loses the world, it is
that announcement, and no agent has selected anew; and once it has failed every later round at the
world fails. Likewise an announcement is one as a run through the agents, is made to every model,
and fails iff the session that it leaves cannot be said to be finished, and with the same error,
which names the least agent without a world. -/
theorem failures_match_queries (s : Session) (f : Formula) (r : WorldRef) :
    (runOn (protocol f r) s = ((s.round f r).1, (s.round f r).2.mapError .run) ∧
      (∀ e, (s.round f r).2 = .error e ↔ (s.round f r).1.isFinishedAt r = .error e) ∧
      (∀ e, (s.round f r).2 = .error e → ∃ a, e = .invalidModel a r ∧
        (s.round f r).1.IsFirst (fun m => m.contains r = false) a) ∧
      ((∃ report, (s.round f r).2 = .ok report) ↔
        (s.round f r).1.counters.rounds = s.counters.rounds + 1) ∧
      (∀ report, (s.round f r).2 = .ok report →
        report.number = (s.round f r).1.counters.rounds) ∧
      (∀ e, (s.announce f).1.isFinishedAt r = .error e →
        (s.round f r).1 = (s.announce f).1 ∧ (s.round f r).2 = .error e ∧
          ∀ a, (s.round f r).1.actor? a = s.actor? a) ∧
      ∀ e, (s.round f r).2 = .error e → ∀ (deeds : List Deed) (g : Formula),
        ∃ e', (((s.round f r).1.actAll deeds).round g r).2 = .error e') ∧
    runOn (broadcast f) s = ((s.announce f).1, (s.announce f).2.mapError .run) ∧
      (∀ a : Agent,
        (s.announce f).1.models[a]? = s.models[a]?.map fun m : Model => (m.announce f).2) ∧
      (∀ e, (s.announce f).2 = .error e ↔ (s.announce f).1.isFinished = .error e) ∧
      ∀ e, (s.announce f).2 = .error e → ∃ a, e = .noConvergence a ∧
        (s.announce f).1.IsFirst (fun m => m.worldCount = 0) a := by
  refine ⟨⟨runOn_protocol s f r, ?_, ?_, ?_, ?_, ?_, ?_⟩, runOn_broadcast s f, ?_, ?_, ?_⟩
  · intro e
    rw [snd_round_eq_error_iff, isFinishedAt_eq_error_iff]
  · intro e failed
    obtain ⟨a, missing, rfl⟩ := snd_round_eq_error_iff.1 failed
    exact ⟨a, rfl, firstWithout?_eq_some_iff.1 missing⟩
  · constructor
    · rintro ⟨report, succeeded⟩
      exact (rounds_of_ok succeeded).1
    · intro counted
      cases result : (s.round f r).2 with
      | ok report => exact ⟨report, rfl⟩
      | error e =>
        rw [rounds_of_error result] at counted
        omega
  · intro report succeeded
    exact (rounds_of_ok succeeded).2
  · intro e lost
    obtain ⟨same, failed⟩ := round_of_lost lost
    refine ⟨same, failed, fun a => ?_⟩
    rw [same, actor?_announce]
  · intro e failed deeds g
    obtain ⟨a, missing, -⟩ := snd_round_eq_error_iff.1 failed
    exact ((s.round f r).1.shrinksTo_actAll deeds).exists_error_round missing g
  · intro a
    rw [fst_announce, getElem?_models, getElem?_members_tellAll, getElem?_models, Option.map_map,
      Option.map_map]
    rfl
  · intro e
    rw [snd_announce_eq_error_iff, isFinished_eq_error_iff, fst_announce]
  · intro e failed
    obtain ⟨a, empty, rfl⟩ := snd_announce_eq_error_iff.1 failed
    refine ⟨a, rfl, ?_⟩
    rw [fst_announce]
    exact firstEmpty?_eq_some_iff.1 empty

/-- The hearer learns in a first round from the seer which world is real. In a second round the
seer hears that the hearer knows it, which is false in its own model. So this round fails for the
seer after all have selected, is not counted, and every later round at the world fails. -/
theorem failures_match_queries_hearing_back :
    let seer : Agent := ⟨"seer"⟩
    let hearer : Agent := ⟨"hearer"⟩
    let deeds : List Deed :=
      [.edit (.permit hearer seer), .call (.round .top ⟨2, 1⟩), .edit (.permit seer hearer)]
    ∃ s : Session, start .standard unequalSight [answering seer, answering hearer] = .ok s ∧
      let t := s.actAll deeds
      let u := (t.round .top ⟨2, 1⟩).1
      (t.announce .top).1.isFinishedAt ⟨2, 1⟩ = .ok false ∧
      (t.round .top ⟨2, 1⟩).2 = .error (.invalidModel seer ⟨2, 1⟩) ∧
      runOn (protocol .top ⟨2, 1⟩) t = (u, .error (.run (.invalidModel seer ⟨2, 1⟩))) ∧
      t.counters.rounds = 1 ∧ u.counters.rounds = 1 ∧
      (∀ (later : List Deed) (g : Formula), ∃ e, ((u.actAll later).round g ⟨2, 1⟩).2 = .error e) ∧
      (u.announce .top).2 = .error (.noConvergence seer) := by
  intro seer hearer deeds
  have checked : ((start .standard unequalSight
      [answering seer, answering hearer]).toOption.any fun s =>
        let t := s.actAll deeds
        let u := (t.round .top ⟨2, 1⟩).1
        (t.announce .top).1.firstWithout? ⟨2, 1⟩ == none && !(t.announce .top).1.allSingle &&
          u.firstWithout? ⟨2, 1⟩ == some seer && t.counters.rounds == 1 &&
          (u.announce .top).1.firstEmpty? == some seer) = true := by
    decide +kernel
  cases started : start .standard unequalSight [answering seer, answering hearer] with
  | error e =>
    rw [started] at checked
    cases checked
  | ok s =>
    rw [started] at checked
    simp only [Except.toOption, Option.any_some, Bool.and_eq_true, beq_iff_eq,
      Bool.not_eq_true'] at checked
    obtain ⟨⟨⟨⟨present, several⟩, missing⟩, counted⟩, empty⟩ := checked
    have before : ((s.actAll deeds).announce .top).1.isFinishedAt ⟨2, 1⟩ = .ok false := by
      rw [isFinishedAt, present, several]
    obtain ⟨⟨steps, failed, -, -, -, -, later⟩, -⟩ :=
      failures_match_queries (s.actAll deeds) .top ⟨2, 1⟩
    obtain ⟨-, -, -, finished, -⟩ :=
      failures_match_queries ((s.actAll deeds).round .top ⟨2, 1⟩).1 .top ⟨2, 1⟩
    have error := (failed (.invalidModel seer ⟨2, 1⟩)).2
      (isFinishedAt_eq_error_iff.2 ⟨seer, missing, rfl⟩)
    rw [error] at steps
    refine ⟨s, rfl, before, error, steps, counted, ?_, later _ error, ?_⟩
    · rw [rounds_of_error error, counted]
    · exact (finished _).2 (isFinished_eq_error_iff.2 ⟨seer, empty, rfl⟩)

end Session

end KnowledgePrograms
