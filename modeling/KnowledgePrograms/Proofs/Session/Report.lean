import KnowledgePrograms.Proofs.Session.Member

/-! # What a round reports

A round that succeeds leaves the session that its explanations have informed, with one more round
counted, and reports of each member the action that its program selects at the world taken for the
real one, after the formula of the round was announced and before the explanations were heard.

* `round_eq_ok`: what a round that succeeds leaves and reports.
* `getElem?_outcomes_roundReport`, `action?_roundReport`: the outcomes and actions reported.
* `program?_round`, `action?_of_ok`: the actions by the programs and models of the agents. -/

namespace KnowledgePrograms

open Std (ExtTreeMap ExtTreeSet)

/-- The name of the action that an agent selected in a round. -/
def Round.action? (report : Round) (a : Agent) : Option String :=
  report.outcomes[a]?.bind Outcome.action

namespace Session

/-- A round in which every member keeps the world both times succeeds. -/
theorem round_eq_ok {s : Session} {f : Formula} {r : WorldRef}
    (first : (s.tellAll f).firstWithout? r = none)
    (second : ((s.tellAll f).inform r).firstWithout? r = none) :
    s.round f r = (((s.tellAll f).inform r).countRound, .ok (s.roundReport f r)) := by
  rw [round_eq, first, second]

/-- A round that succeeds reports what `roundReport` says. -/
theorem eq_roundReport {s : Session} {f : Formula} {r : WorldRef} {report : Round}
    (h : (s.round f r).2 = .ok report) : report = s.roundReport f r := by
  rw [round_eq] at h
  split at h
  · cases h
  · split at h
    · cases h
    · exact (Except.ok.inj h).symm

/-- What comes of a round for a member that selects at the world of its model. -/
def selectedOutcome (s : Session) (r : WorldRef) (a : Agent) (x : Member) : Outcome :=
  let chosen := x.actor.program.chooseAt x.model r
  { observation := observation x.model r a x.observed
    action := chosen.map fun selection => selection.action.name
    explanation := chosen.bind fun selection =>
      x.actor.program.explain selection.action.name s.settings.simplificationLimit.value
    result := chosen.map fun selection =>
      selection.action.invoke (s.arguments selection.action.name) }

/-- The outcome reported of an agent is that of its member after the announcement. -/
theorem getElem?_outcomes_roundReport (s : Session) (f : Formula) (r : WorldRef) (a : Agent) :
    (s.roundReport f r).outcomes[a]?
      = (s.tellAll f).members[a]?.map (s.selectedOutcome r a) := by
  have members : ((s.tellAll f).inform r).countRound.members[a]?
      = ((s.tellAll f).inform r).members[a]? := rfl
  rw [roundReport, report, ExtTreeMap.getElem?_filterMap', observations, ExtTreeMap.getElem?_map,
    members, getElem?_members_inform, getElem?_explanations_selectAll]
  cases (s.tellAll f).members[a]? with
  | none => rfl
  | some x =>
    simp only [Option.map_some, Option.bind_some, outcome, selectedOutcome, Actor.action?,
      Actor.selectAt, Actor.withSelection, Member.withModel, Member.withActor, Option.map_map]
    rfl

/-- The action reported of an agent is the one that its program selects at the world of its model
after the announcement. -/
theorem action?_roundReport (s : Session) (f : Formula) (r : WorldRef) (a : Agent) :
    (s.roundReport f r).action? a = (s.tellAll f).members[a]?.bind fun x =>
      (x.actor.program.chooseAt x.model r).map fun selection => selection.action.name := by
  rw [Round.action?, getElem?_outcomes_roundReport]
  cases (s.tellAll f).members[a]? <;> rfl

/-- The program of an agent of the session. -/
def program? (s : Session) (a : Agent) : Option Program :=
  s.members[a]?.map fun x => x.actor.program

/-- An announcement leaves each agent its program. -/
theorem program?_tellAll (s : Session) (f : Formula) (a : Agent) :
    (s.tellAll f).program? a = s.program? a := by
  rw [program?, getElem?_members_tellAll, Option.map_map]
  rfl

/-- Hearing explanations leaves each agent its program. -/
theorem program?_inform (s : Session) (r : WorldRef) (a : Agent) :
    (s.inform r).program? a = s.program? a := by
  rw [program?, getElem?_members_inform, Option.map_map]
  rfl

/-- A round leaves each agent its program, also where it fails. -/
theorem program?_round (s : Session) (f : Formula) (r : WorldRef) (a : Agent) :
    (s.round f r).1.program? a = s.program? a := by
  have informed := ((s.tellAll f).program?_inform r a).trans (s.program?_tellAll f a)
  rcases round_cases s f r with ⟨b, -, ended⟩ | ⟨-, b, -, ended⟩ | ⟨-, -, report, ended⟩
  · rw [ended, program?_tellAll]
  · rw [ended, informed]
  · rw [ended, ← informed]
    rfl

/-- When a round succeeds, the model of an agent has the world after the announcement, and the
action reported of the agent is what its program selects there. -/
theorem action?_of_ok {s : Session} {f : Formula} {r : WorldRef} {report : Round}
    (ok : (s.round f r).2 = .ok report) {a : Agent} {p : Program} {m : Model}
    (runs : s.program? a = some p) (holds : (s.tellAll f).model? a = some m) :
    m.contains r = true ∧
      report.action? a = (p.chooseAt m r).map fun selection => selection.action.name := by
  rw [model?_eq] at holds
  obtain ⟨x, hx, rfl⟩ := Option.map_eq_some_iff.1 holds
  rw [← program?_tellAll s f, program?, hx, Option.map_some] at runs
  obtain rfl := Option.some.inj runs
  constructor
  · rcases round_cases s f r with ⟨b, -, ended⟩ | ⟨present, -⟩ | ⟨present, -⟩
    · rw [ended] at ok
      cases ok
    · exact firstWithout?_eq_none_iff.1 present a x hx
    · exact firstWithout?_eq_none_iff.1 present a x hx
  · rw [eq_roundReport ok, action?_roundReport, hx, Option.bind_some]

end Session

end KnowledgePrograms
