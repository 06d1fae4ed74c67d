import KnowledgePrograms.Kripke.Observability
import KnowledgePrograms.Proofs.Kripke.Submodel
import KnowledgePrograms.Proofs.Program.Explanation
import KnowledgePrograms.Proofs.Session.Member

/-! # Answers act as announcements

What an agent answers in a round is announced as the explanation of the answer. As an explanation
is true exactly where its program selects an action of that name, a hearer is left with the worlds
at which the programs of all that it hears would have answered the same.

* `Program.SelectsAt`: the program selects an action of the name at the world.
* `forall_heardBy_iff`: what it is for all explanations that a member hears to be true.
* `round_keeps_same_answers`: the models after a round. -/

namespace KnowledgePrograms

open Std (ExtTreeMap ExtTreeSet)

namespace Program

/-- At the world of the model the program selects an action of the name. -/
def SelectsAt (p : Program) (m : Model) (r : WorldRef) (name : String) : Prop :=
  ∃ (live : m.contains r = true) (x : Selection),
    p.select (.pointed m r live) = .ok (some x) ∧ x.action.name = name

/-- At a world of the model a program selects an action of the name iff it picks the name. -/
theorem selectsAt_iff {p : Program} {m : Model} {r : WorldRef} {name : String}
    (live : m.contains r = true) : p.SelectsAt m r name ↔ picks name (p.chooseAt m r) = true := by
  rw [picks, Option.any_eq_true]
  constructor
  · rintro ⟨_, x, selected, same⟩
    rw [select_pointed] at selected
    exact ⟨x, Except.ok.inj selected, decide_eq_true same⟩
  · rintro ⟨x, chosen, same⟩
    refine ⟨live, x, ?_, of_decide_eq_true same⟩
    rw [select_pointed, chosen]

end Program

namespace Session

variable {s : Session} {a : Agent} {r : WorldRef}

/-- The member hears the agent: it may, and the agent is another one, unless the settings let it
hear itself. -/
def Hears (s : Session) (a : Agent) (x : Member) (b : Agent) : Prop :=
  b ∈ x.heard ∧ (s.settings.selfHearing.value = true ∨ b ≠ a)

/-- The explanations heard in a round leave a member with the worlds at which all are true. -/
theorem isSubmodel_announceEach_conjoined (m : Model) (heard : List Formula) :
    (m.announceEach (redistributed .conjoined heard)).2.IsSubmodel m
      fun v => ∀ e ∈ heard, m.satisfies e v = true := by
  cases heard with
  | nil =>
    refine m.isSubmodel_self.congr ?_
    intro v _
    simp
  | cons e rest =>
    refine (m.isSubmodel_announce (.conjunction (e :: rest))).congr ?_
    intro v _
    rw [Model.satisfies_conjunction, List.all_eq_true]

/-- What a member hears is the explanation of what a member that it hears has selected. -/
theorem mem_heardBy_selectAll {x : Member} {e : Formula} :
    e ∈ s.heardBy (s.selectAll r).explanations a x ↔
      ∃ b, s.Hears a x b ∧ ∃ z, s.members[b]? = some z ∧
        ∃ selection, z.actor.program.chooseAt z.model r = some selection ∧
          z.actor.program.explain selection.action.name s.settings.simplificationLimit.value
            = some e := by
  simp only [mem_heardBy, getElem?_explanations_selectAll, Option.bind_eq_some_iff, Hears,
    and_assoc]

/-- All explanations that a member hears are true at a world iff there the programs of the members
that it hears select actions of the names that they have selected. -/
theorem forall_heardBy_iff
    (present : ∀ (b : Agent) (z : Member), s.members[b]? = some z → z.model.contains r = true)
    (x : Member) {v : WorldRef} (live : x.model.contains v = true) :
    (∀ e ∈ s.heardBy (s.selectAll r).explanations a x, x.model.satisfies e v = true) ↔
      ∀ b, s.Hears a x b → ∀ z, s.members[b]? = some z → ∀ name,
        z.actor.program.SelectsAt z.model r name → z.actor.program.SelectsAt x.model v name := by
  constructor
  · -- What `b` has selected is explained, and the explanation is among those heard.
    intro allTrue b hears z hz name selects
    obtain ⟨_, selection, selected, rfl⟩ := selects
    rw [Program.select_pointed] at selected
    have chosen := Except.ok.inj selected
    obtain ⟨e, explained, -⟩ := Program.exists_explain_of_chooseAt chosen
      s.settings.simplificationLimit.value
    have heard := mem_heardBy_selectAll.2 ⟨b, hears, z, hz, selection, chosen, explained⟩
    rw [Program.selectsAt_iff live, ← Program.satisfies_explain explained]
    exact allTrue e heard
  · -- Every explanation heard is of what some `b` has selected at the real world.
    intro same e heard
    obtain ⟨b, hears, z, hz, selection, chosen, explained⟩ := mem_heardBy_selectAll.1 heard
    have selects : z.actor.program.SelectsAt z.model r selection.action.name := by
      refine ⟨present b z hz, selection, ?_, rfl⟩
      rw [Program.select_pointed, chosen]
    rw [Program.satisfies_explain explained, ← Program.selectsAt_iff live]
    exact same b hears z hz _ selects

/-- After a round whose first announcement leaves the real world to every member, the members are
those informed by the explanations, whether or not these remove the world. -/
theorem members_round (f : Formula)
    (present : ∀ (b : Agent) (z : Member), (s.tellAll f).members[b]? = some z →
      z.model.contains r = true) :
    (s.round f r).1.members = ((s.tellAll f).inform r).members := by
  have first := firstWithout?_eq_none_iff.2 present
  rcases round_cases s f r with ⟨a, missing, -⟩ | ⟨-, a, -, ended⟩ | ⟨-, -, report, ended⟩
  · rw [first] at missing
    cases missing
  · rw [ended]
  · rw [ended]
    rfl

/-- **Answers act as public announcements.** In a round whose first announcement leaves the real
world to every member, with explanations conjoined, each member is left with the submodel of those
worlds at which every program that it hears would select an action of the name that it has selected
at the real world. This is so whether or not the round then fails. -/
theorem round_keeps_same_answers (s : Session) (f : Formula) (r : WorldRef)
    (conjoined : s.settings.redistribution.value = .conjoined)
    (present : ∀ (b : Agent) (z : Member), (s.tellAll f).members[b]? = some z →
      z.model.contains r = true)
    (a : Agent) (x : Member) (hx : (s.tellAll f).members[a]? = some x) :
    ∃ y : Member, (s.round f r).1.members[a]? = some y ∧
      y.model.IsSubmodel x.model fun v =>
        ∀ b, s.Hears a x b → ∀ z, (s.tellAll f).members[b]? = some z → ∀ name,
          z.actor.program.SelectsAt z.model r name →
          z.actor.program.SelectsAt x.model v name := by
  have informed := getElem?_members_inform (s.tellAll f) r a
  rw [hx, Option.map_some, ← members_round f present] at informed
  refine ⟨_, informed, ?_⟩
  have mode : (s.tellAll f).settings.redistribution.value = .conjoined := conjoined
  show (x.model.announceEach ((s.tellAll f).newsFor r a x)).2.IsSubmodel x.model _
  rw [newsFor, mode]
  refine (isSubmodel_announceEach_conjoined x.model _).congr ?_
  intro v live
  exact forall_heardBy_iff present x live

/-- An actor that says "yes" where it knows `p` and "no" elsewhere. -/
def answering (a : Agent) : Actor :=
  .new a ⟨[⟨.knows a (.atom ⟨"p"⟩), .utterance "yes" ""⟩], some (.utterance "no" "")⟩

/-- The worlds without and with `p`, which the seer can tell apart and the hearer cannot. -/
def unequalSight : Model :=
  let observed := (∅ : ExtTreeMap Agent (ExtTreeSet Atom)).insert ⟨"hearer"⟩ ∅
  (Model.fromObservability (World.allValuations [⟨"p"⟩])
    (observed.insert ⟨"seer"⟩ {(⟨"p"⟩ : Atom)})).2

/-- The session in which the hearer hears the seer. -/
def eavesdropping : Session where
  settings := .standard
  counters := ⟨0, 0, 0⟩
  members := (∅ : ExtTreeMap Agent Member)
    |>.insert ⟨"seer"⟩ ⟨answering ⟨"seer"⟩, unequalSight, ∅, ∅⟩
    |>.insert ⟨"hearer"⟩ ⟨answering ⟨"hearer"⟩, unequalSight, {(⟨"seer"⟩ : Agent)}, ∅⟩
  bound := ∅

/-- The second world has `p`. With it for the real one the first, which the hearer holds possible
until the seer says "yes", is not among those that it is left with. -/
theorem round_keeps_same_answers_eavesdropping :
    eavesdropping.settings.redistribution.value = .conjoined ∧
    (∀ (b : Agent) (z : Member), (eavesdropping.tellAll .top).members[b]? = some z →
      z.model.contains ⟨2, 1⟩ = true) ∧
    ∃ x y : Member, (eavesdropping.tellAll .top).members[(⟨"hearer"⟩ : Agent)]? = some x ∧
      (eavesdropping.round .top ⟨2, 1⟩).1.members[(⟨"hearer"⟩ : Agent)]? = some y ∧
      (y.model.IsSubmodel x.model fun v =>
        ∀ b, eavesdropping.Hears ⟨"hearer"⟩ x b →
          ∀ z, (eavesdropping.tellAll .top).members[b]? = some z → ∀ name,
            z.actor.program.SelectsAt z.model ⟨2, 1⟩ name →
            z.actor.program.SelectsAt x.model v name) ∧
      x.model.refs = [⟨1, 1⟩, ⟨2, 1⟩] ∧ y.model.refs = [⟨2, 1⟩] := by
  have first : (eavesdropping.tellAll .top).firstWithout? ⟨2, 1⟩ = none := by decide +kernel
  have before : (eavesdropping.tellAll .top).members[(⟨"hearer"⟩ : Agent)]?.map
      (fun x => x.model.refs) = some [⟨1, 1⟩, ⟨2, 1⟩] := by decide +kernel
  have after : (eavesdropping.round .top ⟨2, 1⟩).1.members[(⟨"hearer"⟩ : Agent)]?.map
      (fun x => x.model.refs) = some [⟨2, 1⟩] := by decide +kernel
  have present := firstWithout?_eq_none_iff.1 first
  obtain ⟨x, hx, refsBefore⟩ := Option.map_eq_some_iff.1 before
  obtain ⟨y, hy, kept⟩ := round_keeps_same_answers eavesdropping .top ⟨2, 1⟩ rfl present _ x hx
  rw [hy, Option.map_some] at after
  exact ⟨rfl, present, x, y, hx, hy, kept, refsBefore, Option.some.inj after⟩

end Session

end KnowledgePrograms
