import KnowledgePrograms.Proofs.Kripke.Sameness
import KnowledgePrograms.Proofs.Session.Hearing
import KnowledgePrograms.Proofs.Session.Protocol
import KnowledgePrograms.Proofs.Session.Report

/-! # What a member learns in a round

In a round a member learns what is announced to all, and what the agents that it hears explain. All
explanations are found before any is heard, so what these agents hear themselves does not show. Thus
what a round does to a member, and what it reports of it, depends on the member and on the models
and programs of those that it hears. Any other agents there are, and all that goes on between them,
are kept from it.

* `Session.AlikeFor`: sessions between which there is no difference that the agent may learn of.
* `Session.AlikeFor.tellAll`, `Session.AlikeFor.newsFor_eq`: what is announced to the agent.
* `Session.round_keeps_secrets`: what a round does to the agent, and what it reports of it. -/

namespace KnowledgePrograms

open Std (ExtTreeMap ExtTreeSet)

/-! ## (1) What is read of a model -/

namespace Model

variable {m n : Model}

/-- A program selects the same at the worlds of models that are the same. -/
theorem Same.chooseAt_eq (h : m.Same n) (p : Program) (r : WorldRef) :
    p.chooseAt m r = p.chooseAt n r := by
  simp only [Program.chooseAt, h.satisfies_eq]

/-- An agent observes the same at the worlds of models that are the same. -/
theorem Same.observation_eq (h : m.Same n) (r : WorldRef) (a : Agent) (atoms : ExtTreeSet Atom) :
    observation m r a atoms = observation n r a atoms := by
  have literals : literalAt m r = literalAt n r := by
    funext p
    rw [literalAt, literalAt, h.valueOf_eq]
  rw [observation, observation, literals, h.frame.accessible_eq]

end Model

/-! ## (2) Sessions that are alike for an agent -/

/-- The members have models that are the same, and one program. -/
structure Member.SameMind (x y : Member) : Prop where
  /-- The models compare as the same. -/
  model_same : x.model.sameAs y.model = true
  /-- The programs are the same. -/
  program_eq : x.actor.program = y.actor.program

namespace Member.SameMind

variable {x y : Member}

/-- Members of the same mind select the same. -/
theorem chooseAt_eq (h : x.SameMind y) (r : WorldRef) :
    x.actor.program.chooseAt x.model r = y.actor.program.chooseAt y.model r := by
  rw [h.program_eq, (Model.sameAs_iff.1 h.model_same).chooseAt_eq]

/-- Members of the same mind are so after the same announcement. -/
theorem announce (h : x.SameMind y) (f : Formula) :
    (x.withModel (x.model.announce f).2).SameMind (y.withModel (y.model.announce f).2) where
  model_same := Model.sameAs_iff.2 ((Model.sameAs_iff.1 h.model_same).announce f).2
  program_eq := h.program_eq

end Member.SameMind

namespace Session

/-- For the agent, whose members these are, the sessions are alike: they have the same settings and
arguments of actions, and the agent has the same mind, hears the same agents, of the same minds, and
observes the same atoms. -/
structure AlikeFor (s t : Session) (a : Agent) (x y : Member) : Prop where
  /-- The settings are the same. -/
  settings_eq : s.settings = t.settings
  /-- Actions are performed on the same arguments. -/
  bound_eq : s.bound = t.bound
  /-- The agent's member of the one session. -/
  member_left : s.members[a]? = some x
  /-- The agent's member of the other session. -/
  member_right : t.members[a]? = some y
  /-- The agent has the same mind. -/
  mind : x.SameMind y
  /-- The agent hears the same agents. -/
  heard_eq : x.heard = y.heard
  /-- The agent observes the same atoms. -/
  observed_eq : x.observed = y.observed
  /-- The agents heard have the same minds. -/
  minds_heard : ∀ b ∈ x.heard, Option.Rel Member.SameMind s.members[b]? t.members[b]?

variable {s t : Session} {a b : Agent} {x y : Member}

/-- After an announcement to all the sessions are still alike for the agent. -/
theorem AlikeFor.tellAll (h : s.AlikeFor t a x y) (f : Formula) :
    (s.tellAll f).AlikeFor (t.tellAll f) a (x.withModel (x.model.announce f).2)
      (y.withModel (y.model.announce f).2) where
  settings_eq := h.settings_eq
  bound_eq := h.bound_eq
  member_left := by rw [getElem?_members_tellAll, h.member_left, Option.map_some]
  member_right := by rw [getElem?_members_tellAll, h.member_right, Option.map_some]
  mind := h.mind.announce f
  heard_eq := h.heard_eq
  observed_eq := h.observed_eq
  minds_heard b hb := by
    rw [getElem?_members_tellAll, getElem?_members_tellAll]
    exact rel_map (h.minds_heard b hb) fun z w minds => minds.announce f

/-- An agent that is heard explains itself alike. -/
theorem AlikeFor.explanations_eq (h : s.AlikeFor t a x y) (r : WorldRef) (heard : b ∈ x.heard) :
    (s.selectAll r).explanations[b]? = (t.selectAll r).explanations[b]? := by
  rw [getElem?_explanations_selectAll, getElem?_explanations_selectAll, h.settings_eq]
  refine bind_eq_of_rel (h.minds_heard b heard) fun z w minds => ?_
  rw [minds.chooseAt_eq, minds.program_eq]

/-- The agent is told the same. -/
theorem AlikeFor.newsFor_eq (h : s.AlikeFor t a x y) (r : WorldRef) :
    s.newsFor r a x = t.newsFor r a y := by
  have heard : s.heardBy (s.selectAll r).explanations a x
      = t.heardBy (t.selectAll r).explanations a y := by
    rw [heardBy, heardBy, ← h.heard_eq, ← h.settings_eq]
    refine List.filterMap_congr fun b hb => h.explanations_eq r ?_
    exact ExtTreeSet.mem_toList.1 (List.mem_of_mem_filter hb)
  rw [newsFor, newsFor, heard, h.settings_eq]

/-- The same comes of a round for the agent, as far as its selection goes. -/
theorem AlikeFor.selectedOutcome_eq (h : s.AlikeFor t a x y) (r : WorldRef) :
    s.selectedOutcome r a x = t.selectedOutcome r a y := by
  have same := Model.sameAs_iff.1 h.mind.model_same
  simp only [selectedOutcome, arguments, same.observation_eq, same.chooseAt_eq, h.observed_eq,
    h.mind.program_eq, h.settings_eq, h.bound_eq]

/-! ## (3) Rounds -/

/-- **A round keeps secrets.** Let two sessions be alike for an agent, and let the announcement that
opens a round leave the real world to all members of both. Then the round leaves the agent with the
same model and the same selection in both, and if it succeeds in both, reports the same outcome of
the agent, whatever other agents there are and whatever these hear, hold possible and do. This holds
of the rounds as runs through the agents too, since that is what they come to. -/
theorem round_keeps_secrets (alike : s.AlikeFor t a x y) (f : Formula) (r : WorldRef)
    (present : ∀ (b : Agent) (z : Member), (s.tellAll f).members[b]? = some z →
      z.model.contains r = true)
    (present' : ∀ (b : Agent) (z : Member), (t.tellAll f).members[b]? = some z →
      z.model.contains r = true) :
    runOn (protocol f r) s = ((s.round f r).1, (s.round f r).2.mapError .run) ∧
    runOn (protocol f r) t = ((t.round f r).1, (t.round f r).2.mapError .run) ∧
    (∃ x' y' : Member, (s.round f r).1.members[a]? = some x' ∧
      (t.round f r).1.members[a]? = some y' ∧ x'.model.sameAs y'.model = true ∧
      x'.actor.selection = y'.actor.selection) ∧
    ∀ p q : Round, (s.round f r).2 = .ok p → (t.round f r).2 = .ok q →
      ∃ o : Outcome, p.outcomes[a]? = some o ∧ q.outcomes[a]? = some o := by
  have told := alike.tellAll f
  refine ⟨runOn_protocol s f r, runOn_protocol t f r, ?_, fun p q hp hq => ?_⟩
  · have left := getElem?_members_inform (s.tellAll f) r a
    have right := getElem?_members_inform (t.tellAll f) r a
    rw [told.member_left, Option.map_some, ← members_round f present] at left
    rw [told.member_right, Option.map_some, ← members_round f present', ← told.newsFor_eq] at right
    have models := (Model.sameAs_iff.1 told.mind.model_same).announceEach
      ((s.tellAll f).newsFor r a (x.withModel (x.model.announce f).2))
    exact ⟨_, _, left, right, Model.sameAs_iff.2 models.2, told.mind.chooseAt_eq r⟩
  · have outcomes : s.selectedOutcome r a (x.withModel (x.model.announce f).2)
        = t.selectedOutcome r a (y.withModel (y.model.announce f).2) := told.selectedOutcome_eq r
    rw [eq_roundReport hp, eq_roundReport hq, getElem?_outcomes_roundReport,
      getElem?_outcomes_roundReport, told.member_left, told.member_right, Option.map_some,
      Option.map_some, outcomes]
    exact ⟨_, rfl, rfl⟩

/-- The session in which the hearer hears the seer, and the seer a stranger that is glad of `p`. -/
def meeting : Session where
  settings := .standard
  counters := ⟨2, 9, 0⟩
  members := eavesdropping.members
    |>.insert ⟨"seer"⟩
        ⟨answering ⟨"seer"⟩, unequalSight, {(⟨"stranger"⟩ : Agent)}, {(⟨"p"⟩ : Atom)}⟩
    |>.insert ⟨"stranger"⟩
        ⟨.new ⟨"stranger"⟩ ⟨[⟨.atom ⟨"p"⟩, .utterance "glad" ""⟩], none⟩, unequalSight, ∅, ∅⟩
  bound := ∅

/-- In a session with a stranger, which the seer hears, the hearer learns the same as without. The
seer does not: it is left with the world with `p` alone. -/
theorem round_keeps_secrets_meeting :
    let hearer : Agent := ⟨"hearer"⟩
    let seer : Agent := ⟨"seer"⟩
    let x : Member := ⟨answering hearer, unequalSight, {seer}, ∅⟩
    let alone := eavesdropping.round .top ⟨2, 1⟩
    let joined := meeting.round .top ⟨2, 1⟩
    eavesdropping.AlikeFor meeting hearer x x ∧
    (∃ x' y' : Member, alone.1.members[hearer]? = some x' ∧ joined.1.members[hearer]? = some y' ∧
      x'.model.sameAs y'.model = true ∧ x'.actor.selection = y'.actor.selection) ∧
    (∃ (p q : Round) (o : Outcome), alone.2 = .ok p ∧ joined.2 = .ok q ∧
      p.outcomes[hearer]? = some o ∧ q.outcomes[hearer]? = some o) ∧
    (alone.1.model? seer).map Model.refs = some [⟨1, 1⟩, ⟨2, 1⟩] ∧
    (joined.1.model? seer).map Model.refs = some [⟨2, 1⟩] := by
  intro hearer seer x alone joined
  have minds : ∀ b ∈ x.heard,
      Option.Rel Member.SameMind eavesdropping.members[b]? meeting.members[b]? := by
    intro b hb
    obtain rfl : seer = b := by simpa [x] using hb
    simp only [meeting, eavesdropping, Agent.getElem?_insert]
    exact .some ⟨Model.sameAs_self _, rfl⟩
  have alike : eavesdropping.AlikeFor meeting hearer x x := by
    refine ⟨rfl, rfl, ?_, ?_, ⟨Model.sameAs_self _, rfl⟩, rfl, rfl, minds⟩
    · simp only [eavesdropping, Agent.getElem?_insert]
      rfl
    · simp only [meeting, eavesdropping, Agent.getElem?_insert]
      rfl
  have first : (eavesdropping.tellAll .top).firstWithout? ⟨2, 1⟩ = none := by decide +kernel
  have first' : (meeting.tellAll .top).firstWithout? ⟨2, 1⟩ = none := by decide +kernel
  have second : ((eavesdropping.tellAll .top).inform ⟨2, 1⟩).firstWithout? ⟨2, 1⟩ = none := by
    decide +kernel
  have second' : ((meeting.tellAll .top).inform ⟨2, 1⟩).firstWithout? ⟨2, 1⟩ = none := by
    decide +kernel
  have ended := congrArg Prod.snd (round_eq_ok first second)
  have ended' := congrArg Prod.snd (round_eq_ok first' second')
  obtain ⟨-, -, left, reported⟩ := round_keeps_secrets alike .top ⟨2, 1⟩
    (firstWithout?_eq_none_iff.1 first) (firstWithout?_eq_none_iff.1 first')
  obtain ⟨o, outcome, outcome'⟩ := reported _ _ ended ended'
  exact ⟨alike, left, ⟨_, _, o, ended, ended', outcome, outcome'⟩, by decide +kernel,
    by decide +kernel⟩

end Session

end KnowledgePrograms
