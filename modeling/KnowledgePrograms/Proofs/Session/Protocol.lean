import KnowledgePrograms.Proofs.Kripke.Pointing
import KnowledgePrograms.Proofs.Run
import KnowledgePrograms.Proofs.Session.Telling

/-! # The protocol, agent by agent

A round is a run through the agents: each is looked up, its model is announced to, its program is
evaluated, and each of these may fail and leave the round where it stands. Only one kind of failure
ever happens. The agents that are looked up are those of the session, no announcement misses a
world, and once every model is known to have the real world it can be observed and selected at; so
what remains is that the world is found missing, and the run comes to what `Session.round` gives.

* `Fault`: what may fail in a run through the agents.
* `protocol`, `broadcast`: a round and an announcement as runs through the agents.
* `runOn_protocol`, `runOn_broadcast`: what they come to. -/

namespace KnowledgePrograms

open Std (ExtTreeMap ExtTreeSet)

/-- What may fail in a run through the agents. -/
inductive Fault where
  /-- There is no such agent. -/
  | unknownAgent (a : Agent)
  /-- A formula has no truth value. -/
  | evaluation (e : EvaluationError)
  /-- The session cannot go on. -/
  | run (e : RunError)

/-- Take the result of an evaluation, or fail with it. -/
def attempt {σ α : Type} : Except EvaluationError α → Run σ Fault α
  | .ok a => return a
  | .error e => throw (.evaluation e)

/-! ## (1) The runs -/

namespace Session

/-- Look up the member of an agent. -/
def lookUp (a : Agent) : Run Session Fault Member := do
  match (← get).members[a]? with
  | some x => return x
  | none => throw (.unknownAgent a)

/-- Announce a formula to one agent, and count the announcement and the worlds removed. -/
def announceTo (f : Formula) (a : Agent) : Run Session Fault Unit := do
  let x ← lookUp a
  let (refuted, left) ← attempt (x.model.announceIn f)
  modify fun s =>
    { settings := s.settings
      counters := ⟨s.counters.rounds, s.counters.announcements + 1,
        s.counters.removed + refuted.length⟩
      members := s.members.insert a (x.withModel left)
      bound := s.bound }

/-- Fail unless every model has the world. -/
def requireWorld (r : WorldRef) : Run Session Fault Unit := do
  match (← get).firstWithout? r with
  | some a => throw (.run (.invalidModel a r))
  | none => return ()

/-- What agents observe and how what they select is explained. -/
structure Findings where
  /-- What each agent observes. -/
  observations : ExtTreeMap Agent Formula
  /-- The explanations of the agents that select something. -/
  explanations : ExtTreeMap Agent Formula

/-- What an agent observes of some atoms at a world, if there is one. -/
def observationIn (m : Model) (r : WorldRef) (a : Agent) (atoms : ExtTreeSet Atom) :
    Except EvaluationError Formula :=
  if m.contains r then .ok (observation m r a atoms) else .error (.missingWorld r)

/-- Let one agent observe, select and explain at the world of its model. -/
def consult (r : WorldRef) (found : Findings) (a : Agent) : Run Session Fault Findings := do
  let x ← lookUp a
  let observed ← attempt (observationIn x.model r a x.observed)
  let (actor, selected) := x.actor.select (← attempt (x.model.contextAt r))
  modify fun s => s.withMembers (s.members.insert a (x.withActor actor))
  discard (attempt selected)
  let explained := match actor.explain (← get).settings.simplificationLimit.value with
    | some e => found.explanations.insert a e
    | none => found.explanations
  return ⟨found.observations.insert a observed, explained⟩

/-- Announce to one agent the explanations that it hears. -/
def hear (explanations : ExtTreeMap Agent Formula) (a : Agent) : Run Session Fault Unit := do
  let s ← get
  let x ← lookUp a
  let heard := s.heardBy explanations a x
  (redistributed s.settings.redistribution.value heard).forM (announceTo · a)

/-- A round as a run through the agents, or rather three: for the formula, for the selections, and
for the explanations. -/
def protocol (f : Formula) (r : WorldRef) : Run Session Fault Round := do
  let agents := (← get).agents
  agents.forM (announceTo f)
  requireWorld r
  let found ← agents.foldlM (consult r) ⟨∅, ∅⟩
  agents.forM (hear found.explanations)
  requireWorld r
  modify countRound
  return (← get).report found.observations found.explanations

/-- Announce a formula to one agent, and note the agent if it is the first without a world left. -/
def announceNoting (f : Formula) (emptied : Option Agent) (a : Agent) :
    Run Session Fault (Option Agent) := do
  announceTo f a
  let empty := (← get).members[a]?.any fun x => x.model.worldCount == 0
  return if emptied.isNone && empty then some a else emptied

/-- An announcement as a run through the agents. -/
def broadcast (f : Formula) : Run Session Fault Unit := do
  match ← (← get).agents.foldlM (announceNoting f) none with
  | some a => throw (.run (.noConvergence a))
  | none => return ()

variable {s t : Session} {a : Agent} {x : Member} {f : Formula} {r : WorldRef}

/-! ## (2) One agent -/

/-- An agent of the session is found. -/
theorem runOn_lookUp (hx : s.members[a]? = some x) : runOn (lookUp a) s = (s, .ok x) := by
  show runOn (match s.members[a]? with
    | some x => return x
    | none => throw (Fault.unknownAgent a)) s = _
  rw [hx]
  rfl

/-- Announcing to one agent tells it the formula. -/
theorem runOn_announceTo (hx : s.members[a]? = some x) (f : Formula) :
    runOn (announceTo f a) s = (s.tellOne a [f], .ok ()) := by
  rw [announceTo, runOn_bind_of_ok (runOn_lookUp hx), Model.announceIn_eq, tellOne_singleton hx]
  rfl

/-- Announcing formulas to one agent one after the other tells it all of them. -/
theorem runOn_forM_announceTo (hx : s.members[a]? = some x) (fs : List Formula) :
    runOn (fs.forM (announceTo · a)) s = (s.tellOne a fs, .ok ()) := by
  induction fs generalizing s x with
  | nil =>
    rw [tellOne_nil]
    rfl
  | cons f rest ih =>
    have there := getElem?_members_tellOne_self hx [f]
    rw [List.forM_eq_forM, List.forM_cons, runOn_bind_of_ok (runOn_announceTo hx f)]
    rw [← List.forM_eq_forM, ih there, tellOne_append]
    rfl

/-- An agent hears the explanations at once. -/
theorem runOn_hear (hx : s.members[a]? = some x) (explanations : ExtTreeMap Agent Formula) :
    runOn (hear explanations a) s
      = (s.tellOne a (redistributed s.settings.redistribution.value
          (s.heardBy explanations a x)), .ok ()) := by
  rw [hear, runOn_get_bind, runOn_bind_of_ok (runOn_lookUp hx)]
  exact runOn_forM_announceTo hx _

/-- The world is required of every model. -/
theorem runOn_requireWorld (s : Session) (r : WorldRef) :
    runOn (requireWorld r) s = match s.firstWithout? r with
      | some a => (s, .error (.run (.invalidModel a r)))
      | none => (s, .ok ()) := by
  show runOn (match s.firstWithout? r with
    | some a => throw (Fault.run (.invalidModel a r))
    | none => return ()) s = _
  cases s.firstWithout? r <;> rfl

/-- What is found when a member is consulted. -/
def Findings.add (found : Findings) (limit : Nat) (r : WorldRef) (a : Agent) (x : Member) :
    Findings where
  observations := found.observations.insert a (observation x.model r a x.observed)
  explanations :=
    match (x.actor.selectAt x.model r).explain limit with
    | some e => found.explanations.insert a e
    | none => found.explanations

/-- What is found of one agent is added to what was found of the others. -/
theorem Findings.getElem?_observations_add (found : Findings) (limit : Nat) (r : WorldRef)
    (a b : Agent) (x : Member) :
    (found.add limit r a x).observations[b]?
      = if a = b then some (observation x.model r a x.observed) else found.observations[b]? := by
  rw [add, Agent.getElem?_insert]

/-- The explanation of one agent, if there is one, is added to those of the others. -/
theorem Findings.getElem?_explanations_add (found : Findings) (limit : Nat) (r : WorldRef)
    (a b : Agent) (x : Member) :
    (found.add limit r a x).explanations[b]?
      = if a = b then ((x.actor.selectAt x.model r).explain limit).or found.explanations[b]?
        else found.explanations[b]? := by
  rw [add]
  cases (x.actor.selectAt x.model r).explain limit with
  | none => simp
  | some e =>
    rw [Option.some_or]
    exact Agent.getElem?_insert found.explanations a b e

/-- An agent whose model has the world observes, selects and explains there. -/
theorem runOn_consult (hx : s.members[a]? = some x) (live : x.model.contains r = true)
    (found : Findings) :
    runOn (consult r found a) s =
      (s.withMembers (s.members.insert a (x.withActor (x.actor.selectAt x.model r))),
        .ok (found.add s.settings.simplificationLimit.value r a x)) := by
  have seen : observationIn x.model r a x.observed = .ok (observation x.model r a x.observed) :=
    if_pos live
  have selected : x.actor.select (.pointed x.model r live)
      = (x.actor.selectAt x.model r,
          .ok ((x.actor.program.chooseAt x.model r).map Selection.action)) := by
    rw [Actor.select, Program.select_pointed]
    rfl
  rw [consult, runOn_bind_of_ok (runOn_lookUp hx), seen, Model.contextAt_of_contains live]
  simp only [attempt, pure_bind, selected]
  rfl

/-! ## (3) All agents -/

/-- The agents of a session are those that it has members for. -/
theorem mem_agents : a ∈ s.agents ↔ ∃ x, s.members[a]? = some x := by
  rw [agents, ExtTreeMap.mem_keys, ExtTreeMap.mem_iff_isSome_getElem?, Option.isSome_iff_exists]

/-- No agent is listed twice. -/
theorem nodup_agents (s : Session) : s.agents.Nodup :=
  s.members.distinct_keys.imp fun apart same => apart (Std.LawfulEqCmp.compare_eq_iff_eq.2 same)

/-- A run through agents that tells each its news, and goes on with something made of what it had
and of the member, tells them all their news and ends with what is made of all the members. What one
is told changes neither another member nor the news for another. -/
theorem runOn_foldlM {β : Type} {act : β → Agent → Run Session Fault β}
    {news : Agent → Member → List Formula} {next : β → Agent → Member → β}
    (each : ∀ (t : Session) (b : β) (a : Agent) (x : Member), t.settings = s.settings →
      t.members[a]? = some x → runOn (act b a) t = (t.tellOne a (news a x), .ok (next b a x)))
    (blind : ∀ a (x : Member) m, news a (x.withModel m) = news a x)
    {agents : List Agent} (distinct : agents.Nodup)
    (present : ∀ a ∈ agents, ∃ x, s.members[a]? = some x) (b : β) :
    runOn (agents.foldlM act b) s
      = (s.tell fun a x => if a ∈ agents then news a x else [],
          .ok (agents.foldl (fun b a => s.members[a]?.elim b (next b a)) b)) := by
  induction agents generalizing s b with
  | nil =>
    simp only [List.not_mem_nil, if_false, tell_nothing]
    rfl
  | cons a rest ih =>
    obtain ⟨new, distinct⟩ := List.nodup_cons.1 distinct
    obtain ⟨x, hx⟩ := present a List.mem_cons_self
    have others : ∀ c, c ≠ a → (s.tellOne a (news a x)).members[c]? = s.members[c]? :=
      fun c other => getElem?_members_tellOne_of_ne other _
    have present' : ∀ c ∈ rest, ∃ y, (s.tellOne a (news a x)).members[c]? = some y := by
      intro c hc
      obtain ⟨y, hy⟩ := present c (List.mem_cons_of_mem _ hc)
      exact ⟨y, by rw [others c fun same => new (same ▸ hc), hy]⟩
    have each' : ∀ (t : Session) (b : β) (c : Agent) (y : Member),
        t.settings = (s.tellOne a (news a x)).settings → t.members[c]? = some y →
          runOn (act b c) t = (t.tellOne c (news c y), .ok (next b c y)) := each
    have results : rest.foldl (fun b c => (s.tellOne a (news a x)).members[c]?.elim b (next b c))
          (next b a x)
        = rest.foldl (fun b c => s.members[c]?.elim b (next b c)) (next b a x) :=
      List.foldl_ext _ _ _ fun b c hc => by rw [others c fun same => new (same ▸ hc)]
    have both : (s.tellOne a (news a x)).tell (fun c y => if c ∈ rest then news c y else [])
        = s.tell fun c y => if c ∈ a :: rest then news c y else [] := by
      rw [tellOne, tell_tell]
      refine tell_congr fun c y hy => ?_
      by_cases same : c = a
      · -- The agent told first is not among the rest.
        subst same
        rw [hx] at hy
        obtain rfl := Option.some.inj hy
        simp [new]
      · simp [same, informed, blind]
    rw [List.foldlM_cons, runOn_bind_of_ok (each s b a x rfl hx), ih each' distinct present',
      both, results, List.foldl_cons, hx, Option.elim_some]

/-- A run that goes on with nothing is a run that always goes on with the same. -/
theorem forM_eq_foldlM (act : Agent → Run Session Fault Unit) (agents : List Agent) :
    agents.forM act = agents.foldlM (fun _ a => act a) () := by
  induction agents with
  | nil => rfl
  | cons a rest ih =>
    rw [List.forM_eq_forM] at ih ⊢
    rw [List.forM_cons, List.foldlM_cons, ih]

/-- A run through agents that tells each its news tells them all their news. -/
theorem runOn_forM {act : Agent → Run Session Fault Unit} {news : Agent → Member → List Formula}
    (each : ∀ (t : Session) (a : Agent) (x : Member), t.settings = s.settings →
      t.members[a]? = some x → runOn (act a) t = (t.tellOne a (news a x), .ok ()))
    (blind : ∀ a (x : Member) m, news a (x.withModel m) = news a x)
    {agents : List Agent} (distinct : agents.Nodup)
    (present : ∀ a ∈ agents, ∃ x, s.members[a]? = some x) :
    runOn (agents.forM act) s
      = (s.tell fun a x => if a ∈ agents then news a x else [], .ok ()) := by
  rw [forM_eq_foldlM]
  exact runOn_foldlM (fun t _ a x => each t a x) blind distinct present ()

/-- The explanation of an agent after all have selected is that of its own selection. -/
theorem getElem?_explanations_eq_bind (s : Session) (r : WorldRef) (b : Agent) :
    (s.selectAll r).explanations[b]? = s.members[b]?.bind fun x =>
      (x.actor.selectAt x.model r).explain s.settings.simplificationLimit.value := by
  rw [explanations, ExtTreeMap.getElem?_filterMap', getElem?_members_selectAll, Option.bind_map]
  rfl

/-- The session after some agents have selected at the world of their models. -/
def selectSome (s : Session) (r : WorldRef) (agents : List Agent) : Session :=
  s.withMembers (s.members.map fun a x =>
    if a ∈ agents then x.withActor (x.actor.selectAt x.model r) else x)

/-- A run through agents whose models have the world lets each of them select, and finds what each
observes and how its selection is explained. -/
theorem runOn_foldlM_consult {agents : List Agent} (distinct : agents.Nodup)
    (present : ∀ a ∈ agents, ∃ x, s.members[a]? = some x ∧ x.model.contains r = true)
    (found : Findings) :
    ∃ found', runOn (agents.foldlM (consult r) found) s = (s.selectSome r agents, .ok found') ∧
      (∀ b, found'.observations[b]?
        = if b ∈ agents then (s.observations r)[b]? else found.observations[b]?) ∧
      ∀ b, found'.explanations[b]?
        = if b ∈ agents then (s.selectAll r).explanations[b]?.or found.explanations[b]?
          else found.explanations[b]? := by
  induction agents generalizing s found with
  | nil =>
    refine ⟨found, ?_, by simp, by simp⟩
    have none : s.selectSome r [] = s := by
      simp [selectSome, withMembers]
    rw [none]
    rfl
  | cons a rest ih =>
    obtain ⟨new, distinct⟩ := List.nodup_cons.1 distinct
    obtain ⟨x, hx, live⟩ := present a List.mem_cons_self
    let s' := s.withMembers (s.members.insert a (x.withActor (x.actor.selectAt x.model r)))
    let limit := s.settings.simplificationLimit.value
    have here : s'.members[a]? = some (x.withActor (x.actor.selectAt x.model r)) :=
      ExtTreeMap.getElem?_insert_self
    have others : ∀ b, b ≠ a → s'.members[b]? = s.members[b]? := by
      intro b other
      exact (Agent.getElem?_insert s.members a b _).trans (if_neg other.symm)
    have present' : ∀ b ∈ rest, ∃ y, s'.members[b]? = some y ∧ y.model.contains r = true := by
      intro b hb
      obtain ⟨y, hy, live⟩ := present b (List.mem_cons_of_mem _ hb)
      exact ⟨y, by rw [others b fun same => new (same ▸ hb), hy], live⟩
    obtain ⟨found', done, observed, explained⟩ := ih distinct present' (found.add limit r a x)
    have selected : s'.selectSome r rest = s.selectSome r (a :: rest) := by
      refine congrArg s.withMembers (ExtTreeMap.ext_getElem? fun b => ?_)
      rw [ExtTreeMap.getElem?_map, ExtTreeMap.getElem?_map]
      by_cases same : b = a
      · subst same
        rw [here, hx]
        simp [new]
      · rw [others b same]
        simp [same]
    refine ⟨found', ?_, ?_, ?_⟩
    · rw [List.foldlM_cons, runOn_bind_of_ok (runOn_consult hx live found), ← selected]
      exact done
    · intro b
      rw [observed, Findings.getElem?_observations_add, observations, observations,
        ExtTreeMap.getElem?_map, ExtTreeMap.getElem?_map]
      by_cases same : b = a
      · subst same
        simp [new, hx]
      · simp [others b same, same, Ne.symm same]
    · intro b
      have settings : s'.settings = s.settings := rfl
      rw [explained, Findings.getElem?_explanations_add, getElem?_explanations_eq_bind,
        getElem?_explanations_eq_bind, settings]
      by_cases same : b = a
      · subst same
        simp [new, hx, limit]
      · simp [others b same, same, Ne.symm same]

/-! ## (4) The runs -/

/-- Telling the members leaves the agents. -/
theorem agents_tell (s : Session) (news : Agent → Member → List Formula) :
    (s.tell news).agents = s.agents := by
  rw [agents, members_tell, ExtTreeMap.keys_map, agents]

/-- Selecting leaves the agents. -/
theorem agents_selectAll (s : Session) (r : WorldRef) : (s.selectAll r).agents = s.agents := by
  rw [agents, selectAll, withMembers, ExtTreeMap.keys_map, agents]

/-- What all agents of the session are told is told to all. -/
theorem tell_agents (s : Session) (news : Agent → Member → List Formula) :
    (s.tell fun a x => if a ∈ s.agents then news a x else []) = s.tell news :=
  tell_congr fun _ x hx => if_pos (mem_agents.2 ⟨x, hx⟩)

/-- Announcing to one agent after the other announces to all. -/
theorem forM_announceTo_agents (s : Session) (f : Formula) :
    runOn (s.agents.forM (announceTo f)) s = (s.tellAll f, .ok ()) := by
  have each : ∀ (t : Session) (a : Agent) (x : Member), t.settings = s.settings →
      t.members[a]? = some x → runOn (announceTo f a) t = (t.tellOne a [f], .ok ()) :=
    fun _ _ _ _ hx => runOn_announceTo hx f
  rw [runOn_forM each (fun _ _ _ => rfl) s.nodup_agents fun a ha => mem_agents.1 ha, tell_agents]
  rfl

/-- What one agent hears after the other is what all hear. -/
theorem forM_hear_agents (s : Session) (explanations : ExtTreeMap Agent Formula) :
    runOn (s.agents.forM (hear explanations)) s = (s.redistribute explanations, .ok ()) := by
  have each : ∀ (t : Session) (a : Agent) (x : Member), t.settings = s.settings →
      t.members[a]? = some x → runOn (hear explanations a) t
        = (t.tellOne a (redistributed s.settings.redistribution.value
            (s.heardBy explanations a x)), .ok ()) := by
    intro t a x settings hx
    rw [runOn_hear hx, heardBy, settings, heardBy]
  rw [runOn_forM each (fun _ _ _ => rfl) s.nodup_agents fun a ha => mem_agents.1 ha]
  rw [tell_agents s fun a x =>
    redistributed s.settings.redistribution.value (s.heardBy explanations a x)]
  rfl

/-- Consulting one agent after the other, all of which have the world in their models, makes all
select, and finds what all observe and how all explain what they selected. -/
theorem foldlM_consult_agents (present : s.firstWithout? r = none) :
    runOn (s.agents.foldlM (consult r) ⟨∅, ∅⟩) s
      = (s.selectAll r, .ok ⟨s.observations r, (s.selectAll r).explanations⟩) := by
  have live := firstWithout?_eq_none_iff.1 present
  have each : ∀ a ∈ s.agents, ∃ x, s.members[a]? = some x ∧ x.model.contains r = true := by
    intro a ha
    obtain ⟨x, hx⟩ := mem_agents.1 ha
    exact ⟨x, hx, live a x hx⟩
  obtain ⟨found, done, observed, explained⟩ := runOn_foldlM_consult s.nodup_agents each ⟨∅, ∅⟩
  have absent : ∀ b, b ∉ s.agents → s.members[b]? = none := by
    intro b out
    rw [← Option.not_isSome_iff_eq_none, Option.isSome_iff_exists]
    exact fun there => out (mem_agents.2 there)
  have observations : found.observations = s.observations r := by
    refine ExtTreeMap.ext_getElem? fun b => ?_
    rw [observed]
    split
    · rfl
    · next out => simp [Session.observations, absent b out]
  have explanations : found.explanations = (s.selectAll r).explanations := by
    refine ExtTreeMap.ext_getElem? fun b => ?_
    rw [explained]
    split
    · simp
    · next out => simp [getElem?_explanations_eq_bind, absent b out]
  have selected : s.selectSome r s.agents = s.selectAll r := by
    refine congrArg s.withMembers (ExtTreeMap.ext_getElem? fun b => ?_)
    rw [ExtTreeMap.getElem?_map, ExtTreeMap.getElem?_map]
    exact Option.map_congr fun x hx => if_pos (mem_agents.2 ⟨x, hx⟩)
  rw [done, selected, ← observations, ← explanations]

/-- **The protocol.** A round as a run through the agents comes to what the round gives: it looks
up no unknown agent, and evaluates nothing that has no truth value. -/
theorem runOn_protocol (s : Session) (f : Formula) (r : WorldRef) :
    runOn (protocol f r) s = ((s.round f r).1, (s.round f r).2.mapError .run) := by
  have required := runOn_requireWorld (s.tellAll f) r
  rw [protocol, runOn_get_bind, runOn_bind_of_ok (forM_announceTo_agents s f)]
  cases first : (s.tellAll f).firstWithout? r with
  | some a =>
    rw [first] at required
    rw [runOn_bind_of_error required]
    simp only [round, first]
    rfl
  | none =>
    rw [first] at required
    have consulted := foldlM_consult_agents first
    have heard := forM_hear_agents ((s.tellAll f).selectAll r)
      ((s.tellAll f).selectAll r).explanations
    rw [tellAll, agents_tell, ← tellAll] at consulted
    rw [agents_selectAll, tellAll, agents_tell, ← tellAll] at heard
    have required' := runOn_requireWorld (((s.tellAll f).selectAll r).redistribute
      ((s.tellAll f).selectAll r).explanations) r
    rw [runOn_bind_of_ok required, runOn_bind_of_ok consulted, runOn_bind_of_ok heard]
    cases second : (((s.tellAll f).selectAll r).redistribute
      ((s.tellAll f).selectAll r).explanations).firstWithout? r with
    | some a =>
      rw [second] at required'
      rw [runOn_bind_of_error required']
      simp only [round, first, second]
      rfl
    | none =>
      rw [second] at required'
      rw [runOn_bind_of_ok required']
      simp only [round, first, second]
      rfl

/-- Announcing to one agent notes whether it is the first without a world left. -/
theorem runOn_announceNoting (hx : s.members[a]? = some x) (f : Formula) (emptied : Option Agent) :
    runOn (announceNoting f emptied a) s
      = (s.tellOne a [f], .ok (if emptied.isNone && (x.model.announce f).2.worldCount == 0
          then some a else emptied)) := by
  have there : (s.tellOne a [f]).members[a]? = some (x.withModel (x.model.announce f).2) :=
    getElem?_members_tellOne_self hx [f]
  rw [announceNoting, runOn_bind_of_ok (runOn_announceTo hx f)]
  show (s.tellOne a [f], Except.ok (if emptied.isNone
    && (s.tellOne a [f]).members[a]?.any (fun x => x.model.worldCount == 0) then _ else _)) = _
  rw [there]
  rfl

/-- Noting the first agent that passes a test finds it. -/
theorem foldl_noting (p : Agent → Bool) (agents : List Agent) :
    agents.foldl (fun found a => if found.isNone && p a then some a else found) none
      = agents.find? p := by
  have kept : ∀ (rest : List Agent) (c : Agent),
      rest.foldl (fun found a => if found.isNone && p a then some a else found) (some c)
        = some c := by
    intro rest c
    induction rest with
    | nil => rfl
    | cons a rest ih => exact ih
  induction agents with
  | nil => rfl
  | cons a rest ih =>
    rw [List.foldl_cons, List.find?_cons]
    cases p a with
    | true => exact kept rest a
    | false => exact ih

/-- The first agent found without a world left is the first in the order of agents. -/
theorem find?_agents_eq_firstEmpty? (s : Session) (f : Formula) :
    (s.agents.find? fun a =>
        s.members[a]?.any fun x => (x.model.announce f).2.worldCount == 0)
      = (s.tellAll f).firstEmpty? := by
  have listed : (s.tellAll f).members.toList
      = s.members.toList.map fun e => (e.1, informed (fun _ _ => [f]) e.1 e.2) := by
    rw [tellAll, members_tell, ExtTreeMap.toList_map]
  have same : ∀ e ∈ s.members.toList,
      (s.members[e.1]?.any fun x => (x.model.announce f).2.worldCount == 0)
        = ((e.2.model.announce f).2.worldCount == 0) := by
    intro e he
    rw [ExtTreeMap.mem_toList_iff_getElem?_eq_some.1 he, Option.any_some]
  have found : (s.members.toList.find? fun e =>
        s.members[e.1]?.any fun x => (x.model.announce f).2.worldCount == 0)
      = s.members.toList.find? fun e => (e.2.model.announce f).2.worldCount == 0 := by
    rw [← List.head?_filter, ← List.head?_filter, List.filter_congr same]
  rw [firstEmpty?, listed, List.find?_map, Option.map_map, agents,
    ← ExtTreeMap.map_fst_toList_eq_keys, List.find?_map]
  exact congrArg (Option.map Prod.fst) found

/-- **The announcement.** An announcement as a run through the agents comes to what the
announcement gives. -/
theorem runOn_broadcast (s : Session) (f : Formula) :
    runOn (broadcast f) s = ((s.announce f).1, (s.announce f).2.mapError .run) := by
  have each : ∀ (t : Session) (found : Option Agent) (a : Agent) (x : Member),
      t.settings = s.settings → t.members[a]? = some x →
        runOn (announceNoting f found a) t = (t.tellOne a [f],
          .ok (if found.isNone && (x.model.announce f).2.worldCount == 0
            then some a else found)) :=
    fun _ found _ _ _ hx => runOn_announceNoting hx f found
  have noted :=
    runOn_foldlM each (fun _ _ _ => rfl) s.nodup_agents (fun a ha => mem_agents.1 ha) none
  have first : s.agents.foldl (fun found a => s.members[a]?.elim found fun x =>
        if found.isNone && (x.model.announce f).2.worldCount == 0 then some a else found) none
      = (s.tellAll f).firstEmpty? := by
    rw [← find?_agents_eq_firstEmpty?, ← foldl_noting]
    refine List.foldl_ext _ _ _ fun found a ha => ?_
    obtain ⟨x, hx⟩ := mem_agents.1 ha
    rw [hx, Option.elim_some, Option.any_some]
  rw [first, tell_agents s fun _ _ => [f], ← tellAll] at noted
  rw [broadcast, runOn_get_bind, runOn_bind_of_ok noted, announce]
  cases (s.tellAll f).firstEmpty? <;> rfl

end Session

end KnowledgePrograms
