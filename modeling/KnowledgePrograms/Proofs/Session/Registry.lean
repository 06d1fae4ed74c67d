import KnowledgePrograms.Proofs.Session.History
import KnowledgePrograms.Proofs.Session.Protocol

/-! # Sessions in separate tables

What a session knows of an agent may be filed in four tables: who acts, what is held possible, who
is heard and what is observed. Each operation then looks up the tables that it reads and writes
those that it changes, and each look-up may find nothing, so that something has to be done about it:
fail, go on without, or begin an entry. An edit looks up all agents that it names before it writes.

* `Registry`: the tables, with `Registry.start`, the edits `Registry.setHeard`, `Registry.permit`,
  `Registry.associate` and `Registry.bind`, `Registry.announce` and `Registry.round`.
* `Registry.of`: the tables of a session.
* `Registry.runOn_checked`: a change that is made after some agents are looked up.
* `Registry.start_eq`, `Registry.runOn_edit`: setting up tables comes to what it does to a
  session. -/

namespace KnowledgePrograms

open Std (ExtTreeMap ExtTreeSet)
open Session (Findings observationIn)

/-- What a session has on file. -/
structure Registry where
  /-- The settings. -/
  settings : Settings
  /-- What was counted so far. -/
  counters : Counters
  /-- The agents and their programs. -/
  actors : ExtTreeMap Agent Actor
  /-- What each agent holds possible. -/
  models : ExtTreeMap Agent Model
  /-- Whose explanations each agent hears. -/
  heard : ExtTreeMap Agent (ExtTreeSet Agent)
  /-- Which atoms each agent observes directly. -/
  observed : ExtTreeMap Agent (ExtTreeSet Atom)
  /-- The arguments on which actions of a name are performed. -/
  bound : ExtTreeMap String (List Value)

namespace Registry

/-! ## (1) Setting up -/

/-- File the actors of a list, up to the first whose agent is on file already. -/
def enroll (base : Model) (t : Registry) : List Actor → Except SetupError Registry
  | [] => .ok t
  | x :: rest =>
      if t.actors.contains x.agent then .error (.duplicateAgent x.agent)
      else
        enroll base
          { t with
            models := t.models.insert x.agent base
            heard := t.heard.insert x.agent ∅
            observed := t.observed.insert x.agent ∅
            actors := t.actors.insert x.agent x } rest

/-- The tables of some actors, each with its own copy of a model. -/
def start (settings : Settings) (base : Model) (actors : List Actor) :
    Except SetupError Registry :=
  match actors with
  | [] => .error .noAgents
  | _ => enroll base ⟨settings, ⟨0, 0, 0⟩, ∅, ∅, ∅, ∅, ∅⟩ actors

/-- Fail unless the agent is on file. -/
def checkAgent (a : Agent) : Run Registry SetupError Unit := do
  if (← get).actors.contains a then return ()
  else throw (.unknownAgent a)

/-- Let an agent hear exactly the agents of a list. -/
def setHeard (a : Agent) (agents : List Agent) : Run Registry SetupError Unit := do
  checkAgent a
  let heard : ExtTreeSet Agent := .ofList agents
  heard.toList.forM checkAgent
  modify fun t => { t with heard := t.heard.insert a heard }

/-- Let an agent hear another one too, and begin an entry if there is none. -/
def permit (a b : Agent) : Run Registry SetupError Unit := do
  checkAgent a
  checkAgent b
  modify fun t => { t with heard := t.heard.insert a ((t.heard[a]?.getD ∅).insert b) }

/-- Let an agent observe some atoms too, and begin an entry if there is none. -/
def associate (a : Agent) (atoms : List Atom) : Run Registry SetupError Unit := do
  checkAgent a
  modify fun t =>
    { t with observed := t.observed.insert a ((t.observed[a]?.getD ∅).insertMany atoms) }

/-- Set the arguments on which actions of a name are performed. -/
def bind (action : String) (arguments : List Value) : Run Registry SetupError Unit :=
  modify fun t => { t with bound := t.bound.insert action arguments }

/-! ## (2) Announcements and rounds -/

/-- Announce a formula to one agent, and count the announcement and the worlds removed. -/
def announceTo (f : Formula) (a : Agent) : Run Registry Fault Unit := do
  match (← get).models[a]? with
  | none => throw (.unknownAgent a)
  | some m =>
      let (refuted, left) ← attempt (m.announceIn f)
      modify fun t =>
        { t with
          counters := ⟨t.counters.rounds, t.counters.announcements + 1,
            t.counters.removed + refuted.length⟩
          models := t.models.insert a left }

/-- Announce a formula to one agent, and note the agent if it is the first without a world left. -/
def announceNoting (f : Formula) (emptied : Option Agent) (a : Agent) :
    Run Registry Fault (Option Agent) := do
  announceTo f a
  let empty := (← get).models[a]?.any fun m => m.worldCount == 0
  return if emptied.isNone && empty then some a else emptied

/-- Announce a formula to every agent. -/
def announce (f : Formula) : Run Registry Fault Unit := do
  match ← (← get).actors.keys.foldlM (announceNoting f) none with
  | some a => throw (.run (.noConvergence a))
  | none => return ()

/-- Fail unless every model has the world. -/
def requireWorld (r : WorldRef) : Run Registry Fault Unit := do
  match (← get).models.toList.find? fun e => !e.2.contains r with
  | some e => throw (.run (.invalidModel e.1 r))
  | none => return ()

/-- Let one agent observe, select and explain at the world of its model. -/
def consult (r : WorldRef) (found : Findings) (a : Agent) : Run Registry Fault Findings := do
  let t ← get
  match t.models[a]?, t.actors[a]? with
  | some m, some x =>
      let observed ← attempt (observationIn m r a (t.observed[a]?.getD ∅))
      let (actor, selected) := x.select (← attempt (m.contextAt r))
      modify fun t => { t with actors := t.actors.insert a actor }
      discard (attempt selected)
      let explained := match actor.explain t.settings.simplificationLimit.value with
        | some e => found.explanations.insert a e
        | none => found.explanations
      return ⟨found.observations.insert a observed, explained⟩
  | _, _ => throw (.unknownAgent a)

/-- Announce to one agent the explanations that it hears, if there are any. -/
def hear (explanations : ExtTreeMap Agent Formula) (a : Agent) : Run Registry Fault Unit := do
  let t ← get
  let permitted := t.heard[a]?.elim [] ExtTreeSet.toList
  let others := permitted.filter fun b => t.settings.selfHearing.value || b != a
  let heard := others.filterMap fun b => explanations[b]?
  if heard.isEmpty then return ()
  else
    match t.settings.redistribution.value with
    | .conjoined => announceTo (.conjunction heard) a
    | .successive => heard.forM (announceTo · a)

/-- What an agent hears is announced to it as it is redistributed. -/
theorem hear_eq (explanations : ExtTreeMap Agent Formula) (a : Agent) :
    hear explanations a = (do
      let t ← get
      let permitted := t.heard[a]?.elim [] ExtTreeSet.toList
      let others := permitted.filter fun b => t.settings.selfHearing.value || b != a
      let heard := others.filterMap fun b => explanations[b]?
      (Session.redistributed t.settings.redistribution.value heard).forM (announceTo · a)) := by
  have each (mode : Redistribution) (heard : List Formula) :
      (if heard.isEmpty then return ()
        else match mode with
          | .conjoined => announceTo (.conjunction heard) a
          | .successive => heard.forM (announceTo · a))
        = (Session.redistributed mode heard).forM (announceTo · a) := by
    cases heard with
    | nil => rfl
    | cons e rest =>
      cases mode with
      | conjoined => simp [Session.redistributed]
      | successive => rfl
  simp only [hear, each]

/-- The report of the round just counted, which passes over what was observed by an agent that is
not on file. -/
def report (t : Registry) (found : Findings) : Round where
  number := t.counters.rounds
  outcomes := found.observations.filterMap fun a observation => t.actors[a]?.map fun x =>
    { observation := observation
      action := x.action?.map Action.name
      explanation := found.explanations[a]?
      result := x.action?.map fun action => action.invoke (t.bound[action.name]?.getD []) }
  worldCounts := t.models.map fun _ m => m.worldCount

/-- Count a round. -/
def countRound : Run Registry Fault Unit :=
  modify fun t =>
    { t with counters := ⟨t.counters.rounds + 1, t.counters.announcements, t.counters.removed⟩ }

/-- A round in which a formula is announced, with a world taken for the real one. -/
def round (f : Formula) (r : WorldRef) : Run Registry Fault Round := do
  let agents := (← get).actors.keys
  agents.forM (announceTo f)
  requireWorld r
  let found ← agents.foldlM (consult r) ⟨∅, ∅⟩
  agents.forM (hear found.explanations)
  requireWorld r
  countRound
  return (← get).report found

/-! ## (3) The tables of a session -/

/-- What a session has on file of its members. -/
def of (s : Session) : Registry where
  settings := s.settings
  counters := s.counters
  actors := s.members.map fun _ x => x.actor
  models := s.models
  heard := s.permissions
  observed := s.associations
  bound := s.bound

variable {s : Session} {a : Agent} {x : Member} {f : Formula} {r : WorldRef}

/-- The agents on file are those of the session. -/
theorem keys_actors_of (s : Session) : (of s).actors.keys = s.agents := ExtTreeMap.keys_map

/-- An agent is on file iff it is in the session. -/
theorem contains_actors_of (s : Session) (a : Agent) :
    (of s).actors.contains a = s.members.contains a := ExtTreeMap.contains_map

/-- The actor of an agent is on file. -/
theorem getElem?_actors_of (hx : s.members[a]? = some x) :
    (of s).actors[a]? = some x.actor := by
  simp [of, hx]

/-- What an agent holds possible is on file. -/
theorem getElem?_models_of (hx : s.members[a]? = some x) :
    (of s).models[a]? = some x.model := by
  simp [of, Session.models, hx]

/-- Whom an agent hears is on file. -/
theorem getElem?_heard_of (hx : s.members[a]? = some x) :
    (of s).heard[a]? = some x.heard := by
  simp [of, Session.permissions, hx]

/-- What an agent observes is on file. -/
theorem getElem?_observed_of (hx : s.members[a]? = some x) :
    (of s).observed[a]? = some x.observed := by
  simp [of, Session.associations, hx]

/-- Entering what is on file changes nothing. -/
theorem insert_self {β : Type} {table : ExtTreeMap Agent β} {v : β} (filed : table[a]? = some v) :
    table.insert a v = table := by
  refine ExtTreeMap.ext_getElem? fun b => ?_
  rw [Agent.getElem?_insert]
  split
  · next same => rw [← same, filed]
  · rfl

/-- When the member of an agent is put in, each table has the entry of the agent. -/
theorem of_insert (settings : Settings) (counters : Counters)
    (members : ExtTreeMap Agent Member) (bound : ExtTreeMap String (List Value)) (a : Agent)
    (y : Member) :
    of ⟨settings, counters, members.insert a y, bound⟩ =
      let t := of ⟨settings, counters, members, bound⟩
      { settings := settings
        counters := counters
        actors := t.actors.insert a y.actor
        models := t.models.insert a y.model
        heard := t.heard.insert a y.heard
        observed := t.observed.insert a y.observed
        bound := bound } := by
  simp only [of, Session.models, Session.permissions, Session.associations, Agent.map_insert]

/-- When a member has another model, one table has another entry. -/
theorem of_insert_withModel (hx : s.members[a]? = some x) (counters : Counters) (m : Model) :
    of ⟨s.settings, counters, s.members.insert a (x.withModel m), s.bound⟩
      = { of s with counters := counters, models := (of s).models.insert a m } := by
  rw [of_insert]
  simp only [Member.withModel]
  congr 1
  · exact insert_self (getElem?_actors_of hx)
  · exact insert_self (getElem?_heard_of hx)
  · exact insert_self (getElem?_observed_of hx)

/-- When a member has another actor, one table has another entry. -/
theorem of_insert_withActor (hx : s.members[a]? = some x) (y : Actor) :
    of (s.withMembers (s.members.insert a (x.withActor y)))
      = { of s with actors := (of s).actors.insert a y } := by
  rw [Session.withMembers, of_insert]
  simp only [Member.withActor]
  congr 1
  · exact insert_self (getElem?_models_of hx)
  · exact insert_self (getElem?_heard_of hx)
  · exact insert_self (getElem?_observed_of hx)

/-- When a member hears other agents, one table has another entry. -/
theorem of_insert_withHeard {x : Member} (hx : s.members[a]? = some x)
    (heard : ExtTreeSet Agent) :
    of (s.withMembers (s.members.insert a (x.withHeard heard)))
      = { of s with heard := (of s).heard.insert a heard } := by
  rw [Session.withMembers, of_insert]
  simp only [Member.withHeard]
  congr 1
  · exact insert_self (getElem?_actors_of hx)
  · exact insert_self (getElem?_models_of hx)
  · exact insert_self (getElem?_observed_of hx)

/-- When a member observes other atoms, one table has another entry. -/
theorem of_insert_withObserved {x : Member} (hx : s.members[a]? = some x)
    (observed : ExtTreeSet Atom) :
    of (s.withMembers (s.members.insert a (x.withObserved observed)))
      = { of s with observed := (of s).observed.insert a observed } := by
  rw [Session.withMembers, of_insert]
  simp only [Member.withObserved]
  congr 1
  · exact insert_self (getElem?_actors_of hx)
  · exact insert_self (getElem?_models_of hx)
  · exact insert_self (getElem?_heard_of hx)

/-! ## (4) Looking up agents -/

/-- The first agent of a list that is not on file. -/
def firstUnknown? (t : Registry) (agents : List Agent) : Option Agent :=
  agents.find? fun a => !t.actors.contains a

/-- Looking up some agents fails with the first that is not on file, and changes nothing. -/
theorem runOn_forM_checkAgent (t : Registry) (agents : List Agent) :
    runOn (agents.forM checkAgent) t = (t, match t.firstUnknown? agents with
      | some c => .error (SetupError.unknownAgent c)
      | none => .ok ()) := by
  have one : ∀ a, runOn (checkAgent a) t
      = (t, if t.actors.contains a then .ok () else .error (SetupError.unknownAgent a)) := by
    intro a
    show runOn (if t.actors.contains a then return () else throw (SetupError.unknownAgent a)) t = _
    cases t.actors.contains a <;> rfl
  induction agents with
  | nil => rfl
  | cons a rest ih =>
    have first := one a
    rw [List.forM_eq_forM] at ih ⊢
    rw [List.forM_cons, firstUnknown?, List.find?_cons]
    cases known : t.actors.contains a with
    | true =>
      rw [known, if_pos rfl] at first
      rw [runOn_bind_of_ok first, ih]
      rfl
    | false =>
      rw [known, if_neg Bool.false_ne_true] at first
      rw [runOn_bind_of_error first]
      rfl

/-- A change that is made after some agents are looked up fails with the first that is not on file,
and then is not made. -/
theorem runOn_checked (t : Registry) (agents : List Agent) (g : Registry → Registry) :
    runOn (do agents.forM checkAgent; modify g) t = match t.firstUnknown? agents with
      | some c => (t, .error (.unknownAgent c))
      | none => (g t, .ok ()) := by
  have looked := runOn_forM_checkAgent t agents
  cases first : t.firstUnknown? agents with
  | some c =>
    rw [first] at looked
    exact runOn_bind_of_error looked
  | none =>
    rw [first] at looked
    exact runOn_bind_of_ok looked

/-! ## (5) Starting and editing -/

/-- Enrolling actors files what is enrolled in the session. -/
theorem enroll_of (base : Model) (s : Session) (actors : List Actor) :
    enroll base (of s) actors
      = (Session.enroll base s.members actors).map fun members => of (s.withMembers members) := by
  induction actors generalizing s with
  | nil => rfl
  | cons x rest ih =>
    rw [enroll, Session.enroll, contains_actors_of]
    split
    · rfl
    · -- One insertion into the members files the actor in each table.
      have filed := of_insert s.settings s.counters s.members s.bound x.agent
        (Session.newMember base x)
      exact (congrArg (enroll base · rest) filed.symm).trans
        (ih (s.withMembers (s.members.insert x.agent (Session.newMember base x))))

/-- **Starting.** The tables with which a session is started are those of the session. -/
theorem start_eq (settings : Settings) (base : Model) (actors : List Actor) :
    start settings base actors = (Session.start settings base actors).map of := by
  cases actors with
  | nil => rfl
  | cons x rest =>
    have none {β : Type} (g : Agent → Member → β) :
        (∅ : ExtTreeMap Agent Member).map g = ∅ :=
      ExtTreeMap.ext_getElem? fun a => by simp
    have empty : of ⟨settings, ⟨0, 0, 0⟩, ∅, ∅⟩ = ⟨settings, ⟨0, 0, 0⟩, ∅, ∅, ∅, ∅, ∅⟩ := by
      simp only [of, Session.models, Session.permissions, Session.associations, none]
    have enrolled := enroll_of base ⟨settings, ⟨0, 0, 0⟩, ∅, ∅⟩ (x :: rest)
    simp only [start, Session.start]
    rw [← empty, enrolled]
    cases Session.enroll base ∅ (x :: rest) <;> rfl

/-- Letting an agent hear exactly some agents looks all of them up in ascending order. -/
theorem setHeard_eq (a : Agent) (agents : List Agent) :
    setHeard a agents = (do
      (a :: (ExtTreeSet.ofList agents : ExtTreeSet Agent).toList).forM checkAgent
      modify fun t => { t with heard := t.heard.insert a (.ofList agents) }) := by
  simp [setHeard]

/-- Letting an agent hear another one looks both up. -/
theorem permit_eq (a b : Agent) :
    permit a b = (do
      [a, b].forM checkAgent
      modify fun t => { t with heard := t.heard.insert a ((t.heard[a]?.getD ∅).insert b) }) := by
  simp [permit]

/-- Letting an agent observe some atoms looks it up. -/
theorem associate_eq (a : Agent) (atoms : List Atom) :
    associate a atoms = (do
      [a].forM checkAgent
      modify fun t =>
        { t with observed := t.observed.insert a ((t.observed[a]?.getD ∅).insertMany atoms) }) := by
  simp [associate]

/-- The edits of tables. -/
def edit : Edit → Run Registry SetupError Unit
  | .setHeard a agents => setHeard a agents
  | .permit a b => permit a b
  | .associate a atoms => associate a atoms
  | .bind action arguments => bind action arguments

/-- The tables of a session name the same agent as unknown. -/
theorem firstUnknown?_of (s : Session) (agents : List Agent) :
    (of s).firstUnknown? agents = s.firstUnknown? agents := by
  simp only [firstUnknown?, Session.firstUnknown?, contains_actors_of]

/-- A change of one member that is made after some agents are looked up comes to what the change
comes to for the session. -/
theorem runOn_checked_of (s : Session) (a : Agent) (others : List Agent) {g : Registry → Registry}
    {f : Member → Member}
    (same : ∀ x, s.members[a]? = some x →
      g (of s) = of (s.withMembers (s.members.insert a (f x)))) :
    runOn (do (a :: others).forM checkAgent; modify g) (of s)
      = match s.change a others f with
        | .ok s' => (of s', .ok ())
        | .error e => (of s, .error e) := by
  rw [runOn_checked, firstUnknown?_of, Session.change]
  cases first : s.firstUnknown? (a :: others) with
  | some c => rfl
  | none =>
    have known := List.find?_eq_none.1 first a List.mem_cons_self
    rw [Bool.not_eq_true', Bool.not_eq_false, ExtTreeMap.contains_eq_isSome_getElem?,
      Option.isSome_iff_exists] at known
    obtain ⟨x, hx⟩ := known
    -- The member that is modified is there.
    have modified : s.members.modify a f = s.members.insert a (f x) := by
      refine ExtTreeMap.ext_getElem? fun b => ?_
      rw [ExtTreeMap.getElem?_modify, ExtTreeMap.getElem?_insert, hx, Option.map_some]
    simp only [modified, same x hx]

/-- **Edits.** An edit of the tables of a session comes to what the edit of the session does, and is
refused alike. -/
theorem runOn_edit (s : Session) (e : Edit) :
    runOn (edit e) (of s) = match s.edit? e with
      | .ok s' => (of s', .ok ())
      | .error e => (of s, .error e) := by
  cases e with
  | setHeard a agents =>
    rw [edit, setHeard_eq]
    exact runOn_checked_of s a _ fun x hx => (of_insert_withHeard hx _).symm
  | permit a b =>
    rw [edit, permit_eq]
    refine runOn_checked_of s a _ fun x hx => ?_
    rw [of_insert_withHeard hx, getElem?_heard_of hx, Option.getD_some]
  | associate a atoms =>
    rw [edit, associate_eq]
    refine runOn_checked_of s a _ fun x hx => ?_
    rw [of_insert_withObserved hx, getElem?_observed_of hx, Option.getD_some]
  | bind action arguments => rfl

end Registry

end KnowledgePrograms
