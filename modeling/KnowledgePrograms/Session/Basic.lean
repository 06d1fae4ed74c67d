import KnowledgePrograms.Kripke.Announcement
import KnowledgePrograms.Program.Actor
import KnowledgePrograms.Session.Settings

/-! # Sessions

In a session each of several agents has a model of its own, at first a copy of one model. It hears
the explanations of some agents and observes some atoms. What is announced is announced to the
models of agents, and the session counts announcements and removed worlds.

* `Session.start` begins a session, and refuses an empty list of agents and repeated agents.
* `Session.setHeard`, `Session.permit`, `Session.associate` change one member, and refuse agents
  that are not in the session before anything is changed.
* `Session.tell` announces to each member formulas of its own; all announcements go through it. -/

namespace KnowledgePrograms

open Std (ExtTreeMap ExtTreeSet)

/-- Why a session cannot be set up as asked. -/
inductive SetupError where
  /-- There is no agent. -/
  | noAgents
  /-- An agent is given twice. -/
  | duplicateAgent (a : Agent)
  /-- The agent is not in the session. -/
  | unknownAgent (a : Agent)
  /-- A world that was asked for is not in the model. -/
  | lookup (e : LookupError)
deriving DecidableEq

/-- Why a session cannot go on. -/
inductive RunError where
  /-- The world that is taken for the real one is not in the model of the agent. -/
  | invalidModel (a : Agent) (r : WorldRef)
  /-- No world is left in the model of the agent. -/
  | noConvergence (a : Agent)
deriving DecidableEq

/-- What a session counts. -/
structure Counters where
  /-- The rounds that were completed. -/
  rounds : Nat
  /-- The announcements made, one for each model announced to. -/
  announcements : Nat
  /-- The worlds removed from all models. -/
  removed : Nat
deriving DecidableEq

/-- An agent in a session. -/
structure Member where
  /-- The agent and its program. -/
  actor : Actor
  /-- What the agent holds possible. -/
  model : Model
  /-- Whose explanations the agent hears. -/
  heard : ExtTreeSet Agent
  /-- Which atoms the agent observes directly. -/
  observed : ExtTreeSet Atom

namespace Member

/-- The member with another actor. -/
def withActor (x : Member) (actor : Actor) : Member := ⟨actor, x.model, x.heard, x.observed⟩

/-- The member with another model. -/
def withModel (x : Member) (model : Model) : Member := ⟨x.actor, model, x.heard, x.observed⟩

/-- The member with other agents to hear. -/
def withHeard (x : Member) (heard : ExtTreeSet Agent) : Member :=
  ⟨x.actor, x.model, heard, x.observed⟩

/-- The member with other atoms to observe. -/
def withObserved (x : Member) (observed : ExtTreeSet Atom) : Member :=
  ⟨x.actor, x.model, x.heard, observed⟩

end Member

/-- A session of agents that run their programs. -/
structure Session where
  /-- The settings. -/
  settings : Settings
  /-- What was counted so far. -/
  counters : Counters
  /-- The agents of the session. -/
  members : ExtTreeMap Agent Member
  /-- The arguments on which actions of a name are performed. -/
  bound : ExtTreeMap String (List Value)

namespace Session

/-! ## (1) Setting up -/

/-- The member of an actor that hears nobody and observes nothing. -/
def newMember (base : Model) (x : Actor) : Member := ⟨x, base, ∅, ∅⟩

/-- Add members for the actors of a list, up to the first whose agent is there already. -/
def enroll (base : Model) (members : ExtTreeMap Agent Member) :
    List Actor → Except SetupError (ExtTreeMap Agent Member)
  | [] => .ok members
  | x :: rest =>
      if members.contains x.agent then .error (.duplicateAgent x.agent)
      else enroll base (members.insert x.agent (newMember base x)) rest

/-- A session of some actors, each with its own copy of a model. -/
def start (settings : Settings) (base : Model) (actors : List Actor) : Except SetupError Session :=
  match actors with
  | [] => .error .noAgents
  | _ => (enroll base ∅ actors).map fun members => ⟨settings, ⟨0, 0, 0⟩, members, ∅⟩

/-- The agents of the session, in order. -/
def agents (s : Session) : List Agent := s.members.keys

/-- The session with other members. -/
def withMembers (s : Session) (members : ExtTreeMap Agent Member) : Session :=
  ⟨s.settings, s.counters, members, s.bound⟩

/-- The session with other settings. -/
def withSettings (s : Session) (settings : Settings) : Session :=
  ⟨settings, s.counters, s.members, s.bound⟩

/-- The first agent of a list that is not in the session. -/
def firstUnknown? (s : Session) (agents : List Agent) : Option Agent :=
  agents.find? fun a => !s.members.contains a

/-- Change one member, if all of some agents are in the session, the member's among them. -/
def change (s : Session) (a : Agent) (others : List Agent) (f : Member → Member) :
    Except SetupError Session :=
  match s.firstUnknown? (a :: others) with
  | some b => .error (.unknownAgent b)
  | none => .ok (s.withMembers (s.members.modify a f))

/-- Let an agent hear exactly the agents of a list. -/
def setHeard (s : Session) (a : Agent) (agents : List Agent) : Except SetupError Session :=
  let heard : ExtTreeSet Agent := .ofList agents
  s.change a heard.toList fun x => x.withHeard heard

/-- Let an agent hear another one too. -/
def permit (s : Session) (a b : Agent) : Except SetupError Session :=
  s.change a [b] fun x => x.withHeard (x.heard.insert b)

/-- Let an agent observe some atoms too. -/
def associate (s : Session) (a : Agent) (atoms : List Atom) : Except SetupError Session :=
  s.change a [] fun x => x.withObserved (x.observed.insertMany atoms)

/-- Set the arguments on which actions of a name are performed. -/
def bind (s : Session) (action : String) (arguments : List Value) : Session :=
  ⟨s.settings, s.counters, s.members, s.bound.insert action arguments⟩

/-- The arguments on which actions of a name are performed, none if none were set. -/
def arguments (s : Session) (action : String) : List Value := s.bound[action]?.getD []

/-- Which agents each agent hears. -/
def permissions (s : Session) : ExtTreeMap Agent (ExtTreeSet Agent) :=
  s.members.map fun _ x => x.heard

/-- Which atoms each agent observes. -/
def associations (s : Session) : ExtTreeMap Agent (ExtTreeSet Atom) :=
  s.members.map fun _ x => x.observed

/-- The model of each agent. -/
def models (s : Session) : ExtTreeMap Agent Model := s.members.map fun _ x => x.model

/-- The model of an agent of the session. -/
def model? (s : Session) (a : Agent) : Option Model := s.models[a]?

/-- The actor of an agent of the session. -/
def actor? (s : Session) (a : Agent) : Option Actor := s.members[a]?.map Member.actor

/-! ## (2) Announcements -/

/-- Announce to each member its own list of formulas. -/
def tell (s : Session) (news : Agent → Member → List Formula) : Session :=
  let told := s.members.map fun a x =>
    let formulas := news a x
    let (removed, left) := x.model.announceEach formulas
    (formulas.length, removed, x.withModel left)
  let made := (told.toList.map fun e => e.2.1).foldr (· + ·) 0
  let removed := (told.toList.map fun e => e.2.2.1).foldr (· + ·) 0
  { settings := s.settings
    counters := ⟨s.counters.rounds, s.counters.announcements + made, s.counters.removed + removed⟩
    members := told.map fun _ x => x.2.2
    bound := s.bound }

/-- Announce a formula to every member. -/
def tellAll (s : Session) (f : Formula) : Session := s.tell fun _ _ => [f]

/-- The first agent whose model has no world left. -/
def firstEmpty? (s : Session) : Option Agent :=
  (s.members.toList.find? fun e => e.2.model.worldCount == 0).map Prod.fst

/-- The first agent whose model does not have the world. -/
def firstWithout? (s : Session) (r : WorldRef) : Option Agent :=
  (s.members.toList.find? fun e => !e.2.model.contains r).map Prod.fst

/-- Announce a formula to every member, which is an error if it leaves a member without worlds. -/
def announce (s : Session) (f : Formula) : Session × Except RunError Unit :=
  let told := s.tellAll f
  match told.firstEmpty? with
  | some a => (told, .error (.noConvergence a))
  | none => (told, .ok ())

/-! ## (3) The state of a session -/

/-- Whether every model has a single world. -/
def allSingle (s : Session) : Bool := s.members.toList.all fun e => e.2.model.worldCount == 1

/-- Whether every model has a single world, unless some model has none. -/
def isFinished (s : Session) : Except RunError Bool :=
  match s.firstEmpty? with
  | some a => .error (.noConvergence a)
  | none => .ok s.allSingle

/-- Whether every model has the world and no other, unless some model does not have it. -/
def isFinishedAt (s : Session) (r : WorldRef) : Except RunError Bool :=
  match s.firstWithout? r with
  | some a => .error (.invalidModel a r)
  | none => .ok s.allSingle

/-- How far a session has come. -/
inductive Status where
  /-- Some model has several worlds. -/
  | running
  /-- Every model has a single world. -/
  | converged
  /-- Some model has no world. -/
  | exhausted
deriving DecidableEq

/-- What a status is called. -/
def Status.name : Status → String
  | .running => "Running"
  | .converged => "Converged"
  | .exhausted => "Exhausted"

instance : ToString Status := ⟨Status.name⟩

/-- How far the session has come. -/
def status (s : Session) : Status :=
  match s.isFinished with
  | .ok true => .converged
  | .ok false => .running
  | .error _ => .exhausted

end Session

end KnowledgePrograms
