import KnowledgePrograms.Kripke.Observability
import KnowledgePrograms.Session.Round

/-! # The muddy children

Some children have mud on their foreheads. Each sees the forehead of every other child and not its
own. The father says that some child is muddy, and asks again and again who knows.

Child `i` is muddy when atom `mi` is true. There is a world for every valuation of these atoms, and
a child cannot tell two worlds apart that differ at its own atom alone. A child says that it is
muddy if it knows so, that it is clean if it knows so, and else that it does not know. With `k`
muddy children who hear every answer, the muddy ones know in round `k`. -/

namespace KnowledgePrograms

open Std (ExtTreeMap ExtTreeSet)

/-- Which children hear the answers of which. -/
inductive Hearing where
  /-- Every child hears every child, itself included. -/
  | all
  /-- No child hears any. -/
  | none
  /-- Every child hears itself and the next child, the first being next to the last. -/
  | ring
deriving DecidableEq, Inhabited

namespace Hearing

/-- What a way of hearing is called. -/
def name : Hearing → String
  | .all => "all"
  | .none => "none"
  | .ring => "ring"

instance : ToString Hearing := ⟨name⟩

end Hearing

/-- A session of muddy children. -/
structure MuddyChildren where
  /-- The session of the children. -/
  session : Session
  /-- The world in which just the muddy children are muddy. -/
  actual : WorldRef
  /-- The children, in the order of their numbers. -/
  children : List Agent
  /-- What the father says: some child is muddy. -/
  father : Formula

namespace MuddyChildren

/-- The atom that is true when the child of a number is muddy. -/
def muddyAtom (i : Nat) : Atom := ⟨"m" ++ toString i⟩

/-- The child of a number. -/
def child (i : Nat) : Agent := ⟨"child" ++ toString i⟩

/-- The answer of a child that knows it is muddy. -/
def muddyAnswer : Action := .utterance "muddy" "I am muddy"

/-- The answer of a child that knows it is clean. -/
def cleanAnswer : Action := .utterance "clean" "I am clean"

/-- The answer of a child that does not know. -/
def unknownAnswer : Action := .utterance "unknown" "I don't know"

/-- The program of a child, given its own atom. -/
def program (a : Agent) (own : Atom) : Program :=
  ((Program.empty.push (.knows a (.atom own)) muddyAnswer).push
    (.knows a (.not (.atom own))) cleanAnswer).setDefault (some unknownAnswer)

/-- The numbers of the children. -/
def numbers (count : Nat) : List Nat := List.range' 1 count

/-- The atoms of all children but one. -/
def othersAtoms (count i : Nat) : ExtTreeSet Atom :=
  .ofList (((numbers count).filter fun j => j != i).map muddyAtom)

/-- Which atoms each child observes: those of the others. -/
def sights (count : Nat) : ExtTreeMap Agent (ExtTreeSet Atom) :=
  .ofList ((numbers count).map fun i => (child i, othersAtoms count i))

/-- The name of the world in which just the children of a set are muddy. -/
def worldName (count : Nat) (muddy : ExtTreeSet Nat) : String :=
  World.rowName ((numbers count).map fun i => muddy.contains i)

/-- Whom the child of a number hears. -/
def hears (count : Nat) (hearing : Hearing) (i : Nat) : List Agent :=
  match hearing with
  | .all => (numbers count).map child
  | .none => []
  | .ring => [child i, child (i % count + 1)]

/-- Let the children of some numbers observe their own atoms and hear whom they hear. -/
def arrange (count : Nat) (hearing : Hearing) (s : Session) : List Nat → Except SetupError Session
  | [] => .ok s
  | i :: rest => do
      let s ← s.associate (child i) [muddyAtom i]
      let s ← s.setHeard (child i) (hears count hearing i)
      arrange count hearing s rest

/-- The settings of the children's session: who hears any child hears itself too. -/
def settingsFor (hearing : Hearing) (settings : Settings) : Settings where
  redistribution := settings.redistribution
  selfHearing :=
    if hearing = .none then settings.selfHearing else settings.selfHearing.assign true
  simplificationLimit := settings.simplificationLimit
  roundLimit := settings.roundLimit

/-- The scenario of a number of children of which those of a set are muddy. -/
def setup (count : Nat) (muddy : ExtTreeSet Nat) (hearing : Hearing) (settings : Settings) :
    Except SetupError MuddyChildren :=
  if count = 0 then .error .noAgents
  else
    match muddy.toList.find? fun i => i == 0 || i > count with
    | some i => .error (.unknownAgent (child i))
    | none => do
        let numbers := numbers count
        let base := (Model.fromObservability (World.allValuations (numbers.map muddyAtom))
          (sights count)).2
        let actual ← (base.findWorld (worldName count muddy)).mapError SetupError.lookup
        let actors := numbers.map fun i => Actor.new (child i) (program (child i) (muddyAtom i))
        let session ← Session.start (settingsFor hearing settings) base actors
        let session ← arrange count hearing session numbers
        return { session := session
                 actual := actual
                 children := numbers.map child
                 father := .disjunction (numbers.map fun i => .atom (muddyAtom i)) }

/-- What is announced in the next round: the father's words in the first, later nothing. -/
def announcement (m : MuddyChildren) : Formula :=
  if m.session.counters.rounds = 0 then m.father else .top

/-- The scenario with its session gone on. -/
def withSession (m : MuddyChildren) (s : Session) : MuddyChildren :=
  ⟨s, m.actual, m.children, m.father⟩

/-- The next round. -/
def round (m : MuddyChildren) : MuddyChildren × Except RunError Round :=
  let (s, result) := m.session.round m.announcement m.actual
  (m.withSession s, result)

/-- Whether every child has only the actual world left. -/
def isFinished (m : MuddyChildren) : Except RunError Bool := m.session.isFinishedAt m.actual

/-- Go on for a number of rounds at most, until all is known, and report the rounds. -/
def runFor : Nat → MuddyChildren → MuddyChildren × Except RunError (List Round)
  | 0, m => (m, .ok [])
  | limit + 1, m =>
      match m.round with
      | (m, .error e) => (m, .error e)
      | (m, .ok report) =>
          match m.isFinished with
          | .error e => (m, .error e)
          | .ok true => (m, .ok [report])
          | .ok false =>
              let (m, later) := runFor limit m
              (m, later.map (report :: ·))

/-- Go on until all is known or the limit of rounds is reached. -/
def run (m : MuddyChildren) : MuddyChildren × Except RunError (List Round) :=
  runFor m.session.settings.roundLimit.value m

end MuddyChildren

end KnowledgePrograms
