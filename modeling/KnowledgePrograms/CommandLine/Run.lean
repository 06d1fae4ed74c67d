import KnowledgePrograms.CommandLine.Arguments
import KnowledgePrograms.CommandLine.Report

/-! # What the program answers

The program is a function from its arguments, and a number to draw muddy children from, to an exit
code and a text. The code is 0 when the rounds could be run, 1 when the request is out of bounds
and 2 when the rounds failed or the arguments could not be read. -/

namespace KnowledgePrograms

namespace CommandLine

/-- What the program answers. -/
structure Answer where
  /-- The exit code. -/
  code : Nat
  /-- The text. -/
  text : String

/-! ## (1) Drawing the muddy children -/

/-- Draw some numbers from a list, no entry twice. -/
def drawFrom (g : StdGen) : Nat → List Nat → List Nat
  | 0, _ => []
  | amount + 1, xs =>
      let (index, g') := randNat g 0 (xs.length - 1)
      match xs[index]? with
      | some x => x :: drawFrom g' amount (xs.eraseIdx index)
      | none => []

/-- Draw at least one of some children. -/
def drawMuddy (count seed : Nat) : List Nat :=
  let (amount, g) := randNat (mkStdGen seed) 1 count
  drawFrom g amount (MuddyChildren.numbers count)

/-! ## (2) Settings -/

/-- The refusal of a limit that is out of bounds. -/
def outOfBounds (s : Setting Nat) : Answer :=
  ⟨1, s.name ++ " requires a value between " ++ toString s.min ++ " and " ++ toString s.max ++ "\n"⟩

/-- A limit with the value given, if one is given. -/
def withLimit (s : Setting Nat) : Option Nat → Except Answer (Setting Nat)
  | none => .ok s
  | some value =>
      match s.set? value with
      | some s => .ok s
      | none => .error (outOfBounds s)

/-- The settings that the options ask for. -/
def settingsOf (options : MuddyOptions) : Except Answer Settings := do
  let standard := Settings.standard
  let roundLimit ← withLimit standard.roundLimit options.rounds
  let simplificationLimit ← withLimit standard.simplificationLimit options.simplificationLimit
  return {
    redistribution := match options.redistribution with
      | some mode => standard.redistribution.assign mode
      | none => standard.redistribution
    selfHearing := standard.selfHearing
    simplificationLimit := simplificationLimit
    roundLimit := roundLimit }

/-! ## (3) Running the scenario -/

/-- The greatest number of children that the program runs. -/
def childLimit : Nat := 16

/-- The first line: what is run. -/
def headerText (count : Nat) (muddy : Std.ExtTreeSet Nat) (hearing : Hearing)
    (settings : Settings) : String :=
  toString count ++ " children, muddy: \x7b" ++ ", ".intercalate (muddy.toList.map toString)
    ++ "\x7d, hearing: " ++ hearing.name ++ ", redistribution: "
    ++ settings.redistribution.value.name ++ "\n"

/-- Run rounds until the children know, and then one more in which every answer tells what is
known. -/
def runScenario (m : MuddyChildren) : Answer :=
  match m.run with
  | (_, .error e) => ⟨2, runErrorText e ++ "\n"⟩
  | (m, .ok rounds) =>
      let told := String.join (rounds.map roundText)
      match m.isFinished with
      | .error e => ⟨2, told ++ runErrorText e ++ "\n"⟩
      | .ok false => ⟨0, told ++ statusText m.session.status m.session.counters.rounds⟩
      | .ok true =>
          match m.round with
          | (_, .error e) => ⟨2, told ++ runErrorText e ++ "\n"⟩
          | (m, .ok round) =>
              ⟨0, told ++ roundText round
                ++ statusText m.session.status m.session.counters.rounds⟩

/-- The answer to a request for the muddy children. -/
def answerMuddy (entropy : Nat) (options : MuddyOptions) : Answer :=
  if options.children = 0 || options.children > childLimit then
    ⟨1, "The number of children must be between 1 and " ++ toString childLimit ++ "\n"⟩
  else
    match settingsOf options with
    | .error answer => answer
    | .ok settings =>
        let muddy : Std.ExtTreeSet Nat := .ofList <|
          options.muddy.getD (drawMuddy options.children (options.seed.getD entropy))
        match MuddyChildren.setup options.children muddy options.hearing settings with
        | .error e => ⟨1, "Failed to set up the children: " ++ setupErrorText e ++ "\n"⟩
        | .ok m =>
            let ran := runScenario m
            ⟨ran.code,
              headerText options.children muddy options.hearing m.session.settings ++ ran.text⟩

/-- The answer to the arguments of the program. -/
def answer (entropy : Nat) (arguments : List String) : Answer :=
  match Request.ofArguments arguments with
  | .error _ => ⟨2, ""⟩
  | .ok .nothing => ⟨1, "A scenario is required, see --help\n"⟩
  | .ok (.muddyChildren options) => answerMuddy entropy options

end CommandLine

end KnowledgePrograms
