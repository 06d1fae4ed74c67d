import KnowledgePrograms.Scenario.MuddyChildren

/-! # Arguments of the command line

The first argument names a scenario; the options of the scenario follow. An option is written
`--name value`, `--name=value`, or by its letter, `-n value`, `-nvalue`, `-n=value`. The muddy
children are numbers with a comma between two, and may be given in several parts; every other
option may be given once. -/

namespace KnowledgePrograms

namespace CommandLine

/-- An option of the muddy children. -/
inductive OptionName where
  /-- The number of children. -/
  | children
  /-- The numbers of the muddy children. -/
  | muddy
  /-- From what the muddy children are drawn if they are not given. -/
  | seed
  /-- Who hears whose answer. -/
  | hearing
  /-- How the answers that a child hears are announced. -/
  | redistribution
  /-- Announce the answers one after the other. -/
  | successive
  /-- The most rounds to run. -/
  | rounds
  /-- The most passes of simplification when an answer is explained. -/
  | simplificationLimit
deriving DecidableEq

/-- Why the arguments are refused. -/
inductive UsageError where
  /-- The argument is neither a scenario nor an option. -/
  | unexpected (argument : String)
  /-- The option is given without a value. -/
  | missingValue (argument : String)
  /-- The option is given a value that it does not take. -/
  | badValue (value : String)
  /-- The option is given twice. -/
  | repeated (name : OptionName)
deriving DecidableEq

/-- The option of a long name. -/
def OptionName.ofLong? : String → Option OptionName
  | "children" => some .children
  | "muddy" => some .muddy
  | "seed" => some .seed
  | "hearing" => some .hearing
  | "redistribution" => some .redistribution
  | "successive" => some .successive
  | "rounds" => some .rounds
  | "simplification-limit" => some .simplificationLimit
  | _ => none

/-- The option of a letter. -/
def OptionName.ofLetter? : Char → Option OptionName
  | 'c' => some .children
  | 'm' => some .muddy
  | 's' => some .seed
  | 'r' => some .rounds
  | _ => none

/-! ## (1) Splitting arguments into options and values -/

/-- An option as far as one argument tells it. -/
inductive Token where
  /-- An option whose value, if it takes one, is the next argument. -/
  | bare (name : OptionName)
  /-- An option with its value. -/
  | assigned (name : OptionName) (value : String)

/-- The option that an argument tells. -/
def Token.ofArgument (argument : String) : Except UsageError Token :=
  match argument.toList with
  | '-' :: '-' :: rest =>
      let long := String.ofList (rest.takeWhile (· != '='))
      match OptionName.ofLong? long, rest.dropWhile (· != '=') with
      | some name, [] => .ok (.bare name)
      | some name, _ :: value => .ok (.assigned name (String.ofList value))
      | none, _ => .error (.unexpected argument)
  | '-' :: letter :: rest =>
      match OptionName.ofLetter? letter, rest with
      | some name, [] => .ok (.bare name)
      | some name, '=' :: value => .ok (.assigned name (String.ofList value))
      | some name, value => .ok (.assigned name (String.ofList value))
      | none, _ => .error (.unexpected argument)
  | _ => .error (.unexpected argument)

/-- Whether an argument has the look of an option and so is no value. -/
def looksLikeOption (argument : String) : Bool :=
  match argument.toList with
  | '-' :: _ :: _ => true
  | _ => false

/-- The options of a list of arguments with their values, an empty one for a flag. -/
def assignments : List String → Except UsageError (List (OptionName × String))
  | [] => .ok []
  | ["--"] => .ok []
  | argument :: rest => do
      match ← Token.ofArgument argument, rest with
      | .bare .successive, rest => return (.successive, "") :: (← assignments rest)
      | .assigned .successive value, _ => throw (.badValue value)
      | .assigned name value, rest => return (name, value) :: (← assignments rest)
      | .bare _, [] => throw (.missingValue argument)
      | .bare name, value :: rest =>
          if looksLikeOption value then throw (.missingValue argument)
          else return (name, value) :: (← assignments rest)

/-! ## (2) Reading values -/

/-- The number that a row of decimal digits writes. -/
def decimal? : List Char → Option Nat
  | [] => none
  | digits =>
      if digits.all Char.isDigit then
        some (digits.foldl (fun n c => 10 * n + (c.toNat - '0'.toNat)) 0)
      else none

/-- A number of at most 64 bits, maybe with a plus sign. -/
def readNumber (value : String) : Except UsageError Nat :=
  let digits := match value.toList with
    | '+' :: rest => rest
    | all => all
  match decimal? digits with
  | some n => if n ≤ Settings.greatestLimit then .ok n else .error (.badValue value)
  | none => .error (.badValue value)

/-- Numbers with a comma between two. -/
def readNumbers (value : String) : Except UsageError (List Nat) :=
  (value.splitOn ",").mapM readNumber

/-- A way of hearing. -/
def readHearing : String → Except UsageError Hearing
  | "all" => .ok .all
  | "none" => .ok .none
  | "ring" => .ok .ring
  | value => .error (.badValue value)

/-- A way of redistribution. -/
def readRedistribution : String → Except UsageError Redistribution
  | "conjoined" => .ok .conjoined
  | "successive" => .ok .successive
  | value => .error (.badValue value)

/-! ## (3) The request -/

/-- What is asked of the scenario of the muddy children. -/
structure MuddyOptions where
  /-- The number of children. -/
  children : Nat
  /-- The numbers of the muddy children, if they are given. -/
  muddy : Option (List Nat)
  /-- From what the muddy children are drawn, if it is given. -/
  seed : Option Nat
  /-- Who hears whose answer. -/
  hearing : Hearing
  /-- How answers are announced, if it is given. -/
  redistribution : Option Redistribution
  /-- The most rounds, if given. -/
  rounds : Option Nat
  /-- The most passes of simplification, if given. -/
  simplificationLimit : Option Nat

/-- What is asked of the program. -/
inductive Request where
  /-- No scenario is named. -/
  | nothing
  /-- The muddy children. -/
  | muddyChildren (options : MuddyOptions)

/-- The value of an option that is given at most once. -/
def single? (given : List (OptionName × String)) (name : OptionName) :
    Except UsageError (Option String) :=
  match given.filter fun e => e.1 = name with
  | [] => .ok none
  | [e] => .ok (some e.2)
  | _ => .error (.repeated name)

/-- The value of an option that is given at most once, read. -/
def singleAs? {α : Type} (read : String → Except UsageError α) (given : List (OptionName × String))
    (name : OptionName) : Except UsageError (Option α) := do
  match ← single? given name with
  | some value => return some (← read value)
  | none => return none

/-- The options of the muddy children that some arguments give. A flag for announcing answers one
after the other counts over the option for how to announce them. -/
def MuddyOptions.ofArguments (arguments : List String) : Except UsageError MuddyOptions := do
  let given ← assignments arguments
  let children ← singleAs? readNumber given .children
  let muddy ← (given.filter fun e => e.1 = .muddy).mapM fun e => readNumbers e.2
  let seed ← singleAs? readNumber given .seed
  let hearing ← singleAs? readHearing given .hearing
  let redistribution ← singleAs? readRedistribution given .redistribution
  let successive ← single? given .successive
  let rounds ← singleAs? readNumber given .rounds
  let simplificationLimit ← singleAs? readNumber given .simplificationLimit
  return {
    children := children.getD 3
    muddy := if muddy.isEmpty then none else some muddy.flatten
    seed := seed
    hearing := hearing.getD .all
    redistribution := if successive.isSome then some .successive else redistribution
    rounds := rounds
    simplificationLimit := simplificationLimit }

/-- What the arguments of the program ask for. -/
def Request.ofArguments : List String → Except UsageError Request
  | [] => .ok .nothing
  | ["--"] => .ok .nothing
  | "muddy" :: rest => (MuddyOptions.ofArguments rest).map .muddyChildren
  | argument :: _ => .error (.unexpected argument)

end CommandLine

end KnowledgePrograms
