/-! # Settings of a session

Each setting has a name, bounds and a value. `Setting.set?` takes a new value within the bounds
only; `Setting.assign` takes any. -/

namespace KnowledgePrograms

universe u

/-- A value with a name and with bounds. -/
structure Setting (α : Type u) where
  /-- What the setting is called. -/
  name : String
  /-- The least value that may be set. -/
  min : α
  /-- The greatest value that may be set. -/
  max : α
  /-- The value. -/
  value : α

namespace Setting

variable {α : Type u}

/-- The setting with another value, whether or not it is within the bounds. -/
def assign (s : Setting α) (value : α) : Setting α := ⟨s.name, s.min, s.max, value⟩

/-- Whether a value is within the bounds. -/
def admits [Ord α] (s : Setting α) (value : α) : Bool :=
  (compare s.min value).isLE && (compare value s.max).isLE

/-- The setting with another value, if it is within the bounds. -/
def set? [Ord α] (s : Setting α) (value : α) : Option (Setting α) :=
  if s.admits value then some (s.assign value) else none

end Setting

/-- How the explanations that an agent hears are announced to it. -/
inductive Redistribution where
  /-- All at once, as one conjunction. -/
  | conjoined
  /-- One after the other. -/
  | successive
deriving DecidableEq, Ord

namespace Redistribution

/-- What a way of redistribution is called. -/
def name : Redistribution → String
  | .conjoined => "conjoined"
  | .successive => "successive"

instance : ToString Redistribution := ⟨name⟩

end Redistribution

/-- The settings of a session. -/
structure Settings where
  /-- How the explanations that an agent hears are announced to it. -/
  redistribution : Setting Redistribution
  /-- Whether an agent hears its own explanation. -/
  selfHearing : Setting Bool
  /-- The most passes of simplification when an action is explained. -/
  simplificationLimit : Setting Nat
  /-- The most rounds of a run. -/
  roundLimit : Setting Nat

namespace Settings

/-- The greatest limit, the greatest number that 64 bits write. -/
def greatestLimit : Nat := UInt64.size - 1

/-- The settings of a session for which none are given. -/
def standard : Settings where
  redistribution := ⟨"redistribution", .conjoined, .successive, .conjoined⟩
  selfHearing := ⟨"self_hearing", false, true, false⟩
  simplificationLimit := ⟨"simplification_limit", 1, greatestLimit, 16⟩
  roundLimit := ⟨"round_limit", 1, greatestLimit, 64⟩

instance : Inhabited Settings := ⟨standard⟩

end Settings

end KnowledgePrograms
