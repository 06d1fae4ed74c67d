/-! # Values

The values that actions take and give. The text of a value is what an utterance says of it: a text
stands for itself, a list is written between brackets with a comma and a space between two. -/

namespace KnowledgePrograms

/-- A value that an action takes or gives. -/
inductive Value where
  /-- The value that tells nothing. -/
  | unit
  /-- A truth value. -/
  | bool (b : Bool)
  /-- An integer. -/
  | int (i : Int)
  /-- A text. -/
  | text (s : String)
  /-- Several values. -/
  | list (vs : List Value)
deriving Inhabited

namespace Value

/-- The kinds of value of which an action may ask for one. -/
inductive Kind where
  /-- A truth value. -/
  | bool
  /-- An integer. -/
  | int
  /-- A text. -/
  | text
deriving DecidableEq

/-- What a kind is called. -/
def Kind.name : Kind → String
  | .bool => "bool"
  | .int => "int"
  | .text => "text"

/-! ## (1) Equality -/

mutual

/-- Whether two values are the same. -/
def same : Value → Value → Bool
  | .unit, .unit => true
  | .bool b, .bool c => b == c
  | .int i, .int j => i == j
  | .text s, .text t => s == t
  | .list vs, .list ws => sameList vs ws
  | _, _ => false

/-- Whether two lists hold the same values in the same order. -/
def sameList : List Value → List Value → Bool
  | [], [] => true
  | v :: vs, w :: ws => same v w && sameList vs ws
  | _, _ => false

end

mutual

/-- Values are found the same exactly when they are equal. -/
theorem same_iff : (v w : Value) → (v.same w = true ↔ v = w)
  | .unit, w => by cases w <;> simp [same]
  | .bool b, w => by cases w <;> simp [same]
  | .int i, w => by cases w <;> simp [same]
  | .text s, w => by cases w <;> simp [same]
  | .list vs, w => by
    cases w <;> simp [same]
    exact sameList_iff vs _

/-- Lists of values are found the same exactly when they are equal. -/
theorem sameList_iff : (vs ws : List Value) → (sameList vs ws = true ↔ vs = ws)
  | [], ws => by cases ws <;> simp [sameList]
  | v :: vs, ws => by
    cases ws with
    | nil => simp [sameList]
    | cons w ws => simp [sameList, same_iff v w, sameList_iff vs ws]

end

instance : DecidableEq Value := fun v w => decidable_of_iff _ (same_iff v w)

/-! ## (2) Reading and writing -/

/-- The truth value, if the value is one. -/
def bool? : Value → Option Bool
  | .bool b => some b
  | _ => none

/-- The integer, if the value is one. -/
def int? : Value → Option Int
  | .int i => some i
  | _ => none

/-- The text, if the value is one. -/
def text? : Value → Option String
  | .text s => some s
  | _ => none

mutual

/-- The text of a value. -/
def display : Value → String
  | .unit => "()"
  | .bool true => "true"
  | .bool false => "false"
  | .int i => toString i
  | .text s => s
  | .list [] => "[]"
  | .list (v :: vs) => "[" ++ v.display ++ displayAfter vs ++ "]"

/-- The text of further values of a list. -/
def displayAfter : List Value → String
  | [] => ""
  | v :: vs => ", " ++ v.display ++ displayAfter vs

end

instance : ToString Value := ⟨display⟩

end Value

end KnowledgePrograms
