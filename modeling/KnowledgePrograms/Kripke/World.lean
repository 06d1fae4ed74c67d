import KnowledgePrograms.Logic.Valuation

/-! # Worlds

A world is a name with a valuation. A world that is not given a name is named by a running number
after `#`. `allValuations` lists a world for every way to value some atoms, each named by `w` and
the values as binary digits. -/

namespace KnowledgePrograms

/-- A possible world. -/
structure World where
  /-- What the world is called. -/
  name : String
  /-- Which atoms are true at the world. -/
  valuation : Valuation
deriving Inhabited

namespace World

/-- Worlds count as equal when they have one name and their valuations count as equal. -/
instance : BEq World := ⟨fun w v => w.name == v.name && w.valuation == v.valuation⟩

/-- The text of a world: its name, and its valuation between braces. -/
def text (w : World) : String := w.name ++ " \x7b" ++ w.valuation.text ++ "\x7d"

instance : ToString World := ⟨text⟩

/-- A world without a given name is named after the running number, which then goes up by one. -/
def unnamed (v : Valuation) : StateM Nat World := fun n => (⟨"#" ++ toString n, v⟩, n + 1)

/-- All rows of `n` binary digits in the order of the numbers they write. -/
def binaryRows : Nat → List (List Bool)
  | 0 => [[]]
  | n + 1 => (binaryRows n).map (false :: ·) ++ (binaryRows n).map (true :: ·)

/-- A truth value as a binary digit. -/
def digit (b : Bool) : Char := if b then '1' else '0'

/-- The name of the world with these values: `w` and a digit for each value. -/
def rowName (row : List Bool) : String := "w" ++ String.ofList (row.map digit)

/-- A world for every way to value the atoms, in the order of the numbers that their names write. -/
def allValuations (atoms : List Atom) : List World :=
  (binaryRows atoms.length).map fun row => ⟨rowName row, .ofList (atoms.zip row)⟩

end World

end KnowledgePrograms
