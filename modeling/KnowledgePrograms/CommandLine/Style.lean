/-! # Styled text

Colours and bold face are switched on and off by escape sequences, which a terminal obeys and does
not show. -/

namespace KnowledgePrograms

namespace CommandLine

/-- A colour of text. -/
inductive Colour where
  /-- Red. -/
  | red
  /-- Green. -/
  | green
  /-- Yellow. -/
  | yellow
  /-- Dark grey. -/
  | darkGrey

/-- The number of a colour in the palette of the terminal. -/
def Colour.code : Colour → Nat
  | .darkGrey => 8
  | .red => 9
  | .green => 10
  | .yellow => 11

/-- The sequence that switches a colour on. -/
def Colour.sequence (c : Colour) : String := "\x1b[38;5;" ++ toString c.code ++ "m"

/-- A coloured text. -/
def coloured (c : Colour) (s : String) : String := c.sequence ++ s ++ "\x1b[39m"

/-- A text in bold face. -/
def bold (s : String) : String := "\x1b[1m" ++ s ++ "\x1b[0m"

/-- A coloured text in bold face. -/
def boldColoured (c : Colour) (s : String) : String := c.sequence ++ bold s

/-- A text with blanks after it up to a number of characters, those of escape sequences counted. -/
def padded (width : Nat) (s : String) : String :=
  s ++ String.ofList (List.replicate (width - s.length) ' ')

end CommandLine

end KnowledgePrograms
