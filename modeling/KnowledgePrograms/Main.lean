import KnowledgePrograms.CommandLine.Run

/-! # The program

Prints the answer to the arguments and ends with its exit code. -/

open KnowledgePrograms

/-- Run the scenario that the arguments name. -/
def main (arguments : List String) : IO UInt32 := do
  let entropy ← IO.rand 0 0x80000000
  let answer := CommandLine.answer entropy arguments
  IO.print answer.text
  return answer.code.toUInt32
