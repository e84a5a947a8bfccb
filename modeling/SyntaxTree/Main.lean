import SyntaxTree.Brace.Report

/-!
# `Main` — the command line

Prints the tree of a sample brace pattern and what its navigation answers.
-/

/-- Prints the report line by line. -/
def main : IO Unit := do
  for line in SyntaxTree.Brace.sampleReport do
    IO.println line
