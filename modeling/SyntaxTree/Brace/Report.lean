import SyntaxTree.Brace.Build
import SyntaxTree.Node.Outline
import SyntaxTree.Node.Search

/-!
# `Brace.Report` — a tree and some questions about it

The lines that the command line prints for a pattern: the outline of its tree, and what the navigation
of the tree answers about its first group.
-/

namespace SyntaxTree.Brace

open Store

/-- The pattern that the command line reads. -/
def samplePattern : String := "a\x7bb,c\x7dd"

/-- A value as it is shown. -/
def displayed (v : Value) : Run String := Run.check fun s => s.display v

/-- The lines about the tree of a pattern that has a group. -/
def report (pattern : String) : Run (List String) := do
  let root ← build pattern
  let brace ← Run.check fun s => s.find root (.text "brace")
  let outline ← displayed (← toMap root)
  let index ← displayed (← readAttribute brace "index")
  let last ← readAttribute brace "last"
  let afterLast ← displayed (← readAttribute last "next")
  let last ← displayed last
  let commaInside ← match brace with
    | .node b => do
      match ← Run.check fun s => s.find b (.text "comma") with
      | .node comma => Run.check fun s => s.isInside comma (.text "brace")
      | _ => pure false
    | _ => pure false
  let scope ← match brace with
    | .node b => do
      let second ← Run.check fun s => s.find b (.int 1)
      displayed (← readAttribute second "scope")
    | v => displayed v
  let inside ← displayed (.bool commaInside)
  return [outline, "brace at index " ++ index, "last in brace: " ++ last ++ " -> next: " ++ afterLast,
    "comma inside brace: " ++ inside, "scope of b: " ++ scope]

/-- The lines that the command line prints. -/
def sampleReport : List String :=
  match report samplePattern Store.empty with
  | .ok lines _ => lines
  | .error e _ => [e.message]

end SyntaxTree.Brace
