import SyntaxTree.Node.Construction
import SyntaxTree.Node.Subtree
import SyntaxTree.Store.Copy

/-!
# `Node.Clone` — copies of trees

A clone is a new tree of the same shape. Each node has the class and the type of the one it is made
from, deep copies of its value and of its attributes, and its new children, which are added one by one.
The clone of the top has no parent.
-/

namespace SyntaxTree.Store

/-- A new node with copies of the payload of another one, and with an empty list of children if that one
has a list. -/
def clonePayload (n : NodeId) : Run NodeId := do
  let r ← Run.read fun s => s.node n
  let c ← blank r.cls
  Run.update fun s => s.updateNode c fun fresh => { fresh with type := r.type }
  let value ← copy r.value
  Run.update fun s => s.updateNode c fun fresh => { fresh with value }
  let attr ← copy r.attr
  Run.update fun s => s.updateNode c fun fresh => { fresh with attr, nodes := r.nodes.map fun _ => [] }
  return c

mutual

/-- A copy of a tree. -/
def cloneTree : Subtree → Run NodeId
  | .node n branches => do
    let c ← clonePayload n
    cloneInto c branches
    return c

/-- Adds copies of trees to a node. -/
def cloneInto (parent : NodeId) : List Subtree → Run Unit
  | [] => pure ()
  | t :: ts => do
    let c ← cloneTree t
    let _ ← push parent (.node c)
    cloneInto parent ts

end

/-- A copy of the tree below a node. -/
def clone (n : NodeId) : Run NodeId := do
  let t ← Run.check fun s => s.subtree "clone" n
  cloneTree t

end SyntaxTree.Store
