import SyntaxTree.Store.Field

/-!
# `Node.Emptiness` — whether a tree carries a value

A tree is empty if no node in it carries a value and every node passes a test. The nodes are asked in
document order, and the first one that carries a value or fails the test ends the search; so the nodes
that were tested are part of the answer. A tree that comes back to itself before it is found not to be
empty is searched without end.
-/

namespace SyntaxTree.Store

/-- The answer of a search for a value, and the nodes that were tested, in order. -/
structure Emptiness where
  empty : Bool
  tested : List NodeId
deriving DecidableEq, Repr

/-- Whether a node carries a value: null and the empty text are none. -/
def carriesValue (s : Store) (n : NodeId) : Bool :=
  (s.node n).value ≠ .null && (s.node n).value ≠ .text ""

/-- Searches children one by one until one is not empty. -/
def allEmpty (s : Store) (search : NodeId → Except Fault Emptiness) :
    List Value → Except Fault Emptiness
  | [] => .ok ⟨true, []⟩
  | v :: vs => do
    let c ← s.actor "is_empty" v
    let found ← search c
    if found.empty then
      let rest ← allEmpty s search vs
      .ok ⟨rest.empty, found.tested ++ rest.tested⟩
    else .ok found

/-- Searches the tree below a node, down to a depth. -/
def emptinessWithin (s : Store) (test : NodeId → Except Fault Bool) :
    Nat → NodeId → Except Fault Emptiness
  | 0, _ => .error .endless
  | fuel + 1, n => do
    if !(← test n) || s.carriesValue n then .ok ⟨false, [n]⟩
    else
      let below ← allEmpty s (emptinessWithin s test fuel) (s.children n)
      .ok ⟨below.empty, n :: below.tested⟩

/-- Searches the tree below a node. -/
def emptiness (s : Store) (test : NodeId → Except Fault Bool) (n : NodeId) : Except Fault Emptiness :=
  emptinessWithin s test (s.nodes.size + 1) n

/-- Whether no node of a tree carries a value. -/
def isEmpty (s : Store) (n : NodeId) : Except Fault Bool := do
  let found ← s.emptiness (fun _ => .ok true) n
  .ok found.empty

end SyntaxTree.Store
