import SyntaxTree.Matcher.Compile
import SyntaxTree.Node.Index

/-!
# `Node.Search` — finding nodes by type

Four questions share one test, that a compiled matcher accepts the type of a node: which child passes
it first, whether this node does, whether any child does, and whether any ancestor does. The matcher is
compiled before any node is looked at. An integer given to `find` is not a matcher but the position of
a child.
-/

namespace SyntaxTree.Store

/-- The first of some nodes whose type a matcher accepts. -/
def findFirst (s : Store) (m : Matcher) : List Value → Except Fault (Option Value)
  | [] => .ok none
  | v :: vs => do
    let type ← s.typeOf v
    if ← s.accepts type m then .ok (some v) else findFirst s m vs

/-- The child at a position, or the first child whose type a matcher accepts, or null. -/
def find (s : Store) (n : NodeId) : Value → Except Fault Value
  | .int i => .ok (if 0 ≤ i then ((s.children n)[i.toNat]?).getD .null else .null)
  | v => do
    let m ← s.compile v
    let found ← s.findFirst m (s.children n)
    .ok (found.getD .null)

/-- Whether a matcher accepts the type of a node. -/
def isType (s : Store) (n : NodeId) (v : Value) : Except Fault Bool := do
  let m ← s.compile v
  s.accepts (s.node n).type m

/-- Whether a matcher accepts the type of some child. -/
def hasType (s : Store) (n : NodeId) (v : Value) : Except Fault Bool := do
  let m ← s.compile v
  let found ← s.findFirst m (s.children n)
  .ok found.isSome

/-- Whether a matcher accepts the type of something on the way up from `v`, in a climb of limited
height. -/
def someAncestor (s : Store) (m : Matcher) : Nat → Value → Except Fault Bool
  | 0, _ => .error .endless
  | _ + 1, .null => .ok false
  | fuel + 1, v => do
    let type ← s.typeOf v
    if ← s.accepts type m then .ok true
    else
      let parent ← s.parentOf v
      someAncestor s m fuel parent

/-- Whether a matcher accepts the type of some ancestor. A way up that is longer than there are nodes
and objects has no end. -/
def isInside (s : Store) (n : NodeId) (v : Value) : Except Fault Bool := do
  let m ← s.compile v
  s.someAncestor m (s.nodes.size + s.objects.size + 2) (s.parentValue n)

end SyntaxTree.Store
