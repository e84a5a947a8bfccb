import SyntaxTree.Store.Field

/-!
# `Node.Subtree` — the tree below a node

Child links may form any graph. `subtree` unfolds it below a node into a finite tree of identities, in
which a node that is shared stands at each of its places; it fails without end exactly where a path
comes back to a node it has passed, since a path without repetition is no longer than there are nodes.
`preorder` lists the tree in document order. Copying and outlining are recursions on this tree.
-/

namespace SyntaxTree

/-- A node with the trees of its children. -/
inductive Subtree
  | node (id : NodeId) (branches : List Subtree)

namespace Subtree

/-- The node at the top. -/
def root : Subtree → NodeId
  | .node id _ => id

/-- The trees of the children. -/
def branches : Subtree → List Subtree
  | .node _ branches => branches

mutual

/-- The nodes of a tree in document order, one entry for each place. -/
def preorder : Subtree → List NodeId
  | .node id branches => id :: preorderAll branches

/-- The nodes of some trees in document order. -/
def preorderAll : List Subtree → List NodeId
  | [] => []
  | t :: ts => t.preorder ++ preorderAll ts

end

mutual

/-- The number of places in a tree. -/
def size : Subtree → Nat
  | .node _ branches => sizeAll branches + 1

/-- The number of places in some trees. -/
def sizeAll : List Subtree → Nat
  | [] => 0
  | t :: ts => t.size + sizeAll ts

end

mutual

theorem length_preorder : (t : Subtree) → t.preorder.length = t.size
  | .node id branches => by simp [preorder, size, length_preorderAll branches]

theorem length_preorderAll : (ts : List Subtree) → (preorderAll ts).length = sizeAll ts
  | [] => rfl
  | t :: ts => by simp [preorderAll, sizeAll, length_preorder t, length_preorderAll ts]

end

theorem size_le_sizeAll {t : Subtree} {ts : List Subtree} (ht : t ∈ ts) : t.size ≤ sizeAll ts := by
  induction ts with
  | nil => cases ht
  | cons u us ih =>
      rw [sizeAll]
      rcases List.mem_cons.mp ht with rfl | ht
      · omega
      · have hle := ih ht
        omega

end Subtree

namespace Store

/-- Unfolds children one by one. For what is no node of this library the node stands that carries out the
operation which asks for the tree; without one that is the fault. -/
def subtrees (s : Store) (operation : String) (unfold : NodeId → Except Fault Subtree) :
    List Value → Except Fault (List Subtree)
  | [] => .ok []
  | v :: vs => do
    let c ← s.actor operation v
    let t ← unfold c
    let ts ← subtrees s operation unfold vs
    .ok (t :: ts)

/-- The tree below a node, down to a depth. -/
def subtreeWithin (s : Store) (operation : String) : Nat → NodeId → Except Fault Subtree
  | 0, _ => .error .endless
  | fuel + 1, n =>
    .node n <$> subtrees s operation (subtreeWithin s operation fuel) (s.children n)

/-- The tree below a node. -/
def subtree (s : Store) (operation : String) (n : NodeId) : Except Fault Subtree :=
  subtreeWithin s operation (s.nodes.size + 1) n

end Store

end SyntaxTree
