import SyntaxTree.Node.Assignment

/-!
# `Node.Mutation` — adding and taking away children

A child that is added gets its new parent and the position it is put at as a hint. Adding does not take
the child out of another list; taking away leaves the parent link of the child in place. `remove`
deletes at the index that the child reports, if the child calls this node its parent, and resets the
hint of the child.

A child may also be an object from elsewhere that passes for a node: it keeps the parent link and the
hint among its own fields.
-/

namespace SyntaxTree.Store

/-- Links a child to its parent. -/
def linkParent (s : Store) (child : Value) (parent : NodeId) : Store :=
  match child with
  | .node c => s.setParent c (some (.node parent))
  | .object o => s.setFreeField o "parent" (.node parent)
  | _ => s

/-- Sets the position hint of a child. -/
def hintChild (s : Store) (child : Value) (hint : Value) : Store :=
  match child with
  | .node c => s.setHint c hint
  | .object o => s.setFreeField o "index" hint
  | _ => s

/-- The store with one more child at the end. -/
def append (s : Store) (n : NodeId) (child : Value) : Store :=
  let before := s.children n
  ((s.linkParent child n).hintChild child (.int before.length)).setNodes n (some (before ++ [child]))

/-- The store with one more child at the front. -/
def prepend (s : Store) (n : NodeId) (child : Value) : Store :=
  let before := s.children n
  ((s.linkParent child n).hintChild child (.int 0)).setNodes n (some (child :: before))

/-- Linking and hinting a child leaves the number of nodes as it is. -/
theorem size_hintChild_linkParent (s : Store) (child hint : Value) (n : NodeId) :
    ((s.linkParent child n).hintChild child hint).nodes.size = s.nodes.size := by
  cases child <;>
    simp [linkParent, hintChild, setParent, setHint, setFreeField, updateNode, updateObject]

/-- After adding at the end the children are those of before and the new one. -/
theorem children_append_self (s : Store) {n : NodeId} (child : Value) (h : n < s.nodes.size) :
    (s.append n child).children n = s.children n ++ [child] := by
  have hsize := size_hintChild_linkParent s child (.int (s.children n).length) n
  unfold append
  rw [children, node_setNodes_self _ _ (hsize ▸ h)]
  rfl

/-- After adding at the front the children are the new one and those of before. -/
theorem children_prepend_self (s : Store) {n : NodeId} (child : Value) (h : n < s.nodes.size) :
    (s.prepend n child).children n = child :: s.children n := by
  have hsize := size_hintChild_linkParent s child (.int 0) n
  unfold prepend
  rw [children, node_setNodes_self _ _ (hsize ▸ h)]
  rfl

/-- Adds a child at the end; the answer is the number of children. -/
def push (n : NodeId) (child : Value) : Run Nat := do
  Run.check fun s => s.requireNode "push" child
  Run.update fun s => s.append n child
  Run.read fun s => (s.children n).length

/-- Adds a child at the front; the answer is the number of children. -/
def unshift (n : NodeId) (child : Value) : Run Nat := do
  Run.check fun s => s.requireNode "unshift" child
  Run.update fun s => s.prepend n child
  Run.read fun s => (s.children n).length

/-- Adding a node never fails. -/
theorem push_node (s : Store) (n c : NodeId) :
    push n (.node c) s =
      .ok ((s.append n (.node c)).children n).length (s.append n (.node c)) := rfl

theorem unshift_node (s : Store) (n c : NodeId) :
    unshift n (.node c) s =
      .ok ((s.prepend n (.node c)).children n).length (s.prepend n (.node c)) := rfl

/-- Takes the last child away; the answer is that child, or null. -/
def pop (n : NodeId) : Run Value := fun s =>
  match (s.children n).getLast? with
  | some v => .ok v (s.setNodes n (some (s.children n).dropLast))
  | none => .ok .null s

/-- Takes the first child away; the answer is that child, or null. -/
def shift (n : NodeId) : Run Value := fun s =>
  match s.children n with
  | v :: rest => .ok v (s.setNodes n (some rest))
  | [] => .ok .null s

/-- Deletes the child at a position. -/
def deleteAt (n : NodeId) (position : Value) : Run Unit := do
  let s ← get
  match (s.node n).nodes with
  | none => throw (.noItemDeletion "NoneType")
  | some nodes =>
    let i ← Run.check fun s => s.placeOf "list" nodes.length .placeOutOfRange position
    set (s.setNodes n (some (nodes.eraseIdx i)))

/-- Takes a child away; the answer is that child, or null if it is not one. -/
def remove (n : NodeId) (child : Value) : Run Value := do
  Run.check fun s => s.requireNode "remove" child
  let parent ← Run.check fun s => s.parentOf child
  let detached ← Run.read fun s => s.detached n
  let index ← if parent = .node n then indexOf child else pure detached
  if index.equalScalar detached then
    let shownChild ← shownInRecord child
    let shownParent ← shownInRecord (.node n)
    Run.update fun s => s.note (.notChild shownChild shownParent)
    return .null
  deleteAt n index
  Run.update fun s => s.hintChild child detached
  return child

end SyntaxTree.Store
