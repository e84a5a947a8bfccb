import SyntaxTree.Node.Index

/-!
# `Node.Relations` — the neighbours of a node

`prev` stays among the siblings. `next` is the node after this one in document order: from the last
sibling it climbs to the parent and on from there, and it ends at a node that is in no list. The climb
meets no node twice unless the parents form a cycle, so the number of nodes bounds it; a climb that
outlives the bound has no end.
-/

namespace SyntaxTree.Store

/-- The index a number of steps away from another one. -/
def moved (index : Value) (steps : Int) : Value :=
  match index with
  | .float x => .float (x.addInt steps)
  | index => .int (index.toInt?.getD 0 + steps)

/-- Whether there is a position before an index. -/
def hasBefore : Value → Bool
  | .float x => x.nonneg && !x.isZero
  | index => index.toInt?.any (0 < ·)

/-- The sibling before a node, or null. -/
def prev (n : NodeId) : Run Value :=
  Run.recover
    (do
      let siblings ← Run.check fun s => s.siblings n
      if !siblings.isPresent (← get) then return .null
      let index ← readIndex n
      if hasBefore index then Run.check fun s => siblings.itemAt s (moved index (-1))
      else return .null)
    (Run.check fun s => s.extra n "prev")

/-- The node after this one in document order, or null, in a climb of limited height. -/
def nextWithin : Nat → NodeId → Run Value
  | 0, _ => throw .endless
  | fuel + 1, n =>
    Run.recover
      (do
        let siblings ← Run.check fun s => s.siblings n
        if !siblings.isPresent (← get) then return .null
        let index ← readIndex n
        let s ← get
        if index.equalsInt (s.node n).cls.detached then return .null
        if hintIsBelow (← Run.check siblings.count) (moved index 1) then
          Run.check fun s => siblings.itemAt s (moved index 1)
        else
          match (s.node n).parent with
          | none => return .null
          | some (.node p) => nextWithin fuel p
          | some p => Run.check fun s => s.freeField p "next")
      (Run.check fun s => s.extra n "next")

/-- The node after this one in document order, or null. -/
def next (n : NodeId) : Run Value := do
  let s ← get
  nextWithin (s.nodes.size + 1) n

/-- The first child, or null. -/
def first (s : Store) (n : NodeId) : Value := (s.children n).head?.getD .null

/-- The last child, or null. -/
def last (s : Store) (n : NodeId) : Value := (s.children n).getLast?.getD .null

/-- The node itself if it is marked as a scope, otherwise its parent. -/
def scope (s : Store) (n : NodeId) : Except Fault Value :=
  match s.entries? (s.node n).attr with
  | some es => .ok (if s.truthy ((es.find? (.text "is_scope")).getD .null) then .node n
      else s.parentValue n)
  | none =>
    match s.refusal (s.node n).attr "get" with
    | fault@(.notCallable _) => .error fault
    | _ => s.extra n "scope"

end SyntaxTree.Store
