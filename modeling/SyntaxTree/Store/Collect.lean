import SyntaxTree.Store.Reach

/-!
# `Store.Collect` — cutting the links to what is gone

A node or object lives as long as it is reachable from the values that are still in use. Parent links
keep nothing alive: once a parent is gone, its children have none.
-/

namespace SyntaxTree.Store

/-- A node whose parent is not among the living has none. -/
def cutParent (alive : List Value) (r : NodeRecord) : NodeRecord :=
  match r.parent with
  | some p => if p ∈ alive then r else { r with parent := none }
  | none => r

/-- Lets go of all that the values in use do not lead to. -/
def collect (s : Store) (roots : List Value) : Store :=
  let alive := s.reachable roots
  { s with nodes := s.nodes.map (cutParent alive) }

/-- A collection changes nothing of a node but its parent. -/
theorem cutParent_parent_or (alive : List Value) (r : NodeRecord) :
    cutParent alive r = r ∨ cutParent alive r = { r with parent := none } := by
  unfold cutParent
  split
  · split
    · exact .inl rfl
    · exact .inr rfl
  · exact .inl rfl

/-- The parent that is left is the one of before, if that is among the living. -/
theorem parent_cutParent {alive : List Value} {r : NodeRecord} {p : Value} :
    (cutParent alive r).parent = some p ↔ r.parent = some p ∧ p ∈ alive := by
  unfold cutParent
  cases hparent : r.parent with
  | none => simp [hparent]
  | some q =>
    dsimp only
    by_cases hq : q ∈ alive
    · rw [if_pos hq, hparent]
      constructor
      · intro h
        cases h
        exact ⟨rfl, hq⟩
      · exact fun h => h.1
    · rw [if_neg hq]
      constructor
      · intro h
        cases h
      · rintro ⟨h, hp⟩
        cases h
        exact absurd hp hq

@[simp] theorem size_collect (s : Store) (roots : List Value) :
    (s.collect roots).nodes.size = s.nodes.size := by
  simp [collect]

theorem node_collect (s : Store) (roots : List Value) (n : NodeId) :
    (s.collect roots).node n = cutParent (s.reachable roots) (s.node n) := by
  by_cases hn : n < s.nodes.size
  · simp [collect, node, Array.getD_eq_getD_getElem?, hn]
  · have hle : s.nodes.size ≤ n := Nat.le_of_not_lt hn
    rw [node_of_size_le s hle, node_of_size_le _ (by rw [size_collect]; exact hle)]
    rfl

@[simp] theorem children_collect (s : Store) (roots : List Value) (n : NodeId) :
    (s.collect roots).children n = s.children n := by
  rw [children, children, node_collect]
  rcases cutParent_parent_or (s.reachable roots) (s.node n) with hsame | hcut
  · rw [hsame]
  · rw [hcut]

end SyntaxTree.Store
