import SyntaxTree.Node.Mutation
import SyntaxTree.Proofs.Run

/-!
# `Proofs.Mutation` — what adding and taking away change

A child that is added gets a parent and a hint; the list it is added to gets longer. A child that is taken
away keeps both, and the list gets shorter. No operation of this kind changes any other field of any node,
makes or changes a map, or decides what passes for a node.
-/

namespace SyntaxTree
namespace Store

/-- A field that a change keeps in every record is kept in every node. -/
theorem field_updateNode {α : Type} (field : NodeRecord → α) (s : Store) (n : NodeId)
    {f : NodeRecord → NodeRecord} (hf : ∀ r, field (f r) = field r) (m : NodeId) :
    field ((s.updateNode n f).node m) = field (s.node m) := by
  rw [node_updateNode]
  split
  · exact hf _
  · rfl

/-- A node with a parent has been made. -/
theorem lt_size_of_parent {s : Store} {n : NodeId} {v : Value} (h : (s.node n).parent = some v) : n < s.nodes.size := by
  refine Nat.lt_of_not_le fun hle => ?_
  rw [node_of_size_le s hle] at h
  cases h

theorem parentValue_eq_node {s : Store} {n p : NodeId} :
    s.parentValue n = .node p ↔ (s.node n).parent = some (.node p) := by
  rw [parentValue]
  cases (s.node n).parent with
  | none => exact ⟨fun h => (by cases h), fun h => (by cases h)⟩
  | some v => rw [Option.getD_some, Option.some.injEq]

@[simp] theorem parent_setNodes (s : Store) (n m : NodeId) (nodes : Option (List Value)) :
    ((s.setNodes n nodes).node m).parent = (s.node m).parent :=
  field_updateNode NodeRecord.parent s n (f := fun r => { r with nodes }) (fun _ => rfl) m

theorem hint_setNodes (s : Store) (n m : NodeId) (nodes : Option (List Value)) :
    ((s.setNodes n nodes).node m).hint = (s.node m).hint :=
  field_updateNode NodeRecord.hint s n (f := fun r => { r with nodes }) (fun _ => rfl) m

@[simp] theorem parent_setHint (s : Store) (n m : NodeId) (hint : Value) :
    ((s.setHint n hint).node m).parent = (s.node m).parent :=
  field_updateNode NodeRecord.parent s n (f := fun r => { r with hint }) (fun _ => rfl) m

@[simp] theorem nodes_setHint (s : Store) (n m : NodeId) (hint : Value) :
    ((s.setHint n hint).node m).nodes = (s.node m).nodes :=
  field_updateNode NodeRecord.nodes s n (f := fun r => { r with hint }) (fun _ => rfl) m

@[simp] theorem children_setParent (s : Store) (n m : NodeId) (parent : Option Value) :
    (s.setParent n parent).children m = s.children m :=
  congrArg (Option.getD · [])
    (field_updateNode NodeRecord.nodes s n (f := fun r => { r with parent }) (fun _ => rfl) m)

/-! ## Changes one after the other -/

theorem updateNode_congr {s : Store} {n : NodeId} {f g : NodeRecord → NodeRecord}
    (h : f (s.node n) = g (s.node n)) :
    s.updateNode n f = s.updateNode n g := by
  have hnodes : s.nodes.modify n f = s.nodes.modify n g := by
    refine Array.ext (by simp) fun i hi hi' => ?_
    rw [Array.getElem_modify, Array.getElem_modify]
    split
    · next heq =>
        subst heq
        rw [Array.size_modify] at hi
        rwa [node, Array.getD_eq_getD_getElem?, Array.getElem?_eq_getElem hi, Option.getD_some] at h
    · rfl
  rw [updateNode, hnodes]
  rfl

theorem updateNode_twice (s : Store) (n : NodeId) (f g : NodeRecord → NodeRecord) :
    (s.updateNode n f).updateNode n g = s.updateNode n fun r => g (f r) := by
  have hnodes : (s.nodes.modify n f).modify n g = s.nodes.modify n fun r => g (f r) := by
    refine Array.ext (by simp) fun i hi hi' => ?_
    rw [Array.getElem_modify, Array.getElem_modify, Array.getElem_modify]
    split <;> rfl
  rw [updateNode, updateNode, hnodes]
  rfl

theorem updateObject_same {s : Store} {o : ObjectId} {x : Object} (h : s.object o = x) :
    (s.updateObject o fun _ => x) = s := by
  have hobjects : s.objects.modify o (fun _ => x) = s.objects := by
    refine Array.ext (by simp) fun i hi hi' => ?_
    rw [Array.getElem_modify]
    split
    · next heq =>
        subst heq
        rw [← h, object, Array.getD_eq_getD_getElem?, Array.getElem?_eq_getElem hi', Option.getD_some]
    · rfl
  rw [updateObject, hobjects]

theorem updateObject_twice (s : Store) (o : ObjectId) (x y : Object) :
    ((s.updateObject o fun _ => x).updateObject o fun _ => y) = s.updateObject o fun _ => y := by
  have hobjects : (s.objects.modify o fun _ => x).modify o (fun _ => y) = s.objects.modify o fun _ => y := by
    refine Array.ext (by simp) fun i hi hi' => ?_
    rw [Array.getElem_modify, Array.getElem_modify, Array.getElem_modify]
    split <;> rfl
  rw [updateObject, updateObject, hobjects]
  rfl

/-! ## Adding -/

theorem size_append (s : Store) (n : NodeId) (child : Value) :
    (s.append n child).nodes.size = s.nodes.size := by
  unfold append
  rw [setNodes, size_updateNode, size_hintChild_linkParent]

/-- A node other than the new parent is changed by being added, and by nothing else. -/
theorem node_append (s : Store) {n m : NodeId} (child : Value) (hm : m ≠ n) :
    (s.append n child).node m =
      if child = .node m ∧ m < s.nodes.size then
        { s.node m with parent := some (.node n), hint := .int (s.children n).length }
      else s.node m := by
  unfold append
  rw [node_setNodes_of_ne _ _ hm]
  cases child with
  | node c =>
      show ((s.setParent c _).setHint c _).node m = _
      rw [setHint, node_updateNode, setParent, size_updateNode, node_updateNode]
      by_cases hc : m = c ∧ m < s.nodes.size
      · obtain ⟨rfl, hlt⟩ := hc
        rw [if_pos ⟨rfl, hlt⟩, if_pos ⟨rfl, hlt⟩, if_pos ⟨rfl, hlt⟩]
      · rw [if_neg hc, if_neg hc, if_neg fun h => hc ⟨(Value.node.inj h.1).symm, h.2⟩]
  | _ => exact (if_neg fun h => by cases h.1).symm

/-- What a store holds when one node has become a child of another one. -/
theorem node_append_node (s : Store) {p c : NodeId} (hp : p < s.nodes.size) (hne : c ≠ p) (m : NodeId) :
    (s.append p (.node c)).node m =
      if m = p then { s.node p with nodes := some (s.children p ++ [.node c]) }
      else if m = c ∧ c < s.nodes.size then
        { s.node c with parent := some (.node p), hint := .int (s.children p).length }
      else s.node m := by
  by_cases hm : m = p
  · subst hm
    have hlinked :
        ((s.setParent c (some (Value.node m))).setHint c (.int (s.children m).length)).node m = s.node m := by
      rw [setHint, node_updateNode_of_ne _ _ hne.symm, setParent, node_updateNode_of_ne _ _ hne.symm]
    have hsize := size_hintChild_linkParent s (Value.node c) (.int (s.children m).length) m
    rw [if_pos rfl, append, setNodes, node_updateNode_self _ _ (hsize ▸ hp)]
    show { ((s.setParent c (some (Value.node m))).setHint c (.int (s.children m).length)).node m with
      nodes := some (s.children m ++ [Value.node c]) } = _
    rw [hlinked]
  · rw [if_neg hm, node_append s _ hm]
    by_cases hc : m = c ∧ c < s.nodes.size
    · obtain ⟨rfl, hlt⟩ := hc
      rw [if_pos ⟨rfl, hlt⟩, if_pos ⟨rfl, hlt⟩]
    · rw [if_neg hc, if_neg fun h => hc ?_]
      obtain ⟨heq, hlt⟩ := h
      cases heq
      exact ⟨rfl, hlt⟩

/-- A field of an object that is no map changes no map. -/
theorem entries?_setFreeField (s : Store) (p : ObjectId) (name : String) (v : Value) (o : ObjectId) :
    (s.setFreeField p name v).entries? (.object o) = s.entries? (.object o) := by
  rw [entries?, entries?, object?, object?, setFreeField, object_updateObject]
  by_cases ho : o = p ∧ o < s.objects.size
  · rw [if_pos ho]
    cases s.object o <;> rfl
  · rw [if_neg ho]

/-- The fields that adding a child sets do not decide what passes for a node. -/
theorem isNode_setFreeField (s : Store) (o : ObjectId) {name : String} (v w : Value)
    (hname : name ≠ "__astnode__") : (s.setFreeField o name v).isNode w = s.isNode w := by
  have hkey : (Key.text "__astnode__").counted ≠ (Key.text name).counted := by
    rw [Key.counted_text, Key.counted_text]
    exact fun h => hname (Key.text.inj h).symm
  cases w with
  | object p =>
      rw [isNode, isNode, marker?, marker?, setFreeField, object_updateObject]
      by_cases hp : p = o ∧ p < s.objects.size
      · rw [if_pos hp]
        cases s.object p with
        | foreign cls marker fields => simp only [Object.mapFreeFields, Entries.find?_put_of_ne _ _ hkey]
        | wrapper t start fields => simp only [Object.mapFreeFields, Entries.find?_put_of_ne _ _ hkey]
        | _ => rfl
      · rw [if_neg hp]
  | _ => rfl

/-- Adding a child makes nothing more or less of a node. -/
theorem isNode_append (s : Store) (n : NodeId) (child v : Value) :
    (s.append n child).isNode v = s.isNode v := by
  have hnodes (t : Store) (nodes : Option (List Value)) : (t.setNodes n nodes).isNode v = t.isNode v := rfl
  unfold append
  rw [hnodes]
  cases child with
  | object o =>
      show ((s.setFreeField o "parent" _).setFreeField o "index" _).isNode v = _
      rw [isNode_setFreeField _ o _ v (by decide), isNode_setFreeField _ o _ v (by decide)]
  | _ => rfl

/-! ## Taking away -/

/-- Deleting fails for the lack of a list or of the position, and otherwise takes one place out. -/
theorem deleteAt_eq (s : Store) (n : NodeId) (position : Value) :
    deleteAt n position s =
      match (s.node n).nodes with
      | none => .error (.noItemDeletion "NoneType") s
      | some nodes =>
        match s.placeOf "list" nodes.length .placeOutOfRange position with
        | .ok i => .ok () (s.setNodes n (some (nodes.eraseIdx i)))
        | .error e => .error e s := by
  rw [deleteAt, Run.get_bind]
  cases (s.node n).nodes with
  | none => rfl
  | some nodes =>
      dsimp only
      cases hplace : s.placeOf "list" nodes.length .placeOutOfRange position with
      | ok i => rw [Run.bind_of_ok (Run.check_of_ok hplace)]; rfl
      | error e => rw [Run.bind_of_error (Run.check_of_error hplace)]

end Store
end SyntaxTree
