import SyntaxTree.Node.Construction
import SyntaxTree.Proofs.Mutation

/-!
# `Proofs.Construction` — what the making of a node touches

A node is made in the first place that is free, with a map of its own for the extra attributes. While
fields are merged into it (`Filling`) nothing else changes, whatever the fields are and whether or not one
of them is refused. Only the last step reaches out: the children are added, and each of them is linked to
the new node.

By then every child has been checked, and adding children makes none of them less of a node; so the last
step does not fail half way (`pushAll_eq`).
-/

namespace SyntaxTree
namespace Store

variable {s s' s'' : Store}

/-- Every node of `s` is in `s'` what it was, and every map has the entries it had. -/
structure Keeps (s s' : Store) : Prop where
  node : ∀ n, n < s.nodes.size → s'.node n = s.node n
  entries : ∀ o, o < s.objects.size → s'.entries? (.object o) = s.entries? (.object o)

theorem Keeps.refl (s : Store) : s.Keeps s := ⟨fun _ _ => rfl, fun _ _ => rfl⟩

/-- Every node and every object of `s` is in `s'` what it was. -/
structure Extends (s s' : Store) : Prop where
  size : s.nodes.size ≤ s'.nodes.size
  node : ∀ n, n < s.nodes.size → s'.node n = s.node n
  objects : s.objects.size ≤ s'.objects.size
  object : ∀ o, o < s.objects.size → s'.object o = s.object o

namespace Extends

theorem refl (s : Store) : s.Extends s := ⟨Nat.le_refl _, fun _ _ => rfl, Nat.le_refl _, fun _ _ => rfl⟩

theorem trans (h : s.Extends s') (h' : s'.Extends s'') : s.Extends s'' where
  size := Nat.le_trans h.size h'.size
  node n hn := (h'.node n (Nat.lt_of_lt_of_le hn h.size)).trans (h.node n hn)
  objects := Nat.le_trans h.objects h'.objects
  object o ho := (h'.object o (Nat.lt_of_lt_of_le ho h.objects)).trans (h.object o ho)

theorem keeps (h : s.Extends s') : s.Keeps s' where
  node := h.node
  entries o ho := by rw [entries?, entries?, object?, object?, h.object o ho]

theorem addObject (s : Store) (x : Object) : s.Extends (s.addObject x) where
  size := Nat.le_refl _
  node _ _ := rfl
  objects := by simp [Store.addObject]
  object _ ho := object_addObject_of_lt s x ho

theorem addNode (s : Store) (r : NodeRecord) : s.Extends (s.addNode r) where
  size := by simp
  node _ hn := node_addNode_of_lt s r hn
  objects := Nat.le_refl _
  object _ _ := rfl

/-- A change of a node that came later. -/
theorem updateNode (h : s.Extends s') {n : NodeId} (hn : s.nodes.size ≤ n) (f : NodeRecord → NodeRecord) :
    s.Extends (s'.updateNode n f) where
  size := by rw [size_updateNode]; exact h.size
  node m hm := by
    rw [node_updateNode_of_ne s' f (Nat.ne_of_lt (Nat.lt_of_lt_of_le hm hn)), h.node m hm]
  objects := h.objects
  object := h.object

/-- A change of an object that came later. -/
theorem updateObject (h : s.Extends s') {o : ObjectId} (ho : s.objects.size ≤ o) (f : Object → Object) :
    s.Extends (s'.updateObject o f) where
  size := h.size
  node := h.node
  objects := by
    rw [Store.updateObject, Array.size_modify]
    exact h.objects
  object p hp := by
    rw [object_updateObject_of_ne s' f (Nat.ne_of_lt (Nat.lt_of_lt_of_le hp ho)), h.object p hp]

end Extends

theorem object_of_extends {o : ObjectId} {x : Object} (hs : s.Extends s') (h : s.object o = x) (hx : x ≠ .plain) :
    s'.object o = x := by
  rw [hs.object o (lt_size_of_object (h ▸ hx)), h]

/-- What could be gone through can be gone through later on, with the same items. -/
theorem items_of_extends (hs : s.Extends s') {v : Value} {vs : List Value} (h : s.items v = .ok vs) :
    s'.items v = .ok vs := by
  cases v with
  | object o =>
      cases ho : s.object o with
      | collection shape held =>
          have ho' := object_of_extends hs ho (fun heq => by cases heq)
          simpa [items, object?, ho, ho'] using h
      | map es =>
          have ho' := object_of_extends hs ho (fun heq => by cases heq)
          simpa [items, object?, ho, ho'] using h
      | _ => simp [items, object?, ho] at h
  | text _ => exact h
  | bytes _ => exact h
  | _ => cases h

/-- `s'` has one more node than `s`, which has its own map for attributes and no children so far. -/
structure Filling (s s' : Store) : Prop extends Extends s s' where
  one : s'.nodes.size = s.nodes.size + 1
  attr : (s'.node s.nodes.size).attr = .object s.objects.size
  childless : (s'.node s.nodes.size).nodes = none

namespace Filling

theorem keeps (h : s.Filling s') : s.Keeps s' := h.toExtends.keeps

theorem lt_size (h : s.Filling s') : s.nodes.size < s'.nodes.size := by
  rw [h.one]
  exact Nat.lt_succ_self _

theorem children (h : s.Filling s') : s'.children s.nodes.size = [] := by
  rw [Store.children, h.childless]
  rfl

/-- Changes of the new node that leave its attributes and its children alone. -/
theorem updateNode (h : s.Filling s') {f : NodeRecord → NodeRecord}
    (hf : ∀ r, (f r).attr = r.attr ∧ (f r).nodes = r.nodes) :
    s.Filling (s'.updateNode s.nodes.size f) where
  toExtends := h.toExtends.updateNode (Nat.le_refl _) f
  one := by rw [size_updateNode, h.one]
  attr := by rw [node_updateNode_self s' f h.lt_size, (hf _).1, h.attr]
  childless := by rw [node_updateNode_self s' f h.lt_size, (hf _).2, h.childless]

theorem note (h : s.Filling s') (r : DebugRecord) : s.Filling (s'.note r) :=
  ⟨⟨h.size, h.node, h.objects, h.object⟩, h.one, h.attr, h.childless⟩

/-- Changes of the map of the new node. -/
theorem updateObject (h : s.Filling s') (f : Object → Object) :
    s.Filling (s'.updateObject s.objects.size f) :=
  ⟨h.toExtends.updateObject (Nat.le_refl _) f, h.one, h.attr, h.childless⟩

end Filling

/-! ## The new node -/

/-- The store in which a new node has just been made. -/
def withBlank (s : Store) (cls : NodeClass) : Store :=
  (s.addObject (.map [])).addNode (.blank cls (.object s.objects.size))

theorem blank_eq (s : Store) (cls : NodeClass) : blank cls s = .ok s.nodes.size (s.withBlank cls) := rfl

theorem node_withBlank (s : Store) (cls : NodeClass) :
    (s.withBlank cls).node s.nodes.size = .blank cls (.object s.objects.size) :=
  node_addNode_self (s.addObject (.map [])) _

theorem extends_withBlank (s : Store) (cls : NodeClass) : s.Extends (s.withBlank cls) :=
  (Extends.addObject s _).trans (.addNode _ _)

theorem size_withBlank (s : Store) (cls : NodeClass) : (s.withBlank cls).nodes.size = s.nodes.size + 1 :=
  size_addNode (s.addObject (.map [])) _

theorem filling_withBlank (s : Store) (cls : NodeClass) : s.Filling (s.withBlank cls) where
  toExtends := extends_withBlank s cls
  one := size_withBlank s cls
  attr := by rw [node_withBlank]; rfl
  childless := by rw [node_withBlank]; rfl

/-! ## Merging fields -/

/-- Putting an item into a collection changes that collection and nothing else. -/
theorem putItem_ok {o : ObjectId} {key : Key} {item : Value}
    (h : s'.putItem (.object o) key item = .ok s'') : ∃ x, s'' = s'.updateObject o fun _ => x := by
  unfold putItem at h
  dsimp only at h
  split at h
  · cases h
    exact ⟨_, rfl⟩
  · next items _ =>
      cases hplace : s'.placeOf "list" items.length .placeOutOfRange key.value with
      | ok i => rw [hplace] at h; cases h; exact ⟨_, rfl⟩
      | error e => rw [hplace] at h; cases h
  · cases h

/-- Extra attributes stand in objects, so setting one changes no record of a node. -/
theorem nodes_setExtra {n : NodeId} {key : Key} {v : Value} (h : s.setExtra n key v = .ok s') :
    s'.nodes = s.nodes := by
  unfold setExtra at h
  cases hattr : (s.node n).attr with
  | object o =>
      rw [hattr] at h
      obtain ⟨x, rfl⟩ := putItem_ok h
      rfl
  | _ => rw [hattr] at h; cases h

theorem filling_assignExtra (s : Store) (key : Key) (v : Value) :
    Run.Preserves s.Filling (assignExtra s.nodes.size key v) := by
  intro s' h
  rw [assignExtra, Run.ends_bind, Run.ends_check]
  cases hput : s'.setExtra s.nodes.size key v with
  | ok s'' =>
      rw [setExtra, h.attr] at hput
      obtain ⟨x, rfl⟩ := putItem_ok hput
      exact h.updateObject _
  | error e => exact h

theorem filling_assignParent (s : Store) (v : Value) :
    Run.Preserves s.Filling (assignParent s.nodes.size v) := by
  unfold assignParent
  refine Run.Preserves.ite (fun _ => ?_) fun _ => (Run.Preserves.check _).bind fun _ => ?_
  · exact Run.Preserves.update fun s' h => h.updateNode fun _ => ⟨rfl, rfl⟩
  · exact Run.Preserves.update fun s' h => h.updateNode fun _ => ⟨rfl, rfl⟩

/-- `inv` is kept by all that merging fields into a node may do, apart from linking a parent. -/
structure Mergeable (inv : Store → Prop) (n : NodeId) : Prop where
  note : ∀ s r, inv s → inv (s.note r)
  type : ∀ s v, inv s → inv (s.updateNode n fun r => { r with type := v })
  value : ∀ s v, inv s → inv (s.updateNode n fun r => { r with value := v })
  extra : ∀ key v, Run.Preserves inv (assignExtra n key v)

theorem Mergeable.mergeField {inv : Store → Prop} {n : NodeId} (h : Mergeable inv n) (children : Value)
    {key : Key} {v : Value}
    (hparent : key = .text "parent" → v ≠ .null → Run.Preserves inv (assignParent n v)) :
    Run.Preserves inv (mergeField n children key v) := by
  unfold Store.mergeField
  refine Run.Preserves.get.bind fun t => ?_
  refine Run.Preserves.ite (fun _ => ?_) fun _ => ?_
  · exact (Run.Preserves.update fun s hs => h.note s _ hs).bind fun _ => .pure _
  -- one case for each name of a field, and one for what becomes an extra attribute
  split
  · exact (Run.Preserves.update fun s hs => h.type s v hs).bind fun _ => .pure _
  · exact (Run.Preserves.update fun s hs => h.value s v hs).bind fun _ => .pure _
  · exact (Run.Preserves.update fun s hs => h.value s v hs).bind fun _ => .pure _
  · exact .pure _
  · exact .pure _
  · refine Run.Preserves.ite (fun hv => ?_) fun _ => .pure _
    exact (hparent rfl hv).bind fun _ => .pure _
  · exact (h.extra _ v).bind fun _ => .pure _

theorem mergeable_filling (s : Store) : Mergeable s.Filling s.nodes.size where
  note _ r h := h.note r
  type _ _ h := h.updateNode fun _ => ⟨rfl, rfl⟩
  value _ _ h := h.updateNode fun _ => ⟨rfl, rfl⟩
  extra := filling_assignExtra s

/-- **Merging fields stays inside the new node.** -/
theorem filling_mergeEach (s : Store) (children : Value) (fields : Entries Value) :
    Run.Preserves s.Filling (mergeEach s.nodes.size children fields) := by
  induction fields generalizing children with
  | nil => exact .pure _
  | cons e fields ih =>
      refine Run.Preserves.bind ?_ fun children => ih children
      exact (mergeable_filling s).mergeField children fun _ _ => filling_assignParent s e.2

/-! ## Adding children -/

/-- The store with more children at the end. -/
def appendAll (s : Store) (n : NodeId) (vs : List Value) : Store :=
  vs.foldl (fun s v => s.append n v) s

theorem requireNodes_ok {action : String} {vs : List Value} :
    s.requireNodes action vs = .ok () ↔ ∀ v ∈ vs, s.isNode v = true := by
  induction vs with
  | nil => simp [requireNodes]
  | cons v vs ih =>
      rw [requireNodes, List.forall_mem_cons, ← ih, requireNode]
      by_cases hv : s.isNode v
      · simp [hv, bind, Except.bind]
      · simp [hv, bind, Except.bind]

/-- **Children that all pass for nodes are all added.** -/
theorem pushAll_eq {n : NodeId} {vs : List Value} (h : ∀ v ∈ vs, s.isNode v = true) :
    pushAll n vs s = .ok () (s.appendAll n vs) := by
  induction vs generalizing s with
  | nil => rfl
  | cons v vs ih =>
      have hpush : push n v s = .ok ((s.append n v).children n).length (s.append n v) := by
        have hcheck : s.requireNode "push" v = .ok () := by
          rw [requireNode, h v (List.mem_cons_self ..), if_pos rfl]
        rw [push, Run.bind_of_ok (Run.check_of_ok hcheck)]
        rfl
      rw [pushAll, Run.bind_of_ok hpush]
      exact ih fun w hw => (isNode_append s n v w).trans (h w (List.mem_cons_of_mem _ hw))

theorem children_appendAll {n : NodeId} (h : n < s.nodes.size) (vs : List Value) :
    (s.appendAll n vs).children n = s.children n ++ vs := by
  induction vs generalizing s with
  | nil => exact (List.append_nil _).symm
  | cons v vs ih =>
      show ((s.append n v).appendAll n vs).children n = _
      rw [ih (by rw [size_append]; exact h), children_append_self s v h, List.append_assoc]
      rfl

/-! ## The whole -/

theorem construct_map {n : NodeId} (given : Construction) {fields : Entries Value}
    (hmap : s.entries? given.value = some fields) :
    construct n given s = (mergeFields n fields >>= fun _ =>
      if given.parent ≠ .null then assignParent n given.parent else pure ()) s := by
  have hfill : fill n given s = (mergeFields n fields >>= fun _ => pure given.parent) s := by
    rw [fill, Run.get_bind, hmap]
  show EStateM.bind (fill n given) _ s = _
  rw [EStateM.bind, hfill]
  cases hmerge : mergeFields n fields s with
  | ok u t => rw [Run.bind_of_ok hmerge, Run.bind_of_ok hmerge, Run.pure_run]
  | error e t => rw [Run.bind_of_error hmerge, Run.bind_of_error hmerge]

end Store
end SyntaxTree
