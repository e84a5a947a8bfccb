import SyntaxTree.Proofs.Heredity

/-!
# `Proofs.Fence` — a part of a store that nothing gets into

A fence encloses some of the nodes and objects of a store, its base. Everything else is outside, and so is
what can never change: scalars, and immutable objects that hold nothing else. The fence stands in a later
store if everything it encloses is what it was in the base, and nothing outside holds anything enclosed
(`Fence.Stands`).

Being outside does not depend on the store. So a value that was found outside stays there, whatever is done
in between, and one lemma for each change of a store says that a fence stands after it if it did before, and
if what is changed and what is put there are outside.
-/

namespace SyntaxTree

/-- No operation changes an object of this kind. -/
def Object.isFixed : Object → Bool
  | .collection .tuple _ | .collection .frozenSet _ => true
  | .location .. | .position .. | .matcher .. | .method .. | .plain => true
  | _ => false

/-- Objects of a fixed kind have no fields that can be set. -/
theorem Object.mapFreeFields_of_isFixed {x : Object} (hx : x.isFixed) (f : Entries Value → Entries Value) :
    x.mapFreeFields f = x := by
  cases x with
  | foreign cls marker fields => cases hx
  | wrapper tracker start fields => cases hx
  | _ => rfl

namespace NodeRecord

/-- What stands in a node. -/
def held (r : NodeRecord) : List Value :=
  r.nodes.getD [] ++ [r.type, r.value, r.attr, r.hint] ++ r.parent.toList

/-- Every value that stands in a node has the property. -/
structure All (property : Value → Prop) (r : NodeRecord) : Prop where
  children : ∀ v ∈ r.nodes.getD [], property v
  type : property r.type
  value : property r.value
  attr : property r.attr
  hint : property r.hint
  parent : ∀ p, r.parent = some p → property p

theorem all_of_held {property : Value → Prop} {r : NodeRecord} (h : ∀ v ∈ r.held, property v) : r.All property where
  children v hv := h v (by simp [held, hv])
  type := h _ (by simp [held])
  value := h _ (by simp [held])
  attr := h _ (by simp [held])
  hint := h _ (by simp [held])
  parent p hp := h p (by simp [held, hp])

/-- A fresh record holds nothing but the map of its attributes. -/
theorem all_blank {property : Value → Prop} {cls : NodeClass} {attr : Value}
    (hscalar : ∀ v, v.isLink = false → property v) (hattr : property attr) :
    (NodeRecord.blank cls attr).All property where
  children v hv := by cases hv
  type := hscalar _ rfl
  value := hscalar _ rfl
  attr := hattr
  hint := hscalar _ rfl
  parent p hp := by cases hp

theorem All.mono {property property' : Value → Prop} {r : NodeRecord} (h : r.All property)
    (hmono : ∀ v, property v → property' v) : r.All property' :=
  ⟨fun v hv => hmono v (h.children v hv), hmono _ h.type, hmono _ h.value, hmono _ h.attr, hmono _ h.hint,
    fun p hp => hmono p (h.parent p hp)⟩

theorem All.held {property : Value → Prop} {r : NodeRecord} (h : r.All property) {v : Value} (hv : v ∈ r.held) :
    property v := by
  rw [NodeRecord.held, List.mem_append, List.mem_append] at hv
  rcases hv with (hchild | hfield) | hparent
  · exact h.children v hchild
  · simp only [List.mem_cons, List.not_mem_nil, or_false] at hfield
    rcases hfield with rfl | rfl | rfl | rfl
    · exact h.type
    · exact h.value
    · exact h.attr
    · exact h.hint
  · exact h.parent v (Option.mem_toList.mp hparent)

end NodeRecord

namespace Store

/-- What a value holds, if it is a node or an object. -/
def leads (s : Store) : Value → List Value
  | .node n => (s.node n).held
  | .object o => contained (s.object o)
  | _ => []

/-- The value is a node or an object that has been made. -/
def Has (s : Store) : Value → Prop
  | .node n => n < s.nodes.size
  | .object o => o < s.objects.size
  | _ => False

instance (s : Store) : (v : Value) → Decidable (s.Has v)
  | .node n => inferInstanceAs (Decidable (n < s.nodes.size))
  | .object o => inferInstanceAs (Decidable (o < s.objects.size))
  | .null | .bool _ | .int _ | .float _ | .text _ | .bytes _ | .cls _ | .pattern _ | .kind _ => .isFalse id

/-- The value cannot change, nor anything that it leads to: a scalar, or an object of a fixed kind that holds
nothing else. -/
inductive Frozen (s : Store) : Value → Prop
  | scalar {v : Value} : v.isLink = false → Frozen s v
  | object {o : ObjectId} : o < s.objects.size → (s.object o).isFixed →
      (∀ v ∈ contained (s.object o), Frozen s v) → Frozen s (.object o)

theorem Frozen.extends {s s' : Store} {v : Value} (h : s.Frozen v) (hs : s.Extends s') : s'.Frozen v := by
  induction h with
  | scalar hscalar => exact .scalar hscalar
  | @object o hlt hfixed _ ih =>
      have hsame := hs.object o hlt
      exact .object (Nat.lt_of_lt_of_le hlt hs.objects) (hsame ▸ hfixed) fun v hv => ih v (hsame ▸ hv)

theorem not_frozen_node (s : Store) (n : NodeId) : ¬ s.Frozen (.node n) := by
  intro h
  cases h with
  | scalar hscalar => cases hscalar

theorem Frozen.cases_object {s : Store} {o : ObjectId} (h : s.Frozen (.object o)) :
    o < s.objects.size ∧ (s.object o).isFixed ∧ ∀ v ∈ contained (s.object o), s.Frozen v := by
  cases h with
  | scalar hscalar => cases hscalar
  | object hlt hfixed hall => exact ⟨hlt, hfixed, hall⟩

theorem inherited_frozen (s : Store) : s.Inherited s.Frozen where
  scalar _ := .scalar
  contained _ h := h.cases_object.2.2

end Store

/-! ## Fences -/

/-- A fence around some of the nodes and objects of a store. -/
structure Fence where
  base : Store
  encloses : Value → Prop
  made : ∀ v, encloses v → base.Has v

namespace Fence

open Store

variable {F : Fence} {pending : ObjectId → Prop} {u : Store} {v w : Value} {n : NodeId} {o : ObjectId}

/-- The value is not enclosed, or it can never change. -/
def Outside (F : Fence) (v : Value) : Prop := ¬ F.encloses v ∨ F.base.Frozen v

/-- What is enclosed, or can never change, is what it was, and nothing outside holds anything else that is
enclosed, unless it is pending. -/
structure StandsBut (F : Fence) (pending : ObjectId → Prop) (u : Store) : Prop where
  nodes : F.base.nodes.size ≤ u.nodes.size
  objects : F.base.objects.size ≤ u.objects.size
  node : ∀ n, F.encloses (.node n) → u.node n = F.base.node n
  object : ∀ o, F.encloses (.object o) → u.object o = F.base.object o
  fixed : ∀ o, o < F.base.objects.size → (F.base.object o).isFixed → u.object o = F.base.object o
  fields : ∀ n, ¬ F.encloses (.node n) → (u.node n).All F.Outside
  contents : ∀ o, ¬ F.encloses (.object o) → ¬ pending o → ∀ v ∈ contained (u.object o), F.Outside v

/-- The fence stands. -/
abbrev Stands (F : Fence) (u : Store) : Prop := F.StandsBut (fun _ => False) u

/-- The fence around all that there is. -/
def around (s : Store) : Fence := ⟨s, s.Has, fun _ => id⟩

/-- The fence around what was made from `s` to `s'`. -/
def between (s s' : Store) : Fence := ⟨s', fun v => s'.Has v ∧ ¬ s.Has v, fun _ => And.left⟩

/-! ## Outside -/

theorem outside_scalar (h : v.isLink = false) : F.Outside v := Or.inr (.scalar h)

theorem outside_node : F.Outside (.node n) ↔ ¬ F.encloses (.node n) :=
  ⟨fun h => h.resolve_right (F.base.not_frozen_node n), Or.inl⟩

/-- A node that is made later is outside. -/
theorem outside_newNode (h : F.base.nodes.size ≤ n) : F.Outside (.node n) :=
  Or.inl fun henclosed => Nat.not_lt_of_le h (F.made _ henclosed)

/-- An object that is made later is outside. -/
theorem outside_newObject (h : F.base.objects.size ≤ o) : F.Outside (.object o) :=
  Or.inl fun henclosed => Nat.not_lt_of_le h (F.made _ henclosed)

theorem all_blank {cls : NodeClass} (hv : F.Outside v) : (NodeRecord.blank cls v).All F.Outside :=
  NodeRecord.all_blank (fun _ => outside_scalar) hv

namespace StandsBut

/-! ## What is held outside -/

theorem all (h : F.StandsBut pending u) (hn : F.Outside (.node n)) : (u.node n).All F.Outside :=
  h.fields n (outside_node.mp hn)

/-- What is outside and enclosed is an object that cannot change. -/
theorem unchanged (h : F.StandsBut pending u) (ho : F.base.Frozen (.object o)) :
    u.object o = F.base.object o := by
  obtain ⟨hlt, hfixed, -⟩ := ho.cases_object
  exact h.fixed o hlt hfixed

theorem contained (h : F.StandsBut pending u) (ho : F.Outside (.object o)) (hpending : ¬ pending o) :
    ∀ v ∈ contained (u.object o), F.Outside v := by
  rcases ho with hout | hfrozen
  · exact h.contents o hout hpending
  · intro v hv
    rw [h.unchanged hfrozen] at hv
    exact Or.inr (hfrozen.cases_object.2.2 v hv)

/-- What stands in an object outside is outside. -/
theorem inherited (h : F.Stands u) : u.Inherited F.Outside where
  scalar _ := outside_scalar
  contained _ ho := h.contained ho not_false

/-- What is outside leads to nothing but what is outside. -/
theorem reaches (h : F.Stands u) (hv : F.Outside v) (hw : Reaches u.leads [v] w) : F.Outside w := by
  induction hw with
  | root hmem =>
      rw [List.mem_singleton.mp hmem]
      exact hv
  | @step x w _ hmem ih =>
      cases x with
      | node n => exact (h.all ih).held hmem
      | object o => exact h.contained ih not_false w hmem
      | _ => cases hmem

/-! ## Changes -/

/-- More may be pending. -/
theorem weaken (h : F.StandsBut pending u) {pending' : ObjectId → Prop} (hpending : ∀ o, pending o → pending' o) :
    F.StandsBut pending' u :=
  { h with contents := fun o ho hnot => h.contents o ho fun hp => hnot (hpending o hp) }

theorem note (h : F.StandsBut pending u) (r : DebugRecord) : F.StandsBut pending (u.note r) :=
  ⟨h.nodes, h.objects, h.node, h.object, h.fixed, h.fields, h.contents⟩

/-- A node is made that holds things outside. -/
theorem addNode (h : F.StandsBut pending u) {r : NodeRecord} (hr : r.All F.Outside) :
    F.StandsBut pending (u.addNode r) where
  nodes := by
    rw [size_addNode]
    exact Nat.le_succ_of_le h.nodes
  objects := h.objects
  node n hn := by
    rw [node_addNode_of_lt u r (Nat.lt_of_lt_of_le (F.made _ hn) h.nodes), h.node n hn]
  object := h.object
  fixed := h.fixed
  fields n hn := by
    rcases Nat.lt_trichotomy n u.nodes.size with hlt | rfl | hgt
    · rw [node_addNode_of_lt u r hlt]
      exact h.fields n hn
    · rw [node_addNode_self]
      exact hr
    · rw [node_of_size_le _ (by rw [size_addNode]; exact hgt)]
      exact all_blank (outside_scalar rfl)
  contents := h.contents

/-- An object is made. What it holds is outside, or it is pending. -/
theorem addObject (h : F.StandsBut pending u) {x : Object}
    (hx : ¬ pending u.objects.size → ∀ v ∈ Store.contained x, F.Outside v) :
    F.StandsBut pending (u.addObject x) where
  nodes := h.nodes
  objects := by
    rw [size_addObject]
    exact Nat.le_succ_of_le h.objects
  node := h.node
  object o ho := by
    rw [object_addObject_of_lt u x (Nat.lt_of_lt_of_le (F.made _ ho) h.objects), h.object o ho]
  fixed o ho hfixed := by
    rw [object_addObject_of_lt u x (Nat.lt_of_lt_of_le ho h.objects), h.fixed o ho hfixed]
  fields := h.fields
  contents o ho hpending := by
    rcases Nat.lt_trichotomy o u.objects.size with hlt | rfl | hgt
    · rw [object_addObject_of_lt u x hlt]
      exact h.contents o ho hpending
    · rw [object_addObject_self]
      exact hx hpending
    · rw [object_of_size_le _ (by rw [size_addObject]; exact hgt)]
      intro v hv
      cases hv

/-- A node outside is changed, so that it holds things outside. -/
theorem updateNode (h : F.StandsBut pending u) (hn : F.Outside (.node n)) {f : NodeRecord → NodeRecord}
    (hf : (f (u.node n)).All F.Outside) : F.StandsBut pending (u.updateNode n f) where
  nodes := by
    rw [size_updateNode]
    exact h.nodes
  objects := h.objects
  node m hm := by
    have hne : m ≠ n := fun heq => outside_node.mp hn (heq ▸ hm)
    rw [node_updateNode_of_ne u f hne, h.node m hm]
  object := h.object
  fixed := h.fixed
  fields m hm := by
    rw [node_updateNode]
    split
    · next heq => rw [heq.1]; exact hf
    · exact h.fields m hm
  contents := h.contents

/-- An object outside is changed, so that it holds things outside, and is pending no longer. One of the base
that is of a fixed kind is left alone. -/
theorem updateObject {pending' : ObjectId → Prop} (h : F.StandsBut pending' u) (ho : F.Outside (.object o))
    (hpending : ∀ p, p ≠ o → pending' p → pending p) {f : Object → Object}
    (hfixed : o < F.base.objects.size → (u.object o).isFixed → f (u.object o) = u.object o)
    (hf : ∀ v ∈ Store.contained (f (u.object o)), F.Outside v) : F.StandsBut pending (u.updateObject o f) := by
  -- of what must not change, only an object of a fixed kind could be this one
  have hkept {p : ObjectId} (hlt : p < F.base.objects.size) (hsame : u.object p = F.base.object p)
      (hp : F.encloses (.object p) ∨ (F.base.object p).isFixed) :
      (u.updateObject o f).object p = F.base.object p := by
    by_cases hpo : p = o
    · subst hpo
      have hisFixed : (u.object p).isFixed := by
        rw [hsame]
        rcases hp with henclosed | hisFixed
        · exact (ho.resolve_left (not_not_intro henclosed)).cases_object.2.1
        · exact hisFixed
      rw [object_updateObject_self u f (Nat.lt_of_lt_of_le hlt h.objects), hfixed hlt hisFixed, hsame]
    · rw [object_updateObject_of_ne u f hpo, hsame]
  refine ⟨h.nodes, ?_, h.node, fun p hp => ?_, fun p hlt hp => ?_, h.fields, fun p hp hnot => ?_⟩
  · rw [Store.updateObject, Array.size_modify]
    exact h.objects
  · exact hkept (F.made _ hp) (h.object p hp) (Or.inl hp)
  · exact hkept hlt (h.fixed p hlt hp) (Or.inr hp)
  · by_cases hpo : p = o
    · subst hpo
      by_cases hlt : p < u.objects.size
      · rw [object_updateObject_self u f hlt]
        exact hf
      · rw [object_of_size_le _ (by rw [Store.updateObject, Array.size_modify]; exact Nat.le_of_not_lt hlt)]
        intro v hv
        cases hv
    · rw [object_updateObject_of_ne u f hpo]
      exact h.contents p hp fun hpending' => hnot (hpending p hpo hpending')

/-- A collection changes nothing but parent links, and none of a node that is enclosed. -/
theorem collect (h : F.StandsBut pending u) {inUse : List Value}
    (hspared : ∀ n, F.encloses (.node n) → ∀ p, (u.node n).parent = some p → p ∈ u.reachable inUse) :
    F.StandsBut pending (u.collect inUse) where
  nodes := by
    rw [size_collect]
    exact h.nodes
  objects := h.objects
  node n hn := by
    rw [node_collect, cutParent]
    split
    · next p hp => rw [if_pos (hspared n hn p hp), h.node n hn]
    · exact h.node n hn
  object := h.object
  fixed := h.fixed
  fields n hn := by
    rw [node_collect]
    have hall := h.fields n hn
    rcases cutParent_parent_or (u.reachable inUse) (u.node n) with hsame | hcut
    · rw [hsame]
      exact hall
    · rw [hcut]
      exact { hall with parent := fun p hp => by cases hp }
  contents := h.contents

end StandsBut
end Fence
end SyntaxTree
