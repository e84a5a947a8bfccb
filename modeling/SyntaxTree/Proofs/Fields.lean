import SyntaxTree.Proofs.Keys
import SyntaxTree.Proofs.Making

/-!
# `Proofs.Fields` — a node made from the fields that it shows

A map shows a type, a value unless it is null, extra attributes, and maybe a list of children (`shownBy`). The node
that is made from such a map has just these (`create_shownBy`): every name goes back to where it was read, because
no extra attribute has the name of a field (`IsExtra`).
-/

namespace SyntaxTree
namespace Store

variable {s s' : Store} {n : NodeId} {m o : ObjectId} {cls : NodeClass} {es fs : Entries Value} {key : Key}
  {v type value children : Value}

/-! ## Keys of extra attributes -/

/-- The names under which a map of fields gives something else than an extra attribute. -/
def fieldNames : List String := ["type", "value", "val", "nodes", "children", "parent"]

/-- What a map of fields gives under a key becomes an extra attribute. -/
def IsExtra (cls : NodeClass) (key : Key) : Prop :=
  isReservedKey cls key = false ∧ ∀ name ∈ fieldNames, key ≠ .text name

/-- Nothing but a text counts as a text. -/
theorem eq_text_of_counted {x : String} (h : key.counted = .text x) : key = .text x := by
  cases key with
  | other v =>
      -- what is counted as an integer is no text
      cases hv : v.toInt? with
      | none => rw [Key.counted, hv] at h; cases h
      | some i => rw [Key.counted, hv] at h; cases h
  | _ => exact h

/-! ## Merging one kind of field after the other -/

theorem mergeEach_append (n : NodeId) (children : Value) (xs ys : Entries Value) :
    mergeEach n children (xs ++ ys) = mergeEach n children xs >>= fun children => mergeEach n children ys := by
  induction xs generalizing children with
  | nil => rfl
  | cons x xs ih =>
      show (mergeField n children x.1 x.2 >>= fun children => mergeEach n children (xs ++ ys)) =
        (mergeField n children x.1 x.2 >>= fun children => mergeEach n children xs) >>= _
      rw [bind_assoc]
      simp only [ih]

theorem assignExtra_map (hattr : (s.node n).attr = .object m) (hm : s.object m = .map es) (key : Key) (v : Value) :
    assignExtra n key v s = .ok () (s.updateObject m fun _ => .map (es.put (s.keyAs es key) v)) := by
  have hput : s.setExtra n key v = .ok (s.updateObject m fun _ => .map (es.put (s.keyAs es key) v)) := by
    rw [setExtra, hattr]
    simp only [putItem, hm]
  rw [assignExtra, Run.bind_of_ok (Run.check_of_ok hput)]
  rfl

theorem mergeField_extra (hkey : IsExtra (s.node n).cls key) (hattr : (s.node n).attr = .object m)
    (hm : s.object m = .map es) (children v : Value) :
    mergeField n children key v s = .ok children (s.updateObject m fun _ => .map (es.put (s.keyAs es key) v)) := by
  unfold mergeField
  rw [Run.get_bind, if_neg (by rw [hkey.1]; exact Bool.false_ne_true)]
  have hnames (name : String) (hname : name ∈ fieldNames) : key ≠ .text name := hkey.2 name hname
  split
  · exact absurd rfl (hnames "type" (by decide))
  · exact absurd rfl (hnames "value" (by decide))
  · exact absurd rfl (hnames "val" (by decide))
  · exact absurd rfl (hnames "nodes" (by decide))
  · exact absurd rfl (hnames "children" (by decide))
  · exact absurd rfl (hnames "parent" (by decide))
  · rw [Run.bind_of_ok (assignExtra_map hattr hm key v)]
    rfl

/-- A change of a map is none of what can be a key. -/
theorem Lasts.updateMap (h : s.Lasts s') (hm : s'.object m = .map es) (x : Object) :
    s.Lasts (s'.updateObject m fun _ => x) :=
  h.updateObject m fun hlasting => by rw [hm] at hlasting; cases hlasting

/-- Extra attributes are put into the map of the node, from left to right. -/
theorem mergeEach_extras (hfs : ∀ k ∈ fs.keys, IsExtra (s.node n).cls k) (hattr : (s.node n).attr = .object m)
    (hm : s.object m = .map es) (hes : s.LastingKeys es) (hkeys : s.LastingKeys fs) (children : Value) :
    mergeEach n children fs s = .ok children (s.updateObject m fun _ => .map (s.putEach es fs)) := by
  induction fs generalizing s es with
  | nil =>
      rw [putEach_nil, updateObject_same hm]
      rfl
  | cons f fs ih =>
      obtain ⟨k, v⟩ := f
      obtain ⟨hk, hkeys⟩ := List.forall_mem_cons.mp hkeys
      obtain ⟨hextra, hfs⟩ := List.forall_mem_cons.mp hfs
      let es' := es.put (s.keyAs es k) v
      have hes' : s.LastingKeys es' := hes.put hk v
      have hlt : m < s.objects.size := lt_size_of_object (hm ▸ fun heq => by cases heq)
      have hlasts : s.Lasts (s.updateObject m fun _ => .map es') := (Lasts.refl s).updateMap hm _
      have hm' : (s.updateObject m fun _ => .map es').object m = .map es' := object_updateObject_self s _ hlt
      show (mergeField n children k v >>= fun children => mergeEach n children fs) s = _
      rw [Run.bind_of_ok (mergeField_extra hextra hattr hm children v),
        ih (s := s.updateObject m fun _ => .map es') hfs hattr hm' (hes'.mono hlasts) (LastingKeys.mono hkeys hlasts),
        updateObject_twice, hlasts.putEach_eq hes' hkeys, putEach_cons]

/-! ## Making a node -/

/-- The fields that show a type, a value and extra attributes; null is not shown as a value. -/
def shownBy (type value : Value) (extras : Entries Value) : Entries Value :=
  (if value = .null then [(.text "type", type)] else [(.text "type", type), (.text "value", value)]) ++ extras

/-- The store with a new node that has a type and a value. -/
def withOwn (s : Store) (type value : Value) : Store :=
  (s.withBlank .node).updateNode s.nodes.size fun r => { r with type, value }

/-- The store with a new node that has a type, a value and extra attributes. -/
def withFields (s : Store) (type value : Value) (extras : Entries Value) : Store :=
  (s.withOwn type value).updateObject s.objects.size fun _ => .map (s.putEach [] extras)

theorem node_withOwn (s : Store) (type value : Value) :
    (s.withOwn type value).node s.nodes.size =
      { NodeRecord.blank .node (.object s.objects.size) with type, value } := by
  rw [withOwn, node_updateNode_self _ _ (by rw [size_withBlank]; exact Nat.lt_succ_self _), node_withBlank]

theorem object_withOwn (s : Store) (type value : Value) :
    (s.withOwn type value).object s.objects.size = .map [] :=
  object_addObject_self s _

theorem extends_withOwn (s : Store) (type value : Value) : s.Extends (s.withOwn type value) :=
  (extends_withBlank s .node).updateNode (Nat.le_refl _) _

theorem size_withOwn (s : Store) (type value : Value) : (s.withOwn type value).nodes.size = s.nodes.size + 1 := by
  rw [withOwn, size_updateNode, size_withBlank]

theorem objects_withOwn (s : Store) (type value : Value) :
    (s.withOwn type value).objects.size = s.objects.size + 1 :=
  size_addObject s _

theorem node_withFields (s : Store) (type value : Value) (extras : Entries Value) :
    (s.withFields type value extras).node s.nodes.size =
      { NodeRecord.blank .node (.object s.objects.size) with type, value } :=
  node_withOwn s type value

theorem object_withFields (s : Store) (type value : Value) (extras : Entries Value) :
    (s.withFields type value extras).object s.objects.size = .map (s.putEach [] extras) :=
  object_updateObject_self _ _ (by rw [objects_withOwn]; exact Nat.lt_succ_self _)

theorem extends_withFields (s : Store) (type value : Value) (extras : Entries Value) :
    s.Extends (s.withFields type value extras) :=
  (extends_withOwn s type value).updateObject (Nat.le_refl _) _

theorem size_withFields (s : Store) (type value : Value) (extras : Entries Value) :
    (s.withFields type value extras).nodes.size = s.nodes.size + 1 :=
  size_withOwn s type value

/-- A name that the class does not reserve is read as what it means. -/
theorem mergeField_type (hcls : (s.node n).cls = .node) (children v : Value) :
    mergeField n children (.text "type") v s = .ok children (s.updateNode n fun r => { r with type := v }) := by
  unfold mergeField
  rw [Run.get_bind, hcls, if_neg (by decide)]
  rfl

theorem mergeField_value (hcls : (s.node n).cls = .node) (children v : Value) :
    mergeField n children (.text "value") v s = .ok children (s.updateNode n fun r => { r with value := v }) := by
  unfold mergeField
  rw [Run.get_bind, hcls, if_neg (by decide)]
  rfl

theorem mergeField_nodes (hcls : (s.node n).cls = .node) (children v : Value) :
    mergeField n children (.text "nodes") v s = .ok v s := by
  unfold mergeField
  rw [Run.get_bind, hcls, if_neg (by decide)]
  rfl

/-- What shows type and value sets them. -/
theorem mergeEach_own (s : Store) (type value children : Value) :
    mergeEach s.nodes.size children (shownBy type value []) (s.withBlank .node) =
      .ok children (s.withOwn type value) := by
  have hblank : ((s.withBlank .node).node s.nodes.size).cls = .node := by rw [node_withBlank]; rfl
  have htyped :
      (((s.withBlank .node).updateNode s.nodes.size fun r => { r with type }).node s.nodes.size).cls = .node := by
    rw [node_updateNode_self _ _ (by rw [size_withBlank]; exact Nat.lt_succ_self _), node_withBlank]
    rfl
  rw [shownBy, List.append_nil]
  split
  · next hnull =>
      have hsame : s.withOwn type value = (s.withBlank .node).updateNode s.nodes.size fun r => { r with type } :=
        updateNode_congr (by rw [node_withBlank, hnull]; rfl)
      show (mergeField _ children (.text "type") type >>= pure) _ = _
      rw [Run.bind_of_ok (mergeField_type hblank children type), hsame]
      rfl
  · show (mergeField _ children (.text "type") type >>= fun children =>
      mergeField _ children (.text "value") value >>= pure) _ = _
    rw [Run.bind_of_ok (mergeField_type hblank children type),
      Run.bind_of_ok (mergeField_value htyped children value), updateNode_twice]
    rfl

/-- Then the extra attributes are put into the new map. -/
theorem mergeEach_shownBy (hkeys : s.LastingKeys fs) (type value : Value) (hextras : ∀ k ∈ fs.keys, IsExtra .node k)
    (children : Value) :
    mergeEach s.nodes.size children (shownBy type value fs) (s.withBlank .node) =
      .ok children (s.withFields type value fs) := by
  have hsplit : shownBy type value fs = shownBy type value [] ++ fs := by rw [shownBy, shownBy, List.append_nil]
  have hcls : ((s.withOwn type value).node s.nodes.size).cls = .node := by rw [node_withOwn]; rfl
  have hattr : ((s.withOwn type value).node s.nodes.size).attr = .object s.objects.size := by rw [node_withOwn]; rfl
  rw [hsplit, mergeEach_append, Run.bind_of_ok (mergeEach_own s type value children)]
  have hlasts : s.Lasts (s.withOwn type value) := .of_extends (extends_withOwn s type value)
  rw [mergeEach_extras (hcls ▸ hextras) hattr (object_withOwn s type value) (.nil _) (hkeys.mono hlasts) children,
    hlasts.putEach_eq (.nil s) hkeys]
  rfl

theorem create_of_mergeFields (ho : s.object o = .map fs)
    (hmerge : mergeFields s.nodes.size fs (s.withBlank .node) = .ok () s') :
    create .node { Construction.empty with value := .object o } s = .ok s.nodes.size s' := by
  have hmap : (s.withBlank .node).entries? (.object o) = some fs := by
    have hkept := object_of_extends (extends_withBlank s .node) ho fun heq => by cases heq
    rw [entries?, object?, hkept]
  have hconstruct : construct s.nodes.size { Construction.empty with value := .object o } (s.withBlank .node) =
      .ok () s' := by
    rw [construct_map _ hmap, Run.bind_of_ok hmerge]
    rfl
  rw [create, createUnplaced]
  simp only [bind_assoc]
  rw [Run.bind_of_ok (blank_eq s .node), Run.bind_of_ok hconstruct]
  rfl

/-- **A node is made from the fields that show it**, without children. -/
theorem create_shownBy (hextras : ∀ k ∈ fs.keys, IsExtra .node k) (hkeys : s.LastingKeys fs)
    (ho : s.object o = .map (shownBy type value fs)) :
    create .node { Construction.empty with value := .object o } s =
      .ok s.nodes.size (s.withFields type value fs) := by
  refine create_of_mergeFields ho ?_
  rw [mergeFields, Run.bind_of_ok (mergeEach_shownBy hkeys type value hextras .null)]
  rfl

/-- **A node is made from the fields that show it**, and its children are added to it. -/
theorem create_shownBy_nodes (hextras : ∀ k ∈ fs.keys, IsExtra .node k) (hkeys : s.LastingKeys fs)
    (ho : s.object o = .map (shownBy type value fs ++ [(.text "nodes", v)])) {vs : List Value}
    (hvs : (s.withFields type value fs).items v = .ok vs) (hv : v ≠ .null) (hnodes : ∀ w ∈ vs, ∃ c, w = .node c) :
    create .node { Construction.empty with value := .object o } s =
      .ok s.nodes.size ((s.withFields type value fs).appendAll s.nodes.size vs) := by
  have hcls : ((s.withFields type value fs).node s.nodes.size).cls = .node := by rw [node_withFields]; rfl
  have hisNode : ∀ w ∈ vs, (s.withFields type value fs).isNode w = true := fun w hw => by
    obtain ⟨c, rfl⟩ := hnodes w hw
    rfl
  have heach : mergeEach s.nodes.size .null (shownBy type value fs ++ [(.text "nodes", v)]) (s.withBlank .node) =
      .ok v (s.withFields type value fs) := by
    rw [mergeEach_append, Run.bind_of_ok (mergeEach_shownBy hkeys type value hextras .null)]
    show (mergeField s.nodes.size .null (.text "nodes") v >>= pure) _ = _
    rw [Run.bind_of_ok (mergeField_nodes hcls .null v)]
    rfl
  refine create_of_mergeFields ho ?_
  rw [mergeFields, Run.bind_of_ok heach, if_pos hv, Run.bind_of_ok (Run.check_of_ok hvs),
    Run.bind_of_ok (Run.check_of_ok (requireNodes_ok.mpr hisNode)), pushAll_eq hisNode]

end Store
end SyntaxTree
