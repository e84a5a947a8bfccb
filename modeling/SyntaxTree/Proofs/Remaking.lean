import SyntaxTree.Proofs.Pictures

/-!
# `Proofs.Remaking` — trees made anew from their maps

`rebuild` goes through nested maps as `toMap` makes them, and makes a node of each: first of the maps of the children,
and then of the map in which these are replaced by the nodes. It gives back the tree that the maps were made of, with
new nodes at the places (`rebuildWithin_remade`), if every extra attribute is one that construction keeps as such. What
is lost is only the difference between an empty list of children and none.

No name is ambiguous then: type and value come first, the extra attributes have other names, and the list of children
comes last (`Restorable.shownFields_eq`). New trees are made one by one, and a tree that is finished stays as it is
(`RemadeAll.cons`) until it is added to a node; then only the links of its top are different (`Remade.of_adopted`).
-/

namespace SyntaxTree

namespace Subtree

theorem MatchesAll.eq_nil_iff {R : NodeId → NodeId → Prop} {ts us : List Subtree} (h : MatchesAll R ts us) :
    ts = [] ↔ us = [] := by
  cases ts <;> cases us <;> simp_all [MatchesAll]

end Subtree

namespace Store

variable {s s' s'' s₀ s₁ : Store} {n c p : NodeId} {t u : Subtree} {ts us : List Subtree} {v w d : Value}
  {es fs : Entries Value} {key : Key} {o : ObjectId} {cs : List NodeId}

/-! ## Building -/

/-- Makes nodes of maps one by one. -/
def rebuildAll (rebuild : Value → Run NodeId) : List Value → Run (List Value)
  | [] => pure []
  | d :: ds => do
    let c ← rebuild d
    let rest ← rebuildAll rebuild ds
    return .node c :: rest

/-- Makes a node of a map, in which the members of the list of children are replaced by the nodes that are made of them;
down to a depth. -/
def rebuildWithin : Nat → Value → Run NodeId
  | 0, _ => throw .endless
  | fuel + 1, d => do
    let fields ← Run.check fun s => s.entriesIn d
    match fields.find? (.text "nodes") with
    | none => create .node { Construction.empty with value := d }
    | some list => do
      let members ← Run.check fun s => s.items list
      let nodes ← rebuildAll (rebuildWithin fuel) members
      let list ← Run.allocate (.collection .list nodes)
      let fields ← Run.allocate (.map (fields.put (.text "nodes") list))
      create .node { Construction.empty with value := fields }

/-- Makes a tree of nested maps. -/
def rebuild (d : Value) : Run NodeId := do
  let s ← get
  rebuildWithin (s.objects.size + 1) d

/-! ## What is shown of nodes that can be restored -/

/-- A node of the common class whose extra attributes are kept as such by construction. -/
structure Restorable (s : Store) (n : NodeId) : Prop where
  map : ∃ es, s.entries? (s.node n).attr = some es
  isMap : s.IsMap (s.attributes n)
  extra : ∀ k ∈ (s.attributes n).keys, IsExtra .node k

theorem IsExtra.counted_ne {cls : NodeClass} (h : IsExtra cls key) {name : String} (hname : name ∈ fieldNames) :
    key.counted ≠ .text name := fun heq => h.2 name hname (eq_text_of_counted heq)

/-- **The fields are shown one after the other**, and the list of children behind them. -/
theorem Restorable.shownFields_eq (h : s.Restorable n) :
    s.shownFields n = s.ownFields n ++ s.attributes n ∧ (s.shownFields n).find? (.text "nodes") = none := by
  have happend : s.shownFields n = s.ownFields n ++ s.attributes n := by
    refine Entries.putAll_eq_append ?_
    rw [Entries.keys, List.map_append, List.map_append]
    refine List.nodup_append.mpr ⟨(regular_ownFields s n).distinct, h.isMap.distinct, fun k hk k' hk' => ?_⟩
    obtain ⟨j, hj, rfl⟩ := List.mem_map.mp hk
    obtain ⟨j', hj', rfl⟩ := List.mem_map.mp hk'
    rcases mem_keys_ownFields hj with rfl | rfl
    · exact ((h.extra j' hj').counted_ne (by decide)).symm
    · exact ((h.extra j' hj').counted_ne (by decide)).symm
  refine ⟨happend, Entries.find?_eq_none fun k hk => ?_⟩
  rw [happend, Entries.keys, List.map_append] at hk
  rcases List.mem_append.mp hk with hk | hk
  · rcases mem_keys_ownFields hk with rfl | rfl
    · decide
    · decide
  · exact (h.extra k hk).counted_ne (by decide)

theorem Restorable.shownFields_eq_shownBy (h : s.Restorable n) :
    s.shownFields n = shownBy (s.node n).type (s.node n).value (s.attributes n) := by
  rw [h.shownFields_eq.1, ownFields, shownBy]

/-! ## Adding new nodes -/

/-- The nodes `cs` have been added to `p`: its list and their links are different, and nothing else. -/
structure Adopted (s s' : Store) (p : NodeId) (cs : List NodeId) : Prop where
  size : s'.nodes.size = s.nodes.size
  objects : s'.objects = s.objects
  children : s'.children p = s.children p ++ cs.map .node
  list : (s'.node p).nodes = none ↔ (s.node p).nodes = none ∧ cs = []
  record : ∃ nodes, s'.node p = { s.node p with nodes }
  others : ∀ m, m ≠ p → m ∉ cs → s'.node m = s.node m
  links : ∀ m, m ≠ p → ∃ parent hint, s'.node m = { s.node m with parent, hint }
  linked : ∀ b, s.LinkedFrom b → s'.LinkedFrom b

theorem adopted_appendAll (hp : p < s.nodes.size)
    (hcs : ∀ c ∈ cs, c < s.nodes.size ∧ c ≠ p ∧ (s.node c).parent = none) (hnodup : cs.Nodup) :
    s.Adopted (s.appendAll p (cs.map .node)) p cs := by
  induction cs generalizing s with
  | nil =>
      exact ⟨rfl, rfl, (List.append_nil _).symm, by simp [appendAll], ⟨_, rfl⟩, fun _ _ _ => rfl,
        fun _ _ => ⟨_, _, rfl⟩, fun _ h => h⟩
  | cons c cs ih =>
      obtain ⟨⟨hc, hne, hfree⟩, hcs⟩ := List.forall_mem_cons.mp hcs
      obtain ⟨hnot, hnodup⟩ := List.nodup_cons.mp hnodup
      have hsize := size_append s p (.node c)
      have hnode := node_append_node s hp hne
      have hrest : (s.append p (.node c)).Adopted ((s.append p (.node c)).appendAll p (cs.map .node)) p cs := by
        refine ih (hsize ▸ hp) (fun c' hc' => ?_) hnodup
        obtain ⟨hlt, hne', hfree'⟩ := hcs c' hc'
        refine ⟨hsize ▸ hlt, hne', ?_⟩
        rw [hnode, if_neg hne', if_neg fun heq : c' = c ∧ _ => hnot (heq.1 ▸ hc')]
        exact hfree'
      obtain ⟨nodes, hrecord⟩ := hrest.record
      rw [hnode, if_pos rfl] at hrecord
      refine ⟨hrest.size.trans hsize, hrest.objects, ?_, ?_, ⟨nodes, hrecord⟩, fun m hm hmem => ?_, fun m hm => ?_,
        fun b hb => hrest.linked b (hb.append hp hc hne hfree)⟩
      · show ((s.append p (.node c)).appendAll p (cs.map .node)).children p = _
        rw [hrest.children, children_append_self s _ hp, List.append_assoc]
        rfl
      · show (((s.append p (.node c)).appendAll p (cs.map .node)).node p).nodes = none ↔ _
        rw [hrest.list, hnode, if_pos rfl]
        simp
      · obtain ⟨hmc, hmem⟩ : m ≠ c ∧ m ∉ cs := by simpa using hmem
        exact (hrest.others m hm hmem).trans (by rw [hnode, if_neg hm, if_neg fun heq : m = c ∧ _ => hmc heq.1])
      · obtain ⟨parent, hint, hlinks⟩ := hrest.links m hm
        rw [hnode, if_neg hm] at hlinks
        split at hlinks
        · next heq => exact ⟨parent, hint, heq.1 ▸ hlinks⟩
        · exact ⟨parent, hint, hlinks⟩

/-! ## Trees made anew -/

/-- `c` in `s'` has the type, the value and the extra attributes of `n` in `s₀`, and children if `n` has any. -/
structure Restored (s₀ s' : Store) (n c : NodeId) : Prop where
  cls : (s'.node c).cls = .node
  type : (s'.node c).type = (s₀.node n).type
  value : (s'.node c).value = (s₀.node n).value
  attr : ∃ m, (s'.node c).attr = .object m ∧ s'.object m = .map (s₀.attributes n)
  nodes : (s'.node c).nodes = none ↔ s₀.children n = []

/-- Links and more objects do not matter. -/
theorem Restored.congr (h : s₀.Restored s n c) (hobjects : ∀ o, o < s.objects.size → s'.object o = s.object o)
    (hnode : ∃ parent hint, s'.node c = { s.node c with parent, hint }) : s₀.Restored s' n c := by
  obtain ⟨parent, hint, hnode⟩ := hnode
  obtain ⟨m, hattr, hm⟩ := h.attr
  refine ⟨?_, ?_, ?_, ⟨m, ?_, ?_⟩, ?_⟩
  · rw [hnode, ← h.cls]
  · rw [hnode, ← h.type]
  · rw [hnode, ← h.value]
  · rw [hnode, ← hattr]
  · rw [hobjects m (lt_size_of_object (hm ▸ fun heq => by cases heq)), hm]
  · rw [hnode]
    exact h.nodes

/-- Without children nothing is linked. -/
theorem linkedFrom_of_bare {b : NodeId} (h : ∀ q, b ≤ q → s.children q = []) : s.LinkedFrom b := fun q hq i d hd => by
  rw [h q hq] at hd
  cases hd

/-- From `s` to `s'` the tree `u` has been made, which is like the tree `t` in `s₀`. -/
structure Remade (s₀ s s' : Store) (t u : Subtree) : Prop extends Extends s s' where
  made : ∀ m ∈ u.preorder, s.nodes.size ≤ m ∧ m < s'.nodes.size
  shows : s'.Shows u
  matched : t.Matches (s₀.Restored s') u
  linked : s'.LinkedFrom s.nodes.size
  parent : (s'.node u.root).parent = none

/-- From `s` to `s'` the trees `us` have been made one by one. -/
structure RemadeAll (s₀ s s' : Store) (ts us : List Subtree) : Prop extends Extends s s' where
  made : ∀ u ∈ us, ∀ m ∈ u.preorder, s.nodes.size ≤ m ∧ m < s'.nodes.size
  shows : ∀ u ∈ us, s'.Shows u
  matched : Subtree.MatchesAll (s₀.Restored s') ts us
  linked : s'.LinkedFrom s.nodes.size
  parent : ∀ u ∈ us, (s'.node u.root).parent = none
  distinct : (us.map Subtree.root).Nodup

/-- There is nothing new for lack of trees. -/
theorem RemadeAll.nil (s₀ s : Store) : RemadeAll s₀ s s [] [] where
  toExtends := .refl s
  made := by simp
  shows := by simp
  matched := by rw [Subtree.MatchesAll]; trivial
  linked := linkedFrom_of_bare fun q hq => by rw [children, node_of_size_le s hq]; rfl
  parent := by simp
  distinct := List.nodup_nil

/-- What is made later leaves a tree as it is. -/
theorem RemadeAll.cons (h : Remade s₀ s s' t u) (hs : RemadeAll s₀ s' s'' ts us) :
    RemadeAll s₀ s s'' (t :: ts) (u :: us) where
  toExtends := h.toExtends.trans hs.toExtends
  made := by
    refine List.forall_mem_cons.mpr ⟨fun m hm => ?_, fun u' hu' m hm => ?_⟩
    · exact ⟨(h.made m hm).1, (h.made m hm).2.trans_le hs.size⟩
    · exact ⟨h.size.trans (hs.made u' hu' m hm).1, (hs.made u' hu' m hm).2⟩
  shows := by
    refine List.forall_mem_cons.mpr ⟨h.shows.congr fun m hm => ?_, hs.shows⟩
    rw [children, hs.node m (h.made m hm).2, children]
  matched := by
    rw [Subtree.MatchesAll]
    refine ⟨h.matched.mono fun n _ c hc hrestored => hrestored.congr hs.object ?_, hs.matched⟩
    exact ⟨(s'.node c).parent, (s'.node c).hint, hs.node c (h.made c hc).2⟩
  linked := h.linked.extends hs.toExtends hs.linked
  parent := by
    refine List.forall_mem_cons.mpr ⟨?_, hs.parent⟩
    rw [hs.node _ (h.made _ u.root_mem_preorder).2]
    exact h.parent
  distinct := by
    refine List.nodup_cons.mpr ⟨fun hmem => ?_, hs.distinct⟩
    obtain ⟨u', hu', heq⟩ := List.mem_map.mp hmem
    have hlater := (hs.made u' hu' u'.root u'.root_mem_preorder).1
    exact absurd (h.made u.root u.root_mem_preorder).2 (Nat.not_lt.mpr (heq ▸ hlater))

section Adding

variable {s₂ s₃ : Store} {branches : List Subtree}

/-- The tops of new trees can be added to a node that is made after them. -/
theorem RemadeAll.adopted (h : RemadeAll s₀ s s₁ branches us) (hs : s₁.Extends s₂)
    (hsize : s₁.nodes.size < s₂.nodes.size) :
    s₂.Adopted (s₂.appendAll s₁.nodes.size ((us.map Subtree.root).map .node)) s₁.nodes.size (us.map Subtree.root) := by
  refine adopted_appendAll hsize (fun c hc => ?_) h.distinct
  obtain ⟨u', hu', rfl⟩ := List.mem_map.mp hc
  have hlt := (h.made u' hu' _ u'.root_mem_preorder).2
  exact ⟨hlt.trans hsize, Nat.ne_of_lt hlt, by rw [hs.node _ hlt]; exact h.parent u' hu'⟩

/-- **A node to which new trees have been added is the top of a new tree.** -/
theorem Remade.of_adopted (h : RemadeAll s₀ s s₁ branches us) (hs : s₁.Extends s₂)
    (hsize : s₂.nodes.size = s₁.nodes.size + 1) (hbare : s₂.children s₁.nodes.size = [])
    (hfree : (s₂.node s₁.nodes.size).parent = none)
    (hadopted : s₂.Adopted s₃ s₁.nodes.size (us.map Subtree.root)) (hrestored : s₀.Restored s₃ n s₁.nodes.size) :
    Remade s₀ s s₃ (.node n branches) (.node s₁.nodes.size us) := by
  -- the nodes of the trees are there before, and only links of them change
  have hlinks (u' : Subtree) (hu' : u' ∈ us) {m : NodeId} (hm : m ∈ u'.preorder) :
      ∃ parent hint, s₃.node m = { s₁.node m with parent, hint } := by
    have hlt := (h.made u' hu' m hm).2
    exact hs.node m hlt ▸ hadopted.links m (Nat.ne_of_lt hlt)
  have hobject (o : ObjectId) (ho : o < s₁.objects.size) : s₃.object o = s₁.object o := by
    rw [object, hadopted.objects]
    exact hs.object o ho
  obtain ⟨nodes, hrecord⟩ := hadopted.record
  refine ⟨⟨?_, fun m hm => ?_, ?_, fun o ho => ?_⟩, fun m hm => ?_, ?_, ?_, ?_, ?_⟩
  · rw [hadopted.size, hsize]
    exact h.size.trans (Nat.le_succ _)
  · have hlt : m < s₁.nodes.size := hm.trans_le h.size
    rw [hadopted.others m (Nat.ne_of_lt hlt) fun hmem => ?_, hs.node m hlt, h.node m hm]
    obtain ⟨u', hu', rfl⟩ := List.mem_map.mp hmem
    exact absurd hm (Nat.not_lt.mpr (h.made u' hu' _ u'.root_mem_preorder).1)
  · rw [hadopted.objects]
    exact h.objects.trans hs.objects
  · exact (hobject o (ho.trans_le h.objects)).trans (h.object o ho)
  · rw [hadopted.size, hsize]
    rcases Subtree.mem_preorder_node.mp hm with rfl | ⟨u', hu', hm⟩
    · exact ⟨h.size, Nat.lt_succ_self _⟩
    · exact ⟨(h.made u' hu' m hm).1, Nat.lt_succ_of_lt (h.made u' hu' m hm).2⟩
  · refine .node ?_ fun u' hu' => (h.shows u' hu').congr fun m hm => ?_
    · rw [hadopted.children, hbare, List.nil_append, List.map_map]
      rfl
    · obtain ⟨parent, hint, hnode⟩ := hlinks u' hu' hm
      rw [children, hnode, children]
  · rw [Subtree.Matches]
    refine ⟨hrestored, h.matched.mono fun _ _ c hc hrestored => ?_⟩
    rw [Subtree.preorderAll_eq_flatMap, List.mem_flatMap] at hc
    obtain ⟨u', hu', hc⟩ := hc
    exact hrestored.congr hobject (hlinks u' hu' hc)
  · refine hadopted.linked _ (h.linked.extends hs (linkedFrom_of_bare fun q hq => ?_))
    rcases Nat.eq_or_lt_of_le hq with rfl | hlt
    · exact hbare
    · rw [children, node_of_size_le s₂ (hsize ▸ hlt)]
      rfl
  · show (s₃.node s₁.nodes.size).parent = none
    rw [hrecord]
    exact hfree

/-- **A node that is made from the fields that are shown, with new trees for its children, is the top of a new
tree.** -/
theorem Remade.of_fields (h : RemadeAll s₀ s s₁ branches us) (hs : s₁.Allocates s')
    (hn : s₀.children n = branches.map fun b => .node b.root) (hmap : s'.IsMap (s₀.attributes n)) :
    Remade s₀ s ((s'.withFields (s₀.node n).type (s₀.node n).value (s₀.attributes n)).appendAll s'.nodes.size
      ((us.map Subtree.root).map .node)) (.node n branches) (.node s'.nodes.size us) := by
  have hplace : s'.nodes.size = s₁.nodes.size := congrArg Array.size hs.nodes
  have hrecord := node_withFields s' (s₀.node n).type (s₀.node n).value (s₀.attributes n)
  have hsize := size_withFields s' (s₀.node n).type (s₀.node n).value (s₀.attributes n)
  have hextends := hs.toExtends.trans (extends_withFields s' (s₀.node n).type (s₀.node n).value (s₀.attributes n))
  have hobject := object_withFields s' (s₀.node n).type (s₀.node n).value (s₀.attributes n)
  rw [hmap.putEach_nil_self, Entries.putAll_eq_append hmap.distinct, List.nil_append] at hobject
  rw [hplace] at hrecord hsize ⊢
  have hadopted := h.adopted hextends (hsize ▸ Nat.lt_succ_self _)
  obtain ⟨nodes, hnode⟩ := hadopted.record
  rw [hrecord] at hnode
  refine .of_adopted h hextends hsize ?_ ?_ hadopted ⟨?_, ?_, ?_, ⟨s'.objects.size, ?_, ?_⟩, ?_⟩
  · rw [children, hrecord]
    rfl
  · rw [hrecord]
    rfl
  · rw [hnode]
    rfl
  · rw [hnode]
  · rw [hnode]
  · rw [hnode]
    rfl
  · rw [object, hadopted.objects]
    exact hobject
  · rw [hadopted.list, hrecord, hn, List.map_eq_nil_iff, List.map_eq_nil_iff, h.matched.eq_nil_iff]
    exact and_iff_right rfl

end Adding

/-! ## Building goes well -/

theorem items_list {vs : List Value} (h : s.object o = .collection .list vs) : s.items (.object o) = .ok vs := by
  simp [Store.items, object?, h]

theorem entriesIn_map (h : s.object o = .map es) : s.entriesIn (.object o) = .ok es := by
  rw [entriesIn, entries?, object?, h]

/-- Where a map lists children, they are replaced by nodes in a new map. -/
theorem rebuildWithin_nodes {p : ObjectId} {ds ws : List Value} {fuel : Nat}
    (ho : s.object o = .map (es.put (.text "nodes") (.object p))) (hp : s.object p = .collection .list ds)
    (hds : rebuildAll (rebuildWithin fuel) ds s = .ok ws s₁) :
    ∃ s₂, s₁.Allocates s₂ ∧ rebuildWithin (fuel + 1) (.object o) s =
        create .node { Construction.empty with value := .object (s₁.objects.size + 1) } s₂ ∧
      s₂.object (s₁.objects.size + 1) =
        .map ((es.put (.text "nodes") (.object p)).put (.text "nodes") (.object s₁.objects.size)) ∧
      s₂.object s₁.objects.size = .collection .list ws := by
  let s₂ := s₁.addObject (.collection .list ws)
  let fields := (es.put (.text "nodes") (.object p)).put (.text "nodes") (.object s₁.objects.size)
  have hs₃ := allocates_addObject s₂ (.map fields)
  have hplace : s₂.objects.size = s₁.objects.size + 1 := size_addObject s₁ _
  have hlist := object_of_extends hs₃.toExtends (object_addObject_self s₁ (.collection .list ws))
    fun heq => by cases heq
  refine ⟨s₂.addObject (.map fields), (allocates_addObject s₁ _).trans hs₃, ?_, ?_, hlist⟩
  · rw [rebuildWithin, Run.bind_of_ok (Run.check_of_ok (entriesIn_map ho)), Entries.find?_put_self, ← hplace]
    show (Run.check (fun s => s.items (.object p)) >>= _) s = _
    rw [Run.bind_of_ok (Run.check_of_ok (items_list hp)), Run.bind_of_ok hds]
    rfl
  · rw [← hplace]
    exact object_addObject_self s₂ _

mutual

/-- **From the map of a tree a tree is made that is like it.** -/
theorem rebuildWithin_remade : (t : Subtree) → ∀ {s : Store} {d : Value} {fuel : Nat}, s₀.Lasts s → s₀.Shows t →
    (∀ m ∈ t.preorder, s₀.Restorable m) → t.depth ≤ fuel → s.Written (s₀.outlineOf t) d →
    ∃ u s', rebuildWithin fuel d s = .ok u.root s' ∧ Remade s₀ s s' t u
  | .node n branches, s, d, fuel, hlasts, hshows, hrestorable, hfuel, hwritten => by
      obtain ⟨fuel, rfl⟩ : ∃ k, fuel = k + 1 := ⟨fuel - 1, by rw [Subtree.depth] at hfuel; omega⟩
      have hn := hrestorable n (Subtree.root_mem_preorder (.node n branches))
      have hchildren : s₀.children n = branches.map fun b => .node b.root := hshows.children
      have hfields := hn.shownFields_eq_shownBy
      have hnone := hn.shownFields_eq.2
      rw [outlineOf] at hwritten
      cases hnodes : (s₀.node n).nodes with
      | none =>
          rw [hnodes, Option.map_none, Written] at hwritten
          obtain ⟨o, rfl, ho⟩ := hwritten
          obtain rfl := hshows.branches_eq_nil hnodes
          refine ⟨.node s.nodes.size [], _, ?_, .of_fields (.nil s₀ s) (.refl s) hchildren (hn.isMap.mono hlasts)⟩
          rw [rebuildWithin, Run.bind_of_ok (Run.check_of_ok (entriesIn_map ho)), hnone]
          exact create_shownBy hn.extra (hn.isMap.mono hlasts).lasting (hfields ▸ ho)
      | some l =>
          rw [hnodes, Option.map_some, Written] at hwritten
          obtain ⟨o, p, items, rfl, ho, hp, hitems⟩ := hwritten
          have hnames : (s₀.shownFields n).put (.text "nodes") (.object p) =
              s₀.shownFields n ++ [(.text "nodes", .object p)] := Entries.put_of_find?_eq_none hnone
          rw [Subtree.depth, Nat.succ_le_succ_iff] at hfuel
          obtain ⟨us, s₁, hus, hremade⟩ := rebuildAll_remade branches hlasts (fun b hb => hshows.branch hb)
            (fun b hb => hrestorable b (List.mem_cons_of_mem n hb)) hfuel hitems
          obtain ⟨s₂, hs₂, hrun, hmap, hlist⟩ := rebuildWithin_nodes ho hp hus
          rw [hnames, Entries.put_append_self hnone, hfields] at hmap
          have hattributes := hn.isMap.mono (hlasts.trans (.of_extends (hremade.toExtends.trans hs₂.toExtends)))
          refine ⟨.node s₂.nodes.size us, _, ?_, .of_fields hremade hs₂ hchildren hattributes⟩
          rw [hrun]
          refine create_shownBy_nodes hn.extra hattributes.lasting hmap ?_ (fun heq => by cases heq) fun w hw => ?_
          · exact items_of_extends (extends_withFields s₂ _ _ _) (items_list hlist)
          · obtain ⟨c, -, rfl⟩ := List.mem_map.mp hw
            exact ⟨c, rfl⟩

theorem rebuildAll_remade : (ts : List Subtree) → ∀ {s : Store} {ds : List Value} {fuel : Nat}, s₀.Lasts s →
    (∀ t ∈ ts, s₀.Shows t) → (∀ m ∈ Subtree.preorderAll ts, s₀.Restorable m) → Subtree.depthAll ts ≤ fuel →
    s.WrittenAll (s₀.outlinesOf ts) ds →
    ∃ us s', rebuildAll (rebuildWithin fuel) ds s = .ok ((us.map Subtree.root).map .node) s' ∧ RemadeAll s₀ s s' ts us
  | [], s, ds, fuel, _, _, _, _, hwritten => by
      rw [outlinesOf, WrittenAll] at hwritten
      subst hwritten
      exact ⟨[], s, rfl, .nil s₀ s⟩
  | t :: ts, s, ds, fuel, hlasts, hshows, hrestorable, hfuel, hwritten => by
      rw [outlinesOf, WrittenAll] at hwritten
      obtain ⟨d, ds, rfl, hd, hds⟩ := hwritten
      obtain ⟨ht, hts⟩ := List.forall_mem_cons.mp hshows
      rw [Subtree.depthAll, Nat.max_le] at hfuel
      rw [Subtree.preorderAll] at hrestorable
      obtain ⟨u, s₁, hu, hremade⟩ := rebuildWithin_remade t hlasts ht
        (fun m hm => hrestorable m (List.mem_append_left _ hm)) hfuel.1 hd
      obtain ⟨us, s₂, hus, hremades⟩ := rebuildAll_remade ts (hlasts.trans (.of_extends hremade.toExtends)) hts
        (fun m hm => hrestorable m (List.mem_append_right _ hm)) hfuel.2 (hds.mono hremade.toExtends _)
      refine ⟨u :: us, s₂, ?_, .cons hremade hremades⟩
      rw [rebuildAll, Run.bind_of_ok hu, Run.bind_of_ok hus]
      rfl

end

end Store
end SyntaxTree
