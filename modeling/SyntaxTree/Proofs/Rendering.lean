import SyntaxTree.Proofs.Drawing
import SyntaxTree.Proofs.Liveness
import SyntaxTree.Proofs.WaysUp

/-!
# `Proofs.Rendering` — the tree of a rendered pattern

Building undoes rendering: the tree of a text that renders some items shows these items, a leaf for each character
and a group for each group, with its two braces for the first and the last child (`build_render`). The proof follows
the items. Whatever is open and whatever has been read before, reading an item adds one part to the group on top and
leaves the stack as it was (`readAll_render`); a group is opened, its items are read into it, and it is closed.

The tree shows its items as long as its root is in use. Where a node stands is asked of the node itself: the scope of
a leaf is its parent and that of a group the group, and a leaf is inside a group exactly if its parent is one.
-/

namespace SyntaxTree
namespace Brace

open Store

variable {s s' : Store} {n parent root : NodeId} {t : ObjectId} {c : Char} {f : Frame} {below : List Frame} {p : Part}

/-! ## Items and parts -/

mutual

/-- Only groups have braces. -/
def Item.Plain : Item → Prop
  | .char c => c ≠ opening ∧ c ≠ closing
  | .group items => PlainAll items

/-- None of some items has a brace but for its groups. -/
def PlainAll : List Item → Prop
  | [] => True
  | item :: items => item.Plain ∧ PlainAll items

end

mutual

/-- An item is drawn as a part: a character as a leaf, a group with its two braces around its items. -/
def Item.DrawnAs : Item → Part → Prop
  | .char c, p => ∃ n start, p = .leaf n c start
  | .group items, p => ∃ g a b start finish inner,
      p = .group g (.leaf a opening start :: inner ++ [.leaf b closing finish]) ∧ DrawnAsAll items inner

/-- Items are drawn as parts one by one. -/
def DrawnAsAll : List Item → List Part → Prop
  | [], ps => ps = []
  | item :: items, ps => ∃ p rest, ps = p :: rest ∧ item.DrawnAs p ∧ DrawnAsAll items rest

end

/-- An open group with more parts. -/
def Frame.addAll (f : Frame) (ps : List Part) : Frame := { f with parts := f.parts ++ ps }

mutual

/-- **Reading an item adds a part to the top**, and leaves what is open as it was; the tracker goes along. -/
theorem readAll_render : (item : Item) → ∀ {s : Store} {start : Cursor} {f : Frame} {below : List Frame},
    item.Plain → Follows s t start (f :: below) →
    ∃ q s', readAll ⟨(f :: below).map Frame.group, t⟩ item.render s = .ok ⟨(f :: below).map Frame.group, t⟩ s' ∧
      Follows s' t (start.walk item.render) (f.add q :: below) ∧ item.DrawnAs q
  | .char c, s, start, f, below, hplain, h => by
      obtain ⟨hopening, hclosing⟩ := hplain
      obtain ⟨n, s', hstep, hfollows⟩ := h.step_other hopening
      rw [if_neg hclosing] at hstep
      refine ⟨.leaf n c start, s', ?_, hfollows, n, start, rfl⟩
      show (step _ c >>= fun reader => readAll reader []) s = _
      rw [Run.bind_of_ok hstep]
      rfl
  | .group items, s, start, f, below, hplain, h => by
      obtain ⟨g, a, s₁, hopen, hfollows₁⟩ := h.step_opening
      obtain ⟨inner, s₂, hread, hfollows₂, hdrawn⟩ := readAll_renderAll items hplain hfollows₁
      let finish : Cursor := (start.step opening).walk (renderAll items)
      obtain ⟨b, s₃, hclose, hfollows₃⟩ := hfollows₂.step_other (c := closing) (by decide)
      rw [if_pos rfl] at hclose
      let q : Part := .group g (.leaf a opening start :: inner ++ [.leaf b closing finish])
      have hfollows : Follows s₃ t (finish.step closing) (f.add q :: below) :=
        ⟨hfollows₃.draws.close_group, hfollows₃.stands⟩
      have hclosed : readAll ⟨g :: (f :: below).map Frame.group, t⟩ [closing] s₂ =
          .ok ⟨(f :: below).map Frame.group, t⟩ s₃ := by
        show (step _ closing >>= fun reader => readAll reader []) s₂ = _
        exact (Run.bind_of_ok hclose).trans rfl
      have hwalk : start.walk (Item.group items).render = finish.step closing := by
        rw [Item.render, List.cons_append, Cursor.walk_cons, Cursor.walk_append]
        rfl
      refine ⟨q, s₃, ?_, hwalk ▸ hfollows, g, a, b, start, finish, inner, rfl, hdrawn⟩
      show (step _ opening >>= fun reader => readAll reader (renderAll items ++ [closing])) s = _
      rw [Run.bind_of_ok hopen, readAll_append]
      exact (Run.bind_of_ok hread).trans hclosed

/-- Reading items adds their parts to the top. -/
theorem readAll_renderAll : (items : List Item) → ∀ {s : Store} {start : Cursor} {f : Frame} {below : List Frame},
    PlainAll items → Follows s t start (f :: below) →
    ∃ qs s', readAll ⟨(f :: below).map Frame.group, t⟩ (renderAll items) s = .ok ⟨(f :: below).map Frame.group, t⟩ s' ∧
      Follows s' t (start.walk (renderAll items)) (f.addAll qs :: below) ∧ DrawnAsAll items qs
  | [], s, start, f, below, _, h => by
      refine ⟨[], s, rfl, ?_, rfl⟩
      rwa [Frame.addAll, List.append_nil]
  | item :: items, s, start, f, below, hplain, h => by
      obtain ⟨q, s₁, hfirst, hfollows₁, hdrawn⟩ := readAll_render item hplain.1 h
      obtain ⟨qs, s₂, hrest, hfollows₂, hdrawnAll⟩ := readAll_renderAll items hplain.2 hfollows₁
      refine ⟨q :: qs, s₂, ?_, ?_, q, qs, rfl, hdrawn, hdrawnAll⟩
      · rw [renderAll, readAll_append]
        exact (Run.bind_of_ok hfirst).trans hrest
      · have heq : (f.add q).addAll qs = f.addAll (q :: qs) := by simp [Frame.add, Frame.addAll]
        rw [renderAll, Cursor.walk_append]
        exact heq ▸ hfollows₂

end

/-! ## What the nodes of a tree answer -/

/-- The scope of a node that is no scope of its own is its parent. -/
theorem reads_scope_leaf {start : Cursor} (h : LeafAt s n c start) (hparent : (s.node n).parent = some (.node parent)) :
    s.Reads n "scope" (.node parent) := by
  obtain ⟨m, o, -, -, hattr, hm, -⟩ := h.attr
  have hscope : s.scope n = .ok (.node parent) := by
    simp [scope, entries?, object?, hattr, hm, Entries.find?, truthy, parentValue, hparent]
  rw [Reads, perform_read, readNode_scope, Run.recover_of_ok (Run.check_of_ok hscope)]
  rfl

/-- A group is its own scope. -/
theorem reads_scope_group {type : String} (h : GroupAt s n type) : s.Reads n "scope" (.node n) := by
  obtain ⟨m, hattr, hm⟩ := h.attr
  have hscope : s.scope n = .ok (.node n) := by
    simp [scope, entries?, object?, hattr, hm, Entries.find?, truthy]
  rw [Reads, perform_read, readNode_scope, Run.recover_of_ok (Run.check_of_ok hscope)]
  rfl

/-- A node answers whether it is inside a group. -/
def AnswersInside (s : Store) (n : NodeId) (inside : Bool) : Prop :=
  Run.outcome ((Action.isInside (.node n) (.text "brace")).perform s) = .ok (.bool inside)

/-- What is asked about a node is found out by climbing from its parent. -/
theorem answersInside_of_climb {inside : Bool} (hparent : (s.node n).parent = some (.node parent))
    (hclimb : ∀ fuel, s.someAncestor (.equals "brace") (fuel + 2) (.node parent) = .ok inside) :
    AnswersInside s n inside := by
  have hinside : s.isInside n (.text "brace") = .ok inside := by
    show s.someAncestor (.equals "brace") _ (s.parentValue n) = _
    rw [parentValue, hparent]
    exact hclimb _
  show Run.outcome ((.bool <$> Run.check fun s => s.isInside n (.text "brace") : Run Value) s) = _
  show Run.outcome (EStateM.map _ (Run.check fun s => s.isInside n (.text "brace")) s) = _
  rw [EStateM.map, Run.check_of_ok hinside]
  rfl

/-- What a group of a pattern holds is inside a group. -/
theorem answersInside_group (hparent : (s.node n).parent = some (.node parent)) (h : GroupAt s parent "brace") :
    AnswersInside s n true := by
  refine answersInside_of_climb hparent fun fuel => ?_
  rw [someAncestor_up (v := .node parent) rfl rfl, h.type]
  rfl

/-- What the root holds is inside no group. -/
theorem answersInside_root (hparent : (s.node n).parent = some (.node root)) (h : GroupAt s root "root")
    (hroot : (s.node root).parent = none) : AnswersInside s n false := by
  refine answersInside_of_climb hparent fun fuel => ?_
  rw [someAncestor_up (v := .node root) rfl rfl, h.type, parentValue, hroot]
  rfl

/-! ## The tree of some items -/

/-- A node is a leaf for a character in a group or below the root. -/
structure LeafIn (s : Store) (holder : NodeId) (inside : Bool) (type : String) (c : Char) (n : NodeId) : Prop where
  type : (s.node n).type = .text type
  value : (s.node n).value = .text (String.singleton c)
  nodes : (s.node n).nodes = none
  parent : (s.node n).parent = some (.node holder)
  scope : s.Reads n "scope" (.node holder)
  inside : AnswersInside s n inside

mutual

/-- A node below a parent shows an item: a character as a leaf, a group as a node whose children are its two braces
and, between them, what shows its items. -/
def Item.ShownBy (s : Store) (parent : NodeId) (inside : Bool) : Item → NodeId → Prop
  | .char c, n => LeafIn s parent inside (if c = ',' then "comma" else "text") c n
  | .group items, n => (s.node n).type = .text "brace" ∧ (s.node n).parent = some (.node parent) ∧
      s.Reads n "scope" (.node n) ∧ ∃ a ns b, s.children n = .node a :: ns.map .node ++ [.node b] ∧
        LeafIn s n true "brace.open" opening a ∧ ShownByAll s n true items ns ∧ LeafIn s n true "brace.close" closing b

/-- Nodes below a parent show some items, one by one. -/
def ShownByAll (s : Store) (parent : NodeId) (inside : Bool) : List Item → List NodeId → Prop
  | [], ns => ns = []
  | item :: items, ns => ∃ n rest, ns = n :: rest ∧ item.ShownBy s parent inside n ∧
      ShownByAll s parent inside items rest

end

theorem LeafIn.of_leafAt {inside : Bool} {start : Cursor} {type : String} (h : Drawn s parent (.leaf n c start))
    (hinside : ∀ m, (s.node m).parent = some (.node parent) → AnswersInside s m inside) (htype : tokenType c = type) :
    LeafIn s parent inside type c n := by
  cases h with
  | leaf hleaf hparent =>
      exact ⟨htype ▸ hleaf.type, hleaf.value, hleaf.nodes, hparent, reads_scope_leaf hleaf hparent, hinside n hparent⟩

mutual

/-- What is drawn as a part is shown by the node at its top. -/
theorem shownBy_of_drawn : (item : Item) → ∀ {parent : NodeId} {inside : Bool} {p : Part}, item.Plain →
    item.DrawnAs p → Drawn s parent p →
    (∀ m, (s.node m).parent = some (.node parent) → AnswersInside s m inside) → item.ShownBy s parent inside p.node
  | .char c, parent, inside, p, hplain, hdrawn, h, hinside => by
      obtain ⟨n, start, rfl⟩ := hdrawn
      refine LeafIn.of_leafAt h hinside ?_
      rw [tokenType, if_neg hplain.1, if_neg hplain.2]
  | .group items, parent, inside, p, hplain, hdrawn, h, hinside => by
      obtain ⟨g, a, b, start, finish, inner, rfl, hall⟩ := hdrawn
      cases h with
      | group hgroup hparent hchildren hparts =>
          have hin (m : NodeId) (hm : (s.node m).parent = some (.node g)) : AnswersInside s m true :=
            answersInside_group hm hgroup
          refine ⟨hgroup.type, hparent, reads_scope_group hgroup, a, inner.map Part.node, b, ?_, ?_, ?_, ?_⟩
          · rw [Part.node, hchildren]
            simp [Part.node]
          · exact LeafIn.of_leafAt (hparts (.leaf a opening start) (by simp)) hin rfl
          · exact shownByAll_of_drawn items hplain hall (fun p hp => hparts p (by simp [hp])) hin
          · exact LeafIn.of_leafAt (hparts (.leaf b closing finish) (by simp)) hin rfl

/-- What is drawn as parts is shown by the nodes at their tops. -/
theorem shownByAll_of_drawn : (items : List Item) → ∀ {parent : NodeId} {inside : Bool} {ps : List Part},
    PlainAll items → DrawnAsAll items ps → (∀ p ∈ ps, Drawn s parent p) →
    (∀ m, (s.node m).parent = some (.node parent) → AnswersInside s m inside) →
    ShownByAll s parent inside items (ps.map Part.node)
  | [], _, _, ps, _, hdrawn, _, _ => by
      obtain rfl : ps = [] := hdrawn
      rfl
  | item :: items, _, _, ps, hplain, hdrawn, h, hinside => by
      obtain ⟨p, rest, rfl, hfirst, hrest⟩ := hdrawn
      refine ⟨p.node, rest.map Part.node, rfl, ?_, ?_⟩
      · exact shownBy_of_drawn item hplain.1 hfirst (h p (List.mem_cons_self ..)) hinside
      · exact shownByAll_of_drawn items hplain.2 hrest (fun q hq => h q (List.mem_cons_of_mem _ hq)) hinside

end

/-! ## When the rest is let go -/

/-- A part of a tree in use stays as it is when what is not in use is let go. -/
theorem Drawn.collect {inUse : List Value} (h : Drawn s parent p) (hparent : Value.node parent ∈ s.reachable inUse)
    (hp : Value.node p.node ∈ s.reachable inUse) : Drawn (s.collect inUse) parent p := by
  -- a node keeps its parent, which is in use
  have hkept {n parent : NodeId} (hn : (s.node n).parent = some (.node parent))
      (hparent : Value.node parent ∈ s.reachable inUse) : (s.collect inUse).node n = s.node n := by
    rw [node_collect, cutParent, hn]
    exact if_pos hparent
  induction h with
  | leaf hleaf hn =>
      have hsame := hkept hn hparent
      exact .leaf (hleaf.mono (fun _ _ => rfl) (by rw [SameContents, hsame]; exact ⟨rfl, rfl, rfl⟩) (by rw [hsame]))
        (hsame ▸ hn)
  | group hgroup hn hchildren _ ih =>
      have hsame := hkept hn hparent
      refine .group (hgroup.mono (fun _ _ => rfl) (by rw [SameContents, hsame]; exact ⟨rfl, rfl, rfl⟩)) (hsame ▸ hn)
        ((children_collect ..).trans hchildren) fun q hq => ih q hq hp ?_
      exact child_reachable hp (hchildren ▸ List.mem_map_of_mem hq)

theorem Draws.shownByAll {items : List Item} {parts : List Part} (h : Draws s [⟨root, parts⟩]) (hplain : PlainAll items)
    (hdrawn : DrawnAsAll items parts) {inUse : List Value} (hroot : Value.node root ∈ inUse) :
    ShownByAll s root false items (parts.map Part.node) ∧
      ShownByAll (s.collect inUse) root false items (parts.map Part.node) := by
  obtain ⟨hgroup, hparent, hchildren, hparts⟩ := h.stacked.1
  have hsame : (s.collect inUse).node root = s.node root := by
    rw [node_collect, cutParent, hparent]
    rfl
  have hin : Value.node root ∈ s.reachable inUse :=
    (mem_reachable_iff s inUse _).mpr (.root (List.mem_filter.mpr ⟨hroot, rfl⟩))
  constructor
  · exact shownByAll_of_drawn items hplain hdrawn hparts fun m hm => answersInside_root hm hgroup hparent
  · refine shownByAll_of_drawn items hplain hdrawn (fun q hq => (hparts q hq).collect hin ?_) fun m hm =>
      answersInside_root hm (hgroup.mono (fun _ _ => rfl) ?_) (hsame ▸ hparent)
    · refine child_reachable hin (hchildren ▸ ?_)
      exact List.mem_map_of_mem (List.mem_append_left _ (List.mem_map_of_mem hq))
    · rw [SameContents, hsame]
      exact ⟨rfl, rfl, rfl⟩

/-! ## Building -/

/-- **Building undoes rendering.** The tree of the text of some items shows these items below its root, also after
everything has been let go that the root does not hold. -/
theorem build_render (s : Store) {items : List Item} (h : PlainAll items) :
    ∃ root s' ns, build (String.ofList (renderAll items)) s = .ok root s' ∧ (s'.node root).type = .text "root" ∧
      s'.children root = ns.map .node ∧ ShownByAll s' root false items ns ∧
      ∀ inUse, Value.node root ∈ inUse → ShownByAll (s'.collect inUse) root false items ns := by
  obtain ⟨s₁, hfollows₁, hbegin⟩ := begin_eq s
  obtain ⟨parts, s', hread, hfollows, hdrawn⟩ := readAll_renderAll items h hfollows₁
  have hdraws := hfollows.draws
  have hbuild : build (String.ofList (renderAll items)) s = .ok s.nodes.size s' := by
    rw [build, hbegin, String.toList_ofList]
    exact (Run.bind_of_ok hread).trans rfl
  obtain ⟨hgroup, -, hchildren, -⟩ := hdraws.stacked.1
  refine ⟨s.nodes.size, s', parts.map Part.node, hbuild, hgroup.type, ?_, ?_, fun inUse hroot => ?_⟩
  · rw [List.append_nil] at hchildren
    exact hchildren
  · exact (hdraws.shownByAll h hdrawn (List.mem_singleton_self _)).1
  · exact (hdraws.shownByAll h hdrawn hroot).2

/-- A pattern with a group in a group. -/
def nestedItems : List Item := [.char 'a', .group [.char ',', .group [], .char '\n'], .char 'd']

theorem build_render_nested : PlainAll nestedItems ∧
    ∃ root s' ns, build "a\x7b,\x7b\x7d\n\x7dd" .empty = .ok root s' ∧ (s'.node root).type = .text "root" ∧
      s'.children root = ns.map .node ∧ ShownByAll s' root false nestedItems ns := by
  have hplain : PlainAll nestedItems := by simp [nestedItems, PlainAll, Item.Plain, opening, closing]
  obtain ⟨root, s', ns, hbuild, htype, hchildren, hshown, -⟩ := build_render .empty hplain
  exact ⟨hplain, root, s', ns, hbuild, htype, hchildren, hshown⟩

end Brace
end SyntaxTree
