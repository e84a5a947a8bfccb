import SyntaxTree.Brace.Build
import SyntaxTree.Proofs.Fields
import SyntaxTree.Proofs.Spans

/-!
# `Proofs.Drawing` — how the tree of a pattern grows

The reader of a pattern adds every leaf to the group on top of its stack, so the stack is the rightmost path of the
tree. `Draws` says so: each open group holds the parts that are finished and then, as its last child, the group that
is open above it. A leaf is one more finished part of the top (`Draws.pushLeaf`), a brace that opens puts a group
without parts on top (`Draws.open_group`), and a brace that closes makes the top a finished part of the group below,
for which the store need not change at all (`Draws.close_group`).

Later changes touch only the open groups and the tracker, so what is finished stays as it is. The tracker stands
behind what was read (`Follows`): consuming a character moves it past that, with a wrapper that begins before
(`step_eq`), and the leaf is stamped with both places (`newLeaf_ok`).
-/

namespace SyntaxTree

namespace Brace

open Store

variable {s s' : Store} {n p top : NodeId} {t w : ObjectId} {c : Char} {start : Cursor}

/-! ## What single nodes are -/

/-- A leaf for a character, with its place in the pattern. -/
structure LeafAt (s : Store) (n : NodeId) (c : Char) (start : Cursor) : Prop where
  type : (s.node n).type = .text (tokenType c)
  value : (s.node n).value = .text (String.singleton c)
  nodes : (s.node n).nodes = none
  attr : ∃ m o a b, (s.node n).attr = .object m ∧ s.object m = .map [(.text "position", .object o)] ∧
    s.object o = .position (.object a) (.object b) (.text sourceName) ∧ s.Located a start ∧ s.Located b (start.step c)

/-- A group, which makes its own scope. -/
structure GroupAt (s : Store) (n : NodeId) (type : String) : Prop where
  type : (s.node n).type = .text type
  attr : ∃ m, (s.node n).attr = .object m ∧ s.object m = .map [(.text "is_scope", .bool true)]

/-- What is there and stays what it is: trackers move on. -/
def isSettled : Object → Bool
  | .tracker .. | .plain => false
  | _ => true

/-- The objects of before are what they were, but for trackers. -/
def SameObjects (s s' : Store) : Prop := ∀ o, isSettled (s.object o) = true → s'.object o = s.object o

/-- The record of a node is what it was, but for what says where it stands. -/
def SameContents (s s' : Store) (n : NodeId) : Prop :=
  (s'.node n).type = (s.node n).type ∧ (s'.node n).value = (s.node n).value ∧ (s'.node n).attr = (s.node n).attr

theorem SameObjects.object {o : ObjectId} {x : Object} (h : SameObjects s s') (ho : s.object o = x)
    (hx : isSettled x = true) : s'.object o = x :=
  (h o (ho ▸ hx)).trans ho

theorem SameObjects.of_extends (h : s.Extends s') : SameObjects s s' := fun o ho =>
  h.object o (lt_size_of_object fun hplain => by rw [hplain] at ho; cases ho)

theorem SameObjects.trans {s'' : Store} (h : SameObjects s s') (h' : SameObjects s' s'') : SameObjects s s'' :=
  fun o ho => (h' o (by rwa [h o ho])).trans (h o ho)

theorem SameObjects.of_moved {source : Value} (h : Moved t s s') (ht : s.StandsAt t source start) :
    SameObjects s s' := fun o ho => h.object o fun heq => by
  rw [heq, ht] at ho
  cases ho

theorem LeafAt.mono (h : LeafAt s n c start) (hs : SameObjects s s') (hn : SameContents s s' n)
    (hnodes : (s'.node n).nodes = (s.node n).nodes) : LeafAt s' n c start where
  type := hn.1.trans h.type
  value := hn.2.1.trans h.value
  nodes := hnodes.trans h.nodes
  attr := by
    obtain ⟨m, o, a, b, hattr, hm, ho, ha, hb⟩ := h.attr
    exact ⟨m, o, a, b, hn.2.2.trans hattr, hs.object hm rfl, hs.object ho rfl, hs.object ha rfl, hs.object hb rfl⟩

/-- The position of a leaf spans its character. -/
theorem LeafAt.spans (h : LeafAt s n c start) : s.Spans n start (start.step c) (.text sourceName) := by
  obtain ⟨m, o, a, b, hattr, hm, ho, ha, hb⟩ := h.attr
  have hitem : s.itemAt (s.node n).attr (.text "position") = .ok (.object o) := by
    simp [itemAt, hattr, object?, hm, Entries.find?, Key.ofValue]
  have hextra : s.extra n "position" = .ok (.object o) := by
    rw [extra, if_neg (by decide), hitem]
  refine ⟨o, a, b, ?_, ho, ha, hb⟩
  rw [Reads, perform_read]
  show Run.outcome (Run.check (fun s => s.extra n "position") s) = _
  rw [Run.check_of_ok hextra]
  rfl

theorem GroupAt.mono {type : String} (h : GroupAt s n type) (hs : SameObjects s s') (hn : SameContents s s' n) :
    GroupAt s' n type where
  type := hn.1.trans h.type
  attr := by
    obtain ⟨m, hattr, hm⟩ := h.attr
    exact ⟨m, hn.2.2.trans hattr, hs.object hm rfl⟩

/-! ## Making them -/

theorem newGroup_ok (s : Store) (type : String) :
    ∃ s', newGroup type s = .ok s.nodes.size s' ∧ s.Sprouted s' ∧ (s'.node s.nodes.size).parent = none ∧
      GroupAt s' s.nodes.size type := by
  let fields : Object := .map [(.text "type", .text type), (.text "is_scope", .bool true)]
  let s₁ := s.addObject fields
  have hfields : s₁.object s.objects.size = .map (shownBy (.text type) .null [(.text "is_scope", .bool true)]) :=
    object_addObject_self s fields
  have hextra : ∀ k ∈ Entries.keys [(Key.text "is_scope", Value.bool true)], IsExtra .node k := by
    intro k hk
    obtain rfl : k = .text "is_scope" := List.mem_singleton.mp hk
    exact ⟨by decide, by decide⟩
  have hrecord : (s₁.withFields (.text type) .null [(.text "is_scope", .bool true)]).node s.nodes.size =
      { NodeRecord.blank .node (.object s₁.objects.size) with type := .text type } := node_withFields s₁ _ _ _
  have hkeys : s₁.LastingKeys [(.text "is_scope", .bool true)] := .of_texts (by decide)
  refine ⟨s₁.withFields (.text type) .null [(.text "is_scope", .bool true)], create_shownBy hextra hkeys hfields,
    ⟨(Extends.addObject s fields).trans (extends_withFields s₁ _ _ _), size_withFields s₁ _ _ _, ?_⟩, ?_, ?_,
    s₁.objects.size, ?_, object_withFields s₁ _ _ _⟩
  · rw [children, hrecord]
    rfl
  · rw [hrecord]
    rfl
  · rw [hrecord]
  · rw [hrecord]
    rfl

/-- **A leaf is stamped with its place**: it begins where its wrapper does, and ends where the tracker stands. -/
theorem newLeaf_ok (ht : s.StandsAt t (.text sourceName) (start.step c)) (hw : s.BeginsAt t w start) :
    ∃ s', newLeaf c (.object w) s = .ok s.nodes.size s' ∧ s.Sprouted s' ∧ LeafAt s' s.nodes.size c start := by
  obtain ⟨a, fields, hwrapper, ha⟩ := hw
  let s₁ := s.withOwn (.text (tokenType c)) (.text (String.singleton c))
  let s₂ := s₁.withSpan (.object a) (.text sourceName) (start.step c)
  let s₃ := s₂.updateObject s.objects.size fun _ => .map [(.text "position", .object (s₁.objects.size + 1))]
  have h₁ : s.Extends s₁ := extends_withOwn s _ _
  have h₂ : s₁.Allocates s₂ := allocates_withSpan s₁ _ _ _
  have hrecord : s₂.node s.nodes.size = { NodeRecord.blank .node (.object s.objects.size) with
      type := .text (tokenType c), value := .text (String.singleton c) } :=
    (h₂.node_eq _).trans (node_withOwn s _ _)
  have hmap : s₂.object s.objects.size = .map [] :=
    object_of_extends h₂.toExtends (object_withOwn s _ _) fun heq => by cases heq
  have hassign : assignExtra s.nodes.size (.text "position") (.object (s₁.objects.size + 1)) s₂ = .ok () s₃ :=
    assignExtra_map (by rw [hrecord]; rfl) hmap _ _
  -- only the map of the new node is changed, so the places and the span are what they were made as
  have hkept {o : ObjectId} {x : Object} (ho : s₂.object o = x) (hx : x ≠ .map []) : s₃.object o = x := by
    have hne : o ≠ s.objects.size := by
      rintro rfl
      exact hx (ho.symm.trans hmap)
    rw [object_updateObject_of_ne s₂ _ hne, ho]
  have hmade : createUnplaced .node ⟨.text (String.singleton c), .text (tokenType c), .null, .object w⟩ s =
      .ok s.nodes.size s₁ := rfl
  have hcall : call (.object w) [.node s.nodes.size] [] s₁ = .ok (.node s.nodes.size) s₃ := by
    rw [call_wrapper (object_of_extends h₁ hwrapper fun heq => by cases heq), stamp_eq (ht.mono h₁)]
    exact Run.bind_of_ok hassign
  have hsize : s.objects.size < s₂.objects.size := lt_size_of_object (hmap ▸ fun heq => by cases heq)
  refine ⟨s₃, ?_, ⟨(h₁.trans h₂.toExtends).updateObject (Nat.le_refl _) _, ?_, ?_⟩, ?_, ?_, ?_,
    s.objects.size, s₁.objects.size + 1, a, s₁.objects.size, ?_, ?_, ?_, ?_, ?_⟩
  · show create .node ⟨.text (String.singleton c), .text (tokenType c), .null, .object w⟩ s = _
    rw [create, Run.bind_of_ok hmade]
    exact (Run.bind_of_ok hcall).trans rfl
  · exact size_withOwn s _ _
  · rw [children]
    show ((s₂.node s.nodes.size).nodes).getD [] = []
    rw [hrecord]
    rfl
  · exact congrArg NodeRecord.type hrecord
  · exact congrArg NodeRecord.value hrecord
  · exact congrArg NodeRecord.nodes hrecord
  · exact congrArg NodeRecord.attr hrecord
  · exact object_updateObject_self s₂ _ hsize
  · exact hkept (position_withSpan s₁ _ _ _) fun heq => by cases heq
  · exact hkept (object_of_extends (h₁.trans h₂.toExtends) ha fun heq => by cases heq) fun heq => by cases heq
  · exact hkept (located_withSpan s₁ _ _ _) fun heq => by cases heq

/-! ## Parts of a tree -/

/-- A finished part of a tree: a leaf for a character that begins at a place, or a group with its parts. -/
inductive Part
  | leaf (n : NodeId) (c : Char) (start : Cursor)
  | group (n : NodeId) (parts : List Part)

namespace Part

/-- The node at the top of a part. -/
def node : Part → NodeId
  | leaf n _ _ => n
  | group n _ => n

mutual

/-- A part as a tree of nodes. -/
def subtree : Part → Subtree
  | leaf n _ _ => .node n []
  | group n parts => .node n (subtrees parts)

/-- Parts as trees of nodes. -/
def subtrees : List Part → List Subtree
  | [] => []
  | p :: ps => p.subtree :: subtrees ps

end

theorem subtrees_eq_map (ps : List Part) : subtrees ps = ps.map subtree := by
  induction ps with
  | nil => rfl
  | cons p ps ih => rw [subtrees, ih, List.map_cons]

theorem root_subtree (p : Part) : p.subtree.root = p.node := by
  cases p with
  | leaf n c start => rw [subtree]; rfl
  | group n parts => rw [subtree]; rfl

/-- The nodes of a part. -/
def nodes (p : Part) : List NodeId := p.subtree.preorder

theorem nodes_leaf (n : NodeId) (c : Char) (start : Cursor) : (leaf n c start).nodes = [n] := by
  rw [nodes, subtree]
  rfl

theorem mem_nodes_group {m : NodeId} {parts : List Part} :
    m ∈ (group n parts).nodes ↔ m = n ∨ ∃ p ∈ parts, m ∈ p.nodes := by
  rw [nodes, subtree, subtrees_eq_map, Subtree.mem_preorder_node]
  simp [nodes]

end Part

/-- The part is what the store has below a parent. -/
inductive Drawn (s : Store) : NodeId → Part → Prop
  | leaf {parent n : NodeId} {c : Char} {start : Cursor} : LeafAt s n c start →
      (s.node n).parent = some (.node parent) → Drawn s parent (.leaf n c start)
  | group {parent n : NodeId} {parts : List Part} : GroupAt s n "brace" →
      (s.node n).parent = some (.node parent) → s.children n = parts.map (fun p => .node p.node) →
      (∀ p ∈ parts, Drawn s n p) → Drawn s parent (.group n parts)

/-- A part stays as it is while its nodes do. -/
theorem Drawn.mono {parent : NodeId} {p : Part} (h : Drawn s parent p) (hs : SameObjects s s')
    (hsame : ∀ m ∈ p.nodes, s'.node m = s.node m) : Drawn s' parent p := by
  induction h with
  | @leaf parent n c start hleaf hparent =>
      have hn : s'.node n = s.node n := hsame n (by simp [Part.nodes_leaf])
      exact .leaf (hleaf.mono hs (by rw [SameContents, hn]; exact ⟨rfl, rfl, rfl⟩) (by rw [hn])) (hn ▸ hparent)
  | @group parent n parts hgroup hparent hchildren _ ih =>
      have hn : s'.node n = s.node n := hsame n (Part.mem_nodes_group.mpr (.inl rfl))
      refine .group (hgroup.mono hs (by rw [SameContents, hn]; exact ⟨rfl, rfl, rfl⟩)) (hn ▸ hparent) ?_ fun p hp => ?_
      · rw [children, hn]
        exact hchildren
      · exact ih p hp fun m hm => hsame m (Part.mem_nodes_group.mpr (.inr ⟨p, hp, hm⟩))

/-- A part is what its top shows as a tree. -/
theorem Drawn.shows {parent : NodeId} {p : Part} (h : Drawn s parent p) : s.Shows p.subtree := by
  induction h with
  | leaf hleaf _ =>
      rw [Part.subtree]
      exact .node (by rw [children, hleaf.nodes]; rfl) fun t ht => absurd ht (by simp)
  | group _ _ hchildren _ ih =>
      rw [Part.subtree, Part.subtrees_eq_map]
      refine .node (hchildren.trans (by simp [Part.root_subtree])) fun t ht => ?_
      obtain ⟨p, hp, rfl⟩ := List.mem_map.mp ht
      exact ih p hp

/-! ## Open groups -/

/-- An open group and its finished parts. -/
structure Frame where
  group : NodeId
  parts : List Part

/-- An open group with one more part. -/
def Frame.add (f : Frame) (q : Part) : Frame := { f with parts := f.parts ++ [q] }

/-- An open group holds its finished parts and then what is open above it. -/
structure OpenAt (s : Store) (above : List NodeId) (f : Frame) (parent : Option NodeId) : Prop where
  group : GroupAt s f.group (if parent.isNone then "root" else "brace")
  parent : (s.node f.group).parent = parent.map .node
  children : s.children f.group = (f.parts.map Part.node ++ above).map .node
  parts : ∀ p ∈ f.parts, Drawn s f.group p

/-- Open groups, the innermost first, each of which is the last child of the next one. -/
def Stacked (s : Store) : List NodeId → List Frame → Prop
  | _, [] => True
  | above, f :: below => OpenAt s above f (below.head?.map Frame.group) ∧ Stacked s [f.group] below

/-- **The tree that is being drawn.** The open groups are its rightmost path, and no finished part leads back to
one of them. -/
structure Draws (s : Store) (frames : List Frame) : Prop where
  stacked : Stacked s [] frames
  nodup : (frames.map Frame.group).Nodup
  made : ∀ f ∈ frames, f.group < s.nodes.size
  apart : ∀ f ∈ frames, ∀ p ∈ f.parts, ∀ m ∈ p.nodes, m < s.nodes.size ∧ m ∉ frames.map Frame.group

theorem Stacked.mono {above : List NodeId} {frames : List Frame} (h : Stacked s above frames) (hs : SameObjects s s')
    (hgroups : ∀ f ∈ frames, s'.node f.group = s.node f.group)
    (hparts : ∀ f ∈ frames, ∀ p ∈ f.parts, ∀ m ∈ p.nodes, s'.node m = s.node m) : Stacked s' above frames := by
  induction frames generalizing above with
  | nil => trivial
  | cons f below ih =>
      have hf : s'.node f.group = s.node f.group := hgroups f (List.mem_cons_self ..)
      refine ⟨⟨h.1.group.mono hs ?_, hf ▸ h.1.parent, ?_, fun p hp => ?_⟩, ih h.2 ?_ ?_⟩
      · rw [SameContents, hf]
        exact ⟨rfl, rfl, rfl⟩
      · rw [Store.children, hf]
        exact h.1.children
      · exact (h.1.parts p hp).mono hs (hparts f (List.mem_cons_self ..) p hp)
      · exact fun g hg => hgroups g (List.mem_cons_of_mem _ hg)
      · exact fun g hg => hparts g (List.mem_cons_of_mem _ hg)

/-! ## One more node -/

/-- A group has got one more child, the node that was made last. -/
structure Gains (s s' : Store) (p : NodeId) : Prop where
  objects : SameObjects s s'
  size : s'.nodes.size = s.nodes.size + 1
  kept : ∀ m, m < s.nodes.size → m ≠ p → s'.node m = s.node m
  holder : s'.node p = { s.node p with nodes := some (s.children p ++ [.node s.nodes.size]) }
  parent : (s'.node s.nodes.size).parent = some (.node p)

/-- A new node that is pushed is the same but for its parent and its hint. -/
theorem gains_append {s₁ : Store} (h : s.Sprouted s₁) (hp : p < s.nodes.size) :
    Gains s (s₁.append p (.node s.nodes.size)) p ∧
      ∃ parent hint, (s₁.append p (.node s.nodes.size)).node s.nodes.size =
        { s₁.node s.nodes.size with parent, hint } := by
  have hp₁ : p < s₁.nodes.size := Nat.lt_of_lt_of_le hp h.size
  have hne : s.nodes.size ≠ p := fun heq => Nat.lt_irrefl _ (heq ▸ hp)
  have hlt : s.nodes.size < s₁.nodes.size := h.lt_size
  have hnew : (s₁.append p (.node s.nodes.size)).node s.nodes.size =
      { s₁.node s.nodes.size with parent := some (.node p), hint := .int (s₁.children p).length } := by
    rw [node_append_node s₁ hp₁ hne, if_neg hne, if_pos ⟨rfl, hlt⟩]
  refine ⟨⟨fun o ho => SameObjects.of_extends h.toExtends o ho, ?_, fun m hm hmp => ?_, ?_, ?_⟩, _, _, hnew⟩
  · rw [size_append, h.one]
  · rw [node_append_node s₁ hp₁ hne, if_neg hmp, if_neg fun heq => Nat.lt_irrefl _ (heq.1 ▸ hm), h.node m hm]
  · rw [node_append_node s₁ hp₁ hne, if_pos rfl, children, h.node p hp]
    rfl
  · rw [hnew]

variable {f : Frame} {below frames : List Frame}

namespace Draws

theorem kept_part (h : Draws s (f :: below)) (hgains : Gains s s' f.group) {g : Frame} (hg : g ∈ f :: below) {q : Part}
    (hq : q ∈ g.parts) {m : NodeId} (hm : m ∈ q.nodes) : s'.node m = s.node m := by
  obtain ⟨hlt, hout⟩ := h.apart g hg q hq m hm
  exact hgains.kept m hlt fun heq => hout (heq ▸ List.mem_cons_self ..)

theorem kept_below (h : Draws s (f :: below)) (hgains : Gains s s' f.group) : Stacked s' [f.group] below := by
  have hnotin : f.group ∉ below.map Frame.group := (List.nodup_cons.mp h.nodup).1
  refine h.stacked.2.mono hgains.objects (fun g hg => ?_) fun g hg q hq m hm => ?_
  · refine hgains.kept _ (h.made g (List.mem_cons_of_mem _ hg)) fun heq => hnotin ?_
    exact heq ▸ List.mem_map_of_mem hg
  · exact h.kept_part hgains (List.mem_cons_of_mem _ hg) hq hm

theorem children_top (h : Draws s (f :: below)) (hgains : Gains s s' f.group) :
    s'.children f.group = (f.parts.map Part.node ++ [s.nodes.size]).map .node := by
  have hbefore := h.stacked.1.children
  rw [List.append_nil] at hbefore
  rw [children, hgains.holder]
  show s.children f.group ++ [.node s.nodes.size] = _
  rw [hbefore, List.map_append]
  rfl

/-- The top goes on as it was, with the new node above it or among its parts. -/
theorem openAt_top (h : Draws s (f :: below)) (hgains : Gains s s' f.group) {above : List NodeId} {parts : List Part}
    (hchildren : f.parts.map Part.node ++ [s.nodes.size] = parts.map Part.node ++ above)
    (hparts : ∀ q ∈ parts, q ∈ f.parts ∨ Drawn s' f.group q) :
    OpenAt s' above { f with parts } (below.head?.map Frame.group) := by
  have htop := h.stacked.1
  have hsame : SameContents s s' f.group := by
    rw [SameContents, hgains.holder]
    exact ⟨rfl, rfl, rfl⟩
  refine ⟨htop.group.mono hgains.objects hsame, ?_, ?_, fun q hq => ?_⟩
  · rw [hgains.holder]
    exact htop.parent
  · rw [← hchildren]
    exact h.children_top hgains
  · rcases hparts q hq with hold | hnew
    · exact (htop.parts q hold).mono hgains.objects fun m hm => h.kept_part hgains (List.mem_cons_self ..) hold hm
    · exact hnew

/-- What was made before is still there, and the new node is none of it. -/
theorem made_of_gains (h : Draws s frames) (hgains : Gains s s' p) {g : Frame} (hg : g ∈ frames) :
    g.group < s'.nodes.size ∧ g.group ≠ s.nodes.size := by
  have hlt := h.made g hg
  exact ⟨hgains.size ▸ Nat.lt_succ_of_lt hlt, Nat.ne_of_lt hlt⟩

theorem apart_of_gains (h : Draws s frames) (hgains : Gains s s' p) {g : Frame} (hg : g ∈ frames) {q : Part}
    (hq : q ∈ g.parts) {m : NodeId} (hm : m ∈ q.nodes) :
    m < s'.nodes.size ∧ m ≠ s.nodes.size ∧ m ∉ frames.map Frame.group := by
  obtain ⟨hlt, hout⟩ := h.apart g hg q hq m hm
  exact ⟨hgains.size ▸ Nat.lt_succ_of_lt hlt, Nat.ne_of_lt hlt, hout⟩

/-- **A leaf is one more part of the top.** -/
theorem add_leaf (h : Draws s (f :: below)) (hgains : Gains s s' f.group) (hleaf : LeafAt s' s.nodes.size c start) :
    Draws s' (f.add (.leaf s.nodes.size c start) :: below) where
  stacked := by
    refine ⟨h.openAt_top hgains (by simp [Part.node]) fun q hq => ?_, h.kept_below hgains⟩
    rcases List.mem_append.mp hq with hold | hnew
    · exact .inl hold
    · obtain rfl := List.mem_singleton.mp hnew
      exact .inr (.leaf hleaf hgains.parent)
  nodup := h.nodup
  made g hg := by
    rcases List.mem_cons.mp hg with rfl | hg
    · exact (h.made_of_gains hgains (List.mem_cons_self ..)).1
    · exact (h.made_of_gains hgains (List.mem_cons_of_mem _ hg)).1
  apart g hg q hq m hm := by
    have hold {g : Frame} (hg : g ∈ f :: below) (hq : q ∈ g.parts) := h.apart_of_gains hgains hg hq hm
    rcases List.mem_cons.mp hg with rfl | hg
    · rcases List.mem_append.mp hq with hq | hq
      · exact ⟨(hold (List.mem_cons_self ..) hq).1, (hold (List.mem_cons_self ..) hq).2.2⟩
      · obtain rfl := List.mem_singleton.mp hq
        obtain rfl : m = s.nodes.size := by simpa [Part.nodes_leaf] using hm
        refine ⟨hgains.size ▸ Nat.lt_succ_self _, fun hmem => ?_⟩
        obtain ⟨g, hg, heq⟩ := List.mem_map.mp (show _ ∈ (f :: below).map Frame.group from hmem)
        exact (h.made_of_gains hgains hg).2 heq
    · exact ⟨(hold (List.mem_cons_of_mem _ hg) hq).1, (hold (List.mem_cons_of_mem _ hg) hq).2.2⟩

/-- **A brace that opens puts a group on top.** -/
theorem open_group (h : Draws s (f :: below)) (hgains : Gains s s' f.group)
    (hgroup : GroupAt s' s.nodes.size "brace") (hbare : s'.children s.nodes.size = []) :
    Draws s' (⟨s.nodes.size, []⟩ :: f :: below) where
  stacked := by
    refine ⟨⟨hgroup, hgains.parent, hbare, fun q hq => absurd hq (by simp)⟩, ?_, h.kept_below hgains⟩
    exact h.openAt_top hgains rfl fun q hq => .inl hq
  nodup := by
    refine List.nodup_cons.mpr ⟨fun hmem => ?_, h.nodup⟩
    obtain ⟨g, hg, heq⟩ := List.mem_map.mp hmem
    exact (h.made_of_gains hgains hg).2 heq
  made g hg := by
    rcases List.mem_cons.mp hg with rfl | hg
    · exact hgains.size ▸ Nat.lt_succ_self _
    · exact (h.made_of_gains hgains hg).1
  apart g hg q hq m hm := by
    rcases List.mem_cons.mp hg with rfl | hg
    · exact absurd hq (by simp)
    · obtain ⟨hlt, hne, hout⟩ := h.apart_of_gains hgains hg hq hm
      exact ⟨hlt, fun hmem => (List.mem_cons.mp hmem).elim hne hout⟩

/-- **A brace that closes makes the top a part of the group below.** The store has them that way already. -/
theorem close_group {g : Frame} (h : Draws s (f :: g :: below)) :
    Draws s (g.add (.group f.group f.parts) :: below) where
  stacked := by
    obtain ⟨htop, hnext, hbelow⟩ := h.stacked
    refine ⟨⟨hnext.group, hnext.parent, ?_, fun q hq => ?_⟩, hbelow⟩
    · refine hnext.children.trans ?_
      simp [Frame.add, Part.node]
    · rcases List.mem_append.mp hq with hold | hnew
      · exact hnext.parts q hold
      · obtain rfl := List.mem_singleton.mp hnew
        refine .group htop.group htop.parent ?_ htop.parts
        rw [htop.children, List.append_nil, List.map_map]
        rfl
  nodup := (List.nodup_cons.mp h.nodup).2
  made g' hg' := by
    rcases List.mem_cons.mp hg' with rfl | hg'
    · exact h.made g (by simp)
    · exact h.made g' (by simp [hg'])
  apart g' hg' q hq m hm := by
    have hold (g' : Frame) {q : Part} (hg' : g' ∈ f :: g :: below) (hq : q ∈ g'.parts) (hm : m ∈ q.nodes) :
        m < s.nodes.size ∧ m ∉ (g :: below).map Frame.group := by
      obtain ⟨hlt, hout⟩ := h.apart g' hg' q hq m hm
      exact ⟨hlt, fun hmem => hout (List.mem_cons_of_mem _ hmem)⟩
    rcases List.mem_cons.mp hg' with rfl | hg'
    · rcases List.mem_append.mp hq with hq | hq
      · exact hold g (by simp) hq hm
      · obtain rfl := List.mem_singleton.mp hq
        rcases Part.mem_nodes_group.mp hm with rfl | ⟨q', hq', hm⟩
        · exact ⟨h.made f (List.mem_cons_self ..), (List.nodup_cons.mp h.nodup).1⟩
        · exact hold f (List.mem_cons_self ..) hq' hm
    · exact hold g' (by simp [hg']) hq hm

/-- Where trackers stand is no matter to what is drawn. -/
theorem mono (h : Draws s frames) (hnodes : s'.nodes = s.nodes) (hs : SameObjects s s') : Draws s' frames := by
  have hnode (m : NodeId) : s'.node m = s.node m := by rw [node, node, hnodes]
  refine ⟨h.stacked.mono hs (fun f _ => hnode _) fun f _ q _ m _ => hnode m, h.nodup, fun f hf => ?_,
    fun f hf q hq m hm => ?_⟩
  · rw [hnodes]
    exact h.made f hf
  · rw [hnodes]
    exact h.apart f hf q hq m hm

end Draws

/-! ## Reading one character -/

/-- **What is drawn while a tracker follows**: it stands at a place in the pattern. -/
structure Follows (s : Store) (t : ObjectId) (start : Cursor) (frames : List Frame) : Prop where
  draws : Draws s frames
  stands : s.StandsAt t (.text sourceName) start

/-- **A character is consumed before it is put where it belongs.** By then the tracker stands behind the character, and
the wrapper begins before it. -/
theorem step_eq (ht : s.StandsAt t (.text sourceName) start) (c : Char) :
    ∃ w s', s'.StandsAt t (.text sourceName) (start.step c) ∧ s'.BeginsAt t w start ∧ s'.nodes = s.nodes ∧
      SameObjects s s' ∧ ∀ stack, step ⟨stack, t⟩ c s =
        (place stack c (.object w) >>= fun stack => pure ⟨stack, t⟩) s' := by
  obtain ⟨w, s₁, hcapture, hadded, hw⟩ := capture_ok ht
  have ht₁ := ht.mono hadded.toExtends
  have hwalk : start.advance (String.singleton c) = start.step c := by
    rw [Cursor.advance, Cursor.advanceChars_eq_walk]
    simp
  have hadvance : advance t (.text (String.singleton c)) s₁ =
      .ok () (s₁.standAt t (.text sourceName) (start.step c)) := by
    rw [advance_text ht₁, hwalk]
  have hmoved := moved_standAt t s₁ (.text sourceName) (start.step c)
  refine ⟨w, _, standsAt_standAt ht₁.lt_size _ _, hw.mono (hmoved.steady ht₁), hmoved.nodes.trans hadded.nodes,
    (SameObjects.of_extends hadded.toExtends).trans (.of_moved hmoved ht₁), fun stack => ?_⟩
  rw [step, Run.bind_of_ok hcapture, Run.bind_of_ok hadvance]

theorem Follows.pushLeaf (h : Follows s t (start.step c) (f :: below)) (hw : s.BeginsAt t w start) :
    ∃ n s', Brace.pushLeaf f.group c (.object w) s = .ok () s' ∧
      Follows s' t (start.step c) (f.add (.leaf n c start) :: below) := by
  obtain ⟨s₁, hmade, hsprouted, hleaf⟩ := newLeaf_ok h.stands hw
  obtain ⟨hgains, parent, hint, hrecord⟩ := gains_append hsprouted (h.draws.made f (List.mem_cons_self ..))
  have ht₁ : s₁.StandsAt t (.text sourceName) (start.step c) := h.stands.mono hsprouted.toExtends
  refine ⟨s.nodes.size, s₁.append f.group (.node s.nodes.size), ?_,
    h.draws.add_leaf hgains (hleaf.mono (fun _ _ => rfl) ?_ ?_), ht₁⟩
  · rw [Brace.pushLeaf, Run.bind_of_ok hmade, Run.bind_of_ok (push_node s₁ _ _)]
    rfl
  · rw [SameContents, hrecord]
    exact ⟨rfl, rfl, rfl⟩
  · rw [hrecord]

/-- **A brace that opens** puts a group on top, which has the brace for its first part. -/
theorem Follows.step_opening (h : Follows s t start (f :: below)) :
    ∃ g n s', step ⟨(f :: below).map Frame.group, t⟩ opening s =
        .ok ⟨g :: (f :: below).map Frame.group, t⟩ s' ∧
      Follows s' t (start.step opening) (⟨g, [.leaf n opening start]⟩ :: f :: below) := by
  obtain ⟨w, s₀, ht, hw, hnodes, hsame, hstep⟩ := step_eq h.stands opening
  have hdraws := h.draws.mono hnodes hsame
  obtain ⟨s₁, hmade, hsprouted, -, hgroup⟩ := newGroup_ok s₀ "brace"
  obtain ⟨hgains, parent, hint, hrecord⟩ := gains_append hsprouted (hdraws.made f (List.mem_cons_self ..))
  have hopen : Draws (s₁.append f.group (.node s₀.nodes.size)) (⟨s₀.nodes.size, []⟩ :: f :: below) := by
    refine hdraws.open_group hgains (hgroup.mono (fun _ _ => rfl) ?_) ?_
    · rw [SameContents, hrecord]
      exact ⟨rfl, rfl, rfl⟩
    · rw [children, hrecord]
      exact hsprouted.bare
  have ht₁ : s₁.StandsAt t (.text sourceName) (start.step opening) := ht.mono hsprouted.toExtends
  have hw₁ : s₁.BeginsAt t w start := hw.mono (hsprouted.toExtends.steady t)
  have hfollows : Follows (s₁.append f.group (.node s₀.nodes.size)) t (start.step opening) _ := ⟨hopen, ht₁⟩
  obtain ⟨n, s', hpush, hdone⟩ := hfollows.pushLeaf hw₁
  refine ⟨s₀.nodes.size, n, s', ?_, hdone⟩
  have hplace : place ((f :: below).map Frame.group) opening (.object w) s₀ =
      .ok (s₀.nodes.size :: (f :: below).map Frame.group) s' := by
    unfold place
    rw [if_pos rfl, Run.bind_of_ok hmade]
    show (push f.group (.node s₀.nodes.size) >>= _) s₁ = _
    rw [Run.bind_of_ok (push_node s₁ _ _), Run.bind_of_ok hpush]
    rfl
  rw [hstep, Run.bind_of_ok hplace]
  rfl

/-- **Every other character** becomes a part of the top, and a brace that closes takes the top off the stack. -/
theorem Follows.step_other (h : Follows s t start (f :: below)) (hc : c ≠ opening) :
    ∃ n s', step ⟨(f :: below).map Frame.group, t⟩ c s =
        .ok ⟨if c = closing then below.map Frame.group else (f :: below).map Frame.group, t⟩ s' ∧
      Follows s' t (start.step c) (f.add (.leaf n c start) :: below) := by
  obtain ⟨w, s₀, ht, hw, hnodes, hsame, hstep⟩ := step_eq h.stands c
  have hfollows : Follows s₀ t (start.step c) (f :: below) := ⟨h.draws.mono hnodes hsame, ht⟩
  obtain ⟨n, s', hpush, hdone⟩ := hfollows.pushLeaf hw
  refine ⟨n, s', ?_, hdone⟩
  have hplace : place ((f :: below).map Frame.group) c (.object w) s₀ =
      .ok (if c = closing then below.map Frame.group else (f :: below).map Frame.group) s' := by
    unfold place
    rw [if_neg hc]
    show (Brace.pushLeaf f.group c (.object w) >>= _) s₀ = _
    rw [Run.bind_of_ok hpush]
    rfl
  rw [hstep, Run.bind_of_ok hplace]
  rfl

/-- Without an open group there is nowhere to put a character, and no group for a brace to close. -/
theorem step_nil (ht : s.StandsAt t (.text sourceName) start) (c : Char) :
    ∃ s', step ⟨[], t⟩ c s = .error (if c = closing then .popFromEmpty else .indexOutOfRange "list") s' := by
  obtain ⟨w, s₀, -, -, -, -, hstep⟩ := step_eq ht c
  have hplace : ∃ s', place [] c (.object w) s₀ =
      .error (if c = closing then .popFromEmpty else .indexOutOfRange "list") s' := by
    rw [place]
    by_cases hopen : c = opening
    · obtain ⟨s', hmade, -⟩ := newGroup_ok s₀ "brace"
      have hother : c ≠ closing := fun hclose => absurd (hopen.symm.trans hclose) (by decide)
      rw [if_pos hopen, if_neg hother]
      exact ⟨s', Run.bind_of_ok hmade⟩
    · rw [if_neg hopen]
      exact ⟨s₀, rfl⟩
  obtain ⟨s', hfails⟩ := hplace
  exact ⟨s', (hstep []).trans (Run.bind_of_error hfails)⟩

/-- **The tracker and the root come first.** The tracker stands at the start, and the root is without any part. -/
theorem begin_eq (s : Store) :
    ∃ s', Follows s' s.objects.size .start [⟨s.nodes.size, []⟩] ∧ ∀ {α : Type} (next : ObjectId → NodeId → Run α),
      (do
        let tracker ← startTracker (.text sourceName)
        let root ← newGroup "root"
        next tracker root) s = next s.objects.size s.nodes.size s' := by
  obtain ⟨s₁, hstarted, hadded, ht⟩ := startTracker_ok s (.text sourceName)
  obtain ⟨s', hmade, hsprouted, hparent, hgroup⟩ := newGroup_ok s₁ "root"
  have hlt := hsprouted.lt_size
  have hbare := hsprouted.bare
  rw [hadded.nodes] at hmade hparent hgroup hlt hbare
  refine ⟨s', ⟨⟨⟨⟨hgroup, hparent, hbare, fun q hq => absurd hq (by simp)⟩, trivial⟩, by simp,
    fun f hf => ?_, fun f hf q hq => ?_⟩, ht.mono hsprouted.toExtends⟩, fun next => ?_⟩
  · obtain rfl := List.mem_singleton.mp hf
    exact hlt
  · obtain rfl := List.mem_singleton.mp hf
    exact absurd hq (by simp)
  · rw [Run.bind_of_ok hstarted]
    exact Run.bind_of_ok hmade

theorem readAll_append (reader : Reader) (xs ys : List Char) :
    readAll reader (xs ++ ys) = readAll reader xs >>= fun reader => readAll reader ys := by
  induction xs generalizing reader with
  | nil => rfl
  | cons x xs ih =>
      show (step reader x >>= fun reader => readAll reader (xs ++ ys)) =
        (step reader x >>= fun reader => readAll reader xs) >>= _
      rw [bind_assoc]
      simp only [ih]

end Brace
end SyntaxTree
