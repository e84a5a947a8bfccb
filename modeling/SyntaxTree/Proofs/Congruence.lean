import SyntaxTree.Node.Call
import SyntaxTree.Proofs.Mutation
import SyntaxTree.Proofs.Neighbours

/-!
# `Proofs.Congruence` — what is done to two stores at once

Two stores that resemble each other answer most questions alike. What the operations of nodes do to both of
them is alike as well, as long as the relation between them is one that changes of parents, of lists and
of hints respect (`Congruence`). So each operation is run on two stores here once for all such relations:
it ends alike in both, and in stores that are again related (`Run.Agree`).

The index, and what is read or taken away through it, looks at hints, and these may be different; there
the plain index decides in both stores.
-/

namespace SyntaxTree
namespace Store

open Run

variable {s t : Store} {rel : Store → Store → Prop}

/-! ## What passes for a node -/

/-- Nothing but the nodes passes for a node. -/
def NodesOnly (s : Store) : Prop := ∀ v, s.isNode v = true → ∃ c, v = .node c

/-- What is accepted for a node is one. -/
theorem node_of_requireNode {action : String} {v : Value} (hnodes : s.NodesOnly)
    (h : s.requireNode action v = .ok ()) : ∃ c, v = .node c := by
  unfold requireNode at h
  split at h
  · next hv => exact hnodes v hv
  · cases h

/-- No list holds anything twice, and nothing but nodes passes for a node. -/
structure Distinct (s : Store) : Prop where
  nodup : ∀ n, (s.children n).Nodup
  nodesOnly : s.NodesOnly

/-- What is to be looked at are the nodes and objects that there are. -/
theorem Distinct.of_bounded (h : (∀ n < s.nodes.size, (s.children n).Nodup) ∧
    ∀ o < s.objects.size, s.marker? o = none) : s.Distinct where
  nodup n := by
    by_cases hn : n < s.nodes.size
    · exact h.1 n hn
    · rw [children, node_of_size_le s (Nat.le_of_not_lt hn)]
      exact List.nodup_nil
  nodesOnly v hv := by
    cases v with
    | node c => exact ⟨c, rfl⟩
    | object o =>
        have hnone : s.marker? o = none := by
          by_cases ho : o < s.objects.size
          · exact h.2 o ho
          · rw [marker?, object_of_size_le s (Nat.le_of_not_lt ho)]
        rw [isNode, hnone] at hv
        cases hv
    | _ => cases hv

/-- Besides, debug records can be written. -/
structure Fit (s : Store) : Prop extends Distinct s where
  loggable : s.Loggable

/-! ## What is alive -/

/-- A hint that is an integer holds on to nothing. -/
theorem nodeLinks_of_proper {r : NodeRecord} (hr : r.Proper) :
    nodeLinks r = linksOf (r.nodes.getD [] ++ [r.type, r.value, r.attr]) := by
  obtain ⟨i, hi⟩ := hr.hint_int
  have hsplit : r.nodes.getD [] ++ [r.type, r.value, r.attr, r.hint] =
      (r.nodes.getD [] ++ [r.type, r.value, r.attr]) ++ [.int i] := by simp [hi]
  rw [nodeLinks, hsplit, linksOf, List.filter_append]
  exact List.append_nil _

theorem resembles_cutParent (alive : List Value) {r r' : NodeRecord} (h : r.Resembles r') :
    (cutParent alive r).Resembles (cutParent alive r') := by
  unfold cutParent
  rw [← h.parent]
  split
  · split
    · exact h
    · exact ⟨h.cls, h.type, h.value, h.attr, rfl, h.children⟩
  · exact h

section Alive

variable (h : s.Resembles t) (hs : ∀ n, (s.node n).Proper) (ht : ∀ n, (t.node n).Proper)

include h hs ht

theorem Resembles.nodeLinks_eq (n : NodeId) : nodeLinks (s.node n) = nodeLinks (t.node n) := by
  have hchildren : (s.node n).nodes.getD [] = (t.node n).nodes.getD [] := h.children n
  rw [nodeLinks_of_proper (hs n), nodeLinks_of_proper (ht n), hchildren, h.type, h.value, h.attr]

theorem Resembles.links_eq : s.links = t.links := by
  funext v
  cases v with
  | node n => exact h.nodeLinks_eq hs ht n
  | object o => rw [links, links, h.object_eq]
  | _ => rfl

theorem Resembles.linkCount_eq : s.linkCount = t.linkCount := by
  have hnodes : s.nodes.map (fun r => (nodeLinks r).length) = t.nodes.map fun r => (nodeLinks r).length :=
    map_nodes_ext _ h.size fun n _ => congrArg List.length (h.nodeLinks_eq hs ht n)
  have hfold (u : Store) : u.nodes.foldl (fun n r => n + (nodeLinks r).length) 0 =
      (u.nodes.map fun r => (nodeLinks r).length).foldl (fun n k => n + k) 0 := by rw [Array.foldl_map]
  rw [linkCount, linkCount, hfold, hnodes, ← hfold, h.objects]

/-- **The same is alive** in stores that resemble each other. -/
theorem Resembles.reachable_eq (roots : List Value) : s.reachable roots = t.reachable roots := by
  rw [reachable, reachable, h.links_eq hs ht, h.linkCount_eq hs ht]

/-- What is let go of is the same in both. -/
theorem Resembles.collect (inUse : List Value) : (s.collect inUse).Resembles (t.collect inUse) where
  size := by rw [size_collect, size_collect, h.size]
  objects := h.objects
  logIsRead := h.logIsRead
  node n := by
    rw [node_collect, node_collect, h.reachable_eq hs ht]
    exact resembles_cutParent _ (h.node n)

end Alive

/-- A new object gets the same place in stores that resemble each other. -/
theorem Resembles.agree_allocate (h : s.Resembles t) {o : Object} (hrel : rel (s.addObject o) (t.addObject o)) :
    Agree rel (allocate o) s t := by
  have hleft : allocate o s = .ok (.object t.objects.size) (s.addObject o) := by
    rw [← h.objects]
    rfl
  exact .of_ok hleft rfl hrel

/-! ## Relations that changes respect -/

/-- Related stores resemble each other and have integers for hints and nodes for parents. Whoever reads
indices in both, gives a node the same parent in both, or the same list of children, leaves related stores
behind. -/
structure Congruence (rel : Store → Store → Prop) : Prop where
  resembles : ∀ {s t}, rel s t → s.Resembles t
  left : ∀ {s t}, rel s t → ∀ n, (s.node n).Proper
  right : ∀ {s t}, rel s t → ∀ n, (t.node n).Proper
  reread : ∀ {s t s' t'}, rel s t → s.Reread s' → t.Reread t' → rel s' t'
  setParent : ∀ {s t}, rel s t → ∀ c p, rel (s.setParent c (some (.node p))) (t.setParent c (some (.node p)))
  setNodes : ∀ {s t}, rel s t → ∀ n l, rel (s.setNodes n (some l)) (t.setNodes n (some l))

namespace Congruence

variable (hrel : Congruence rel)

include hrel

/-! ### Changes -/

theorem note (h : rel s t) (r r' : DebugRecord) : rel (s.note r) (t.note r') :=
  hrel.reread h (reread_note s r) (reread_note t r')

theorem setHint (h : rel s t) (n : NodeId) (i : Int) : rel (s.setHint n (.int i)) (t.setHint n (.int i)) :=
  hrel.reread h (reread_hint s n i) (reread_hint t n i)

/-- The new child gets the same parent and the same hint in both stores. -/
theorem append (h : rel s t) (n c : NodeId) : rel (s.append n (.node c)) (t.append n (.node c)) := by
  unfold Store.append
  rw [← (hrel.resembles h).children n]
  exact hrel.setNodes (hrel.setHint (hrel.setParent h c n) c _) n _

theorem prepend (h : rel s t) (n c : NodeId) : rel (s.prepend n (.node c)) (t.prepend n (.node c)) := by
  unfold Store.prepend
  rw [← (hrel.resembles h).children n]
  exact hrel.setNodes (hrel.setHint (hrel.setParent h c n) c _) n _

/-! ### Questions -/

theorem question {α : Type} {f : Store → Except Fault α} (h : rel s t)
    (hf : ∀ {s t : Store}, s.Resembles t → f s = f t) : Agree rel (Run.check f) s t :=
  .check (hf (hrel.resembles h)) h

theorem truth {f : Store → Except Fault Bool} (h : rel s t)
    (hf : ∀ {s t : Store}, s.Resembles t → f s = f t) : Agree rel (Store.truth f) s t :=
  Agree.map (hrel.question h hf)

theorem shownInRecord (h : rel s t) (v : Value) : Agree rel (Store.shownInRecord v) s t := by
  unfold Agree Store.shownInRecord
  rw [← (hrel.resembles h).display_eq v, ← (hrel.resembles h).logIsRead]
  cases s.display v with
  | ok shown => exact ⟨rfl, h⟩
  | error e =>
      by_cases hread : s.logIsRead
      · simp only [hread, if_true]
        exact ⟨rfl, h⟩
      · simp only [hread, if_false, Bool.false_eq_true]
        exact ⟨rfl, h⟩

theorem scope (h : rel s t) (n : NodeId) :
    Agree rel (Run.recover (Run.check fun s => s.scope n) (Run.check fun s => s.extra n "scope")) s t :=
  Agree.recover (hrel.question h fun h => h.scope_eq n) fun _ _ h' =>
    hrel.question h' fun h => h.extra_eq n "scope"

/-! ### Adding and taking away -/

theorem push (h : rel s t) (hnodes : s.NodesOnly) (n : NodeId) (child : Value) :
    Agree rel (Store.push n child) s t := by
  unfold Store.push
  refine Agree.check_bind ((hrel.resembles h).requireNode_eq "push" child) h fun _ hcheck => ?_
  obtain ⟨c, rfl⟩ := node_of_requireNode hnodes hcheck
  refine Agree.bind (.update (hrel.append h n c)) fun _ s' t' h' => ?_
  exact .read (congrArg List.length ((hrel.resembles h').children n)) h'

theorem unshift (h : rel s t) (hnodes : s.NodesOnly) (n : NodeId) (child : Value) :
    Agree rel (Store.unshift n child) s t := by
  unfold Store.unshift
  refine Agree.check_bind ((hrel.resembles h).requireNode_eq "unshift" child) h fun _ hcheck => ?_
  obtain ⟨c, rfl⟩ := node_of_requireNode hnodes hcheck
  refine Agree.bind (.update (hrel.prepend h n c)) fun _ s' t' h' => ?_
  exact .read (congrArg List.length ((hrel.resembles h').children n)) h'

theorem pop (h : rel s t) (n : NodeId) : Agree rel (Store.pop n) s t := by
  unfold Agree Store.pop
  rw [← (hrel.resembles h).children n]
  cases (s.children n).getLast? with
  | none => exact ⟨rfl, h⟩
  | some v => exact ⟨rfl, hrel.setNodes h n _⟩

theorem shift (h : rel s t) (n : NodeId) : Agree rel (Store.shift n) s t := by
  unfold Agree Store.shift
  rw [← (hrel.resembles h).children n]
  cases s.children n with
  | nil => exact ⟨rfl, h⟩
  | cons v rest => exact ⟨rfl, hrel.setNodes h n _⟩

/-! ### Indices -/

theorem regular_left (h : rel s t) (hfit : s.Fit) : s.Regular := ⟨hrel.left h, hfit.loggable⟩

theorem regular_right (h : rel s t) (hfit : s.Fit) : t.Regular := by
  refine ⟨hrel.right h, fun hread n => ?_⟩
  rw [← (hrel.resembles h).display_eq]
  exact hfit.loggable ((hrel.resembles h).logIsRead ▸ hread) n

theorem tidy_right (h : rel s t) (hfit : s.Fit) : t.Tidy fun _ => True :=
  .of_children fun n => (hrel.resembles h).children n ▸ hfit.nodup n

/-- Runs that answer the same plain question, and leave nothing but hints and records behind. -/
theorem of_ended {run : Run Value} {x : Except Fault Value} (h : rel s t)
    (hs : ∃ s', run s = ended x s' ∧ s.Reread s') (ht : ∃ t', run t = ended x t' ∧ t.Reread t') :
    Agree rel run s t := by
  obtain ⟨s', hs, hreread⟩ := hs
  obtain ⟨t', ht, hreread'⟩ := ht
  rw [Agree, hs, ht, outcome_ended, outcome_ended, after_ended, after_ended]
  exact ⟨rfl, hrel.reread h hreread hreread'⟩

/-- **Related stores give the same index**, whatever their hints are. -/
theorem readIndex (h : rel s t) (hfit : s.Fit) (n : NodeId) : Agree rel (Store.readIndex n) s t := by
  have hleft := readIndex_eq (hrel.regular_left h hfit) ((Tidy.of_children hfit.nodup).siblings n trivial)
  have hright := readIndex_eq (hrel.regular_right h hfit) ((hrel.tidy_right h hfit).siblings n trivial)
  rw [← (hrel.resembles h).plainIndex_eq n] at hright
  exact hrel.of_ended (x := .ok (s.plainIndex n)) h hleft hright

theorem prev (h : rel s t) (hfit : s.Fit) (n : NodeId) : Agree rel (Store.prev n) s t := by
  have hleft := prev_eq (hrel.regular_left h hfit) (.of_children hfit.nodup) (n := n) trivial
  have hright := prev_eq (hrel.regular_right h hfit) (hrel.tidy_right h hfit) (n := n) trivial
  exact hrel.of_ended h hleft ((hrel.resembles h).plainPrev_eq n ▸ hright)

theorem next (h : rel s t) (hfit : s.Fit) (n : NodeId) : Agree rel (Store.next n) s t := by
  have hleft := next_eq (hrel.regular_left h hfit) (.of_children hfit.nodup) (n := n) trivial
  have hright := next_eq (hrel.regular_right h hfit) (hrel.tidy_right h hfit) (n := n) trivial
  exact hrel.of_ended h hleft ((hrel.resembles h).plainNext_eq n ▸ hright)

/-! ### Removing -/

section Removing

variable {n : NodeId} (hlist : ∀ {s t}, rel s t → (s.node n).nodes = (t.node n).nodes)

include hlist

/-- Deleting tells an empty list from none, and so the lists have to be the same. -/
theorem deleteAt (h : rel s t) (position : Value) : Agree rel (Store.deleteAt n position) s t := by
  rw [Agree, deleteAt_eq, deleteAt_eq, ← hlist h]
  cases (s.node n).nodes with
  | none => exact ⟨rfl, h⟩
  | some nodes =>
      dsimp only
      rw [← (hrel.resembles h).placeOf_eq "list" nodes.length .placeOutOfRange position]
      cases s.placeOf "list" nodes.length .placeOutOfRange position with
      | ok i => exact ⟨rfl, hrel.setNodes h n _⟩
      | error e => exact ⟨rfl, h⟩

/-- **The same child is removed from related stores**: the index that is deleted at is the plain one in
    both. -/
theorem remove (h : rel s t) (hfit : s.Fit) (child : Value) : Agree rel (Store.remove n child) s t := by
  unfold Store.remove
  refine Agree.check_bind ((hrel.resembles h).requireNode_eq "remove" child) h fun _ hcheck => ?_
  obtain ⟨c, rfl⟩ := node_of_requireNode hfit.nodesOnly hcheck
  refine Agree.check_bind ((hrel.resembles h).parentOf_eq (.node c)) h fun parent _ => ?_
  refine Agree.read_bind ((hrel.resembles h).detached_eq n) ?_
  dsimp only
  -- the child may have another parent, and then counts as not there
  refine Agree.ite (fun _ => Agree.bind (hrel.readIndex h hfit c) fun index s₁ t₁ h₁ => ?_)
    fun _ => Agree.bind (.pure _ h) fun index s₁ t₁ h₁ => ?_
  all_goals
    refine Agree.ite (fun _ => ?_) fun _ => ?_
    · refine Agree.bind (hrel.shownInRecord h₁ _) fun shownChild s₂ t₂ h₂ => ?_
      refine Agree.bind (hrel.shownInRecord h₂ _) fun shownParent s₃ t₃ h₃ => ?_
      exact Agree.bind (.update (hrel.note h₃ _ _)) fun _ _ _ h₄ => .pure _ h₄
    · refine Agree.bind (hrel.deleteAt hlist h₁ index) fun _ s₂ t₂ h₂ => ?_
      exact Agree.bind (.update (hrel.setHint h₂ c _)) fun _ _ _ h₃ => .pure _ h₃

end Removing

end Congruence

end Store
end SyntaxTree
