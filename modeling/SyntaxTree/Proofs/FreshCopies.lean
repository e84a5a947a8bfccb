import SyntaxTree.Proofs.Outlines

/-!
# `Proofs.FreshCopies` — a clone is a fresh, exact copy

Below a node from which no way along the children comes back, the nodes may be shared: a clone unfolds them.
It needs no forest, no agreement of parents and lists, and no right hints. What it gives is a tree in every
respect, whose places are new nodes, and nothing of before is changed (`clone_fresh_copy`).

How far the copied values and attributes are equal to the originals is a matter of what they are. Trackers
and objects from elsewhere are equal to nothing but themselves, so a copy of one is something else
(`cloned_tracker_differs`). The copy of plain data is equal to it, and the attributes keep their order in
any case.
-/

namespace SyntaxTree

namespace Store

open Relation

variable {s s' : Store} {t u : Subtree} {n c : NodeId} {v w : Value} {es fs : Entries Value}

/-! ## What is the same of a node and its copy -/

/-- The entries have equal keys and equal values in the same order, as far as they are plain data. -/
def SameEntries (s s' : Store) (es fs : Entries Value) : Prop :=
  List.Forall₂ (fun e f => (s.Plain e.1.value → s'.samePart e.1.value f.1.value = .ok true) ∧
    (s.Plain e.2 → s'.samePart e.2 f.2 = .ok true)) es fs

/-- `c` in `s'` is what `n` in `s` is. Values and attributes are equal, or the very same, if they are plain
data; and what is a map of attributes is one with the same entries. -/
structure SameNode (s s' : Store) (n c : NodeId) : Prop where
  cls : (s'.node c).cls = (s.node n).cls
  type : (s'.node c).type = (s.node n).type
  value : s.Plain (s.node n).value → s'.samePart (s.node n).value (s'.node c).value = .ok true
  attr : s.Plain (s.node n).attr → s'.samePart (s.node n).attr (s'.node c).attr = .ok true
  entries : ∀ es, s.entries? (s.node n).attr = some es →
    ∃ fs, s'.entries? (s'.node c).attr = some fs ∧ s.SameEntries s' es fs
  nodes : (s'.node c).nodes = none ↔ (s.node n).nodes = none

theorem SameContents.samePart (h : s.SameContents v w) : s.samePart v w = .ok true := by
  obtain ⟨t, hv, hw, ht⟩ := h
  exact samePart_of_denotes hv hw ht

theorem Plain.samePart (hv : s.Plain v) (hs : s.Extends s') (hcopy : s.CopyOf v s' w) :
    s'.samePart v w = .ok true := (hv.copy hs hcopy).samePart

/-- Copies of entries are the same entries. -/
theorem sameEntries_of_copies (hs : s.Extends s') (h : s.CopiesOf (entryValues es) s' (entryValues fs)) :
    s.SameEntries s' es fs := by
  induction es generalizing fs with
  | nil =>
      cases fs with
      | nil => exact .nil
      | cons f fs => cases h
  | cons e es ih =>
      cases fs with
      | nil => cases h
      | cons f fs =>
          rw [entryValues_cons, entryValues_cons] at h
          cases h with
          | cons hvalue h =>
              cases h with
              | cons hkey h =>
                  refine .cons ⟨fun hplain => ?_, fun hplain => ?_⟩ (ih h)
                  · exact hplain.samePart hs hkey
                  · exact hplain.samePart hs hvalue

theorem Duplicate.sameNode (h : s.Duplicate s' n c) (hs : s.Extends s') : s.SameNode s' n c where
  cls := h.cls
  type := h.type
  value hplain := hplain.samePart hs h.value.contents
  attr hplain := hplain.samePart hs h.attr.contents
  entries es hes := by
    obtain ⟨fs, hfs, -, hcopies⟩ := h.attr.entries es hes
    exact ⟨fs, hfs, sameEntries_of_copies hs hcopies⟩
  nodes := h.nodes

/-! ## Fresh copies -/

/-- The payload of a node is plain data, and its attributes stand in a map. -/
structure PlainPayload (s : Store) (n : NodeId) : Prop where
  value : s.Plain (s.node n).value
  attr : s.Plain (s.node n).attr
  map : ∃ es, s.entries? (s.node n).attr = some es

/-- The tree `u` that `s'` shows is a copy of the tree `t` in `s`, and all that there was in `s` is as it was. -/
structure FreshCopy (s : Store) (t : Subtree) (s' : Store) (u : Subtree) : Prop where
  shows : s'.Shows u
  /-- The trees have one shape, and the same node at each place. -/
  same : t.Matches (s.SameNode s') u
  /-- Every place of the copy is a new node. -/
  new : ∀ m ∈ u.preorder, s.nodes.size ≤ m ∧ m < s'.nodes.size
  distinct : u.preorder.Nodup
  linked : ∀ p ∈ u.preorder, ∀ (i : Nat) (d : NodeId), (s'.children p)[i]? = some (.node d) →
    (s'.node d).parent = some (.node p) ∧ (s'.node d).hint = .int i
  parent : (s'.node u.root).parent = none
  hint : (s'.node u.root).hint = .int (s'.node u.root).cls.detached
  kept : s.Extends s'
  /-- Written as maps, the two are equal, if values and attributes are plain data. -/
  outlined : (∀ m ∈ t.preorder, s.PlainPayload m) → ∃ v s₁ w s₂, toMap t.root s' = .ok v s₁ ∧
    toMap u.root s₁ = .ok w s₂ ∧ s₂.equal v w = .ok true

/-- The maps of a tree and of its clone are equal. -/
theorem Cloned.toMap_equal (h : Cloned s s s' t u) (ht : s.Shows t) (hmade : ∀ m ∈ t.preorder, m < s.nodes.size)
    (hplain : ∀ m ∈ t.preorder, s.PlainPayload m) : ∃ v s₁ w s₂, toMap t.root s' = .ok v s₁ ∧
      toMap u.root s₁ = .ok w s₂ ∧ s₂.equal v w = .ok true := by
  have hs : s.Extends s' := h.toExtends
  have hshown : t.Matches (fun n c => s'.ShownAlike s' s' n c ∧ ∃ fs, s'.entries? (s'.node c).attr = some fs) u :=
    h.matched.mono fun n hn c _ hdup =>
      hdup.shownAlike hs (hmade n hn) (hplain n hn).value (hplain n hn).attr (hplain n hn).map
  have ht' : s'.Shows t := ht.congr fun m hm => by rw [children, hs.node m (hmade m hm), children]
  have hmaps : s'.Mapped t.preorder := by
    intro m hm
    obtain ⟨es, hes⟩ := (hplain m hm).map
    exact ⟨es, hs.node m (hmade m hm) ▸ entries?_mono hes hs.object⟩
  have hmaps' : s'.Mapped u.preorder := by
    intro c hc
    obtain ⟨n, -, hn⟩ := exists_of_forall₂ hshown.forall₂.flip hc
    exact hn.2
  have hsize : t.size ≤ s'.nodes.size := by
    rw [h.count]
    exact Nat.le_add_left _ _
  have hsame : u.size = t.size := by
    rw [← Subtree.length_preorder, h.preorder, List.length_range']
  exact Store.toMap_equal ht' h.shows hmaps hmaps' hsize (hsame ▸ hsize) (hshown.mono fun _ _ _ _ hn => hn.1)

/-- **A clone is a fresh, exact copy, and touches nothing.** From the node no way along the children comes
back or leads to something else than a node of this library; and no value and no attribute below it holds a
node. Then cloning ends, and gives the top of a fresh copy of the tree below the node. -/
theorem clone_fresh_copy (h : s.Acyclic (ReflTransGen s.Holds n))
    (hpayload : ∀ m, ReflTransGen s.Holds n m → s.Nodeless (s.node m).value ∧ s.Nodeless (s.node m).attr) :
    ∃ t u s', s.Shows t ∧ t.root = n ∧ clone n s = .ok u.root s' ∧ s.FreshCopy t s' u := by
  obtain ⟨t, htree, rfl, hshows⟩ := subtree_of_acyclic h "clone" .refl
  have hmade : ∀ m ∈ t.preorder, m < s.nodes.size := fun m hm => h.exist m (hshows.down hm)
  have hclonable : s.Clonable t.preorder := fun m hm => ⟨hmade m hm, hpayload m (hshows.down hm)⟩
  obtain ⟨u, s', hclone, hcloned⟩ := cloneTree_cloned t (.refl s) hshows hclonable
  refine ⟨t, u, s', hshows, rfl, ?_, ?_⟩
  · rw [clone, Run.bind_of_ok (Run.check_of_ok htree)]
    exact hclone
  · have hnew (m : NodeId) (hm : m ∈ u.preorder) := hcloned.mem_preorder.mp hm
    refine ⟨hcloned.shows, ?_, hnew, ?_, ?_, hcloned.parent, hcloned.hint, hcloned.toExtends, ?_⟩
    · exact hcloned.matched.mono fun _ _ _ _ hdup => hdup.sameNode hcloned.toExtends
    · rw [hcloned.preorder]
      exact List.nodup_range'
    · exact fun p hp => hcloned.linked p (hnew p hp).1
    · exact hcloned.toMap_equal hshows hmade

/-! ## A tree with a shared node, and a value that has no equal -/

/-- What does not lead out of some values holds no nodes, if these are none. -/
theorem nodeless_of_closed {vs : List Value} (hv : v ∈ vs) (hclosed : ∀ x ∈ vs, ∀ y ∈ s.inside x, y ∈ vs)
    (hnone : ∀ n, .node n ∉ vs) (hmade : ∀ o, .object o ∈ vs → o < s.objects.size) : s.Nodeless v := by
  intro x hx
  have hmem : x ∈ vs := by
    induction hx with
    | root hroot => rwa [List.mem_singleton.mp hroot]
    | step _ hstep ih => exact hclosed _ ih _ hstep
  refine ⟨fun n heq => hnone n (heq ▸ hmem), fun o heq => hmade o (heq ▸ hmem)⟩

/-- A node with a list for its value, which holds another node twice. -/
def withTwins : Store :=
  { Store.empty with
    nodes := #[⟨.node, .text "root", .object 2, some [.node 1, .node 1], .object 0, none, .int (-1)⟩,
      ⟨.node, .text "leaf", .null, none, .object 1, some (.node 0), .int 1⟩]
    objects := #[.map [(.text "tags", .object 2)], .map [], .collection .list [.text "x", .int 3]] }

theorem acyclic_withTwins : withTwins.Acyclic (ReflTransGen withTwins.Holds 0) :=
  acyclic_of_ordered (by decide) (by decide)

theorem below_withTwins {m : NodeId} (h : ReflTransGen withTwins.Holds 0 m) : m = 0 ∨ m = 1 :=
  Nat.le_one_iff_eq_zero_or_eq_one.mp (Nat.le_of_lt_succ (acyclic_withTwins.exist m h))

theorem nodeless_withTwins (m : NodeId) (hm : ReflTransGen withTwins.Holds 0 m) :
    withTwins.Nodeless (withTwins.node m).value ∧ withTwins.Nodeless (withTwins.node m).attr := by
  have hclosed {v : Value} (hv : v ∈ [.null, .text "x", .int 3, .text "tags", .object 0, .object 1, .object 2]) :
      withTwins.Nodeless v := by
    refine nodeless_of_closed hv (by decide) (fun n hn => by simp at hn) fun o ho => ?_
    have ho : o = 0 ∨ o = 1 ∨ o = 2 := by simpa using ho
    rcases ho with rfl | rfl | rfl <;> decide
  rcases below_withTwins hm with rfl | rfl
  · exact ⟨hclosed (v := .object 2) (by decide), hclosed (v := .object 0) (by decide)⟩
  · exact ⟨hclosed (v := .null) (by decide), hclosed (v := .object 1) (by decide)⟩

/-- The contents of the list. -/
def tagsOfTwins : Content := .parts (.collection .list) [.atom (.text "x"), .atom (.int 3)]

theorem proper_tagsOfTwins : tagsOfTwins.Proper :=
  .parts (fun h => by cases h) fun c hc => by
    rcases List.mem_cons.mp hc with rfl | hc
    · exact .atom _
    · rw [List.mem_singleton.mp hc]
      exact .atom _

theorem plain_withTwins {m : NodeId} (hm : m = 0 ∨ m = 1) : withTwins.PlainPayload m := by
  have htags : withTwins.Denotes (.object 2) tagsOfTwins :=
    .of_parts rfl (.cons (.scalar rfl) (.cons (.scalar rfl) .nil))
  rcases hm with rfl | rfl
  · have hattr : withTwins.Denotes (.object 0) (.parts .map [tagsOfTwins, .atom (.text "tags")]) :=
      .of_parts rfl (.cons htags (.cons (.scalar rfl) .nil))
    refine ⟨⟨_, htags, proper_tagsOfTwins⟩, ⟨_, hattr, .parts (fun _ => ?_) fun c hc => ?_⟩, _, rfl⟩
    · exact List.pairwise_singleton _ _
    · rcases List.mem_cons.mp hc with rfl | hc
      · exact proper_tagsOfTwins
      · rw [List.mem_singleton.mp hc]
        exact .atom _
  · have hattr : withTwins.Denotes (.object 1) (.parts .map []) := .of_parts rfl .nil
    refine ⟨⟨_, .scalar rfl, .atom _⟩, ⟨_, hattr, .parts (fun _ => ?_) fun c hc => ?_⟩, _, rfl⟩
    · exact List.Pairwise.nil
    · cases hc

/-- The node that is held twice has two copies, and the copy shows what the original shows. -/
theorem clone_withTwins : ∃ u s', clone 0 withTwins = .ok u.root s' ∧
    withTwins.FreshCopy (.node 0 [.node 1 [], .node 1 []]) s' u ∧
    ∃ v s₁ w s₂, toMap 0 s' = .ok v s₁ ∧ toMap u.root s₁ = .ok w s₂ ∧ s₂.equal v w = .ok true := by
  obtain ⟨t, u, s', hshows, hroot, hclone, hcopy⟩ := clone_fresh_copy acyclic_withTwins nodeless_withTwins
  have hleaf : withTwins.Shows (.node 1 []) := .node rfl fun t ht => by cases ht
  have htwins : withTwins.Shows (.node 0 [.node 1 [], .node 1 []]) := by
    refine .node rfl fun t ht => ?_
    have ht : t = .node 1 [] := by simpa using ht
    exact ht ▸ hleaf
  cases hshows.unique htwins hroot
  refine ⟨u, s', hclone, hcopy, hcopy.outlined fun m hm => plain_withTwins ?_⟩
  simpa [Subtree.preorder, Subtree.preorderAll] using hm

/-- A node with a tracker for its value. -/
def withTracker : Store :=
  { Store.empty with
    nodes := #[⟨.node, .null, .object 1, none, .object 0, none, .int (-1)⟩]
    objects := #[.map [], .tracker .null (.int 1) (.int 1)] }

theorem below_withTracker {m : NodeId} (h : ReflTransGen withTracker.Holds 0 m) : m = 0 := by
  rcases h.cases_head with heq | ⟨d, hd, -⟩
  · exact heq.symm
  · cases hd

/-- **The copy of a tracker is not equal to it**, although the node is a tree of its own and its payload
holds no node. -/
theorem cloned_tracker_differs :
    withTracker.Acyclic (ReflTransGen withTracker.Holds 0) ∧
      (∀ m, ReflTransGen withTracker.Holds 0 m →
        withTracker.Nodeless (withTracker.node m).value ∧ withTracker.Nodeless (withTracker.node m).attr) ∧
      ∃ c s', clone 0 withTracker = .ok c s' ∧
        s'.equal (withTracker.node 0).value (s'.node c).value = .ok false := by
  have hclosed {v : Value} (hv : v ∈ [.null, .int 1, .object 0, .object 1]) : withTracker.Nodeless v := by
    refine nodeless_of_closed hv (by decide) (fun n hn => by simp at hn) fun o ho => ?_
    have ho : o = 0 ∨ o = 1 := by simpa using ho
    rcases ho with rfl | rfl <;> decide
  refine ⟨⟨fun n hn => ?_, fun p v hp hv => ?_, fun n hn hcycle => ?_⟩, fun m hm => ?_, 1, _, rfl, rfl⟩
  · rw [below_withTracker hn]
    decide
  · cases below_withTracker hp
    cases hv
  · cases below_withTracker hn
    obtain ⟨c, hc, -⟩ := TransGen.head'_iff.mp hcycle
    cases hc
  · cases below_withTracker hm
    exact ⟨hclosed (v := .object 1) (by decide), hclosed (v := .object 0) (by decide)⟩

end Store
end SyntaxTree
