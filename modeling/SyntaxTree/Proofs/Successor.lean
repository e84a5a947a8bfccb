import SyntaxTree.Proofs.Forest
import SyntaxTree.Proofs.Neighbours

/-!
# `Proofs.Successor` — the next node in document order

`next` takes one step to the right where it can, and climbs where it cannot. Document order is a list: the
preorder of the tree below the topmost node. The two meet in one invariant of the climb, which goes down
from the top to the node instead: the preorder of the whole tree is what comes before the node, the
preorder of the tree below it, and what comes after; and `next` is the first of what comes after.

`Shows` says that a tree is what a store has below the node at its top. It describes the tree without the
bound that unfolding needs, and each node shows one tree only.
-/

namespace SyntaxTree

open Relation

namespace Subtree

theorem preorder_eq (t : Subtree) : t.preorder = t.root :: preorderAll t.branches := by
  cases t with
  | node id branches => rw [preorder]; rfl

theorem preorderAll_eq_flatMap (ts : List Subtree) : preorderAll ts = ts.flatMap preorder := by
  induction ts with
  | nil => rfl
  | cons t ts ih => rw [preorderAll, List.flatMap_cons, ih]

theorem mem_preorder_node {n m : NodeId} {branches : List Subtree} :
    m ∈ (node n branches).preorder ↔ m = n ∨ ∃ b ∈ branches, m ∈ b.preorder := by
  rw [preorder, preorderAll_eq_flatMap, List.mem_cons, List.mem_flatMap]

theorem mem_preorder_of_branch {n m : NodeId} {branches : List Subtree} {b : Subtree} (hb : b ∈ branches)
    (hm : m ∈ b.preorder) : m ∈ (Subtree.node n branches).preorder :=
  mem_preorder_node.mpr (Or.inr ⟨b, hb, hm⟩)

theorem root_mem_preorder (t : Subtree) : t.root ∈ t.preorder := by
  rw [preorder_eq]
  exact List.mem_cons_self ..

/-- The first node of some trees is the top of the first of them. -/
theorem head?_preorderAll (ts : List Subtree) : (preorderAll ts).head? = ts.head?.map root := by
  cases ts with
  | nil => rfl
  | cons t ts => rw [preorderAll, preorder_eq]; rfl

end Subtree

namespace Store

variable {s : Store} {alive : NodeId → Prop}

/-! ## The tree that a node shows -/

/-- The tree is what the lists of children make of the node at its top. -/
inductive Shows (s : Store) : Subtree → Prop
  | node {n : NodeId} {branches : List Subtree} :
    s.children n = branches.map (fun t => .node t.root) → (∀ t ∈ branches, Shows s t) →
      Shows s (.node n branches)

theorem Shows.children {t : Subtree} (h : s.Shows t) :
    s.children t.root = t.branches.map fun b => .node b.root := by
  cases h with
  | node hchildren _ => exact hchildren

theorem Shows.branch {t b : Subtree} (h : s.Shows t) (hb : b ∈ t.branches) : s.Shows b := by
  cases h with
  | node _ hbranches => exact hbranches b hb

/-- There are no branches without a list of children. -/
theorem Shows.branches_eq_nil {n : NodeId} {branches : List Subtree} (h : s.Shows (.node n branches))
    (hnone : (s.node n).nodes = none) : branches = [] := by
  have hchildren := h.children
  rw [Store.children, Subtree.root, hnone] at hchildren
  exact List.map_eq_nil_iff.mp hchildren.symm

/-- Trees with the same tops are the same if each of them is the only one with its top. -/
theorem eq_of_map_root {ts us : List Subtree}
    (heq : ts.map (fun t => Value.node t.root) = us.map fun t => Value.node t.root)
    (hone : ∀ t ∈ ts, ∀ u ∈ us, t.root = u.root → t = u) : ts = us := by
  induction ts generalizing us with
  | nil =>
      cases us with
      | nil => rfl
      | cons u us => cases heq
  | cons t ts ih =>
      cases us with
      | nil => cases heq
      | cons u us =>
          obtain ⟨hroot, hrest⟩ := List.cons.inj heq
          have htu := hone t (List.mem_cons_self ..) u (List.mem_cons_self ..) (Value.node.inj hroot)
          have hts := ih hrest fun t ht u hu =>
            hone t (List.mem_cons_of_mem _ ht) u (List.mem_cons_of_mem _ hu)
          rw [htu, hts]

/-- A node shows one tree at most. -/
theorem Shows.unique {t u : Subtree} (ht : s.Shows t) (hu : s.Shows u) (hroot : t.root = u.root) :
    t = u := by
  induction ht generalizing u with
  | @node n branches hchildren _ ih =>
      cases hu with
      | @node m branches' hchildren' hbranches' =>
          have hnm : n = m := hroot
          subst hnm
          have heq : branches = branches' :=
            eq_of_map_root (hchildren.symm.trans hchildren') fun t ht u hu hr =>
              ih t ht (hbranches' u hu) hr
          rw [heq]

theorem Shows.holds {t b : Subtree} (h : s.Shows t) (hb : b ∈ t.branches) : s.Holds t.root b.root := by
  rw [Holds, h.children]
  exact List.mem_map.mpr ⟨b, hb, rfl⟩

/-- A tree lists what is below the node at its top. -/
theorem Shows.down {t : Subtree} (h : s.Shows t) {m : NodeId} (hm : m ∈ t.preorder) :
    ReflTransGen s.Holds t.root m := by
  induction h with
  | @node n branches hchildren hbranches ih =>
      rcases Subtree.mem_preorder_node.mp hm with rfl | ⟨b, hb, hm⟩
      · exact .refl
      · exact .head ((Shows.node hchildren hbranches).holds hb) (ih b hb hm)

/-- A tree is shown by every store with the same lists of children. -/
theorem Shows.congr {s' : Store} {t : Subtree} (h : s.Shows t)
    (hsame : ∀ m ∈ t.preorder, s'.children m = s.children m) : s'.Shows t := by
  induction h with
  | @node n branches hchildren _ ih =>
      refine .node ((hsame n (by simp [Subtree.preorder])).trans hchildren) fun b hb => ?_
      exact ih b hb fun m hm => hsame m (Subtree.mem_preorder_of_branch hb hm)

/-! ## Unfolding -/

/-- Unfolding children goes well if it does for each of them. -/
theorem subtrees_eq (operation : String) {unfold : NodeId → Except Fault Subtree} {vs : List Value}
    (h : ∀ v ∈ vs, ∃ c t, v = .node c ∧ unfold c = .ok t ∧ t.root = c ∧ s.Shows t) :
    ∃ ts, s.subtrees operation unfold vs = .ok ts ∧ vs = ts.map (fun t => .node t.root) ∧
      ∀ t ∈ ts, s.Shows t := by
  induction vs with
  | nil => exact ⟨[], rfl, rfl, by simp⟩
  | cons v vs ih =>
      obtain ⟨c, t, rfl, ht, hroot, hshows⟩ := h v (List.mem_cons_self ..)
      obtain ⟨ts, hts, hvs, hall⟩ := ih fun w hw => h w (List.mem_cons_of_mem _ hw)
      refine ⟨t :: ts, ?_, ?_, ?_⟩
      · rw [subtrees, actor_node]
        simp only [bind, Except.bind, ht, hts]
      · rw [List.map_cons, hroot, ← hvs]
      · rintro u (_ | ⟨_, hu⟩)
        · exact hshows
        · exact hall u hu

/-- With as many levels as there are nodes below it, a node can be unfolded. -/
theorem subtreeWithin_of_acyclic (h : s.Acyclic alive) (operation : String) {fuel : Nat} {n : NodeId}
    (hn : alive n) (hfuel : (s.below n).card ≤ fuel) :
    ∃ t, s.subtreeWithin operation fuel n = .ok t ∧ t.root = n ∧ s.Shows t := by
  induction fuel generalizing n with
  | zero => exact absurd (card_below_pos h hn) (by omega)
  | succ fuel ih =>
      have hbranch : ∀ v ∈ s.children n, ∃ c t, v = .node c ∧
          s.subtreeWithin operation fuel c = .ok t ∧ t.root = c ∧ s.Shows t := by
        intro v hv
        obtain ⟨c, rfl, hc⟩ := h.child n v hn hv
        -- less is below a child than below its holder, and so one level less is enough
        have hlt := card_below_lt h hn hv
        obtain ⟨t, ht⟩ := ih hc (by omega)
        exact ⟨c, t, rfl, ht⟩
      obtain ⟨ts, hts, hchildren, hall⟩ := subtrees_eq operation hbranch
      refine ⟨.node n ts, ?_, rfl, .node hchildren hall⟩
      rw [subtreeWithin, hts]
      rfl

/-- **The tree below a living node can be unfolded.** -/
theorem subtree_of_acyclic (h : s.Acyclic alive) (operation : String) {n : NodeId} (hn : alive n) :
    ∃ t, s.subtree operation n = .ok t ∧ t.root = n ∧ s.Shows t :=
  subtreeWithin_of_acyclic h operation hn ((card_below_le s n).trans (Nat.le_succ _))

theorem subtree_of_forest (h : s.Forest alive) (operation : String) {n : NodeId} (hn : alive n) :
    ∃ t, s.subtree operation n = .ok t ∧ t.root = n ∧ s.Shows t :=
  subtree_of_acyclic h.toAcyclic operation hn

/-! ## No node stands twice in document order -/

/-- Of two nodes that lead to a third one, one leads to the other. -/
theorem down_or_down (h : s.Forest alive) {c d m : NodeId} (hc : alive c) (hd : alive d)
    (hcm : ReflTransGen s.Holds c m) (hdm : ReflTransGen s.Holds d m) :
    ReflTransGen s.Holds c d ∨ ReflTransGen s.Holds d c := by
  induction hcm with
  | refl => exact Or.inr hdm
  | @tail b m hcb hbm ih =>
      rcases hdm.cases_tail with rfl | ⟨b', hdb, hbm'⟩
      · exact Or.inl (hcb.tail hbm)
      · have hsame := h.holder_unique (h.alive_of_below hc hcb) (h.alive_of_below hd hdb) hbm hbm'
        exact ih (hsame ▸ hdb)

/-- A node does not lead to another child of its holder. -/
theorem not_down_sibling (h : s.Forest alive) {p c d : NodeId} (hp : alive p) (hc : s.Holds p c)
    (hd : s.Holds p d) (hne : c ≠ d) : ¬ ReflTransGen s.Holds c d := by
  intro hcd
  rcases hcd.cases_tail with heq | ⟨b, hcb, hbd⟩
  · exact hne heq.symm
  · have hb := h.alive_of_below (h.alive_of_holds hp hc) hcb
    have hbp := h.holder_unique hb hp hbd hd
    exact h.acyclic p hp (.head' hc (hbp ▸ hcb))

/-- **A tree lists no node twice.** Two branches have nothing in common, since a common node would make
    one of their tops lead to the other. -/
theorem Shows.nodup (h : s.Forest alive) {t : Subtree} (ht : s.Shows t) (hroot : alive t.root) :
    t.preorder.Nodup := by
  induction ht with
  | @node n branches hchildren hbranches ih =>
      have hshows : s.Shows (.node n branches) := .node hchildren hbranches
      have hbranch : ∀ b ∈ branches, alive b.root := fun b hb =>
        h.alive_of_holds hroot (hshows.holds hb)
      rw [Subtree.preorder, Subtree.preorderAll_eq_flatMap, List.nodup_cons, List.nodup_flatMap]
      refine ⟨fun hmem => ?_, fun b hb => ih b hb (hbranch b hb), ?_⟩
      · -- in a branch of its own the top would lead back to itself
        obtain ⟨b, hb, hn⟩ := List.mem_flatMap.mp hmem
        exact h.acyclic n hroot (.head' (hshows.holds hb) ((hbranches b hb).down hn))
      · have htops : branches.Pairwise fun b c => b.root ≠ c.root := by
          have hnodup := h.children_nodup hroot
          rw [show s.children (Subtree.node n branches).root = _ from hchildren, List.Nodup,
            List.pairwise_map] at hnodup
          exact hnodup.imp fun hne heq => hne (congrArg Value.node heq)
        -- of two branches with a common node one top leads to the other, its sibling
        refine htops.imp_of_mem fun {b c} hb hc hne m hmb hmc => ?_
        have hbm := (hbranches b hb).down hmb
        have hcm := (hbranches c hc).down hmc
        rcases down_or_down h (hbranch b hb) (hbranch c hc) hbm hcm with hbc | hcb
        · exact not_down_sibling h hroot (hshows.holds hb) (hshows.holds hc) hne hbc
        · exact not_down_sibling h hroot (hshows.holds hc) (hshows.holds hb) hne.symm hcb

/-! ## The climb -/

/-- From a node in no list there is nothing to go on to, wherever its parent link leads. -/
theorem plainNextWithin_of_top (h : s.Forest alive) {n : NodeId} (hn : alive n)
    (htop : ∀ p, alive p → ¬ s.Holds p n) (fuel : Nat) :
    s.plainNextWithin (fuel + 1) n = .ok .null := by
  have hmem : Value.node n ∉ s.siblingList n := by
    unfold siblingList
    split
    · next p hp => exact htop p (h.above n p hn hp)
    · exact List.not_mem_nil
  have hindex : s.plainIndex n = .int (s.node n).cls.detached := scanned_of_not_mem s hmem
  simp [plainNextWithin, hindex]

/-- From a child the next one is its right neighbour, or else what comes next after its holder. -/
theorem plainNextWithin_of_child (h : s.Forest alive) {p c : NodeId} {i : Nat} (hp : alive p)
    (hi : (s.children p)[i]? = some (.node c)) (hsentinel : (s.node c).cls.detached < 0) (fuel : Nat) :
    s.plainNextWithin (fuel + 1) c =
      match (s.children p)[i + 1]? with
      | some v => .ok v
      | none => s.plainNextWithin fuel p := by
  have hc : s.Holds p c := List.mem_of_getElem? hi
  have hlist := h.siblingList_of_holds hp hc
  have hindex : s.plainIndex c = .int i := by
    rw [plainIndex, hlist]
    exact scanned_of_getElem? s (h.children_nodup hp) hi
  have hempty : (s.children p).isEmpty = false := by
    rw [List.isEmpty_eq_false_iff]
    exact List.ne_nil_of_mem hc
  have hpresent : (Value.int i).equalsInt (s.node c).cls.detached = false := by
    rw [Value.equalsInt_int, beq_eq_false_iff_ne]
    omega
  rw [plainNextWithin, hlist, hindex, hempty, hpresent, h.parent p c hp hc]
  by_cases hright : i + 1 < (s.children p).length
  · -- a step to the right
    rw [hintIsBelow_right, decide_eq_true hright, listItem_right s hright,
      List.getElem?_eq_getElem hright]
    rfl
  · -- the last child: a step up
    rw [hintIsBelow_right, decide_eq_false hright, List.getElem?_eq_none (Nat.le_of_not_lt hright)]
    rfl

/-- **What comes after a node in document order begins with its `next`.** The induction goes down from the
    top; the height of the climb is bounded by what is not below the node. -/
theorem climb (h : s.Forest alive) (hsentinel : ∀ n, alive n → (s.node n).cls.detached < 0)
    {whole : Subtree} (hwhole : s.Shows whole) (hroot : alive whole.root)
    (htop : ∀ p, alive p → ¬ s.Holds p whole.root) {n : NodeId}
    (hn : ReflTransGen s.Holds whole.root n) :
    ∃ part before after, s.Shows part ∧ part.root = n ∧
      whole.preorder = before ++ part.preorder ++ after ∧
      ∀ fuel, s.nodes.size < fuel + (s.below n).card →
        s.plainNextWithin fuel n = .ok (after.head?.elim .null .node) := by
  induction hn with
  | refl =>
      -- nothing comes before or after the whole tree
      refine ⟨whole, [], [], hwhole, rfl, by simp, fun fuel hfuel => ?_⟩
      have hle := card_below_le s whole.root
      obtain ⟨k, rfl⟩ : ∃ k, fuel = k + 1 := ⟨fuel - 1, by omega⟩
      exact plainNextWithin_of_top h hroot htop k
  | @tail p c hdown hc ih =>
      obtain ⟨above, before, after, hshows, rfl, horder, hnext⟩ := ih
      have hp : alive above.root := h.alive_of_below hroot hdown
      obtain ⟨part, hpart, hpc⟩ : ∃ b ∈ above.branches, b.root = c := by
        have hmem : Value.node c ∈ s.children above.root := hc
        rw [hshows.children] at hmem
        obtain ⟨b, hb, hbc⟩ := List.mem_map.mp hmem
        exact ⟨b, hb, Value.node.inj hbc⟩
      -- the branches to the left come before the node as well, those to the right after it
      obtain ⟨left, right, hsplit⟩ := List.append_of_mem hpart
      have hchildren : s.children above.root =
          left.map (fun b => Value.node b.root) ++ .node c :: right.map fun b => .node b.root := by
        rw [hshows.children, hsplit, List.map_append, List.map_cons, hpc]
      have hi : (s.children above.root)[left.length]? = some (.node c) := by
        rw [hchildren, List.getElem?_append_right (by simp)]
        simp
      have hright : (s.children above.root)[left.length + 1]? =
          right.head?.map fun b => .node b.root := by
        rw [hchildren, List.getElem?_append_right (by simp)]
        simp [List.head?_eq_getElem?]
      refine ⟨part, before ++ above.root :: Subtree.preorderAll left, Subtree.preorderAll right ++ after,
        hshows.branch hpart, hpc, ?_, fun fuel hfuel => ?_⟩
      · rw [horder, Subtree.preorder_eq above, hsplit]
        simp only [Subtree.preorderAll_eq_flatMap, List.flatMap_append, List.flatMap_cons,
          List.append_assoc, List.cons_append]
      · have hlt := card_below_lt h.toAcyclic hp hc
        have hle := card_below_le s c
        obtain ⟨k, rfl⟩ : ∃ k, fuel = k + 1 := ⟨fuel - 1, by omega⟩
        rw [plainNextWithin_of_child h hp hi (hsentinel c (h.alive_of_holds hp hc)) k, hright]
        cases right with
        | nil => exact hnext k (by omega)
        | cons b bs =>
            rw [List.head?_append, Subtree.head?_preorderAll]
            rfl

/-- The element that stands `size` places after a node in document order is what comes after its tree. -/
theorem getElem?_after {before after : List NodeId} {part : Subtree}
    (hnodup : (before ++ part.preorder ++ after).Nodup) :
    (before ++ part.preorder ++ after)[
      (before ++ part.preorder ++ after).idxOf part.root + part.size]? = after.head? := by
  have hmem : part.root ∉ before := by
    rw [List.append_assoc, Subtree.preorder_eq] at hnodup
    exact fun hb => (List.disjoint_of_nodup_append hnodup) hb (List.mem_cons_self ..)
  have hidx : (before ++ part.preorder ++ after).idxOf part.root = before.length := by
    rw [List.append_assoc, List.idxOf_append_of_notMem hmem, Subtree.preorder_eq, List.cons_append,
      List.idxOf_cons_self, Nat.add_zero]
  have hlength : (before ++ part.preorder).length = before.length + part.size := by
    rw [List.length_append, Subtree.length_preorder]
  rw [hidx, ← hlength, List.getElem?_append_right (Nat.le_refl _), Nat.sub_self, List.head?_eq_getElem?]

/-- `next` of `n` is the element of the preorder of the tree below `r` that stands as many places after
`n` as the tree below `n` has, and null if there is none. -/
def NextIsAfter (s : Store) (operation : String) (n r : NodeId) : Prop :=
  ∃ whole part, s.subtree operation r = .ok whole ∧ s.subtree operation n = .ok part ∧
    whole.preorder.Nodup ∧ n ∈ whole.preorder ∧
    Run.outcome ((Action.read (.node n) "next").perform s) =
      .ok ((whole.preorder[whole.preorder.idxOf n + part.size]?).elim .null .node)

/-- **`next` is the successor in document order past the subtree.** For a living node in a forest it is
    found by its place below the topmost node. For the topmost node it is null, even if that has a parent
    that is alive. -/
theorem next_eq_successor {s : Store} {alive : NodeId → Prop} (hs : s.Regular) (h : s.Forest alive)
    (hsentinel : ∀ n, alive n → (s.node n).cls.detached < 0) {n : NodeId} (hn : alive n)
    (operation : String) :
    (∃ r, s.Topmost alive n r) ∧
      ∀ r, s.Topmost alive n r → s.NextIsAfter operation n r ∧
        Run.outcome ((Action.read (.node r) "next").perform s) = .ok .null := by
  have hread {m : NodeId} (hm : alive m) :
      Run.outcome ((Action.read (.node m) "next").perform s) = s.plainNext m := by
    obtain ⟨s', hrun, -⟩ := next_eq hs h.tidy hm
    rw [perform_read, readNode_next, hrun, Run.outcome_ended]
  refine ⟨exists_topmost h hn, fun r hr => ⟨?_, ?_⟩⟩
  · obtain ⟨whole, hwhole, rfl, hshows⟩ := subtree_of_forest h operation hr.living
    obtain ⟨part, hpart, hroot, hpartShows⟩ := subtree_of_forest h operation hn
    have hnodup : whole.preorder.Nodup := hshows.nodup h hr.living
    obtain ⟨part', before, after, hshows', hroot', horder, hnext⟩ :=
      climb h hsentinel hshows hr.living hr.top hr.down
    obtain rfl : part' = part := hshows'.unique hpartShows (hroot'.trans hroot.symm)
    subst hroot
    have hmem : part'.root ∈ whole.preorder := by
      rw [horder, Subtree.preorder_eq part']
      simp
    refine ⟨whole, part', hwhole, hpart, hnodup, hmem, ?_⟩
    rw [hread hn, plainNext, hnext _ (Nat.lt_add_right _ (Nat.lt_succ_self _))]
    rw [horder] at hnodup ⊢
    rw [getElem?_after hnodup]
  · rw [hread hr.living]
    exact plainNextWithin_of_top h hr.living hr.top _

/-! ## Stores with one list -/

/-- One list of children, of nodes that know their parent, is a forest. -/
theorem Forest.of_list {s : Store} {r : NodeId} {l : List NodeId}
    (hr : s.children r = l.map .node) (hleaf : ∀ p, p ≠ r → s.children p = []) (hnodup : l.Nodup)
    (hl : ∀ c ∈ l, c < s.nodes.size ∧ c ≠ r ∧ (s.node c).parent = some (.node r))
    (habove : ∀ n p, (s.node n).parent = some (.node p) → p < s.nodes.size) :
    s.Forest (· < s.nodes.size) := by
  have hholder {p : NodeId} {v : Value} (hv : v ∈ s.children p) : p = r := by
    by_contra hp
    rw [hleaf p hp] at hv
    cases hv
  have hholds {p c : NodeId} (hc : s.Holds p c) : p = r ∧ c ∈ l := by
    obtain rfl := hholder hc
    rw [Holds, hr] at hc
    obtain ⟨d, hd, hdc⟩ := List.mem_map.mp hc
    cases hdc
    exact ⟨rfl, hd⟩
  refine ⟨fun _ hn => hn, fun p v _ hv => ?_, fun p q c i j _ _ hi hj => ?_, fun p c _ hc => ?_,
    fun n _ hcycle => ?_, fun n p _ hp => habove n p hp⟩
  · obtain rfl := hholder hv
    rw [hr] at hv
    obtain ⟨c, hc, rfl⟩ := List.mem_map.mp hv
    exact ⟨c, rfl, (hl c hc).1⟩
  · obtain rfl := hholder (List.mem_of_getElem? hi)
    obtain rfl := hholder (List.mem_of_getElem? hj)
    rw [hr] at hi hj
    have hvalues : (l.map Value.node).Nodup := hnodup.map fun a b hab => Value.node.inj hab
    exact ⟨rfl, (List.getElem?_inj (List.getElem?_eq_some_iff.mp hi).1 hvalues).mp (hi.trans hj.symm)⟩
  · obtain ⟨rfl, hc⟩ := hholds hc
    exact (hl c hc).2.2
  · obtain ⟨p, hp, -⟩ := TransGen.head'_iff.mp hcycle
    obtain ⟨rfl, -⟩ := hholds hp
    obtain ⟨q, -, hq⟩ := TransGen.tail'_iff.mp hcycle
    exact (hl _ (hholds hq).2).2.1 rfl

/-- Three nodes, of which the first one gets the others for children, and what is done to them then. -/
def threeNodes (cls : NodeClass) (more : List Action) (start : Store) : Store :=
  (Action.performAll ([.create .node .empty, .create cls .empty, .create .node .empty,
    .push (.node 0) (.node 1), .push (.node 0) (.node 2)] ++ more) start).2

/-- What holds of three records and of a blank one holds of all. -/
theorem forall_node_of_three {s : Store} (P : NodeRecord → Prop) (hsize : s.nodes.size = 3)
    (h : P (s.node 0) ∧ P (s.node 1) ∧ P (s.node 2)) (hblank : P default) : ∀ n, P (s.node n) := by
  intro n
  match n with
  | 0 => exact h.1
  | 1 => exact h.2.1
  | 2 => exact h.2.2
  | n + 3 => rw [node_of_size_le s (hsize ▸ Nat.le_add_left 3 n)]; exact hblank

/-- Only the first of three nodes has children. -/
def OneList (s : Store) : Prop := s.nodes.size = 3 ∧ s.children 1 = [] ∧ s.children 2 = []

theorem OneList.holder {s : Store} (h : s.OneList) {p : NodeId} (hp : p ≠ 0) : s.children p = [] := by
  obtain ⟨hsize, h1, h2⟩ := h
  match p with
  | 0 => exact absurd rfl hp
  | 1 => exact h1
  | 2 => exact h2
  | n + 3 => rw [children, node_of_size_le s (hsize ▸ Nat.le_add_left 3 n)]; rfl

/-- The first of three nodes is the parent of the others. -/
def OneParent (s : Store) : Prop :=
  (s.node 0).parent = none ∧ (s.node 1).parent = some (.node 0) ∧ (s.node 2).parent = some (.node 0)

theorem OneParent.parent {s : Store} (h : s.OneParent) (hsize : s.nodes.size = 3) :
    ∀ n p, (s.node n).parent = some p → p = .node 0 := by
  obtain ⟨h0, h1, h2⟩ := h
  refine forall_node_of_three (fun r => ∀ p, r.parent = some p → p = .node 0) hsize
    ⟨fun p hp => ?_, fun p hp => ?_, fun p hp => ?_⟩ fun p hp => ?_
  · rw [h0] at hp; cases hp
  · rw [h1] at hp; cases hp; rfl
  · rw [h2] at hp; cases hp; rfl
  · cases hp

/-- Three nodes are a forest if the first one still holds some of the others in their order. -/
theorem Forest.of_three {s : Store} {l : List NodeId} (h : s.OneList) (hparent : s.OneParent)
    (hlist : s.children 0 = l.map .node) (hl : l.Sublist [1, 2]) : s.Forest (· < s.nodes.size) := by
  refine Forest.of_list hlist (fun p hp => h.holder hp) (hl.nodup (by decide)) ?_ ?_
  · intro c hc
    have hmem : c ∈ [1, 2] := hl.subset hc
    rw [h.1]
    rcases List.mem_pair.mp hmem with rfl | rfl
    · exact ⟨by decide, by decide, hparent.2.1⟩
    · exact ⟨by decide, by decide, hparent.2.2⟩
  · intro n p hp
    cases hparent.parent h.1 n _ hp
    rw [h.1]
    decide

/-- Of three nodes, one that the first does not hold is a topmost one. -/
theorem Topmost.of_three {s : Store} (h : s.OneList) {n r : NodeId} (hr : r < 3)
    (hdown : ReflTransGen s.Holds r n) (htop : ¬ s.Holds 0 r) :
    s.Topmost (· < s.nodes.size) n r where
  living := h.1 ▸ hr
  down := hdown
  top p _ hc := by
    by_cases hp : p = 0
    · exact htop (hp ▸ hc)
    · rw [Holds, h.holder hp] at hc
      cases hc

theorem hint_int_of_three {s : Store} (hsize : s.nodes.size = 3) {i j k : Int}
    (h : (s.node 0).hint = .int i ∧ (s.node 1).hint = .int j ∧ (s.node 2).hint = .int k) :
    ∀ n, ∃ i : Int, (s.node n).hint = .int i :=
  forall_node_of_three (fun r => ∃ i : Int, r.hint = .int i) hsize ⟨⟨i, h.1⟩, ⟨j, h.2.1⟩, ⟨k, h.2.2⟩⟩
    ⟨_, rfl⟩

/-- The last child was taken away and still calls the first node its parent; the other has a stale hint. -/
def withDangling : Store :=
  threeNodes .node [.pop (.node 0), .assign (.node 1) "index" (.int 7)] .empty

/-- What was taken away is a topmost node, and nothing comes after it, although its parent is alive and
has another child. -/
theorem next_withDangling :
    withDangling.Regular ∧ withDangling.Forest (· < withDangling.nodes.size) ∧
      (∀ n, n < withDangling.nodes.size → (withDangling.node n).cls.detached < 0) ∧
      withDangling.NextIsAfter "clone" 1 0 ∧
      Run.outcome ((Action.read (.node 2) "next").perform withDangling) = .ok .null := by
  have hlist : withDangling.OneList := ⟨rfl, rfl, rfl⟩
  have hparent : withDangling.OneParent := ⟨rfl, rfl, rfl⟩
  have hforest : withDangling.Forest (· < withDangling.nodes.size) :=
    .of_three (l := [1]) hlist hparent rfl (by decide)
  have hregular : withDangling.Regular :=
    ⟨fun n => ⟨hint_int_of_three rfl ⟨rfl, rfl, rfl⟩ n, fun p hp => ⟨0, hparent.parent rfl n p hp⟩⟩,
      fun hread => by cases hread⟩
  have hsentinel : ∀ n, n < withDangling.nodes.size → (withDangling.node n).cls.detached < 0 :=
    fun n _ => forall_node_of_three (·.cls.detached < 0) rfl (by decide) (by decide) n
  have hroot : withDangling.Topmost (· < withDangling.nodes.size) 1 0 :=
    .of_three hlist (by decide) (.single (by decide)) (by decide)
  have hself : withDangling.Topmost (· < withDangling.nodes.size) 2 2 :=
    .of_three hlist (by decide) .refl (by decide)
  refine ⟨hregular, hforest, hsentinel, ?_, ?_⟩
  · exact ((next_eq_successor hregular hforest hsentinel (n := 1) (by decide) "clone").2 0 hroot).1
  · exact ((next_eq_successor hregular hforest hsentinel (n := 2) (by decide) "clone").2 2 hself).2

/-! ### What the successor depends on -/

/-- The last child shows its own value, which is itself, in a debug record that somebody reads. -/
def withEndlessRecord : Store :=
  threeNodes .node [.assign (.node 2) "value" (.node 2), .assign (.node 2) "index" (.int 7)]
    { Store.empty with logIsRead := true }

/-- The class of the first child takes a position for "not there". -/
def withOddSentinel : Store := threeNodes (.extended "Odd" 0 []) [] .empty

/-- **Neither condition can go.** In a forest with integer hints `next` need not be the successor if a
    debug record that is read has to show a node without end, nor if the class of a node takes a position
    for "not there". -/
theorem next_not_successor :
    (¬ ∀ (s : Store) (alive : NodeId → Prop) (n r : NodeId), s.Forest alive →
      (∀ n, ∃ i : Int, (s.node n).hint = .int i) → (∀ n, (s.node n).cls.detached < 0) →
      s.Topmost alive n r → s.NextIsAfter "clone" n r) ∧
    ¬ ∀ (s : Store) (alive : NodeId → Prop) (n r : NodeId), s.Forest alive → s.Regular →
      s.Topmost alive n r → s.NextIsAfter "clone" n r := by
  constructor
  · intro hsuccessor
    have hlist : withEndlessRecord.OneList := ⟨rfl, rfl, rfl⟩
    obtain ⟨whole, part, -, -, -, -, hnext⟩ := hsuccessor withEndlessRecord _ 2 0
      (.of_three (l := [1, 2]) hlist ⟨rfl, rfl, rfl⟩ rfl (by decide))
      (hint_int_of_three rfl ⟨rfl, rfl, rfl⟩)
      (forall_node_of_three (·.cls.detached < 0) rfl (by decide) (by decide))
      (.of_three hlist (by decide) (.single (by decide)) (by decide))
    -- the climb ends where the record about the stale hint should be written
    have hendless : Run.outcome ((Action.read (.node 2) "next").perform withEndlessRecord) =
        .error .endless := rfl
    rw [hendless] at hnext
    cases hnext
  · intro hsuccessor
    have hlist : withOddSentinel.OneList := ⟨rfl, rfl, rfl⟩
    have hparent : withOddSentinel.OneParent := ⟨rfl, rfl, rfl⟩
    have hregular : withOddSentinel.Regular :=
      ⟨fun n => ⟨hint_int_of_three rfl ⟨rfl, rfl, rfl⟩ n, fun p hp => ⟨0, hparent.parent rfl n p hp⟩⟩,
        fun hread => by cases hread⟩
    obtain ⟨whole, part, hwhole, hpart, -, -, hnext⟩ := hsuccessor withOddSentinel _ 1 0
      (.of_three (l := [1, 2]) hlist hparent rfl (by decide)) hregular
      (.of_three hlist (by decide) (.single (by decide)) (by decide))
    -- the index of the first child is right and reads as "not there" all the same
    have hnull : Run.outcome ((Action.read (.node 1) "next").perform withOddSentinel) =
        .ok .null := rfl
    have htree : withOddSentinel.subtree "clone" 0 =
        .ok (.node 0 [.node 1 [], .node 2 []]) := rfl
    have hleaf : withOddSentinel.subtree "clone" 1 = .ok (.node 1 []) := rfl
    cases htree.symm.trans hwhole
    cases hleaf.symm.trans hpart
    rw [hnull] at hnext
    cases hnext

end Store
end SyntaxTree
