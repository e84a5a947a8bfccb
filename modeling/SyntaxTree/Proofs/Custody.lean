import SyntaxTree.Proofs.Grown
import SyntaxTree.Proofs.Showing

/-!
# `Proofs.Custody` — holding the root is enough

Parent links keep nothing alive, and everything that looks up a tree goes by them. In a forest that costs nothing as
long as somebody holds the root: the parent of every other node of the tree is in the tree, so it is in use, and a
collection leaves the record of the node as it is (`node_collect_below`). The root itself may lose its parent. That
was a node which once had the root among its children and has it no more, so the root has no place in that list, and
looking for its index, or climbing past it, ends there with or without the link (`plainIndex_top`,
`plainNextWithin_top`).

So nothing that can be read of the nodes of a tree is changed by letting go of all the rest (`collect_keeps_tree`).
-/

namespace SyntaxTree

open Relation

namespace Store

variable {s : Store} {alive : NodeId → Prop} {inUse : List Value} {r n : NodeId}

/-! ## What a collection leaves -/

/-- A collection changes no field of a node but its parent. -/
theorem node_collect_fields (s : Store) (inUse : List Value) (n : NodeId) :
    (s.collect inUse).node n = { s.node n with parent := ((s.collect inUse).node n).parent } := by
  rw [node_collect]
  rcases cutParent_parent_or (s.reachable inUse) (s.node n) with hsame | hcut
  · rw [hsame]
  · rw [hcut]

theorem akin_collect (s : Store) (inUse : List Value) : (s.collect inUse).Akin s :=
  ⟨rfl, fun n => by rw [node_collect_fields], fun n => by rw [node_collect_fields]⟩

theorem showsAlike_collect (s : Store) (inUse : List Value) : s.ShowsAlike (s.collect inUse) :=
  ⟨size_collect s inUse, rfl, fun n => by rw [node_collect_fields], fun n => by rw [node_collect_fields]⟩

/-- What is below a node in use is in use. -/
theorem reachable_below (hr : .node r ∈ s.reachable inUse) (hn : ReflTransGen s.Holds r n) :
    .node n ∈ s.reachable inUse := by
  induction hn with
  | refl => exact hr
  | tail _ hc ih => exact child_reachable ih hc

theorem mem_reachable_of_mem (h : .node r ∈ inUse) : .node r ∈ s.reachable inUse :=
  (mem_reachable_iff s inUse _).mpr (.root (List.mem_filter.mpr ⟨h, rfl⟩))

/-- A node that is held by a node in use is left as it is. -/
theorem node_collect_of_holds (hforest : s.Forest alive) {p : NodeId} (hp : alive p)
    (hused : .node p ∈ s.reachable inUse) (hc : s.Holds p n) : (s.collect inUse).node n = s.node n := by
  rw [node_collect, cutParent, hforest.parent p n hp hc]
  exact if_pos hused

/-! ## The root -/

/-- The top of a tree has no place in the list of its parent, if it has one. -/
theorem plainIndex_top (hforest : s.Forest alive) (h : s.Topmost alive r r) : s.plainIndex r = s.detached r := by
  refine scanned_of_not_mem s fun hmem => ?_
  unfold siblingList at hmem
  split at hmem
  · next p hp => exact h.top p (hforest.above r p h.living hp) hmem
  · cases hmem

/-- A climb ends at the top, whether the top has a parent or not. -/
theorem plainNextWithin_top (hforest : s.Forest alive) (h : s.Topmost alive r r) (fuel : Nat) :
    s.plainNextWithin (fuel + 1) r = .ok .null := by
  have hstop : (s.plainIndex r).equalsInt (s.node r).cls.detached = true := by
    rw [plainIndex_top hforest h]
    exact beq_self_eq_true _
  rw [plainNextWithin, if_pos hstop]
  split <;> rfl

/-- Below the top every node is held by one that is below the top. -/
theorem Topmost.holder (h : s.Topmost alive n r) (hne : n ≠ r) : ∃ p, s.Topmost alive p r ∧ s.Holds p n := by
  obtain heq | ⟨p, hp, hc⟩ := h.down.cases_tail
  · exact absurd heq hne
  · exact ⟨p, ⟨h.living, hp, h.top⟩, hc⟩

/-! ## What is read below the root -/

/-- A collection in which a tree is kept, and the store before it. -/
structure Kept (s : Store) (alive : NodeId → Prop) (inUse : List Value) (r : NodeId) : Prop where
  forest : s.Forest alive
  /-- The nodes that are in use form a forest of their own. -/
  rest : (s.collect inUse).Forest fun n => alive n ∧ .node n ∈ s.reachable inUse
  used : .node r ∈ s.reachable inUse

namespace Kept

theorem below (h : s.Kept alive inUse r) (hn : s.Topmost alive n r) : .node n ∈ s.reachable inUse :=
  reachable_below h.used hn.down

/-- The tree is the same after the collection. -/
theorem topmost (h : s.Kept alive inUse r) (hn : s.Topmost alive n r) :
    (s.collect inUse).Topmost (fun n => alive n ∧ .node n ∈ s.reachable inUse) n r where
  living := ⟨hn.living, h.used⟩
  down := by
    have hsame : (s.collect inUse).Holds = s.Holds := by
      funext p c
      rw [Holds, children_collect, Holds]
    exact hsame ▸ hn.down
  top p hp hc := by
    rw [Holds, children_collect] at hc
    exact hn.top p hp.1 hc

/-- Below the root a collection changes no record. -/
theorem node_eq (h : s.Kept alive inUse r) (hn : s.Topmost alive n r) (hne : n ≠ r) :
    (s.collect inUse).node n = s.node n := by
  obtain ⟨p, hp, hc⟩ := hn.holder hne
  exact node_collect_of_holds h.forest (h.forest.alive_of_below hp.living hp.down) (h.below hp) hc

theorem siblingList_eq (h : s.Kept alive inUse r) (hn : s.Topmost alive n r) (hne : n ≠ r) :
    (s.collect inUse).siblingList n = s.siblingList n := by
  rw [siblingList, siblingList, h.node_eq hn hne]
  simp only [children_collect]

theorem plainIndex_eq (h : s.Kept alive inUse r) (hn : s.Topmost alive n r) :
    (s.collect inUse).plainIndex n = s.plainIndex n := by
  by_cases hne : n = r
  · subst hne
    rw [plainIndex_top h.rest (h.topmost hn), plainIndex_top h.forest hn, (akin_collect s inUse).detached_eq]
  · rw [plainIndex, plainIndex, h.siblingList_eq hn hne, scanned, scanned, (akin_collect s inUse).detached_eq]

theorem plainPrev_eq (h : s.Kept alive inUse r) (hn : s.Topmost alive n r) (hne : n ≠ r) :
    (s.collect inUse).plainPrev n = s.plainPrev n := by
  simp only [plainPrev, h.siblingList_eq hn hne, h.plainIndex_eq hn, (akin_collect s inUse).listItem_eq]

/-- **A climb stays in the tree**: it goes on to the holder, and ends at the root. -/
theorem plainNextWithin_eq (h : s.Kept alive inUse r) (fuel : Nat) (hn : s.Topmost alive n r) :
    (s.collect inUse).plainNextWithin fuel n = s.plainNextWithin fuel n := by
  induction fuel generalizing n with
  | zero => rfl
  | succ fuel ih =>
      by_cases hne : n = r
      · subst hne
        rw [plainNextWithin_top h.rest (h.topmost hn), plainNextWithin_top h.forest hn]
      · obtain ⟨p, hp, hc⟩ := hn.holder hne
        have hparent : (s.node n).parent = some (.node p) :=
          h.forest.parent p n (h.forest.alive_of_below hp.living hp.down) hc
        simp only [plainNextWithin, h.siblingList_eq hn hne, h.plainIndex_eq hn, h.node_eq hn hne, hparent,
          (akin_collect s inUse).listItem_eq, ih hp]

end Kept

/-! ## Reading -/

/-- Reading `name` of `n` ends alike in both stores, with the same answer or the same fault, and what the answer
holds is the same. -/
def ReadsAlike (s t : Store) (n : NodeId) (name : String) : Prop :=
  Run.Agree (fun u v => u.objects = v.objects) (Action.read (.node n) name).perform s t

theorem readsAlike_of_ended {t : Store} {name : String} {x : Except Fault Value} (hobjects : t.objects = s.objects)
    (ht : ∃ u, readNode n name t = Run.ended x u ∧ t.Reread u)
    (hs : ∃ u, readNode n name s = Run.ended x u ∧ s.Reread u) : t.ReadsAlike s n name := by
  obtain ⟨t', ht, htr⟩ := ht
  obtain ⟨s', hs, hsr⟩ := hs
  rw [ReadsAlike, perform_read, Run.Agree, ht, hs]
  simp only [Run.outcome_ended, Run.after_ended]
  exact ⟨trivial, htr.resembles.objects.trans (hobjects.trans hsr.resembles.objects.symm)⟩

theorem agree_listValue_objects {t : Store} (hobjects : t.objects = s.objects) (items : Option (List Value)) :
    Run.Agree (fun u v => u.objects = v.objects) (listValue items) t s := by
  cases items with
  | none => exact .pure _ hobjects
  | some items =>
      refine ⟨?_, ?_⟩
      · show Except.ok (Value.object t.objects.size) = .ok (.object s.objects.size)
        rw [hobjects]
      · show t.objects.push _ = s.objects.push _
        rw [hobjects]

theorem readSiblings_of_parent {p : NodeId} (h : (s.node n).parent = some (.node p)) :
    readSiblings n s = listValue (s.node p).nodes s := by
  obtain ⟨v, s', hlist⟩ : ∃ v s', listValue (s.node p).nodes s = .ok v s' := by
    cases (s.node p).nodes <;> exact ⟨_, _, rfl⟩
  rw [hlist]
  refine Run.recover_of_ok ?_
  rw [Run.get_bind, h]
  exact hlist

/-- The names of what is read of a node itself, of what is below it, and of the way on from it. -/
def downward : List String := ["type", "value", "nodes", "attr", "first", "last", "index", "next"]

/-- The names of what is read by the link to the parent. -/
def upward : List String := ["parent", "siblings", "prev", "scope"]

namespace Kept

theorem alive_of (h : s.Kept alive inUse r) (hn : s.Topmost alive n r) :
    alive n ∧ .node n ∈ s.reachable inUse := ⟨h.forest.alive_of_below hn.living hn.down, h.below hn⟩

theorem readsAlike_downward (h : s.Kept alive inUse r) (hs : s.Regular) (hs' : (s.collect inUse).Regular)
    (hn : s.Topmost alive n r) {name : String} (hname : name ∈ downward) :
    (s.collect inUse).ReadsAlike s n name := by
  have hrecord := node_collect_fields s inUse n
  have halive := h.alive_of hn
  simp only [downward, List.mem_cons, List.not_mem_nil, or_false] at hname
  rcases hname with rfl | rfl | rfl | rfl | rfl | rfl | rfl | rfl
  · exact Run.Agree.read (by rw [hrecord]) rfl
  · exact Run.Agree.read (by rw [hrecord]) rfl
  · show Run.Agree _ (Run.read (fun s => (s.node n).nodes) >>= listValue) _ s
    exact Run.Agree.read_bind (by rw [hrecord]) (agree_listValue_objects (akin_collect s inUse).objects _)
  · exact Run.Agree.read (by rw [hrecord]) rfl
  · exact Run.Agree.read (by rw [first, first, children_collect]) rfl
  · exact Run.Agree.read (by rw [last, last, children_collect]) rfl
  · refine readsAlike_of_ended (x := .ok (s.plainIndex n)) rfl ?_
      (readIndex_eq hs (h.forest.tidy.siblings n halive.1))
    rw [← h.plainIndex_eq hn]
    exact readIndex_eq hs' (h.rest.tidy.siblings n halive)
  · have hnext : (s.collect inUse).plainNext n = s.plainNext n := by
      rw [plainNext, plainNext, size_collect, h.plainNextWithin_eq _ hn]
    refine readsAlike_of_ended rfl ?_ (next_eq hs h.forest.tidy halive.1)
    rw [← hnext]
    exact next_eq hs' h.rest.tidy halive

theorem readsAlike_upward (h : s.Kept alive inUse r) (hs : s.Regular) (hs' : (s.collect inUse).Regular)
    (hn : s.Topmost alive n r) (hne : n ≠ r) {name : String} (hname : name ∈ upward) :
    (s.collect inUse).ReadsAlike s n name := by
  have hrecord := h.node_eq hn hne
  have hakin := akin_collect s inUse
  have halive := h.alive_of hn
  have hvalue : (s.collect inUse).parentValue n = s.parentValue n := by rw [parentValue, parentValue, hrecord]
  have hextra (name : String) : (s.collect inUse).extra n name = s.extra n name := hakin.extra_eq n name
  simp only [upward, List.mem_cons, List.not_mem_nil, or_false] at hname
  rcases hname with rfl | rfl | rfl | rfl
  · exact Run.Agree.read hvalue rfl
  · obtain ⟨p, hp, hc⟩ := hn.holder hne
    have hparent := h.forest.parent p n (h.forest.alive_of_below hp.living hp.down) hc
    have hnodes : ((s.collect inUse).node p).nodes = (s.node p).nodes := by rw [node_collect_fields]
    rw [ReadsAlike, perform_read, readNode_siblings, Run.Agree, readSiblings_of_parent (hrecord ▸ hparent),
      readSiblings_of_parent hparent, hnodes]
    exact agree_listValue_objects hakin.objects _
  · refine readsAlike_of_ended rfl ?_ (prev_eq hs h.forest.tidy halive.1)
    rw [← h.plainPrev_eq hn hne]
    exact prev_eq hs' h.rest.tidy halive
  · refine Run.Agree.recover_check ?_ (hextra "scope") rfl
    simp only [scope, hakin.entries?_eq, hakin.truthy_eq, hvalue, hrecord, hakin.refusal_eq, hextra]

end Kept

end Store

/-! ## Letting go of all the rest -/

namespace Event

open Store

variable {s : Store} {gone : NodeId → Prop} {inUse : List Value} {r : NodeId}

theorem kept_of_wellKept (h : s.WellKept gone) (hbound : .node r ∈ inUse) : s.Kept (s.Living gone) inUse r where
  forest := h.forest
  rest := by
    have halive : (s.collect inUse).Living (goneAfter s gone (collect inUse)) =
        fun n => s.Living gone n ∧ .node n ∈ s.reachable inUse := by
      funext n
      exact propext living_collect
    exact halive ▸ (wellKept_collect h inUse).forest
  used := mem_reachable_of_mem hbound

/-- Letting go of what `inUse` does not lead to leaves the tree of `r` as it was: everything that can be read of its
nodes is the same, but that the root may have no parent any more. -/
def KeepsTree (s : Store) (inUse : List Value) (r : NodeId) : Prop :=
  ∃ s', (collect inUse).perform s = .ok .null s' ∧
    (∀ n, ReflTransGen s.Holds r n →
      (∀ name ∈ downward, s'.ReadsAlike s n name) ∧ (n ≠ r → ∀ name ∈ upward, s'.ReadsAlike s n name)) ∧
    (s'.parentValue r = s.parentValue r ∨ s'.parentValue r = .null)

/-- **Holding the root is enough.** In a store that grew from no nodes, and in which debug records can be written,
nothing of a tree is lost as long as its root is held. -/
theorem collect_keeps_tree (h : Grown s gone) (hlog : s.Loggable) (hr : s.Free gone r) (hbound : .node r ∈ inUse) :
    KeepsTree s inUse r := by
  have hwell := grown_wellKept h
  have hkept := kept_of_wellKept hwell hbound
  have hs : s.Regular := ⟨hwell.proper, hlog⟩
  have hs' : (s.collect inUse).Regular :=
    ⟨(wellKept_collect hwell inUse).proper, hlog.transfer (showsAlike_collect s inUse) rfl⟩
  refine ⟨s.collect inUse, rfl, fun n hn => ?_, ?_⟩
  · have htop : s.Topmost (s.Living gone) n r := ⟨hr.living, hn, hr.unheld⟩
    exact ⟨fun name hname => hkept.readsAlike_downward hs hs' htop hname,
      fun hne name hname => hkept.readsAlike_upward hs hs' htop hne hname⟩
  · rw [parentValue, node_collect]
    rcases cutParent_parent_or (s.reachable inUse) (s.node r) with hsame | hcut
    · exact .inl (by rw [hsame]; rfl)
    · exact .inr (by rw [hcut]; rfl)

/-- A node with a child, after the node was taken from another one. -/
def afterPopped : Store :=
  (performAll [act (.create .node .empty), act (.create .node .empty), act (.create .node .empty),
    act (.push (.node 0) (.node 1)), act (.push (.node 1) (.node 2)), act (.pop (.node 0))] .empty).2

theorem grown_popped : Grown afterPopped fun _ => False := by
  have h₀ : Grown .empty fun _ => False := .start rfl
  have h₁ := h₀.next (.create .node .empty (sound_scalar (fun o ho => by cases ho) rfl) (Or.inl rfl)) rfl rfl
  have h₂ := h₁.next (.create .node .empty (sound_scalar (fun o ho => by cases ho) rfl) (Or.inl rfl)) rfl rfl
  have h₃ := h₂.next (.create .node .empty (sound_scalar (fun o ho => by cases ho) rfl) (Or.inl rfl)) rfl rfl
  have h₄ := h₃.next (.onNodes (.push 0 1 ⟨by decide, id⟩ (free_of_bounded (by decide) (by decide))
    (not_down_of_childless rfl (by decide)))) rfl rfl
  have h₅ := h₄.next (.onNodes (.push 1 2 ⟨by decide, id⟩ (free_of_bounded (by decide) (by decide))
    (not_down_of_childless rfl (by decide)))) rfl rfl
  exact h₅.next (.onNodes (.pop 0)) rfl rfl

/-- The parent of the root is let go of, and the tree stays. -/
theorem keepsTree_popped : Grown afterPopped (fun _ => False) ∧ afterPopped.Loggable ∧
    afterPopped.Free (fun _ => False) 1 ∧ KeepsTree afterPopped [.node 1] 1 ∧
      afterPopped.parentValue 1 = .node 0 ∧ (afterPopped.collect [.node 1]).parentValue 1 = .null := by
  have hunread : afterPopped.Loggable := fun hread => by cases hread
  have hfree : afterPopped.Free (fun _ => False) 1 := free_of_bounded (by decide) (by decide)
  exact ⟨grown_popped, hunread, hfree, collect_keeps_tree grown_popped hunread hfree (List.mem_singleton_self _),
    rfl, by decide +kernel⟩

/-- The value of the node that was taken away is a tracker that is its own source. -/
def afterUnshowable : Store :=
  (performAll [act (.create .node .empty), act (.create .node ⟨.object 0, .null, .null, .null⟩),
    act (.push (.node 0) (.node 1)), act (.pop (.node 0))] withTracker).2

theorem grown_unshowable : Grown afterUnshowable fun _ => False := by
  have h₀ : Grown withTracker fun _ => False := .start rfl
  have h₁ := h₀.next (.create .node .empty (sound_scalar (fun o ho => by cases ho) rfl) (Or.inl rfl)) rfl rfl
  have h₂ := h₁.next (.create .node ⟨.object 0, .null, .null, .null⟩
    (sound_scalar (fun o ho => by cases ho; decide) rfl) (Or.inl rfl)) rfl rfl
  have h₃ := h₂.next (.onNodes (.push 0 1 ⟨by decide, id⟩ (free_of_bounded (by decide) (by decide))
    (not_down_of_childless rfl (by decide)))) rfl rfl
  exact h₃.next (.onNodes (.pop 0)) rfl rfl

/-- **Without debug records that can be written the index of the root may change**: as long as its old parent is
held there is a list to look through, and a record to write about it. -/
theorem index_of_root_changes :
    ¬ ∀ (s : Store) (gone : NodeId → Prop) (r : NodeId), Grown s gone → s.Free gone r → KeepsTree s [.node r] r := by
  intro hkeeps
  obtain ⟨s', hrun, hreads, -⟩ :=
    hkeeps afterUnshowable _ 1 grown_unshowable (free_of_bounded (by decide) (by decide))
  obtain ⟨-, rfl⟩ := EStateM.Result.ok.inj hrun
  obtain ⟨houtcome, -⟩ := (hreads 1 .refl).1 "index" (by decide)
  have hafter : Run.outcome ((Action.read (.node 1) "index").perform (afterUnshowable.collect [.node 1])) =
      .ok (.int (-1)) := by decide +kernel
  have hbefore : Run.outcome ((Action.read (.node 1) "index").perform afterUnshowable) = .error .endless := rfl
  cases hafter.symm.trans (houtcome.trans hbefore)

end Event
end SyntaxTree
