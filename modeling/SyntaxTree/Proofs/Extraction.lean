import SyntaxTree.Proofs.Positions

/-!
# `Proofs.Extraction` — removing takes out what it is asked for

Removing a child deletes at the index that the child reports, and that index comes from a hint which may be stale.
But it is a position of the child (`readIndex_under`), whatever the rest of the store is like: the node may stand in the
list many times, its siblings may be no nodes, and their parents dangle. The call takes out one place of the list at
which the node stands, sets its hint, and leaves everything else of every record (`Extracted`); or it answers null and
leaves all but the hint of that node (`Rehinted`).

The hints of the siblings to the right are stale from then on. If the list had no repetitions and its nodes call
this node their parent, each of them still reports where it stands.
-/

namespace SyntaxTree
namespace Store

variable {s s' t : Store} {p c n : NodeId}

/-! ## The index of a child -/

/-- In a list without repetitions there is one position for the index to be. -/
theorem reads_index_of_nodup (hlog : s.Loggable) (hparent : (s.node c).parent = some (.node p))
    (hhint : ∃ i : Int, (s.node c).hint = .int i) (hnodup : (s.children p).Nodup) {i : Nat}
    (hi : (s.children p)[i]? = some (.node c)) : s.Reads c "index" (.int i) := by
  obtain ⟨v, t, hrun, -, hv⟩ := readIndex_under (fun hread => hlog hread c) hparent hhint
  rw [Reads, perform_read, readNode_index, hrun]
  rcases hv with ⟨j, rfl, hj⟩ | ⟨hnot, -⟩
  · have hlt : j < (s.children p).length := (List.getElem?_eq_some_iff.mp hj).1
    rw [(List.getElem?_inj hlt hnodup).mp (hj.trans hi.symm)]
    rfl
  · exact absurd (List.mem_of_getElem? hi) hnot

/-! ## What removing leaves -/

/-- `s'` is `s` with another list of children of `p` and another hint of `c`. Every other field of every node, and
every object, is what it was. -/
structure Extracted (s s' : Store) (p c : NodeId) (nodes : List Value) (hint : Value) : Prop where
  node : ∀ m, s'.node m = { s.node m with
    nodes := if m = p then some nodes else (s.node m).nodes
    hint := if m = c then hint else (s.node m).hint }
  size : s'.nodes.size = s.nodes.size
  rest : s' = { s with nodes := s'.nodes, log := s'.log }

theorem Rehinted.extracted (h : s.Rehinted t c) (hp : p < s.nodes.size) (hc : c < s.nodes.size) (nodes : List Value)
    (hint : Value) : s.Extracted ((t.setNodes p (some nodes)).setHint c hint) p c nodes hint where
  node m := by
    obtain ⟨hint', hself⟩ := h.self
    rw [Store.setHint, node_updateNode, Store.setNodes, size_updateNode, node_updateNode, h.size]
    by_cases hm : m = c
    · subst hm
      rw [if_pos ⟨rfl, hc⟩, if_pos rfl, hself]
      by_cases hmp : m = p
      · rw [if_pos ⟨hmp, hmp ▸ hp⟩, if_pos hmp]
      · rw [if_neg fun h => hmp h.1, if_neg hmp]
    · rw [if_neg fun h => hm h.1, if_neg hm, h.others m hm]
      by_cases hmp : m = p
      · rw [if_pos ⟨hmp, hmp ▸ hp⟩, if_pos hmp]
      · rw [if_neg fun h => hmp h.1, if_neg hmp]
  size := by rw [Store.setHint, size_updateNode, Store.setNodes, size_updateNode, h.size]
  rest := by
    rw [h.rest]
    rfl

namespace Extracted

variable {nodes : List Value} {hint : Value}

theorem children (h : s.Extracted s' p c nodes hint) : s'.children p = nodes := by
  rw [Store.children, h.node p, if_pos rfl]
  rfl

theorem parent (h : s.Extracted s' p c nodes hint) (m : NodeId) : (s'.node m).parent = (s.node m).parent := by
  rw [h.node m]

theorem loggable (h : s.Extracted s' p c nodes hint) (hs : s.Loggable) : s'.Loggable := by
  have hobjects : s'.objects = s.objects := by rw [h.rest]
  exact hs.transfer ⟨h.size, hobjects, fun m => by rw [h.node m], fun m => by rw [h.node m]⟩ (by rw [h.rest])

theorem hint_int (h : s.Extracted s' p c nodes hint) (hs : ∀ m, ∃ i : Int, (s.node m).hint = .int i)
    (hint_eq : ∃ i : Int, hint = .int i) (m : NodeId) : ∃ i : Int, (s'.node m).hint = .int i := by
  rw [h.node m]
  by_cases hm : m = c
  · rw [if_pos hm]
    exact hint_eq
  · rw [if_neg hm]
    exact hs m

end Extracted

/-- The node that is removed stands at a place of the list that is the index it reports. -/
theorem remove_under (hlog : s.Loggable) (hhint : ∃ i : Int, (s.node c).hint = .int i)
    (hsentinel : (s.node p).cls.detached < 0) (hparent : (s.node c).parent = some (.node p))
    (hmem : .node c ∈ s.children p) :
    ∃ xs ys s', (s.node p).nodes = some (xs ++ .node c :: ys) ∧ s.Reads c "index" (.int xs.length) ∧
      remove p (.node c) s = .ok (.node c) s' ∧ s.Extracted s' p c (xs ++ ys) (s.detached p) := by
  obtain ⟨v, t, hrun, hreread, hv⟩ := readIndex_under (fun hread => hlog hread c) hparent hhint
  obtain ⟨i, rfl, hi⟩ := hv.resolve_right fun hnot => hnot.1 hmem
  obtain ⟨l, hlist⟩ : ∃ l, (s.node p).nodes = some l := by
    refine Option.ne_none_iff_exists'.mp fun hnone => ?_
    rw [children, hnone] at hmem
    cases hmem
  have hchildren : s.children p = l := by
    rw [children, hlist]
    rfl
  have hp : p < s.nodes.size := Nat.lt_of_not_le fun hle => by
    rw [node_of_size_le s hle] at hlist
    cases hlist
  rw [hchildren] at hi
  obtain ⟨hlt, hat⟩ := List.getElem?_eq_some_iff.mp hi
  have hsplit : l = l.take i ++ .node c :: l.drop (i + 1) := by
    rw [← hat, ← List.drop_eq_getElem_cons hlt, List.take_append_drop]
  have hlength : (l.take i).length = i := List.length_take_of_le (Nat.le_of_lt hlt)
  refine ⟨l.take i, l.drop (i + 1), (t.setNodes p (some (l.eraseIdx i))).setHint c (s.detached p), ?_, ?_, ?_, ?_⟩
  · rw [hlist, ← hsplit]
  · rw [Reads, perform_read, readNode_index, hrun, hlength]
    rfl
  · rw [remove_eq, if_pos (parentValue_eq_node.mpr hparent), Run.bind_of_ok hrun, detached,
      removeAt_of_ne (by omega), Run.bind_of_ok (deleteAt_position ((hreread.nodes_eq p).trans hlist) hlt)]
    rfl
  · rw [List.eraseIdx_eq_take_drop_succ]
    exact hreread.extracted hp (lt_size_of_parent hparent) _ _

/-- What is not a child is left, and so is all the rest but its hint. -/
theorem remove_null (hlog : s.Loggable) (hhint : ∃ i : Int, (s.node c).hint = .int i)
    (hsame : (s.node c).cls.detached = (s.node p).cls.detached)
    (hnot : ¬ ((s.node c).parent = some (.node p) ∧ .node c ∈ s.children p)) :
    ∃ s', remove p (.node c) s = .ok .null s' ∧ s.Rehinted s' c := by
  rw [remove_eq]
  by_cases hparent : (s.node c).parent = some (.node p)
  · obtain ⟨v, t, hrun, hreread, hv⟩ := readIndex_under (fun hread => hlog hread c) hparent hhint
    obtain rfl : v = s.detached c := by
      rcases hv with ⟨i, -, hi⟩ | ⟨-, rfl⟩
      · exact absurd ⟨hparent, List.mem_of_getElem? hi⟩ hnot
      · rfl
    obtain ⟨r, hnull⟩ := removeAt_detached (hreread.loggable hlog) p c (s.node p).cls.detached
    refine ⟨t.note r, ?_, hreread.note r⟩
    rw [if_pos (parentValue_eq_node.mpr hparent), Run.bind_of_ok hrun, detached, detached, hsame]
    exact hnull
  · obtain ⟨r, hnull⟩ := removeAt_detached hlog p c (s.node p).cls.detached
    rw [if_neg fun h => hparent (parentValue_eq_node.mp h)]
    exact ⟨s.note r, hnull, (Rehinted.refl s c).note r⟩

/-! ## What removing does -/

/-- The call takes the node out of a place of the list at which it stands, the one that its index reports, and sets
its hint. If the list had no repetitions and its nodes call `p` their parent, the node reports from then on that it
is not there, and each of the others where it stands. -/
def TakesOut (s : Store) (p n : NodeId) : Prop :=
  ∃ xs ys s', (s.node p).nodes = some (xs ++ .node n :: ys) ∧ s.Reads n "index" (.int xs.length) ∧
    (Action.remove (.node p) (.node n)).perform s = .ok (.node n) s' ∧
    s.Extracted s' p n (xs ++ ys) (s.detached n) ∧
    ((s.children p).Nodup → (∀ c, .node c ∈ s.children p → (s.node c).parent = some (.node p)) →
      s'.Reads n "index" (s.detached n) ∧
      (∀ c (j : Nat), xs[j]? = some (.node c) →
        s.Reads c "index" (.int j) ∧ s'.Reads c "index" (.int j)) ∧
      ∀ c (j : Nat), ys[j]? = some (.node c) →
        s.Reads c "index" (.int (xs.length + 1 + j : Nat)) ∧ s'.Reads c "index" (.int (xs.length + j : Nat)))

/-- The call answers null and leaves all but the hint of the node. -/
def LeavesAlone (s : Store) (p n : NodeId) : Prop :=
  ∃ s', (Action.remove (.node p) (.node n)).perform s = .ok .null s' ∧ s.Rehinted s' n

/-- **Removing deletes its argument and nothing else**, if it is a child, and otherwise nothing. -/
theorem remove_takes_out (hhints : ∀ m, ∃ i : Int, (s.node m).hint = .int i) (hlog : s.Loggable)
    (hsame : (s.node n).cls.detached = (s.node p).cls.detached) (hsentinel : (s.node p).cls.detached < 0) :
    ((s.node n).parent = some (.node p) ∧ .node n ∈ s.children p → s.TakesOut p n) ∧
      (¬ ((s.node n).parent = some (.node p) ∧ .node n ∈ s.children p) → s.LeavesAlone p n) := by
  refine ⟨fun ⟨hparent, hmem⟩ => ?_, remove_null hlog (hhints n) hsame⟩
  have hdetached : s.detached p = s.detached n := by rw [detached, detached, hsame]
  obtain ⟨xs, ys, s', hlist, hindex, hrun, hextracted⟩ := remove_under hlog (hhints n) hsentinel hparent hmem
  rw [hdetached] at hextracted
  refine ⟨xs, ys, s', hlist, hindex, hrun, hextracted, fun hnodup hbelow => ?_⟩
  have hchildren : s.children p = xs ++ .node n :: ys := by
    rw [children, hlist]
    rfl
  rw [hchildren] at hnodup hbelow
  have hlog' : s'.Loggable := hextracted.loggable hlog
  have hhints' := hextracted.hint_int hhints ⟨_, rfl⟩
  have hnodup' : (s'.children p).Nodup := by
    rw [hextracted.children]
    exact hnodup.sublist (List.Sublist.append_left (List.sublist_cons_self ..) xs)
  -- a child that stays reads its place before and after
  have hstays {c : NodeId} {i j : Nat} (hi : (xs ++ .node n :: ys)[i]? = some (.node c))
      (hj : (xs ++ ys)[j]? = some (.node c)) : s.Reads c "index" (.int i) ∧ s'.Reads c "index" (.int j) := by
    have hparent := hbelow c (List.mem_of_getElem? hi)
    exact ⟨reads_index_of_nodup hlog hparent (hhints c) (hchildren ▸ hnodup) (hchildren ▸ hi),
      reads_index_of_nodup hlog' ((hextracted.parent c).trans hparent) (hhints' c) hnodup'
        (by rw [hextracted.children, hj])⟩
  refine ⟨?_, fun c j hc => ?_, fun c j hc => ?_⟩
  · obtain ⟨v, t, hread, -, hv⟩ :=
      readIndex_under (fun hread => hlog' hread n) ((hextracted.parent n).trans hparent) (hhints' n)
    rw [hextracted.children] at hv
    have hgone : Value.node n ∉ xs ++ ys := (List.nodup_middle.mp hnodup).notMem
    obtain rfl : v = s'.detached n := by
      rcases hv with ⟨i, -, hi⟩ | ⟨-, rfl⟩
      · exact absurd (List.mem_of_getElem? hi) hgone
      · rfl
    rw [Reads, perform_read, readNode_index, hread, detached, detached, hextracted.node n]
    rfl
  · have hlt : j < xs.length := (List.getElem?_eq_some_iff.mp hc).1
    exact hstays (by rw [List.getElem?_append_left hlt, hc]) (by rw [List.getElem?_append_left hlt, hc])
  · refine hstays ?_ ?_
    · rw [List.getElem?_append_right (by omega), Nat.add_assoc, Nat.add_sub_cancel_left, Nat.add_comm 1 j,
        List.getElem?_cons_succ, hc]
    · rw [List.getElem?_append_right (Nat.le_add_right ..), Nat.add_sub_cancel_left, hc]

/-- A node with two children, of which the first one has a stale hint. -/
def withStaleChild : Store := threeNodes .node [.assign (.node 1) "index" (.int 7)] .empty

/-- The stale child is taken out, and from the other child nothing is. -/
theorem takesOut_withStaleChild : (∀ m, ∃ i : Int, (withStaleChild.node m).hint = .int i) ∧ withStaleChild.Loggable ∧
    (withStaleChild.node 1).cls.detached = (withStaleChild.node 0).cls.detached ∧
    (withStaleChild.node 0).cls.detached < 0 ∧ withStaleChild.TakesOut 0 1 ∧ withStaleChild.LeavesAlone 2 1 := by
  have hhints : ∀ m, ∃ i : Int, (withStaleChild.node m).hint = .int i := hint_int_of_three rfl ⟨rfl, rfl, rfl⟩
  have hlog : withStaleChild.Loggable := fun hread => by cases hread
  refine ⟨hhints, hlog, rfl, by decide, ?_, ?_⟩
  · exact (remove_takes_out (p := 0) (n := 1) hhints hlog rfl (by decide)).1 ⟨rfl, by decide⟩
  · exact (remove_takes_out (p := 2) (n := 1) hhints hlog rfl (by decide)).2 fun h => by cases h.1

/-- A node with a child, and behind it an object from elsewhere that passes for a node. -/
def withForeignChild : Store :=
  (Action.performAll
    [.create .node .empty, .create .node .empty, .push (.node 0) (.node 1), .push (.node 0) (.object 0)]
    { Store.empty with objects := #[.foreign "ForeignNode" (.bool true) []] }).2

/-- **Neither condition can go.** A record that somebody reads has to show the node whose hint is stale, and may not
be able to. A sibling that is no node keeps its index to itself, and does not notice that its place has changed. -/
theorem remove_not_takes_out :
    (¬ ∀ (s : Store) (p n : NodeId), (∀ m, ∃ i : Int, (s.node m).hint = .int i) →
      (s.node n).cls.detached = (s.node p).cls.detached → (s.node p).cls.detached < 0 →
      ((s.node n).parent = some (.node p) ∧ .node n ∈ s.children p → s.TakesOut p n) ∧
        (¬ ((s.node n).parent = some (.node p) ∧ .node n ∈ s.children p) → s.LeavesAlone p n)) ∧
    ¬ ∀ (s s' : Store) (p n : NodeId) (xs ys : List Value), (∀ m, ∃ i : Int, (s.node m).hint = .int i) →
      s.Loggable → (s.node n).cls.detached = (s.node p).cls.detached → (s.node p).cls.detached < 0 →
      s.children p = xs ++ .node n :: ys → (s.children p).Nodup →
      (∀ v ∈ s.children p, s.parentOf v = .ok (.node p)) →
      (Action.remove (.node p) (.node n)).perform s = .ok (.node n) s' →
      ∀ v (j : Nat), ys[j]? = some v →
        Run.outcome ((Action.read v "index").perform s') = .ok (.int (xs.length + j : Nat)) := by
  constructor
  · intro hremove
    have hhints : ∀ m, ∃ i : Int, (withEndlessRecord.node m).hint = .int i := hint_int_of_three rfl ⟨rfl, rfl, rfl⟩
    obtain ⟨xs, ys, s', -, -, hrun, -⟩ :=
      (hremove withEndlessRecord 0 2 hhints rfl (by decide)).1 ⟨rfl, by decide⟩
    have hendless : Run.outcome ((Action.remove (.node 0) (.node 2)).perform withEndlessRecord) =
        .error .endless := rfl
    rw [hrun] at hendless
    cases hendless
  · intro hremove
    have hhints : ∀ m, ∃ i : Int, (withForeignChild.node m).hint = .int i :=
      forall_node (P := fun r => ∃ i : Int, r.hint = .int i)
        (fun m hm => match m, hm with
          | 0, _ => ⟨_, rfl⟩
          | 1, _ => ⟨_, rfl⟩) ⟨_, rfl⟩
    have hindex := hremove withForeignChild _ 0 1 [] [.object 0] hhints (fun hread => by cases hread) rfl
      (by decide) rfl (by decide) (by decide) rfl (.object 0) 0 rfl
    cases hindex

end Store
end SyntaxTree
