import SyntaxTree.Action
import SyntaxTree.Proofs.Index
import SyntaxTree.Proofs.Mutation

/-!
# `Proofs.Removal` — taking one child away

A child is removed at the index that it reports. A node in the list reports a position at which it stands,
whatever its hint is, and so it is that node which goes (`remove_child`). A node that only calls `p` its
parent reports the value for "not there" of its own class, and `remove` compares that with the value of the
class of `p`. Where the two values are the same the call answers null and takes nothing; where they differ,
the value is taken for a position that counts from the end (`remove_stray_of_ne`).

So removal is safe exactly as long as no child that was taken out of the list before has another value for
"not there" than its parent (`removesSafely_iff`).
-/

namespace SyntaxTree

theorem Value.equalScalar_int (i j : Int) : (Value.int i).equalScalar (.int j) = (i == j) := rfl

namespace Store

variable {s t : Store} {p c : NodeId}

/-! ## The index of a child -/

/-- A scan finds a node where it stands. -/
theorem scanned_of_mem (s : Store) {l : List Value} (h : Value.node c ∈ l) :
    ∃ i : Nat, l[i]? = some (.node c) ∧ s.scanned l c = .int i := by
  cases hpos : position? l c with
  | none =>
      rw [position?, List.idxOf?_eq_none_iff] at hpos
      exact absurd h hpos
  | some i =>
      refine ⟨i, ?_, by rw [scanned, hpos]; rfl⟩
      rw [position?, List.idxOf?_eq_some_iff] at hpos
      obtain ⟨hlt, hi, -⟩ := hpos
      rw [List.getElem?_eq_getElem hlt, hi]

/-- Reading an index answers a position of the node or what a scan finds, and leaves hints and records. -/
theorem readIndex_cases (hs : s.Regular) (c : NodeId) : ∃ index t, readIndex c s = .ok index t ∧
    s.Reread t ∧
      ((∃ i : Nat, index = .int i ∧ (s.siblingList c)[i]? = some (.node c)) ∨ index = s.plainIndex c) := by
  obtain ⟨t, hrun, hreread, -⟩ := readIndex_held hs c
  exact ⟨_, t, hrun, hreread, heldIndex_cases s c⟩

/-- **The index of a node in the list of its parent is a position of it**, whatever the hint is and however
    often it stands there. -/
theorem readIndex_child (hs : s.Regular) (hparent : (s.node c).parent = some (.node p))
    (hmem : .node c ∈ s.children p) :
    ∃ (i : Nat) (t : Store), (s.children p)[i]? = some (.node c) ∧ readIndex c s = .ok (.int i) t ∧
      s.Reread t := by
  have hlist := siblingList_of_parent hparent
  obtain ⟨index, t, hrun, hreread, hindex⟩ := readIndex_cases hs c
  rw [hlist] at hindex
  rcases hindex with ⟨i, rfl, hi⟩ | rfl
  · exact ⟨i, t, hi, hrun, hreread⟩
  · obtain ⟨i, hi, hscan⟩ := scanned_of_mem s hmem
    refine ⟨i, t, hi, ?_, hreread⟩
    rw [hrun, plainIndex, hlist, hscan]

/-- The index of a node that is not in the list of its parent is the value of its own class. -/
theorem readIndex_stray (hs : s.Regular) (hparent : (s.node c).parent = some (.node p))
    (hmem : .node c ∉ s.children p) :
    ∃ t, readIndex c s = .ok (s.detached c) t ∧ s.Reread t := by
  have hlist := siblingList_of_parent hparent
  obtain ⟨index, t, hrun, hreread, hindex⟩ := readIndex_cases hs c
  rw [hlist] at hindex
  rcases hindex with ⟨i, rfl, hi⟩ | rfl
  · exact absurd (List.mem_of_getElem? hi) hmem
  · refine ⟨t, ?_, hreread⟩
    rw [hrun, plainIndex, hlist, scanned_of_not_mem s hmem]

/-! ## Removing at an index -/

/-- What removing does once the index of the child is known. -/
def removeAt (p c : NodeId) (detached index : Value) : Run Value := do
  if index.equalScalar detached then
    let shownChild ← shownInRecord (.node c)
    let shownParent ← shownInRecord (.node p)
    Run.update fun s => s.note (.notChild shownChild shownParent)
    return .null
  deleteAt p index
  Run.update fun s => s.setHint c detached
  return .node c

/-- The index counts only if the node calls `p` its parent. -/
theorem remove_eq (s : Store) (p c : NodeId) : remove p (.node c) s =
    ((if s.parentValue c = .node p then readIndex c else pure (s.detached p)) >>=
      removeAt p c (s.detached p)) s := by
  have hrun : remove p (.node c) s =
      (if s.parentValue c = .node p then readIndex c >>= removeAt p c (s.detached p)
        else pure (s.detached p) >>= removeAt p c (s.detached p)) s := rfl
  rw [hrun]
  by_cases hparent : s.parentValue c = .node p
  · rw [if_pos hparent, if_pos hparent]
  · rw [if_neg hparent, if_neg hparent]

theorem removeAt_detached (ht : t.Loggable) (p c : NodeId) (i : Int) :
    ∃ r, removeAt p c (.int i) (.int i) t = .ok .null (t.note r) := by
  obtain ⟨shownChild, hchild⟩ := shownInRecord_node ht c
  obtain ⟨shownParent, hparent⟩ := shownInRecord_node ht p
  refine ⟨.notChild shownChild shownParent, ?_⟩
  rw [removeAt, if_pos (by rw [Value.equalScalar_int, beq_self_eq_true]), Run.bind_of_ok hchild,
    Run.bind_of_ok hparent]
  rfl

theorem removeAt_of_ne {i j : Int} (hne : j ≠ i) (t : Store) (p c : NodeId) :
    removeAt p c (.int i) (.int j) t =
      (deleteAt p (.int j) >>= fun _ => Run.update (fun s => s.setHint c (.int i)) >>= fun _ =>
        pure (.node c)) t := by
  have hcount : ¬ (Value.int j).equalScalar (.int i) = true := by
    rw [Value.equalScalar_int, beq_iff_eq]
    exact hne
  rw [removeAt, if_neg hcount]

/-- Deleting at a position takes out what stands there. -/
theorem deleteAt_position {l : List Value} {i : Nat} (hlist : (t.node p).nodes = some l) (hi : i < l.length) :
    deleteAt p (.int i) t = .ok () (t.setNodes p (some (l.eraseIdx i))) := by
  have hplace : t.placeOf "list" l.length .placeOutOfRange (.int i) = .ok i := by
    rw [placeOf]
    simp only [Value.toInt?, Option.getD_some, placeOf?_of_lt hi]
  rw [deleteAt_eq, hlist]
  dsimp only
  rw [hplace]

/-! ## The cases of a removal -/

/-- A node that does not call `p` its parent is not removed. -/
theorem remove_other (hs : s.Regular) (hparent : (s.node c).parent ≠ some (.node p)) :
    ∃ r, remove p (.node c) s = .ok .null (s.note r) := by
  obtain ⟨r, hr⟩ := removeAt_detached hs.loggable p c (s.node p).cls.detached
  refine ⟨r, ?_⟩
  rw [remove_eq, if_neg fun h => hparent (parentValue_eq_node.mp h)]
  exact hr

/-- **Removing a child takes out one place at which it stands**, and leaves it with the value of the class
    of `p` for a hint. -/
theorem remove_child (hs : s.Regular) (hsentinel : (s.node p).cls.detached < 0)
    (hparent : (s.node c).parent = some (.node p)) (hmem : .node c ∈ s.children p) :
    ∃ (i : Nat) (t : Store), (s.children p)[i]? = some (.node c) ∧ s.Reread t ∧
      remove p (.node c) s =
        .ok (.node c) ((t.setNodes p (some ((s.children p).eraseIdx i))).setHint c (s.detached p)) := by
  obtain ⟨i, t, hi, hrun, hreread⟩ := readIndex_child hs hparent hmem
  have hlt : i < (s.children p).length := (List.getElem?_eq_some_iff.mp hi).1
  have hlist : (t.node p).nodes = some (s.children p) := by
    rw [hreread.nodes_eq]
    cases hnodes : (s.node p).nodes with
    | none => rw [children, hnodes] at hmem; cases hmem
    | some l => rw [children, hnodes]; rfl
  refine ⟨i, t, hi, hreread, ?_⟩
  rw [remove_eq, if_pos (parentValue_eq_node.mpr hparent), Run.bind_of_ok hrun, detached,
    removeAt_of_ne (by omega), Run.bind_of_ok (deleteAt_position hlist hlt)]
  rfl

/-- A node that only calls `p` its parent is not removed, if the classes have one value for "not there". -/
theorem remove_stray (hs : s.Regular) (hparent : (s.node c).parent = some (.node p))
    (hmem : .node c ∉ s.children p) (hsame : (s.node c).cls.detached = (s.node p).cls.detached) :
    ∃ r t, s.Reread t ∧ remove p (.node c) s = .ok .null (t.note r) := by
  obtain ⟨t, hrun, hreread⟩ := readIndex_stray hs hparent hmem
  obtain ⟨r, hr⟩ := removeAt_detached (hreread.regular hs).loggable p c (s.node p).cls.detached
  refine ⟨r, t, hreread, ?_⟩
  rw [remove_eq, if_pos (parentValue_eq_node.mpr hparent), Run.bind_of_ok hrun, detached, detached, hsame]
  exact hr

/-- If the classes have different values for "not there", the one of the child is deleted at. -/
theorem remove_stray_of_ne (hs : s.Regular) (hparent : (s.node c).parent = some (.node p))
    (hmem : .node c ∉ s.children p) (hne : (s.node c).cls.detached ≠ (s.node p).cls.detached) :
    ∃ t, s.Reread t ∧ remove p (.node c) s =
      (deleteAt p (s.detached c) >>= fun _ => Run.update (fun u => u.setHint c (s.detached p)) >>= fun _ =>
        pure (.node c)) t := by
  obtain ⟨t, hrun, hreread⟩ := readIndex_stray hs hparent hmem
  refine ⟨t, hreread, ?_⟩
  rw [remove_eq, if_pos (parentValue_eq_node.mpr hparent), Run.bind_of_ok hrun, detached, detached,
    removeAt_of_ne hne]

/-! ## When removing is safe -/

/-- Removing `c` from `p` does not fail, takes nothing but `c` out of the list, and at most once; and if `c`
is not in the list, the answer is null and the list is what it was. -/
def RemovesSafely (s : Store) (p c : NodeId) : Prop :=
  Run.Ends (Action.remove (.node p) (.node c)).perform s
    (fun v t =>
      ((t.node p).nodes = (s.node p).nodes ∨ ∃ i, (s.children p)[i]? = some (.node c) ∧
          (t.node p).nodes = some ((s.children p).eraseIdx i)) ∧
        (.node c ∉ s.children p → v = .null ∧ (t.node p).nodes = (s.node p).nodes))
    fun _ _ => False

/-- `c` calls `p` its parent without being in its list, and the classes of the two have different values for
"not there". -/
def MixedStray (s : Store) (p c : NodeId) : Prop :=
  (s.node c).parent = some (.node p) ∧ .node c ∉ s.children p ∧
    (s.node c).cls.detached ≠ (s.node p).cls.detached

theorem perform_remove (p c : NodeId) :
    (Action.remove (.node p) (.node c)).perform = remove p (.node c) := rfl

/-- A removal that answers null and leaves nothing but hints and records is safe. -/
theorem removesSafely_of_null {r : DebugRecord} (ht : s.Reread t)
    (h : remove p (.node c) s = .ok .null (t.note r)) : s.RemovesSafely p c := by
  have hnodes : ((t.note r).node p).nodes = (s.node p).nodes := ht.nodes_eq p
  rw [RemovesSafely, perform_remove, Run.ends_of_ok h]
  exact ⟨Or.inl hnodes, fun _ => ⟨rfl, hnodes⟩⟩

/-- Nothing is safe about deleting at the value of a class that is not the one of `p`. -/
theorem not_removesSafely (hs : s.Regular) (h : s.MixedStray p c) : ¬ s.RemovesSafely p c := by
  obtain ⟨hparent, hmem, hne⟩ := h
  obtain ⟨t, -, hrun⟩ := remove_stray_of_ne hs hparent hmem hne
  intro hsafe
  rw [RemovesSafely, perform_remove, Run.Ends, hrun] at hsafe
  cases hdelete : deleteAt p (s.detached c) t with
  | error e t' =>
      rw [Run.bind_of_error hdelete] at hsafe
      exact hsafe
  | ok u t' =>
      -- the answer is the node, as if it had been in the list
      rw [Run.bind_of_ok hdelete] at hsafe
      cases (hsafe.2 hmem).1

/-- **Removing is safe if and only if the node is not a stray of another kind**: one that calls `p` its
    parent, is not in its list, and whose class has another value for "not there". -/
theorem removesSafely_iff {s : Store} {p c : NodeId} (hs : s.Regular) (hp : p < s.nodes.size)
    (hsentinel : (s.node p).cls.detached < 0) : s.RemovesSafely p c ↔ ¬ s.MixedStray p c := by
  refine ⟨fun hsafe hmixed => not_removesSafely hs hmixed hsafe, fun hmixed => ?_⟩
  by_cases hparent : (s.node c).parent = some (.node p)
  · by_cases hmem : Value.node c ∈ s.children p
    · -- a child goes from a place at which it stands
      obtain ⟨i, t, hi, hreread, hrun⟩ := remove_child hs hsentinel hparent hmem
      have hsize : t.nodes.size = s.nodes.size := hreread.resembles.size
      have hnodes : (((t.setNodes p (some ((s.children p).eraseIdx i))).setHint c (s.detached p)).node
          p).nodes = some ((s.children p).eraseIdx i) := by
        rw [nodes_setHint, node_setNodes_self t _ (hsize ▸ hp)]
      rw [RemovesSafely, perform_remove, Run.ends_of_ok hrun]
      exact ⟨Or.inr ⟨i, hi, hnodes⟩, fun hnot => absurd hmem hnot⟩
    · have hsame : (s.node c).cls.detached = (s.node p).cls.detached :=
        Classical.byContradiction fun hne => hmixed ⟨hparent, hmem, hne⟩
      obtain ⟨r, t, hreread, hrun⟩ := remove_stray hs hparent hmem hsame
      exact removesSafely_of_null hreread hrun
  · obtain ⟨r, hrun⟩ := remove_other hs hparent
    exact removesSafely_of_null (.refl s) hrun

/-- A node with two children, from which a third one of another class was taken. -/
def withStray : Store :=
  (Action.performAll
    [.create .node .empty, .create .node .empty, .create .node .empty,
      .create (.extended "CustomNode" (-2) ["prev"]) .empty, .push (.node 0) (.node 1),
      .push (.node 0) (.node 2), .push (.node 0) (.node 3), .pop (.node 0)] .empty).2

theorem regular_withStray : withStray.Regular where
  proper n := by
    match n with
    | 0 => exact ⟨⟨_, rfl⟩, fun p hp => by cases hp⟩
    | 1 => exact ⟨⟨_, rfl⟩, fun p hp => ⟨0, by cases hp; rfl⟩⟩
    | 2 => exact ⟨⟨_, rfl⟩, fun p hp => ⟨0, by cases hp; rfl⟩⟩
    | 3 => exact ⟨⟨_, rfl⟩, fun p hp => ⟨0, by cases hp; rfl⟩⟩
    | n + 4 =>
        have hout : withStray.nodes.size ≤ n + 4 := Nat.le_add_left 4 n
        rw [node_of_size_le _ hout]
        exact ⟨⟨_, rfl⟩, fun p hp => by cases hp⟩
  loggable hread := by cases hread

/-- A child can be removed safely, and the stray cannot. -/
theorem removesSafely_withStray : withStray.Regular ∧ 0 < withStray.nodes.size ∧
    (withStray.node 0).cls.detached < 0 ∧ withStray.RemovesSafely 0 1 ∧ ¬ withStray.RemovesSafely 0 3 := by
  have hsize : 0 < withStray.nodes.size := by decide
  have hsentinel : (withStray.node 0).cls.detached < 0 := by decide
  refine ⟨regular_withStray, hsize, hsentinel, ?_, ?_⟩
  · refine (removesSafely_iff regular_withStray hsize hsentinel).mpr fun hmixed => hmixed.2.1 ?_
    decide
  · intro hsafe
    refine (removesSafely_iff regular_withStray hsize hsentinel).mp hsafe ⟨rfl, ?_, ?_⟩
    · decide
    · decide

/-- **Removing the stray takes another child out**, and answers the stray as if it had been in the list. -/
theorem remove_stray_takes_sibling :
    withStray.children 0 = [.node 1, .node 2] ∧
      Run.outcome ((Action.remove (.node 0) (.node 3)).perform withStray) = .ok (.node 3) ∧
      (Run.after ((Action.remove (.node 0) (.node 3)).perform withStray)).children 0 = [.node 2] :=
  ⟨rfl, rfl, rfl⟩

end Store
end SyntaxTree
