import SyntaxTree.Proofs.Grafting
import SyntaxTree.Proofs.History

/-!
# `Proofs.Trimming` — operations that only take away

Reading, taking children away, setting attributes and hints: none of these puts a node into a list or gives
it a parent, whatever it is asked for and whether or not it fails. Each of them leaves a store that is
trimmed against the one before (`Store.Trimmed`), and so leaves a forest where it found one.
-/

namespace SyntaxTree
namespace Store

variable {s₀ s : Store}

/-! ## Changes -/

theorem Trimmed.note (h : s₀.Trimmed s) (r : DebugRecord) : s₀.Trimmed (s.note r) :=
  h.trans (.of_nodes rfl)

theorem Trimmed.setHint (h : s₀.Trimmed s) (n : NodeId) (i : Int) : s₀.Trimmed (s.setHint n (.int i)) := by
  refine h.trans ⟨?_, fun m => ?_, fun m => ?_, fun m hm => ?_⟩
  · rw [Store.setHint, size_updateNode]
  · rw [children_setHint]
  · rw [parent_setHint]
  · rw [Store.setHint, node_updateNode]
    split
    · exact ⟨i, rfl⟩
    · exact hm

/-- A list of children is replaced by a part of it. -/
theorem Trimmed.setNodes (h : s₀.Trimmed s) {n : NodeId} {l : List Value} (hl : l.Sublist (s.children n)) :
    s₀.Trimmed (s.setNodes n (some l)) := by
  refine h.trans ⟨?_, fun m => ?_, fun m => ?_, fun m hm => ?_⟩
  · rw [Store.setNodes, size_updateNode]
  · rw [Store.children, Store.setNodes, node_updateNode]
    split
    · next hm =>
        obtain ⟨rfl, -⟩ := hm
        exact hl
    · exact .refl _
  · rw [parent_setNodes]
  · rw [Store.setNodes, field_updateNode NodeRecord.hint s n (f := fun r => { r with nodes := some l })
      fun _ => rfl]
    exact hm

/-! ## Reading -/

theorem trimmed_shownInRecord (v : Value) : Run.Preserves s₀.Trimmed (shownInRecord v) := by
  intro s hs
  unfold Run.Ends shownInRecord
  cases s.display v with
  | ok text => exact hs
  | error e => by_cases hread : s.logIsRead <;> simpa [hread] using hs

theorem trimmed_rescan (n : NodeId) (siblings : Siblings) :
    Run.Preserves s₀.Trimmed (rescan n siblings) := by
  refine (trimmed_shownInRecord _).bind fun shown => ?_
  refine (Run.Preserves.update fun s hs => hs.note _).bind fun _ => ?_
  refine (Run.Preserves.check _).bind fun items => ?_
  intro s hs
  -- what is found is an integer, and becomes the hint
  obtain ⟨i, hi⟩ := scanned_int s items n
  rw [Run.ends_bind, Run.ends_read, hi]
  exact hs.setHint n i

theorem trimmed_readIndex (n : NodeId) : Run.Preserves s₀.Trimmed (readIndex n) := by
  refine Run.Preserves.recover ?_ (.check _)
  refine Run.Preserves.get.bind fun s => ?_
  refine Run.Preserves.ite (fun _ => .check _) fun _ => ?_
  refine (Run.Preserves.check _).bind fun siblings => ?_
  cases siblings with
  | absent => exact .pure _
  | _ =>
      refine (Run.Preserves.check _).bind fun holds => ?_
      exact Run.Preserves.ite (fun _ => .pure _) fun _ => trimmed_rescan n _

theorem trimmed_prev (n : NodeId) : Run.Preserves s₀.Trimmed (prev n) := by
  refine Run.Preserves.recover ?_ (.check _)
  refine (Run.Preserves.check _).bind fun siblings => Run.Preserves.get.bind fun s => ?_
  refine Run.Preserves.ite (fun _ => .pure _) fun _ => ?_
  refine (trimmed_readIndex n).bind fun index => ?_
  exact Run.Preserves.ite (fun _ => .check _) fun _ => .pure _

theorem trimmed_nextWithin (fuel : Nat) (n : NodeId) : Run.Preserves s₀.Trimmed (nextWithin fuel n) := by
  induction fuel generalizing n with
  | zero => exact .throw _
  | succ fuel ih =>
      refine Run.Preserves.recover ?_ (.check _)
      refine (Run.Preserves.check _).bind fun siblings => Run.Preserves.get.bind fun s => ?_
      refine Run.Preserves.ite (fun _ => .pure _) fun _ => ?_
      refine (trimmed_readIndex n).bind fun index => Run.Preserves.get.bind fun s => ?_
      refine Run.Preserves.ite (fun _ => .pure _) fun _ => ?_
      refine (Run.Preserves.check _).bind fun count => ?_
      refine Run.Preserves.ite (fun _ => .check _) fun _ => ?_
      -- the climb goes on from a parent that is a node
      cases (s.node n).parent with
      | none => exact .pure _
      | some p =>
          cases p with
          | node p => exact ih p
          | _ => exact .check _

theorem trimmed_allocate (o : Object) : Run.Preserves s₀.Trimmed (Run.allocate o) :=
  .allocate fun _ hs => hs.trans (.of_nodes rfl)

theorem trimmed_listValue (items : Option (List Value)) : Run.Preserves s₀.Trimmed (listValue items) := by
  cases items with
  | none => exact .pure _
  | some items => exact trimmed_allocate _

theorem trimmed_readSiblings (n : NodeId) : Run.Preserves s₀.Trimmed (readSiblings n) := by
  refine Run.Preserves.recover (Run.Preserves.get.bind fun s => ?_) (.check _)
  cases (s.node n).parent with
  | none => exact .pure _
  | some p =>
      cases p with
      | node p => exact trimmed_listValue _
      | _ => exact .check _

/-- Reading a computed property leaves nothing but hints and debug records behind. -/
theorem trimmed_property (n : NodeId) {name : String} (hname : name ∈ Event.properties) :
    Run.Preserves s₀.Trimmed (readNode n name) := by
  simp only [Event.properties, List.mem_cons, List.not_mem_nil, or_false] at hname
  rcases hname with rfl | rfl | rfl | rfl | rfl | rfl | rfl
  · rw [readNode_index]
    exact trimmed_readIndex n
  · rw [readNode_prev]
    exact trimmed_prev n
  · rw [readNode_next]
    exact Run.Preserves.get.bind fun s => trimmed_nextWithin _ n
  · rw [readNode_siblings]
    exact trimmed_readSiblings n
  · rw [readNode_first]
    exact .read _
  · rw [readNode_last]
    exact .read _
  · rw [readNode_scope]
    exact Run.Preserves.recover (.check _) (.check _)

mutual

theorem trimmed_writeOutline : (o : Outline) → Run.Preserves s₀.Trimmed (writeOutline o)
  | .node fields none => by
      rw [writeOutline]
      exact trimmed_allocate _
  | .node fields (some nodes) => by
      rw [writeOutline]
      refine (trimmed_writeOutlines nodes).bind fun items => ?_
      exact (trimmed_allocate _).bind fun list => trimmed_allocate _

theorem trimmed_writeOutlines : (os : List Outline) → Run.Preserves s₀.Trimmed (writeOutlines os)
  | [] => by
      rw [writeOutlines]
      exact .pure _
  | o :: os => by
      rw [writeOutlines]
      refine (trimmed_writeOutline o).bind fun v => ?_
      exact (trimmed_writeOutlines os).bind fun vs => .pure _

end

/-! ## Taking away -/

theorem trimmed_pop (n : NodeId) : Run.Preserves s₀.Trimmed (pop n) := by
  intro s hs
  unfold Run.Ends pop
  cases (s.children n).getLast? with
  | none => exact hs
  | some v => exact hs.setNodes (List.dropLast_sublist _)

theorem trimmed_shift (n : NodeId) : Run.Preserves s₀.Trimmed (shift n) := by
  intro s hs
  unfold Run.Ends shift
  cases hchildren : s.children n with
  | nil => exact hs
  | cons v rest =>
      refine hs.setNodes ?_
      rw [hchildren]
      exact List.sublist_cons_self v rest

theorem trimmed_deleteAt (n : NodeId) (position : Value) :
    Run.Preserves s₀.Trimmed (deleteAt n position) := by
  intro s hs
  unfold Run.Ends
  rw [deleteAt_eq]
  cases hnodes : (s.node n).nodes with
  | none => exact hs
  | some nodes =>
      have hlist : s.children n = nodes := by
        rw [children, hnodes]
        rfl
      dsimp only
      cases s.placeOf "list" nodes.length .placeOutOfRange position with
      | error e => exact hs
      | ok i =>
          refine hs.setNodes ?_
          rw [hlist]
          exact List.eraseIdx_sublist nodes i

theorem trimmed_indexOf (v : Value) : Run.Preserves s₀.Trimmed (indexOf v) := by
  unfold indexOf
  split
  · exact trimmed_readIndex _
  · exact .check _

/-- The hint that a child is left with is the integer for "not there". -/
theorem trimmed_remove (n : NodeId) (child : Value) : Run.Preserves s₀.Trimmed (remove n child) := by
  refine (Run.Preserves.check _).bind fun _ => (Run.Preserves.check _).bind fun parent => ?_
  intro s hs
  rw [Run.ends_bind, Run.ends_read, detached]
  generalize (s.node n).cls.detached = i
  revert s
  show Run.Preserves s₀.Trimmed _
  dsimp only
  refine Run.Preserves.ite (fun _ => (trimmed_indexOf child).bind fun index => ?_)
    fun _ => (Run.Preserves.pure _).bind fun index => ?_
  all_goals
    refine Run.Preserves.ite (fun _ => ?_) fun _ => ?_
    · refine (trimmed_shownInRecord _).bind fun _ => (trimmed_shownInRecord _).bind fun _ => ?_
      exact (Run.Preserves.update fun s hs => hs.note _).bind fun _ => .pure _
    · refine (trimmed_deleteAt n index).bind fun _ => ?_
      refine (Run.Preserves.update fun s hs => ?_).bind fun _ => .pure _
      cases child with
      | node c => exact hs.setHint c i
      | object o => exact hs.trans (.of_nodes rfl)
      | _ => exact hs

/-! ## Attributes -/

theorem trimmed_assignExtra (n : NodeId) (key : Key) (v : Value) :
    Run.Preserves s₀.Trimmed (assignExtra n key v) := by
  intro s hs
  rw [assignExtra, Run.ends_bind, Run.ends_check]
  cases hput : s.setExtra n key v with
  | error e => exact hs
  | ok s' => exact hs.trans (.of_nodes (nodes_setExtra hput))

theorem trimmed_mergeAttributes (n : NodeId) (es : Entries Value) :
    Run.Preserves s₀.Trimmed (mergeAttributes n es) := by
  induction es with
  | nil => exact .pure _
  | cons e es ih =>
      refine Run.Preserves.get.bind fun s => ?_
      refine Run.Preserves.ite (fun _ => ?_) fun _ => ?_
      · exact (Run.Preserves.update fun s hs => hs.note _).bind fun _ => ih
      · exact (trimmed_assignExtra n e.1 e.2).bind fun _ => ih

theorem trimmed_setAttributes (n : NodeId) (mapping : Value) (named : Entries Value) :
    Run.Preserves s₀.Trimmed (setAttributes n mapping named) :=
  (Run.Preserves.check _).bind fun _ => trimmed_mergeAttributes n _

end Store
end SyntaxTree
