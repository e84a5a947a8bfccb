import SyntaxTree.Proofs.Hints

/-!
# `Proofs.Strays` — reading misses strays only

A stray is a node that is not in the list of its parent. Whatever is read of a node leaves the store as it was, except
for new objects, and for a record and a new hint of every node whose hint did not hold (`Perused`). Where every child
has its position for a hint, the hint of a child holds; so these nodes are strays, all of them.

Reading what comes next climbs from parent to parent, and on its way up it may come to strays again, for a node that is
taken away keeps its children.
-/

namespace SyntaxTree
namespace Store

variable {s t : Store} {gone : NodeId → Prop} {n p c : NodeId} {i : Nat} {missed : List NodeId}

/-- The node is not in the list of its parent, if it has one. -/
def Stray (s : Store) (n : NodeId) : Prop := ∀ p, (s.node n).parent = some (.node p) → ¬ s.Holds p n

/-- What is left of a store by reading: there may be new objects, and about some nodes a record was written, each of
which has got a new hint. -/
inductive Perused (s : Store) : List NodeId → Store → Prop
  | refl : Perused s [] s
  | allocate {t : Store} {missed : List NodeId} (o : Object) : Perused s missed t → Perused s missed (t.addObject o)
  | miss {t : Store} {missed : List NodeId} {n : NodeId} {shown : String} (i : Int) : Perused s missed t →
      shownInRecord (.node n) t = .ok shown t →
      Perused s (missed ++ [n]) ((t.note (.cacheMiss shown)).setHint n (.int i))

/-- The store was read, and all nodes about which a record was written are strays. -/
def StraysMissed (s t : Store) : Prop := ∃ missed, s.Perused missed t ∧ ∀ n ∈ missed, s.Stray n

namespace Perused

/-- Lists and parents are not touched, and only missed nodes get other hints. -/
theorem same (h : s.Perused missed t) : t.nodes.size = s.nodes.size ∧ (∀ n, t.children n = s.children n) ∧
    (∀ n, (t.node n).parent = (s.node n).parent) ∧ (∀ n, n ∉ missed → (t.node n).hint = (s.node n).hint) ∧
    ∀ n, (s.node n).Proper → (t.node n).Proper := by
  induction h with
  | refl => exact ⟨rfl, fun _ => rfl, fun _ => rfl, fun _ _ => rfl, fun _ h => h⟩
  | allocate o _ ih => exact ih
  | @miss t missed n shown i _ _ ih =>
      obtain ⟨hsize, hchildren, hparent, hhint, hproper⟩ := ih
      refine ⟨?_, fun m => ?_, fun m => ?_, fun m hm => ?_, fun m hm => ?_⟩
      · rw [setHint, size_updateNode]
        exact hsize
      · rw [children_setHint]
        exact hchildren m
      · rw [parent_setHint]
        exact hparent m
      · rw [List.mem_append, List.mem_singleton, not_or] at hm
        rw [node_setHint_of_ne _ _ hm.2]
        exact hhint m hm.1
      · rw [setHint, node_updateNode]
        split
        · exact ⟨⟨i, rfl⟩, (hproper m hm).parent_node⟩
        · exact hproper m hm

/-- One record is written about every node that was missed, in order. -/
theorem log (h : s.Perused missed t) : ∃ shown : List String,
    shown.length = missed.length ∧ t.log = s.log ++ (shown.map DebugRecord.cacheMiss).toArray := by
  induction h with
  | refl => exact ⟨[], rfl, by simp⟩
  | allocate o _ ih => exact ih
  | @miss t missed n text i _ _ ih =>
      obtain ⟨shown, hlength, hlog⟩ := ih
      refine ⟨shown ++ [text], by simp [hlength], ?_⟩
      show t.log.push (.cacheMiss text) = _
      rw [hlog]
      simp

end Perused

namespace StraysMissed

theorem refl (s : Store) : s.StraysMissed s := ⟨[], .refl, fun _ hn => by cases hn⟩

theorem allocate (h : s.StraysMissed t) (o : Object) : s.StraysMissed (t.addObject o) := by
  obtain ⟨missed, ht, hstray⟩ := h
  exact ⟨missed, ht.allocate o, hstray⟩

/-- **Every child keeps its hint.** -/
theorem wellHinted (h : s.StraysMissed t) (hs : s.WellHinted gone) : t.WellHinted gone := by
  obtain ⟨missed, ht, hstray⟩ := h
  obtain ⟨hsize, hchildren, hparent, hhint, hproper⟩ := ht.same
  refine hs.of_same hsize hchildren hparent (fun p c hp hc => hhint c fun hmem => ?_) fun n => hproper n (hs.proper n)
  exact hstray c hmem p (hs.parent_of_holds hp hc) hc

theorem living (h : s.StraysMissed t) (hn : s.Living gone n) : t.Living gone n := by
  obtain ⟨missed, ht, -⟩ := h
  exact (living_of_size ht.same.1).mpr hn

theorem stray_iff (h : s.StraysMissed t) (n : NodeId) : t.Stray n ↔ s.Stray n := by
  obtain ⟨missed, ht, -⟩ := h
  obtain ⟨-, hchildren, hparent, -⟩ := ht.same
  simp only [Stray, Holds, hchildren, hparent]

theorem miss (h : s.StraysMissed t) (hn : t.Stray n) (i : Int) {shown : String}
    (hshown : shownInRecord (.node n) t = .ok shown t) :
    s.StraysMissed ((t.note (.cacheMiss shown)).setHint n (.int i)) := by
  have hstray := (h.stray_iff n).mp hn
  obtain ⟨missed, ht, hall⟩ := h
  refine ⟨missed ++ [n], ht.miss i hshown, fun m hm => ?_⟩
  rcases List.mem_append.mp hm with hm | hm
  · exact hall m hm
  · rw [List.mem_singleton.mp hm]
    exact hstray

end StraysMissed

/-! ## Reading the index -/

/-- **The index of a child is its hint**, and reading it leaves the store as it is. -/
theorem WellHinted.locate (h : s.WellHinted gone) (hp : s.Living gone p)
    (hi : (s.children p)[i]? = some (.node c)) : locate c s = .ok (.int i) s := by
  obtain ⟨d, hd, -, hparent, hhint⟩ := h.seat p i _ hp hi
  cases hd
  have hsiblings := siblings_of_mem hparent (List.mem_of_getElem? hi)
  exact locate_of_position hsiblings hhint hi (scanned_of_getElem? s (h.children_nodup hp) hi)

theorem WellHinted.readIndex (h : s.WellHinted gone) (hp : s.Living gone p)
    (hi : (s.children p)[i]? = some (.node c)) : readIndex c s = .ok (.int i) s :=
  Run.recover_of_ok (h.locate hp hi)

/-- A node that is no stray is in the list of its parent. -/
theorem held_of_not_stray (h : ¬ s.Stray n) : ∃ p, (s.node n).parent = some (.node p) ∧ s.Holds p n := by
  unfold Stray at h
  push Not at h
  exact h

/-- With a node for a parent, or none, the siblings are nodes or missing. -/
theorem siblings_of_proper (hn : (s.node n).Proper) {siblings : Siblings} (h : s.siblings n = .ok siblings) :
    siblings = .absent ∨ ∃ l, siblings = .nodes l := by
  cases hparent : (s.node n).parent with
  | none =>
      rw [Store.siblings, hparent] at h
      cases h
      exact Or.inl rfl
  | some v =>
      obtain ⟨p, rfl⟩ := hn.parent_node v hparent
      rw [siblings_of_parent s hparent] at h
      cases hnodes : (s.node p).nodes with
      | none =>
          rw [hnodes] at h
          cases h
          exact Or.inl rfl
      | some l =>
          rw [hnodes] at h
          cases h
          exact Or.inr ⟨l, rfl⟩

/-- What is shown in a record changes nothing, whether or not it can be shown. -/
theorem shownInRecord_cases (v : Value) (t : Store) :
    (∃ shown, shownInRecord v t = .ok shown t) ∨ ∃ e, shownInRecord v t = .error e t := by
  unfold shownInRecord
  cases t.display v with
  | ok shown => exact Or.inl ⟨shown, rfl⟩
  | error e =>
      by_cases hread : t.logIsRead
      · exact Or.inr ⟨e, by simp [hread]⟩
      · exact Or.inl ⟨"...", by simp [hread]⟩

/-- A scan for a stray is a miss. -/
theorem strays_rescan (hn : s.Stray n) (l : List Value) : Run.Preserves s.StraysMissed (rescan n (.nodes l)) := by
  intro t ht
  rcases shownInRecord_cases (.node n) t with ⟨shown, hshown⟩ | ⟨e, hshown⟩
  · obtain ⟨i, hi⟩ := scanned_int t l n
    have hrun : rescan n (.nodes l) t = .ok (.int i) ((t.note (.cacheMiss shown)).setHint n (.int i)) := by
      rw [rescan_of_row (Siblings.inRow_nodes t l) hshown, hi]
    rw [Run.ends_of_ok hrun]
    exact ht.miss ((ht.stray_iff n).mpr hn) i hshown
  · have hrun : rescan n (.nodes l) t = .error e t := by
      rw [rescan, Run.bind_of_error hshown]
    rw [Run.ends_of_error hrun]
    exact ht

/-! ## What makes objects only -/

theorem strays_allocate (o : Object) : Run.Preserves s.StraysMissed (Run.allocate o) :=
  .allocate fun _ ht => ht.allocate o

theorem strays_listValue (items : Option (List Value)) : Run.Preserves s.StraysMissed (listValue items) := by
  cases items with
  | none => exact .pure _
  | some items => exact strays_allocate _

theorem strays_allocateTuple (items : List Value) : Run.Preserves s.StraysMissed (Run.allocateTuple items) := by
  intro t ht
  unfold Run.Ends Run.allocateTuple
  cases t.emptyTuple? with
  | none => exact ht.allocate _
  | some o =>
      cases items with
      | nil => exact ht
      | cons v vs => exact ht.allocate _

theorem strays_classOperation (name : String) : Run.Preserves s.StraysMissed (classOperation name) := by
  intro t ht
  unfold Run.Ends classOperation
  cases t.classOperation? name with
  | some o => exact ht
  | none => exact ht.allocate _

theorem strays_readSiblings (n : NodeId) : Run.Preserves s.StraysMissed (readSiblings n) := by
  refine Run.Preserves.recover (Run.Preserves.get.bind fun t => ?_) (.check _)
  split
  · exact .pure _
  · exact strays_listValue _
  · exact .check _

/-! ## Reading the neighbours -/

section Reading

variable (hs : s.WellHinted gone)
include hs

/-- **Reading the index of a living node misses it only if it is a stray.** -/
theorem strays_readIndex (hn : s.Living gone n) : Run.Preserves s.StraysMissed (readIndex n) := by
  by_cases hstray : s.Stray n
  · refine Run.Preserves.recover (Run.Preserves.get.bind fun u => ?_) (.check _)
    refine Run.Preserves.ite (fun _ => .check _) fun _ => Run.Preserves.check_bind fun t siblings ht hsiblings => ?_
    rcases siblings_of_proper ((ht.wellHinted hs).proper n) hsiblings with rfl | ⟨l, rfl⟩
    · exact .pure _
    · exact (Run.Preserves.check _).bind fun holds => .ite (fun _ => .pure _) fun _ => strays_rescan hstray l
  · -- the hint of a child holds
    intro t ht
    obtain ⟨p, hparent, hholds⟩ := held_of_not_stray fun h => hstray ((ht.stray_iff n).mp h)
    have h := ht.wellHinted hs
    have hp := h.above n p (ht.living hn) hparent
    obtain ⟨i, hi, -⟩ := h.of_holds hp hholds
    rw [Run.ends_of_ok (h.readIndex hp hi)]
    exact ht

theorem strays_prev (hn : s.Living gone n) : Run.Preserves s.StraysMissed (prev n) := by
  refine Run.Preserves.recover ?_ (.check _)
  refine (Run.Preserves.check _).bind fun siblings => Run.Preserves.get.bind fun t => ?_
  refine Run.Preserves.ite (fun _ => .pure _) fun _ => (strays_readIndex hs hn).bind fun index => ?_
  exact Run.Preserves.ite (fun _ => .check _) fun _ => .pure _

/-- **The climb to what comes next misses strays only**: it goes from living nodes to living nodes. -/
theorem strays_nextWithin (fuel : Nat) (hn : s.Living gone n) : Run.Preserves s.StraysMissed (nextWithin fuel n) := by
  induction fuel generalizing n with
  | zero => exact .throw _
  | succ fuel ih =>
      refine Run.Preserves.recover ?_ (.check _)
      refine (Run.Preserves.check _).bind fun siblings => Run.Preserves.get.bind fun t => ?_
      refine Run.Preserves.ite (fun _ => .pure _) fun _ => (strays_readIndex hs hn).bind fun index => ?_
      refine Run.Yields.get.bind_preserves fun t ht => ?_
      refine Run.Preserves.ite (fun _ => .pure _) fun _ => (Run.Preserves.check _).bind fun count => ?_
      refine Run.Preserves.ite (fun _ => .check _) fun _ => ?_
      split
      · exact .pure _
      · next p hparent =>
          have hp := (ht.wellHinted hs).above n p (ht.living hn) hparent
          obtain ⟨missed, hperused, -⟩ := ht
          exact ih ((living_of_size hperused.same.1).mp hp)
      · exact .check _

/-- **Whatever is read of a living node, strays are missed only.** -/
theorem strays_readNode (hn : s.Living gone n) (name : String) : Run.Preserves s.StraysMissed (readNode n name) := by
  unfold readNode
  split
  · next member _ =>
      cases member with
      | index => exact strays_readIndex hs hn
      | prev => exact strays_prev hs hn
      | next => exact Run.Preserves.get.bind fun t => strays_nextWithin hs _ hn
      | siblings => exact strays_readSiblings n
      | nodes => exact (Run.Preserves.read _).bind fun nodes => strays_listValue nodes
      | children => exact (Run.Preserves.read _).bind fun nodes => strays_listValue nodes
      | scope => exact .recover (.check _) (.check _)
      | link => exact (Run.Preserves.read _).bind fun parent => .ite (fun _ => .pure _) fun _ => strays_allocate _
      | reserved => exact (Run.Preserves.read _).bind fun names => strays_allocate _
      | fields => exact (Run.Preserves.read _).bind fun names => strays_allocateTuple _
      | operation => exact .ite (fun _ => strays_classOperation name) fun _ => strays_allocate _
      | marker => exact .pure _
      | watchers => exact .pure _
      | remark => exact .pure _
      | classOnly => exact .check _
      | _ => exact .read _
  · exact .check _

end Reading

end Store
end SyntaxTree
