import SyntaxTree.Proofs.Grown

/-!
# `Proofs.Hints` — children that know their positions

A child that is added at the end gets its position for a hint. As long as nodes are added at the end only, and taken
away from there, the hint of no child goes out of date: `WellHinted` says that every child calls the node that has it
its parent and has its position for a hint. A node that is taken away keeps both, but it is in no list then.

Nothing is said about cycles. A node may be added below itself, if only it is in no list so far.
-/

namespace SyntaxTree
namespace Store

variable {s s' : Store} {gone : NodeId → Prop} {n p c : NodeId} {i : Nat} {v : Value}

/-- Every child of a living node is a living node that calls it its parent and has its position for a hint. Parents are
living nodes, and every record is proper. -/
structure WellHinted (s : Store) (gone : NodeId → Prop) : Prop where
  seat : ∀ p i v, s.Living gone p → (s.children p)[i]? = some v →
    ∃ c, v = .node c ∧ s.Living gone c ∧ (s.node c).parent = some (.node p) ∧ (s.node c).hint = .int (i : Nat)
  above : ∀ n p, s.Living gone n → (s.node n).parent = some (.node p) → s.Living gone p
  proper : ∀ n, (s.node n).Proper
  made : ∀ n, gone n → n < s.nodes.size

/-! ## What adding and taking away do to hints -/

/-- Adding at the end sets the hint of what is added, and no other. -/
theorem hint_append (s : Store) (p c m : NodeId) : ((s.append p (.node c)).node m).hint =
    if m = c ∧ m < s.nodes.size then .int (s.children p).length else (s.node m).hint := by
  have hlink : (((s.setParent c (some (.node p))).setHint c (.int (s.children p).length)).node m).hint =
      if m = c ∧ m < s.nodes.size then .int (s.children p).length else (s.node m).hint := by
    rw [setHint, node_updateNode, setParent, size_updateNode, node_updateNode]
    split
    · rfl
    · rfl
  rw [← hlink]
  exact hint_setNodes _ p m _

/-! ## Children and their parents -/

namespace WellHinted

theorem not_gone (h : s.WellHinted gone) (hn : s.nodes.size ≤ n) : ¬ gone n :=
  fun hgone => Nat.not_lt_of_le hn (h.made n hgone)

theorem of_holds (h : s.WellHinted gone) (hp : s.Living gone p) (hc : s.Holds p c) :
    ∃ i : Nat, (s.children p)[i]? = some (.node c) ∧ s.Living gone c ∧ (s.node c).parent = some (.node p) ∧
      (s.node c).hint = .int i := by
  obtain ⟨i, hi⟩ := List.mem_iff_getElem?.mp hc
  obtain ⟨d, hd, hliving, hparent, hhint⟩ := h.seat p i _ hp hi
  cases hd
  exact ⟨i, hi, hliving, hparent, hhint⟩

theorem parent_of_holds (h : s.WellHinted gone) (hp : s.Living gone p) (hc : s.Holds p c) :
    (s.node c).parent = some (.node p) := by
  obtain ⟨_, -, -, hparent, -⟩ := h.of_holds hp hc
  exact hparent

/-- The hint of a child says where it stands, so no list holds a node twice. -/
theorem children_nodup (h : s.WellHinted gone) (hp : s.Living gone p) : (s.children p).Nodup := by
  rw [List.nodup_iff_getElem?_ne_getElem?]
  intro i j hij hj heq
  obtain ⟨c, hc, -, -, hi⟩ := h.seat p i _ hp (heq.trans (List.getElem?_eq_getElem hj))
  obtain ⟨d, hd, -, -, hj'⟩ := h.seat p j _ hp (List.getElem?_eq_getElem hj)
  cases hc.symm.trans hd
  cases hi.symm.trans hj'
  exact Nat.lt_irrefl _ hij

/-- What changes no list and no parent, and the hint of no child, keeps the children where they are. -/
theorem of_same (h : s.WellHinted gone) (hsize : s'.nodes.size = s.nodes.size)
    (hchildren : ∀ n, s'.children n = s.children n) (hparent : ∀ n, (s'.node n).parent = (s.node n).parent)
    (hhint : ∀ p c, s.Living gone p → s.Holds p c → (s'.node c).hint = (s.node c).hint)
    (hproper : ∀ n, (s'.node n).Proper) : s'.WellHinted gone where
  seat p i v hp hi := by
    rw [living_of_size hsize] at hp
    rw [hchildren] at hi
    obtain ⟨c, rfl, hliving, hlink, hseat⟩ := h.seat p i v hp hi
    refine ⟨c, rfl, (living_of_size hsize).mpr hliving, (hparent c).trans hlink, ?_⟩
    rw [hhint p c hp (List.mem_of_getElem? hi), hseat]
  above n p hn hp := by
    rw [living_of_size hsize] at hn ⊢
    exact h.above n p hn (hparent n ▸ hp)
  proper := hproper
  made n hn := hsize ▸ h.made n hn

theorem of_nodes (h : s.WellHinted gone) (hnodes : s'.nodes = s.nodes) : s'.WellHinted gone := by
  have hnode (n : NodeId) : s'.node n = s.node n := by rw [node, node, hnodes]
  refine h.of_same (by rw [hnodes]) (fun n => ?_) (fun n => by rw [hnode]) (fun _ c _ _ => by rw [hnode]) fun n => ?_
  · rw [children, hnode, children]
  · rw [hnode]
    exact h.proper n

/-! ## Adding at the end -/

/-- A new node without children changes nothing for the children of the others. -/
theorem sprout (h : s.WellHinted gone) (hs : s.Sprouted s') (hproper : (s'.node s.nodes.size).Proper)
    (hparent : ∀ p, (s'.node s.nodes.size).parent = some (.node p) → s'.Living gone p) : s'.WellHinted gone where
  seat p i v hp hi := by
    rcases (hs.living_iff (h.not_gone (Nat.le_refl _))).mp hp with hold | rfl
    · rw [hs.children_of_lt hold.1] at hi
      obtain ⟨c, rfl, hliving, hlink, hhint⟩ := h.seat p i v hold hi
      refine ⟨c, rfl, hliving.mono hs.size, ?_, ?_⟩
      · rw [hs.node c hliving.1, hlink]
      · rw [hs.node c hliving.1, hhint]
    · rw [hs.bare] at hi
      cases hi
  above n p hn hp := by
    rcases (hs.living_iff (h.not_gone (Nat.le_refl _))).mp hn with hold | rfl
    · rw [hs.node n hold.1] at hp
      exact (h.above n p hold hp).mono hs.size
    · exact hparent p hp
  proper := hs.proper h.proper hproper
  made n hn := Nat.lt_of_lt_of_le (h.made n hn) hs.size

theorem free_sprout (h : s.WellHinted gone) (hs : s.Sprouted s') : s'.Free gone s.nodes.size := by
  refine hs.free_of (h.not_gone (Nat.le_refl _)) fun p c hp hc => ?_
  obtain ⟨_, -, hliving, -⟩ := h.of_holds hp hc
  exact hliving.1

/-- **A free node that is added at the end gets its position for a hint**, and no other child is moved. -/
theorem append (h : s.WellHinted gone) (hp : s.Living gone p) (hc : s.Free gone c) :
    (s.append p (.node c)).WellHinted gone := by
  have hattached := attached_append hp.1 hc.living.1
  have hliving {n : NodeId} : (s.append p (.node c)).Living gone n ↔ s.Living gone n := living_of_size hattached.size
  -- a child of before is not the node that is added
  have hkept {q : NodeId} {i : Nat} {v : Value} (hq : s.Living gone q) (hi : (s.children q)[i]? = some v) :
      ∃ d, v = .node d ∧ (s.append p (.node c)).Living gone d ∧
        ((s.append p (.node c)).node d).parent = some (.node q) ∧
        ((s.append p (.node c)).node d).hint = .int (i : Nat) := by
    obtain ⟨d, rfl, hd, hlink, hhint⟩ := h.seat q i v hq hi
    have hne : d ≠ c := by
      rintro rfl
      exact hc.unheld q hq (List.mem_of_getElem? hi)
    refine ⟨d, rfl, hliving.mpr hd, ?_, ?_⟩
    · rw [hattached.parents d hne, hlink]
    · rw [hint_append, if_neg fun hand => hne hand.1, hhint]
  refine ⟨fun q i v hq hi => ?_, fun n q hn hq => ?_, proper_link h.proper p c _ _, fun n hn => ?_⟩
  · replace hq := hliving.mp hq
    by_cases hqp : q = p
    · subst hqp
      rw [children_append_self s _ hq.1] at hi
      rcases Nat.lt_or_ge i (s.children q).length with hlt | hge
      · rw [List.getElem?_append_left hlt] at hi
        exact hkept hq hi
      · -- the new child stands behind all of before
        rw [List.getElem?_append_right hge, List.getElem?_singleton] at hi
        split at hi
        · next hzero =>
            cases hi
            have hlast : i = (s.children q).length := by omega
            refine ⟨c, rfl, hliving.mpr hc.living, hattached.parent, ?_⟩
            rw [hint_append, if_pos ⟨rfl, hc.living.1⟩, hlast]
        · cases hi
    · rw [hattached.others q hqp] at hi
      exact hkept hq hi
  · replace hn := hliving.mp hn
    apply hliving.mpr
    by_cases hnc : n = c
    · rw [hnc, hattached.parent] at hq
      cases hq
      exact hp
    · rw [hattached.parents n hnc] at hq
      exact h.above n q hn hq
  · rw [hattached.size]
    exact h.made n hn

/-- The parent of a node that is in no list may be any living node. -/
theorem setParent (h : s.WellHinted gone) (hn : s.Free gone n) (hp : s.Living gone p) :
    (s.setParent n (some (.node p))).WellHinted gone := by
  have hsize := size_setParent s n (some (.node p))
  refine ⟨fun q i v hq hi => ?_, fun m q hm hq => ?_, proper_setParent h.proper n p, fun m hm => ?_⟩
  · replace hq := (living_of_size hsize).mp hq
    rw [children_setParent] at hi
    obtain ⟨d, rfl, hd, hlink, hhint⟩ := h.seat q i v hq hi
    have hne : d ≠ n := by
      rintro rfl
      exact hn.unheld q hq (List.mem_of_getElem? hi)
    refine ⟨d, rfl, (living_of_size hsize).mpr hd, ?_, ?_⟩
    · rw [node_setParent_of_ne s _ hne, hlink]
    · rw [node_setParent_of_ne s _ hne, hhint]
  · apply (living_of_size hsize).mpr
    exact above_setParent (h.above m q ((living_of_size hsize).mp hm)) hp hn.living.1 hq
  · rw [hsize]
    exact h.made m hm

end WellHinted

/-- **Making nodes and adding them at the end keeps the hints of all children.** -/
theorem growth_wellHinted (gone : NodeId → Prop) : Growth gone fun s => s.WellHinted gone where
  sprout h hs hproper hparent := ⟨h.sprout hs hproper hparent, h.free_sprout hs⟩
  free hn h h' hs := hn.extends_of hs (fun _ hp hc => h'.parent_of_holds hp hc) fun p hp => h.above _ p hn.living hp
  append h hp hc _ := h.append hp.living hc
  setParent h hn hp := h.setParent hn hp

/-! ## Taking away -/

/-- **Taking the last child away** leaves the others where they are. -/
theorem WellHinted.pop (h : s.WellHinted gone) (n : NodeId) :
    Run.Ends (pop n) s (fun _ t => t.WellHinted gone) fun _ _ => True := by
  unfold Run.Ends Store.pop
  cases hlast : (s.children n).getLast? with
  | none => exact h
  | some w =>
      have hsize : (s.setNodes n (some (s.children n).dropLast)).nodes.size = s.nodes.size := by
        rw [setNodes, size_updateNode]
      -- what is left at a position was there before
      have hleft {q : NodeId} {i : Nat} {v : Value}
          (hi : ((s.setNodes n (some (s.children n).dropLast)).children q)[i]? = some v) :
          (s.children q)[i]? = some v := by
        rw [children, setNodes, node_updateNode] at hi
        split at hi
        · next hq =>
            obtain ⟨rfl, -⟩ := hq
            change (s.children q).dropLast[i]? = some v at hi
            rw [List.getElem?_dropLast] at hi
            split at hi
            · exact hi
            · cases hi
        · exact hi
      refine ⟨fun q i v hq hi => ?_, fun m q hm hq => ?_, fun m => ?_, fun m hm => ?_⟩
      · obtain ⟨c, rfl, hc, hlink, hseat⟩ := h.seat q i v ((living_of_size hsize).mp hq) (hleft hi)
        refine ⟨c, rfl, (living_of_size hsize).mpr hc, ?_, ?_⟩
        · rw [parent_setNodes, hlink]
        · rw [hint_setNodes, hseat]
      · rw [parent_setNodes] at hq
        exact (living_of_size hsize).mpr (h.above m q ((living_of_size hsize).mp hm) hq)
      · unfold setNodes
        apply proper_updateNode h.proper
        exact fun r hr => ⟨hr.hint_int, hr.parent_node⟩
      · rw [hsize]
        exact h.made m hm

/-- **Children of what is in use are in use**, so none of them loses its parent when the rest is let go. -/
theorem WellHinted.collect (h : s.WellHinted gone) (inUse : List Value) :
    (s.collect inUse).WellHinted (Event.goneAfter s gone (.collect inUse)) where
  seat p i v hp hi := by
    obtain ⟨hp, hused⟩ := Event.living_collect.mp hp
    rw [children_collect] at hi
    obtain ⟨c, rfl, hc, hlink, hseat⟩ := h.seat p i v hp hi
    refine ⟨c, rfl, Event.living_collect.mpr ⟨hc, child_reachable hused (List.mem_of_getElem? hi)⟩, ?_, ?_⟩
    · rw [node_collect, parent_cutParent]
      exact ⟨hlink, hused⟩
    · rw [node_collect]
      rcases cutParent_parent_or (s.reachable inUse) (s.node c) with hsame | hcut
      · rw [hsame, hseat]
      · rw [hcut, hseat]
  above n p hn hp := by
    rw [node_collect, parent_cutParent] at hp
    exact Event.living_collect.mpr ⟨h.above n p (Event.living_collect.mp hn).1 hp.1, hp.2⟩
  proper n := by
    rw [node_collect]
    exact proper_cutParent _ (h.proper n)
  made n hn := by
    rw [size_collect]
    rcases hn with hgone | ⟨hlt, -⟩
    · exact h.made n hgone
    · exact hlt

end Store
end SyntaxTree
