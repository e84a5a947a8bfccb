import SyntaxTree.Proofs.Attachment
import SyntaxTree.Proofs.Heredity
import SyntaxTree.Proofs.PlainData
import SyntaxTree.Proofs.Strays

/-!
# `Proofs.Building` — trees that are built at their ends need no scan

`Built` are the stores that come about from a store without nodes by making nodes, adding them at the end of a list,
taking them away from there, cloning, and reading. Of a node that is added it is asked that it is in no list at that
moment; it may have been in one before, and may lead to its new parent. In all these stores every child has its position
for a hint (`Store.WellHinted`), so that the index of a child is never scanned for.
-/

namespace SyntaxTree

open Store

namespace Event

variable {s s' : Store} {gone : NodeId → Prop} {n p c : NodeId}

/-- The events by which trees are built. The position of a new node may be a wrapper, or anything that does what is
done here itself, such as adding the node to a list. Values and attributes that are cloned hold no nodes. -/
inductive Builds (gone : NodeId → Prop) : Store → Event → Prop
  | create {s : Store} (cls : NodeClass) (given : Construction) : given.Sound s gone cls →
      (given.position = .null ∨ ∃ o tracker start fields,
        given.position = .object o ∧ s.object o = .wrapper tracker start fields) →
      Builds gone s (act (.create cls given))
  | createCalling {s u : Store} {n : NodeId} {a : Action} (cls : NodeClass) (given : Construction) :
      given.Sound s gone cls → createUnplaced cls given s = .ok n u → Builds gone u (act a) →
      call given.position [.node n] [] u = a.perform u → Builds gone s (act (.create cls given))
  | push {s : Store} (p c : NodeId) : s.Living gone p → s.Free gone c → Builds gone s (act (.push (.node p) (.node c)))
  | pop {s : Store} (n : NodeId) : s.Living gone n → Builds gone s (act (.pop (.node n)))
  | clone {s : Store} (n : NodeId) : s.Living gone n →
      (∀ m, s.Living gone m → s.Nodeless (s.node m).value ∧ s.Nodeless (s.node m).attr) →
      Builds gone s (act (.clone (.node n)))
  | collect {s : Store} (inUse : List Value) : Builds gone s (collect inUse)

/-- The stores that come about by building, with the nodes that are gone. What builds has to go well; what reads may
fail. Whatever else is done leaves the records of nodes alone. -/
inductive Built : Store → (NodeId → Prop) → Prop
  | start {s : Store} : s.nodes = #[] → Built s fun _ => False
  | step {s s' : Store} {gone : NodeId → Prop} {e : Event} {v : Value} : Built s gone → Builds gone s e →
      e.perform s = .ok v s' → Built s' (goneAfter s gone e)
  | read {s : Store} {gone : NodeId → Prop} (n : NodeId) (name : String) : Built s gone → s.Living gone n →
      Built (Run.after ((Action.read (.node n) name).perform s)) gone
  | aside {s : Store} {gone : NodeId → Prop} (e : Event) : Built s gone →
      (Run.after (e.perform s)).nodes = s.nodes → Built (Run.after (e.perform s)) gone

/-! ## What leaves the records of nodes alone -/

/-- The questions that are asked of a node otherwise than by reading, and the setting of its attributes. -/
inductive Asks (n : NodeId) : Action → Prop
  | find (matcher : Value) : Asks n (.find (.node n) matcher)
  | isType (matcher : Value) : Asks n (.isType (.node n) matcher)
  | hasType (matcher : Value) : Asks n (.hasType (.node n) matcher)
  | isInside (matcher : Value) : Asks n (.isInside (.node n) matcher)
  | isEmpty : Asks n (.isEmpty (.node n))
  | toMap : Asks n (.toMap (.node n))
  | getAttributes (name fallback : Value) : Asks n (.getAttributes (.node n) name fallback)
  | setAttributes (mapping : Value) (named : Entries Value) : Asks n (.setAttributes (.node n) mapping named)

section Aside

/-- The run leaves the records of nodes as they are in `s`. -/
abbrev LeavesNodes {α : Type} (s : Store) (run : Run α) : Prop := Run.Preserves (fun t => t.nodes = s.nodes) run

theorem leavesNodes_allocate (o : Object) : LeavesNodes s (Run.allocate o) := .allocate fun _ ht => ht

mutual

theorem leavesNodes_writeOutline : (o : Outline) → LeavesNodes s (writeOutline o)
  | .node fields none => by
      rw [writeOutline]
      exact leavesNodes_allocate _
  | .node fields (some nodes) => by
      rw [writeOutline]
      refine (leavesNodes_writeOutlines nodes).bind fun items => ?_
      exact (leavesNodes_allocate _).bind fun list => leavesNodes_allocate _

theorem leavesNodes_writeOutlines : (os : List Outline) → LeavesNodes s (writeOutlines os)
  | [] => by
      rw [writeOutlines]
      exact .pure _
  | o :: os => by
      rw [writeOutlines]
      refine (leavesNodes_writeOutline o).bind fun v => ?_
      exact (leavesNodes_writeOutlines os).bind fun vs => .pure _

end

theorem leavesNodes_mergeAttributes (n : NodeId) (es : Entries Value) : LeavesNodes s (mergeAttributes n es) := by
  induction es with
  | nil => exact .pure _
  | cons e es ih =>
      refine Run.Preserves.get.bind fun t => Run.Preserves.ite (fun _ => ?_) fun _ => ?_
      · exact (Run.Preserves.update (f := fun t => t.note _) fun t ht => ht).bind fun _ => ih
      · exact (nodes_assignExtra n e.1 e.2).bind fun _ => ih

/-- **Questions and attributes have nothing to do with the records of nodes.** -/
theorem Asks.leavesNodes {a : Action} (h : Asks n a) : LeavesNodes s a.perform := by
  cases h with
  | find matcher => exact .check _
  | isType matcher => exact Run.Preserves.map (.check _)
  | hasType matcher => exact Run.Preserves.map (.check _)
  | isInside matcher => exact Run.Preserves.map (.check _)
  | isEmpty => exact Run.Preserves.map (.check _)
  | toMap => exact (Run.Preserves.check _).bind fun o => leavesNodes_writeOutline o
  | getAttributes name fallback => exact .check _
  | setAttributes mapping named =>
      refine Run.Preserves.bind ?_ fun _ => .pure _
      exact (Run.Preserves.check _).bind fun es => leavesNodes_mergeAttributes n _

/-- A question may be asked at any time. -/
theorem Built.ask {a : Action} (h : Built s gone) (ha : Asks n a) : Built (Run.after (a.perform s)) gone := by
  have hkept : LeavesNodes s a.perform := ha.leavesNodes
  exact h.aside (act a) (Run.after_of_preserves hkept rfl)

end Aside

/-! ## One event -/

theorem wellHinted_start (h : s.nodes = #[]) : s.WellHinted fun _ => False := by
  have hsize : s.nodes.size = 0 := by rw [h]; rfl
  have hnone {n : NodeId} (hn : s.Living (fun _ => False) n) : False := Nat.not_lt_zero n (hsize ▸ hn.1)
  refine ⟨fun p _ _ hp => (hnone hp).elim, fun n _ hn => (hnone hn).elim, fun n => ?_, fun _ hn => hn.elim⟩
  rw [node_of_size_le s (by rw [hsize]; exact Nat.zero_le n)]
  exact ⟨⟨_, rfl⟩, fun p hp => by cases hp⟩

/-- The nodes of a tree that was unfolded are living. -/
theorem living_of_subtree (h : s.WellHinted gone) (hn : s.Living gone n) {operation : String} {t : Subtree}
    (ht : s.subtree operation n = .ok t) : ∀ m ∈ t.preorder, s.Living gone m := by
  refine forall_mem_subtreeWithin (fun p hp v hv c hc => ?_) _ hn ht
  obtain ⟨i, hi⟩ := List.mem_iff_getElem?.mp hv
  obtain ⟨d, rfl, hd, -⟩ := h.seat p i v hp hi
  cases hc
  exact hd

/-- **Every event by which trees are built leaves the hints of all children as they should be.** -/
theorem wellHinted_builds {e : Event} (he : Builds gone s e) (h : s.WellHinted gone) :
    Run.Ends e.perform s (fun _ t => t.WellHinted (goneAfter s gone e)) fun _ _ => True := by
  induction he with
  | create cls given hgiven hposition =>
      refine Run.ends_map.mpr (kept_create (growth_wellHinted gone) h hgiven fun n t _ ht hcalled => ?_)
      rcases hposition with hnull | ⟨o, tracker, start, fields, hwrapped, hwrapper⟩
      · exact absurd hnull hcalled
      · rw [hwrapped, Run.Ends, ht.call_wrapper hwrapper n]
        refine (nodes_stamp (s := t) tracker start n t rfl).mono (fun _ u hu => ?_) fun _ _ _ => trivial
        exact ht.kept.of_nodes hu
  | createCalling cls given hgiven hmade _ hcall ih =>
      refine Run.ends_map.mpr (kept_create (growth_wellHinted gone) h hgiven fun n' t hmade' ht _ => ?_)
      cases hmade.symm.trans hmade'
      have hdone := ih ht.kept
      rw [Run.Ends] at hdone ⊢
      rw [hcall]
      exact hdone
  | push p c hp hc =>
      refine Run.ends_map.mpr ((Run.ends_of_ok (push_node _ p c)).mpr ?_)
      exact h.append hp hc
  | pop n _ => exact h.pop n
  | @clone s n hn hvalues =>
      refine Run.ends_map.mpr ?_
      rw [Store.clone, Run.ends_bind, Run.ends_check]
      cases ht : s.subtree "clone" n with
      | error e => trivial
      | ok t =>
          have hclonable : s.Clonable t.preorder := by
            intro m hm
            have hliving := living_of_subtree h hn ht m hm
            exact ⟨hliving.1, hvalues m hliving⟩
          obtain ⟨c, s', hclone, -, hkept, -⟩ := cloneTree_ok (growth_wellHinted gone) t h hclonable
          exact (Run.ends_of_ok hclone).mpr hkept
  | collect inUse => exact h.collect inUse

/-! ## A whole run -/

/-- **In every store that is built all children have their positions for hints.** -/
theorem built_wellHinted (h : Built s gone) : s.WellHinted gone := by
  induction h with
  | start hs => exact wellHinted_start hs
  | step _ he hrun ih => exact (Run.ends_of_ok hrun).mp (wellHinted_builds he ih)
  | @read s gone n name _ hn ih => exact (Run.after_of_preserves (strays_readNode ih hn name) (.refl s)).wellHinted ih
  | aside e _ hnodes ih => exact ih.of_nodes hnodes

/-- **Where trees are built at their ends, the index of a child is never scanned for.** Every child calls the node that
has it its parent and has its position for a hint; its index is that position, and reading it leaves the store as it is.
Whatever is read of any node, records are written about such nodes only as are not in the lists of their parents; and
searching for a child writes none. -/
theorem built_never_rescans (h : Built s gone) :
    (∀ p i v, s.Living gone p → (s.children p)[i]? = some v →
      ∃ c, v = .node c ∧ s.Living gone c ∧ (s.node c).parent = some (.node p) ∧ (s.node c).hint = .int (i : Nat) ∧
        (Action.read (.node c) "index").perform s = .ok (.int (i : Nat)) s) ∧
    (∀ n name, s.Living gone n → ∃ (missed : List NodeId) (shown : List String),
      s.Perused missed (Run.after ((Action.read (.node n) name).perform s)) ∧
        (Run.after ((Action.read (.node n) name).perform s)).log =
          s.log ++ (shown.map DebugRecord.cacheMiss).toArray ∧ shown.length = missed.length ∧
        ∀ m ∈ missed, ∀ p, (s.node m).parent = some (.node p) → .node m ∉ s.children p) ∧
    ∀ n matcher, Run.after ((Action.find (.node n) matcher).perform s) = s := by
  have hwell := built_wellHinted h
  refine ⟨fun p i v hp hi => ?_, fun n name hn => ?_, fun n matcher => ?_⟩
  · obtain ⟨c, rfl, hc, hparent, hhint⟩ := hwell.seat p i v hp hi
    exact ⟨c, rfl, hc, hparent, hhint, hwell.readIndex hp hi⟩
  · obtain ⟨missed, hperused, hstray⟩ := Run.after_of_preserves (strays_readNode hwell hn name) (.refl s)
    obtain ⟨shown, hlength, hlog⟩ := hperused.log
    exact ⟨missed, shown, hperused, hlog, hlength, hstray⟩
  · have hkept : Run.Preserves (fun t => t = s) (Run.check fun s => s.find n matcher) := .check _
    exact Run.after_of_preserves hkept rfl

/-! ## A small tree -/

theorem Built.next {e : Event} {v : Value} (h : Built s fun _ => False) (he : Builds (fun _ => False) s e)
    (hrun : Run.outcome (e.perform s) = .ok v) (hgone : goneAfter s (fun _ => False) e = fun _ => False) :
    Built (Run.after (e.perform s)) fun _ => False := by
  cases hresult : e.perform s with
  | ok w s' =>
      have hstep := h.step he hresult
      rw [hgone] at hstep
      exact hstep
  | error f s' =>
      rw [hresult] at hrun
      cases hrun

/-- The store after a node was cloned, and the clone got into a list of children; the node that was made from fields
with it was added to the first one, taken away from it, asked for its index, and added again. -/
def afterReturned : Store :=
  (performAll [act (.create .node .empty), act (.clone (.node 0)), make (.collection .list [.node 1]),
    make (.map [(.text "nodes", .object 3)]), act (.create .node ⟨.object 4, .null, .null, .null⟩),
    act (.push (.node 0) (.node 2)), act (.pop (.node 0)), act (.read (.node 2) "index"),
    act (.push (.node 0) (.node 2))] .empty).2

/-- A list of children with one free node in it, and nothing else, makes a new node. -/
theorem sound_child {cls : NodeClass} {l m : ObjectId} (hmap : s.object m = .map [(.text "nodes", .object l)])
    (hlist : s.object l = .collection .list [.node c]) (hc : s.Free gone c) (hclass : "nodes" ∉ cls.reserved) :
    (⟨.object m, .null, .null, .null⟩ : Construction).Sound s gone cls := by
  have hfields : s.entries? (.object m) = some [(.text "nodes", .object l)] := by rw [entries?, object?, hmap]
  have hgiven : childrenGiven cls .null [(.text "nodes", .object l)] = .object l := by
    simp [childrenGiven, childrenAfter, isReservedKey, hclass]
  refine ⟨fun o ho => ?_, fun v hv hnull => ?_, fun fields hmapped _ => ⟨[c], ?_, List.nodup_singleton c, fun d hd => ?_⟩⟩
  · cases ho
    exact lt_size_of_object (hmap ▸ fun heq => by cases heq)
  · rw [Construction.parents, hfields] at hv
    rcases List.mem_cons.mp hv with rfl | hv
    · exact absurd rfl hnull
    · cases hv
  · cases hfields.symm.trans hmapped
    simp [hgiven, items, object?, hlist]
  · rw [List.mem_singleton.mp hd]
    exact hc

theorem built_afterReturned : Built afterReturned fun _ => False := by
  have h₀ : Built .empty fun _ => False := .start rfl
  have h₁ := h₀.next (.create .node .empty (sound_scalar (fun o ho => by cases ho) rfl) (Or.inl rfl)) rfl rfl
  have h₂ := h₁.next (.clone 0 ⟨by decide, id⟩ fun m hm => ?_) rfl rfl
  · have h₃ := h₂.aside (make (.collection .list [.node 1])) rfl
    have h₄ := h₃.aside (make (.map [(.text "nodes", .object 3)])) rfl
    have h₅ := h₄.next (.create .node ⟨.object 4, .null, .null, .null⟩ (sound_child (l := 3) (c := 1) rfl rfl
      (free_of_bounded (by decide) (by decide)) (by decide)) (Or.inl rfl)) rfl rfl
    have h₆ := h₅.next (.push 0 2 ⟨by decide, id⟩ (free_of_bounded (by decide) (by decide))) rfl rfl
    have h₇ := h₆.next (.pop 0 ⟨by decide, id⟩) rfl rfl
    have h₈ := h₇.read 2 "index" ⟨by decide, id⟩
    exact h₈.next (.push 0 2 ⟨by decide, id⟩ (free_of_bounded (by decide) (by decide))) rfl rfl
  · -- the only node has no value, and nothing among its attributes
    obtain ⟨hlt, -⟩ := hm
    have hm : m = 0 := Nat.lt_one_iff.mp hlt
    subst hm
    exact ⟨(data_scalar rfl).nodeless, (data_object rfl fun w hw => by cases hw).nodeless⟩

/-- The only record is about the node while it was in no list; now both children have their positions for hints. -/
theorem afterReturned_never_rescans : Built afterReturned (fun _ => False) ∧ afterReturned.log.size = 1 ∧
    afterReturned.children 0 = [.node 2] ∧ (afterReturned.node 2).hint = .int 0 ∧
    afterReturned.children 2 = [.node 1] ∧
    (Action.read (.node 1) "index").perform afterReturned = .ok (.int 0) afterReturned := by
  obtain ⟨hseat, -, -⟩ := built_never_rescans built_afterReturned
  obtain ⟨c, hc, -, -, hhint, -⟩ := hseat 0 0 (.node 2) ⟨by decide, id⟩ rfl
  obtain ⟨d, hd, -, -, -, hread⟩ := hseat 2 0 (.node 1) ⟨by decide, id⟩ rfl
  cases hc
  cases hd
  exact ⟨built_afterReturned, rfl, rfl, hhint, rfl, hread⟩

end Event
end SyntaxTree
