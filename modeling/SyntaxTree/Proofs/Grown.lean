import SyntaxTree.Proofs.Cloning
import SyntaxTree.Proofs.Liveness
import SyntaxTree.Proofs.Making

/-!
# `Proofs.Grown` — what grows from no nodes is a forest

`Grown` are the stores that come about from a store without nodes, if every event is `Orderly`: a node that
gets into a list was in none, and does not lead to its new parent. The nodes that are not in use any more
are kept apart; nothing is said about them, and the lists they have left do not count.

Parent links alone do not say who holds a node, since a child that is taken away keeps its parent. So the
invariant (`Store.WellKept`) is about the lists, and asks of the parent links that those of children agree
with them. Every event keeps it (`wellKept_event`).
-/

namespace SyntaxTree

open Store Relation

namespace Event

/-- What is done to nodes without harm to a forest. Of a node that is put into a list it is asked that it is
in no list so far and leads not to its new parent, and of a clone that values and attributes hold no
nodes. -/
inductive OnNodes (s : Store) (gone : NodeId → Prop) : Action → Prop
  | push (p c : NodeId) : s.Living gone p → s.Free gone c → ¬ ReflTransGen s.Holds c p →
      OnNodes s gone (.push (.node p) (.node c))
  | unshift (p c : NodeId) : s.Living gone p → s.Free gone c → ¬ ReflTransGen s.Holds c p →
      OnNodes s gone (.unshift (.node p) (.node c))
  | pop (n : NodeId) : OnNodes s gone (.pop (.node n))
  | shift (n : NodeId) : OnNodes s gone (.shift (.node n))
  | remove (n : NodeId) (child : Value) : OnNodes s gone (.remove (.node n) child)
  | clone (n : NodeId) : s.Living gone n →
      (∀ m, s.Living gone m → s.Nodeless (s.node m).value ∧ s.Nodeless (s.node m).attr) →
      OnNodes s gone (.clone (.node n))
  | setAttributes (n : NodeId) (mapping : Value) (named : Entries Value) :
      OnNodes s gone (.setAttributes (.node n) mapping named)
  | assignIndex (n : NodeId) (i : Int) : OnNodes s gone (.assign (.node n) "index" (.int i))
  | read (n : NodeId) (name : String) : name ∈ properties → OnNodes s gone (.read (.node n) name)
  | getAttributes (n : NodeId) (name fallback : Value) :
      OnNodes s gone (.getAttributes (.node n) name fallback)
  | find (n : NodeId) (matcher : Value) : OnNodes s gone (.find (.node n) matcher)
  | isType (n : NodeId) (matcher : Value) : OnNodes s gone (.isType (.node n) matcher)
  | hasType (n : NodeId) (matcher : Value) : OnNodes s gone (.hasType (.node n) matcher)
  | isInside (n : NodeId) (matcher : Value) : OnNodes s gone (.isInside (.node n) matcher)
  | isEmpty (n : NodeId) : OnNodes s gone (.isEmpty (.node n))
  | toMap (n : NodeId) : OnNodes s gone (.toMap (.node n))

/-- The events under which a forest grows. The position of a new node may be a wrapper, or anything that
does to the node what is done to nodes without harm, such as adding it to a list. -/
inductive Orderly (s : Store) (gone : NodeId → Prop) : Event → Prop
  | create (cls : NodeClass) (given : Construction) : given.Sound s gone cls →
      (given.position = .null ∨ ∃ o tracker start fields,
        given.position = .object o ∧ s.object o = .wrapper tracker start fields) →
      Orderly s gone (act (.create cls given))
  | createCalling (cls : NodeClass) (given : Construction) {n : NodeId} {u : Store} {a : Action} :
      given.Sound s gone cls → createUnplaced cls given s = .ok n u → OnNodes u gone a →
      call given.position [.node n] [] u = a.perform u → Orderly s gone (act (.create cls given))
  | onNodes {a : Action} : OnNodes s gone a → Orderly s gone (act a)
  | search (n : NodeId) (predicate : Store → NodeId → Except Fault Bool) :
      Orderly s gone (search n predicate)
  | make (o : Object) : Orderly s gone (make o)
  | collect (inUse : List Value) : Orderly s gone (collect inUse)

/-- The nodes that are gone after an event: those of before, and what is not in use any more. -/
def goneAfter (s : Store) (gone : NodeId → Prop) : Event → NodeId → Prop
  | collect inUse, n => gone n ∨ n < s.nodes.size ∧ Value.node n ∉ s.reachable inUse
  | _, n => gone n

/-- The stores that come about from a store without nodes by orderly events, with the nodes that are gone.
An event that fails is none of them. -/
inductive Grown : Store → (NodeId → Prop) → Prop
  | start {s : Store} : s.nodes = #[] → Grown s fun _ => False
  | step {s s' : Store} {gone : NodeId → Prop} {e : Event} {v : Value} : Grown s gone →
      Orderly s gone e → e.perform s = .ok v s' → Grown s' (goneAfter s gone e)

/-! ## One event -/

variable {s : Store} {gone : NodeId → Prop}

theorem wellKept_start (h : s.nodes = #[]) : s.WellKept fun _ => False := by
  have hsize : s.nodes.size = 0 := by rw [h]; rfl
  have hnone {n : NodeId} (hn : s.Living (fun _ => False) n) : False :=
    Nat.not_lt_zero n (hsize ▸ hn.1)
  refine ⟨⟨fun _ hn => hn.1, ?_, ?_, ?_, ?_, ?_⟩, fun n => ?_, fun _ hn => hn.elim⟩
  · exact fun _ _ hp => (hnone hp).elim
  · exact fun _ _ _ _ _ hp => (hnone hp).elim
  · exact fun _ _ hp => (hnone hp).elim
  · exact fun _ hn => (hnone hn).elim
  · exact fun _ _ hn => (hnone hn).elim
  · rw [node_of_size_le s (by rw [hsize]; exact Nat.zero_le n)]
    exact ⟨⟨_, rfl⟩, fun p hp => by cases hp⟩

theorem living_collect {inUse : List Value} {n : NodeId} :
    (s.collect inUse).Living (goneAfter s gone (collect inUse)) n ↔
      s.Living gone n ∧ Value.node n ∈ s.reachable inUse := by
  rw [Living, size_collect, Living]
  constructor
  · rintro ⟨hlt, hnot⟩
    obtain ⟨hgone, hunused⟩ := not_or.mp hnot
    refine ⟨⟨hlt, hgone⟩, ?_⟩
    by_contra hmem
    exact hunused ⟨hlt, hmem⟩
  · rintro ⟨⟨hlt, hgone⟩, hmem⟩
    refine ⟨hlt, ?_⟩
    rintro (h | ⟨-, hunused⟩)
    · exact hgone h
    · exact hunused hmem

theorem holds_collect {inUse : List Value} {p c : NodeId} :
    (s.collect inUse).Holds p c ↔ s.Holds p c := by
  rw [Holds, children_collect, Holds]

/-- **What is in use stays a forest when the rest is let go.** Children of what is in use are in use; so a
    node loses its parent only if it is in no list that counts. -/
theorem wellKept_collect (h : s.WellKept gone) (inUse : List Value) :
    (s.collect inUse).WellKept (goneAfter s gone (collect inUse)) := by
  refine ⟨?_, fun n => ?_, fun n hn => ?_⟩
  · refine h.forest.shrink (fun n hn => (living_collect.mp hn).1) (Nat.le_of_eq (size_collect s inUse).symm)
      (fun p _ => ?_) (fun p c hp hc => ?_) (fun p c hp hc => ?_) fun n p hn hp => ?_
    · rw [children_collect]
    · obtain ⟨hp, hmem⟩ := living_collect.mp hp
      have hc := holds_collect.mp hc
      exact living_collect.mpr ⟨h.forest.alive_of_holds hp hc, child_reachable hmem hc⟩
    · -- the parent of a child that counts is in use itself
      obtain ⟨hp, hmem⟩ := living_collect.mp hp
      have hparent := h.forest.parent p c hp (holds_collect.mp hc)
      rw [node_collect, hparent]
      exact parent_cutParent.mpr ⟨hparent, hmem⟩
    · -- a parent that is left is in use, or else the link would have been cut
      obtain ⟨hn, -⟩ := living_collect.mp hn
      rw [node_collect] at hp
      obtain ⟨hparent, hmem⟩ := parent_cutParent.mp hp
      exact living_collect.mpr ⟨h.forest.above n p hn hparent, hmem⟩
  · rw [node_collect]
    exact proper_cutParent _ (h.proper n)
  · rw [size_collect]
    rcases hn with hgone | ⟨hlt, -⟩
    · exact h.made n hgone
    · exact hlt

/-- What leaves the lists alone or takes children away keeps the store well. -/
theorem wellKept_of_trimmed (h : s.WellKept gone) {run : Run Value} (hrun : Run.Preserves s.Trimmed run) :
    Run.Ends run s (fun _ s' => s'.WellKept gone) fun _ _ => True :=
  (hrun s (.refl s)).mono (fun _ _ ht => ht.wellKept h) fun _ _ _ => trivial

/-- **What is done to nodes keeps the store well.** -/
theorem wellKept_onNodes (h : s.WellKept gone) {a : Action} (ha : OnNodes s gone a) :
    Run.Ends a.perform s (fun _ s' => s'.WellKept gone) fun _ _ => True := by
  have hunit {run : Run Unit} (hrun : Run.Preserves s.Trimmed run) : Run.Preserves s.Trimmed (unit run) :=
    hrun.bind fun _ => .pure _
  cases ha with
  -- what puts nodes into lists
  | push p c hp hc hdown =>
      refine Run.ends_map.mpr ((Run.ends_of_ok (push_node s p c)).mpr ?_)
      exact h.append hp hc hdown
  | unshift p c hp hc hdown =>
      refine Run.ends_map.mpr ((Run.ends_of_ok (unshift_node s p c)).mpr ?_)
      exact h.prepend hp hc hdown
  | clone n hn hvalues =>
      obtain ⟨c, s', hclone, -, h', -⟩ := clone_ok h hn hvalues
      exact Run.ends_map.mpr ((Run.ends_of_ok hclone).mpr h')
  -- what takes children away, or leaves the lists alone
  | pop n => exact wellKept_of_trimmed h (trimmed_pop n)
  | shift n => exact wellKept_of_trimmed h (trimmed_shift n)
  | remove n child => exact wellKept_of_trimmed h (trimmed_remove n child)
  | setAttributes n mapping named =>
      exact wellKept_of_trimmed h (hunit (trimmed_setAttributes n mapping named))
  | assignIndex n i => exact wellKept_of_trimmed h (hunit (.update fun _ ht => ht.setHint n i))
  | read n name hname => exact wellKept_of_trimmed h (trimmed_property n hname)
  | getAttributes n name fallback => exact wellKept_of_trimmed h (.check _)
  | find n matcher => exact wellKept_of_trimmed h (.check _)
  | isType n matcher => exact wellKept_of_trimmed h (Run.Preserves.map (.check _))
  | hasType n matcher => exact wellKept_of_trimmed h (Run.Preserves.map (.check _))
  | isInside n matcher => exact wellKept_of_trimmed h (Run.Preserves.map (.check _))
  | isEmpty n => exact wellKept_of_trimmed h (Run.Preserves.map (.check _))
  | toMap n => exact wellKept_of_trimmed h ((Run.Preserves.check _).bind fun o => trimmed_writeOutline o)

/-- **Every orderly event keeps the store well.** -/
theorem wellKept_event (h : s.WellKept gone) {e : Event} (he : Orderly s gone e) :
    Run.Ends e.perform s (fun _ s' => s'.WellKept (goneAfter s gone e)) fun _ _ => True := by
  cases he with
  | create cls given hgiven hposition =>
      refine Run.ends_map.mpr (kept_create (growth_wellKept gone) h hgiven fun n t _ ht hcalled => ?_)
      rcases hposition with hnull | ⟨o, tracker, start, fields, hwrapped, hwrapper⟩
      · exact absurd hnull hcalled
      · rw [hwrapped, Run.Ends, ht.call_wrapper hwrapper n]
        exact wellKept_of_trimmed ht.kept (trimmed_stamp tracker start n)
  | createCalling cls given hgiven hmade hdone hcall =>
      refine Run.ends_map.mpr (kept_create (growth_wellKept gone) h hgiven fun n' t hmade' ht _ => ?_)
      cases hmade.symm.trans hmade'
      have hkept := wellKept_onNodes ht.kept hdone
      rw [Run.Ends] at hkept ⊢
      rw [hcall]
      exact hkept
  | onNodes ha => exact wellKept_onNodes h ha
  | search n predicate => exact wellKept_of_trimmed h (Run.Preserves.map (.check _))
  | make o => exact wellKept_of_trimmed h (trimmed_allocate o)
  | collect inUse => exact wellKept_collect h inUse

/-! ## A whole run -/

theorem grown_wellKept (h : Grown s gone) : s.WellKept gone := by
  induction h with
  | start hs => exact wellKept_start hs
  | step _ he hrun ih => exact (Run.ends_of_ok hrun).mp (wellKept_event ih he)

/-- **What grows from no nodes is a forest**: every living node is in one list at most, the parent of every
    child is the node whose list it is in, and nothing leads back to itself. If debug records can be
    written, the index of a child is its position. -/
theorem grown_forest (h : Grown s gone) :
    s.Forest (s.Living gone) ∧
      (s.Loggable → ∀ (p c : NodeId) (i : Nat), s.Living gone p → (s.children p)[i]? = some (.node c) →
        Run.outcome ((Action.read (.node c) "index").perform s) = .ok (.int i)) := by
  have hwell := grown_wellKept h
  refine ⟨hwell.forest, fun hloggable p c i hp hi => ?_⟩
  have hholds : s.Holds p c := List.mem_of_getElem? hi
  have hlist : s.siblingList c = s.children p := hwell.forest.siblingList_of_holds hp hholds
  have hnodup : (s.siblingList c).Nodup := by
    rw [hlist]
    exact hwell.forest.children_nodup hp
  have hindex : s.plainIndex c = .int i := by
    rw [plainIndex]
    exact scanned_of_getElem? s hnodup (by rw [hlist]; exact hi)
  obtain ⟨s', hread, -⟩ := readIndex_eq ⟨hwell.proper, hloggable⟩ hnodup
  rw [perform_read, readNode_index, hread, hindex]
  rfl

/-! ## A small forest -/

theorem Grown.next {e : Event} {v : Value} (h : Grown s fun _ => False)
    (he : Orderly s (fun _ => False) e) (hrun : Run.outcome (e.perform s) = .ok v)
    (hgone : goneAfter s (fun _ => False) e = fun _ => False) :
    Grown (Run.after (e.perform s)) fun _ => False := by
  cases hresult : e.perform s with
  | ok w s' =>
      have hstep := h.step he hresult
      rw [hgone] at hstep
      exact hstep
  | error f s' => rw [hresult] at hrun; cases hrun

/-- A scalar leads to no parents and to no children. -/
theorem sound_scalar {cls : NodeClass} {v : Value} (hv : ∀ o, v = .object o → o < s.objects.size)
    (hscalar : s.entries? v = none) : (⟨v, .null, .null, .null⟩ : Construction).Sound s gone cls where
  exist := hv
  parents w hw hnull := by
    rw [Construction.parents, hscalar] at hw
    exact absurd (List.mem_singleton.mp hw) hnull
  children fields hfields := by
    rw [hscalar] at hfields
    cases hfields

/-- Whether a node is free has to be asked of the nodes that there are. -/
theorem free_of_bounded {n : NodeId} (hn : n < s.nodes.size)
    (hunheld : ∀ p < s.nodes.size, ¬ s.Holds p n) : s.Free (fun _ => False) n :=
  ⟨⟨hn, id⟩, fun p hp => hunheld p hp.1⟩

theorem not_down_of_childless {p c : NodeId} (hc : s.children c = []) (hne : c ≠ p) :
    ¬ ReflTransGen s.Holds c p := by
  intro hdown
  rcases hdown.cases_head with heq | ⟨d, hd, -⟩
  · exact hne heq
  · rw [Holds, hc] at hd
    cases hd

/-- The store after a child with some value was added, and another child before it. -/
def afterUnshifted (v : Value) (s : Store) : Store := (performAll (unshifted v) s).2

theorem grown_unshifted : Grown (afterUnshifted .null .empty) fun _ => False := by
  have h₀ : Grown .empty fun _ => False := .start rfl
  have h₁ := h₀.next (.create .node .empty (sound_scalar (fun o ho => by cases ho) rfl) (Or.inl rfl)) rfl rfl
  have h₂ := h₁.next (.create .node .empty (sound_scalar (fun o ho => by cases ho) rfl) (Or.inl rfl)) rfl rfl
  have h₃ := h₂.next (.create .node .empty (sound_scalar (fun o ho => by cases ho) rfl) (Or.inl rfl)) rfl rfl
  have h₄ := h₃.next (.onNodes (.push 0 1 ⟨by decide, id⟩ (free_of_bounded (by decide) (by decide))
    (not_down_of_childless rfl (by decide)))) rfl rfl
  exact h₄.next (.onNodes (.unshift 0 2 ⟨by decide, id⟩ (free_of_bounded (by decide) (by decide))
    (not_down_of_childless rfl (by decide)))) rfl rfl

theorem forest_unshifted : Grown (afterUnshifted .null .empty) (fun _ => False) ∧
    (afterUnshifted .null .empty).Forest ((afterUnshifted .null .empty).Living fun _ => False) ∧
      Run.outcome ((Action.read (.node 1) "index").perform (afterUnshifted .null .empty)) =
        .ok (.int 1) := by
  obtain ⟨hforest, hindex⟩ := grown_forest grown_unshifted
  have hunread : (afterUnshifted .null .empty).Loggable := fun hread => by cases hread
  exact ⟨grown_unshifted, hforest, hindex hunread 0 1 1 ⟨by decide, id⟩ rfl⟩

/-- **Without debug records that can be written the index may be missing.** The value of the child is a
    tracker that is its own source; it holds no node. -/
theorem index_unshowable : Grown (afterUnshifted (.object 0) withTracker) (fun _ => False) ∧
    ((afterUnshifted (.object 0) withTracker).children 0)[1]? = some (.node 1) ∧
      Run.outcome ((Action.read (.node 1) "index").perform (afterUnshifted (.object 0) withTracker)) =
        .error .endless := by
  have h₀ : Grown withTracker fun _ => False := .start rfl
  have h₁ := h₀.next (.create .node .empty (sound_scalar (fun o ho => by cases ho) rfl) (Or.inl rfl)) rfl rfl
  have h₂ := h₁.next (.create .node ⟨.object 0, .null, .null, .null⟩
    (sound_scalar (fun o ho => by cases ho; decide) rfl) (Or.inl rfl)) rfl rfl
  have h₃ := h₂.next (.create .node .empty (sound_scalar (fun o ho => by cases ho) rfl) (Or.inl rfl)) rfl rfl
  have h₄ := h₃.next (.onNodes (.push 0 1 ⟨by decide, id⟩ (free_of_bounded (by decide) (by decide))
    (not_down_of_childless rfl (by decide)))) rfl rfl
  have h₅ := h₄.next (.onNodes (.unshift 0 2 ⟨by decide, id⟩ (free_of_bounded (by decide) (by decide))
    (not_down_of_childless rfl (by decide)))) rfl rfl
  exact ⟨h₅, rfl, rfl⟩

end Event

end SyntaxTree
