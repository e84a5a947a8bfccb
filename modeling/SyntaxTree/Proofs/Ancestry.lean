import SyntaxTree.Proofs.Attachment
import SyntaxTree.Proofs.WaysUp

/-!
# `Proofs.Ancestry` — ways up end

A search among the ancestors of a node follows parent links, and these say less than the lists: a child that
is taken out of a list keeps its parent. So a node in no list, below which nothing is, may still be an
ancestor of another one, and a node that gets its own descendant along parent links for a parent has a way
up without end, although no list leads back to itself (`pushed_below_own_child`).

`Lineage s v ns` says that the way up from `v` passes the nodes `ns` and ends there. A node that gets a new
parent leaves all ways up finite if that is not on the way (`Rooted.through`), and that is needed as well
(`not_lineage_of_ascends`). In the stores that come about so (`Risen`) a search among ancestors is the
search of a finite list (`isInside_ends`).
-/

namespace SyntaxTree

open Store Relation

namespace Store

variable {s s' : Store} {p c n : NodeId} {v : Value} {ns ms : List NodeId}

/-! ## Ways up -/

/-- The way up from a value passes some nodes and ends after the last of them. -/
inductive Lineage (s : Store) : Value → List NodeId → Prop
  | root : Lineage s .null []
  | up (n : NodeId) (ns : List NodeId) : Lineage s (s.parentValue n) ns → Lineage s (.node n) (n :: ns)

/-- The parent of `n` is the node `q`. -/
def Ascends (s : Store) (n q : NodeId) : Prop := (s.node n).parent = some (.node q)

theorem Lineage.cases_up (h : s.Lineage v ns) : v = .null ∧ ns = [] ∨
    ∃ n ms, v = .node n ∧ ns = n :: ms ∧ s.Lineage (s.parentValue n) ms := by
  cases h with
  | root => exact Or.inl ⟨rfl, rfl⟩
  | up n ms hms => exact Or.inr ⟨n, ms, rfl, rfl, hms⟩

/-- It is a way up through nodes alone. -/
theorem Lineage.wayUp (h : s.Lineage v ns) : s.WayUp v (ns.map .node) := by
  induction h with
  | root => exact .root
  | up n ns _ ih => exact .up rfl rfl ih

/-- There is one way up. -/
theorem Lineage.unique (h : s.Lineage v ns) (h' : s.Lineage v ms) : ns = ms :=
  List.map_injective_iff.mpr (fun _ _ => Value.node.inj) (h.wayUp.unique h'.wayUp)

/-- A way up that ends passes no node twice. -/
theorem Lineage.nodup (h : s.Lineage v ns) : ns.Nodup := h.wayUp.nodup.of_map _

/-- So a way up that ends is not longer than there are nodes, and one more. -/
theorem Lineage.length_le (h : s.Lineage v ns) : ns.length ≤ s.nodes.size + 1 := by
  have hsub : ns.dropLast ⊆ List.range s.nodes.size := by
    intro n hn
    have hmem : Value.node n ∈ (ns.map Value.node).dropLast := by
      rw [← List.map_dropLast]
      exact List.mem_map_of_mem hn
    simpa [places] using h.wayUp.dropLast_subset hmem
  have hlength := ((h.nodup.sublist ns.dropLast_sublist).subperm hsub).length_le
  rw [List.length_dropLast, List.length_range] at hlength
  omega

/-- **A way up passes exactly what parent links lead to.** -/
theorem Lineage.mem_iff (h : s.Lineage (.node p) ns) : n ∈ ns ↔ ReflTransGen s.Ascends p n := by
  constructor
  · intro hn
    generalize hv : Value.node p = v at h
    induction h generalizing p with
    | root => cases hn
    | up m ns hns ih =>
        cases hv
        rcases List.mem_cons.mp hn with rfl | hmem
        · exact .refl
        · rcases hns.cases_up with ⟨-, rfl⟩ | ⟨q, ms, hq, rfl, -⟩
          · cases hmem
          · exact .head (parentValue_eq_node.mp hq) (ih hmem hq.symm)
  · intro hway
    induction hway using ReflTransGen.head_induction_on generalizing ns with
    | refl =>
        cases h
        exact List.mem_cons_self ..
    | head hup _ ih =>
        cases h with
        | up _ ms hms =>
            rw [parentValue_eq_node.mpr hup] at hms
            exact List.mem_cons_of_mem _ (ih hms)

/-! ## New parents -/

/-- Every way up ends. -/
def Rooted (s : Store) : Prop := ∀ n, ∃ ns, s.Lineage (s.parentValue n) ns

theorem Rooted.lineage (h : s.Rooted) (n : NodeId) : ∃ ns, s.Lineage (.node n) (n :: ns) := by
  obtain ⟨ns, hns⟩ := h n
  exact ⟨ns, .up n ns hns⟩

/-- A way up stays as long as no node on it gets another parent. -/
theorem Lineage.congr (h : s.Lineage v ns) (hsame : ∀ n ∈ ns, s'.parentValue n = s.parentValue n) :
    s'.Lineage v ns := by
  induction h with
  | root => exact .root
  | up n ns _ ih =>
      refine .up n ns ?_
      rw [hsame n (List.mem_cons_self ..)]
      exact ih fun m hm => hsame m (List.mem_cons_of_mem _ hm)

/-- A node that has another parent goes on where the way up from that one goes. -/
theorem Lineage.through (h : s.Lineage v ns)
    (hparents : ∀ n, s'.parentValue n = s.parentValue n ∨ ∃ ms, s'.Lineage (s'.parentValue n) ms) :
    ∃ ms, s'.Lineage v ms := by
  induction h with
  | root => exact ⟨[], .root⟩
  | up n ns _ ih =>
      rcases hparents n with hsame | ⟨ms, hms⟩
      · obtain ⟨ms, hms⟩ := ih
        exact ⟨n :: ms, .up n ms (hsame ▸ hms)⟩
      · exact ⟨n :: ms, .up n ms hms⟩

/-- **If the ways up from all new parents end, every way up ends.** -/
theorem Rooted.through (h : s.Rooted)
    (hparents : ∀ n, s'.parentValue n = s.parentValue n ∨ ∃ ms, s'.Lineage (s'.parentValue n) ms) :
    s'.Rooted := by
  intro n
  rcases hparents n with hsame | hms
  · obtain ⟨ns, hns⟩ := h n
    rw [hsame]
    exact hns.through hparents
  · exact hms

theorem Rooted.of_trimmed (h : s.Rooted) (ht : s.Trimmed s') : s'.Rooted :=
  h.through fun n => Or.inl (by rw [parentValue, ht.parent n, parentValue])

theorem Rooted.of_nodes (h : s.Rooted) (hnodes : s'.nodes = s.nodes) : s'.Rooted :=
  h.of_trimmed (.of_nodes hnodes)

/-- What was collected is a root from then on. -/
theorem Rooted.collect (h : s.Rooted) (inUse : List Value) : (s.collect inUse).Rooted := by
  refine h.through fun n => ?_
  rw [parentValue, node_collect]
  rcases cutParent_parent_or (s.reachable inUse) (s.node n) with hsame | hcut
  · rw [hsame]
    exact Or.inl rfl
  · rw [hcut]
    exact Or.inr ⟨[], .root⟩

/-- **A node that is put under `p` and is not on the way up from `p` leaves all ways finite.** -/
theorem Rooted.attach (h : s.Rooted) (ha : s.Attached s' p c) (hnot : ¬ ReflTransGen s.Ascends p c) :
    s'.Rooted := by
  obtain ⟨ns, hns⟩ := h.lineage p
  have hsame {n : NodeId} (hn : n ≠ c) : s'.parentValue n = s.parentValue n := by
    rw [parentValue, ha.parents n hn, parentValue]
  have hkept : s'.Lineage (.node p) (p :: ns) := by
    refine hns.congr fun n hn => hsame fun heq => ?_
    exact hnot (hns.mem_iff.mp (heq ▸ hn))
  refine h.through fun n => ?_
  by_cases hn : n = c
  · subst hn
    rw [parentValue_eq_node.mpr ha.parent]
    exact Or.inr ⟨_, hkept⟩
  · exact Or.inl (hsame hn)

/-- **The condition is needed**: a node that is put under `p` and is on the way up from `p` has a way up
without end from then on. -/
theorem not_lineage_of_ascends (ha : s.Attached s' p c) (hway : ReflTransGen s.Ascends p c) :
    ¬ ∃ ns, s'.Lineage (s'.parentValue c) ns := by
  -- the way from `p` to its first `c` is as it was
  have hback {n : NodeId} (hn : ReflTransGen s.Ascends n c) : ReflTransGen s'.Ascends n c := by
    induction hn using ReflTransGen.head_induction_on with
    | refl => exact .refl
    | @head n q hup _ ih =>
        by_cases hn : n = c
        · exact hn ▸ .refl
        · exact .head ((ha.parents n hn).trans hup) ih
  rintro ⟨ns, hns⟩
  rw [parentValue_eq_node.mpr ha.parent] at hns
  have hcycle : s'.Lineage (.node c) (c :: ns) := .up c ns (parentValue_eq_node.mpr ha.parent ▸ hns)
  exact (List.nodup_cons.mp hcycle.nodup).1 (hns.mem_iff.mpr (hback hway))

/-! ## Nodes that are made -/

/-- A node that is made without a parent is a root, and the parent of its children. -/
theorem Rooted.created {cls : NodeClass} {given : Construction} {vs : List Value} (h : s.Rooted)
    (hexist : ∀ o, given.value = .object o → o < s.objects.size)
    (hparents : ∀ v ∈ given.parents s cls, v = .null) (hchildren : given.children s cls = .ok vs)
    (hvs : ∀ c, .node c ∈ vs → c < s.nodes.size) :
    Run.Ends (createUnplaced cls given) s (fun n u => n = s.nodes.size ∧ u.Rooted) fun _ _ => True := by
  have hnone : ∀ v ∈ given.parents s cls, v ≠ .null → ∃ q, v = .node q ∧ s.Living (fun _ => True) q :=
    fun v hv hnull => absurd (hparents v hv) hnull
  refine (createUnplaced_adds hexist hnone hchildren).mono ?_ fun _ _ _ => trivial
  rintro n u ⟨rfl, t, ht, hu⟩
  refine ⟨rfl, ?_⟩
  have hliving {q : NodeId} : ¬ s.Living (fun _ => True) q := fun hq => hq.2 trivial
  rcases hu with rfl | ⟨q, hq, -⟩
  · have hparent : (t.node s.nodes.size).parent = none := by
      cases hsome : (t.node s.nodes.size).parent with
      | none => rfl
      | some v =>
          obtain ⟨q, -, hq⟩ := ht.parent v hsome
          exact absurd hq hliving
    have hadded := added_appendAll (p := s.nodes.size) ht.lt_size fun c hc => Nat.lt_of_lt_of_le (hvs c hc) ht.size
    have hroot : (t.appendAll s.nodes.size vs).Lineage (.node s.nodes.size) [s.nodes.size] := by
      refine .up _ [] ?_
      rw [parentValue, hadded.parents _ ht.lt_size fun hmem => Nat.lt_irrefl _ (hvs _ hmem), hparent]
      exact .root
    refine h.through fun n => ?_
    by_cases hmem : Value.node n ∈ vs
    · rw [parentValue_eq_node.mpr (hadded.parent n hmem)]
      exact Or.inr ⟨_, hroot⟩
    · rcases Nat.lt_trichotomy n s.nodes.size with hlt | rfl | hgt
      · refine Or.inl ?_
        rw [parentValue, (ht.toFilling.added_appendAll hvs).parents n hlt hmem, parentValue]
      · refine Or.inr ⟨[], ?_⟩
        cases hroot with
        | up _ _ hnone => exact hnone
      · refine Or.inl ?_
        rw [parentValue_of_size_le s (Nat.le_of_lt hgt), parentValue_of_size_le]
        rw [size_appendAll, ht.one]
        exact hgt
  · exact absurd hq hliving

/-! ## Searching among ancestors -/

/-- The climb is a search of the nodes on the way, if it may go as far as they reach. -/
theorem Lineage.someAncestor (h : s.Lineage v ns) (m : Matcher) {fuel : Nat} (hfuel : ns.length < fuel) :
    s.someAncestor m fuel v = (do
      let found ← s.findFirst m (ns.map .node)
      .ok found.isSome) :=
  h.wayUp.someAncestor m (by rwa [List.length_map])

end Store

namespace Event

variable {s s' : Store}

/-- What is done to nodes so that all ways up stay finite. A node that is put into a list is not on the way
up from its new parent. -/
inductive Climbing (s : Store) : Action → Prop
  | push (p c : NodeId) : p < s.nodes.size → c < s.nodes.size → ¬ ReflTransGen s.Ascends p c →
      Climbing s (.push (.node p) (.node c))
  | unshift (p c : NodeId) : p < s.nodes.size → c < s.nodes.size → ¬ ReflTransGen s.Ascends p c →
      Climbing s (.unshift (.node p) (.node c))
  | pop (n : NodeId) : Climbing s (.pop (.node n))
  | shift (n : NodeId) : Climbing s (.shift (.node n))
  | remove (n : NodeId) (child : Value) : Climbing s (.remove (.node n) child)

/-- The events of the runs. A node is made without a parent, from whatever children; its position may be a
wrapper, or anything that does to the node what is done to nodes, such as adding it to a list. -/
inductive Rising (s : Store) : Event → Prop
  | create (cls : NodeClass) (given : Construction) (vs : List Value) :
      (∀ o, given.value = .object o → o < s.objects.size) → (∀ v ∈ given.parents s cls, v = .null) →
      given.children s cls = .ok vs → (∀ c, .node c ∈ vs → c < s.nodes.size) →
      (Action.Placed s given.position ∨ ∃ n u a, createUnplaced cls given s = .ok n u ∧ Climbing u a ∧
        call given.position [.node n] [] u = a.perform u) →
      Rising s (act (.create cls given))
  | onNodes {a : Action} : Climbing s a → Rising s (act a)
  | make (o : Object) : Rising s (make o)
  | collect (inUse : List Value) : Rising s (collect inUse)

/-- The stores that come about so from a store without nodes. An event that fails is none of them. -/
inductive Risen : Store → Prop
  | start {s : Store} : s.nodes = #[] → Risen s
  | step {s s' : Store} {e : Event} {v : Value} : Risen s → Rising s e → e.perform s = .ok v s' → Risen s'

theorem rooted_climbing (h : s.Rooted) {a : Action} (ha : Climbing s a) :
    Run.Ends a.perform s (fun _ t => t.Rooted) fun _ _ => True := by
  have htrimmed {run : Run Value} (hrun : Run.Preserves s.Trimmed run) :
      Run.Ends run s (fun _ t => t.Rooted) fun _ _ => True :=
    (hrun s (.refl s)).mono (fun _ _ ht => h.of_trimmed ht) fun _ _ _ => trivial
  cases ha with
  | push p c hp hc hnot =>
      refine Run.ends_map.mpr ((Run.ends_of_ok (push_node s p c)).mpr ?_)
      exact h.attach (attached_append hp hc) hnot
  | unshift p c hp hc hnot =>
      refine Run.ends_map.mpr ((Run.ends_of_ok (unshift_node s p c)).mpr ?_)
      exact h.attach (attached_prepend hp hc) hnot
  | pop n => exact htrimmed (trimmed_pop n)
  | shift n => exact htrimmed (trimmed_shift n)
  | remove n child => exact htrimmed (trimmed_remove n child)

/-- **Every event of the runs leaves all ways up finite.** -/
theorem rooted_event (h : s.Rooted) {e : Event} (he : Rising s e) :
    Run.Ends e.perform s (fun _ t => t.Rooted) fun _ _ => True := by
  cases he with
  | create cls given vs hexist hparents hchildren hvs hposition =>
      have hcreated := h.created hexist hparents hchildren hvs
      refine Run.ends_map.mpr ?_
      cases hmade : createUnplaced cls given s with
      | error e t =>
          rw [Store.create, Run.ends_bind, Run.ends_of_error hmade]
          trivial
      | ok n u =>
          obtain ⟨-, hu⟩ := (Run.ends_of_ok hmade).mp hcreated
          rcases hposition with hplaced | ⟨n', u', a, hmade', ha, hcall⟩
          · have hnone : ∀ v ∈ given.parents s cls, v ≠ .null →
                ∃ q, v = .node q ∧ s.Living (fun _ => True) q :=
              fun v hv hnull => absurd (hparents v hv) hnull
            have hplaced' := (Run.ends_of_ok hmade).mp
              (Action.placed_createUnplaced hexist hnone hchildren hplaced)
            refine (Action.create_nodes hplaced' hmade).mono (fun _ t ht => ?_) fun _ _ _ => trivial
            exact hu.of_nodes ht.2
          · cases hmade.symm.trans hmade'
            rw [Store.create, Run.ends_bind, Run.ends_of_ok hmade]
            refine Run.ends_ite.mpr ⟨fun _ => ?_, fun _ => hu⟩
            have hdone := rooted_climbing hu ha
            rw [Run.ends_bind, Run.Ends, hcall]
            exact hdone
  | onNodes ha => exact rooted_climbing h ha
  | make o => exact h.of_nodes rfl
  | collect inUse => exact h.collect inUse

theorem risen_rooted (h : Risen s) : s.Rooted := by
  induction h with
  | @start s hs =>
      intro n
      have hsize : s.nodes.size ≤ n := by rw [hs]; exact Nat.zero_le n
      rw [parentValue_of_size_le _ hsize]
      exact ⟨[], .root⟩
  | step _ he hrun ih => exact (Run.ends_of_ok hrun).mp (rooted_event ih he)

/-- **A search among the ancestors ends**: it is the search of a finite list, in which the first one decides
whose type is accepted, or at which the question fails. -/
theorem isInside_ends (h : Risen s) (n : NodeId) :
    ∃ ns : List NodeId, s.Lineage (s.parentValue n) ns ∧ ∀ matcher,
      s.isInside n matcher = (do
        let m ← s.compile matcher
        let found ← s.findFirst m (ns.map .node)
        .ok found.isSome) := by
  obtain ⟨ns, hns⟩ := risen_rooted h n
  refine ⟨ns, hns, fun matcher => ?_⟩
  rw [isInside]
  refine congrArg (s.compile matcher >>= ·) (funext fun m => ?_)
  have hlength := hns.length_le
  exact hns.someAncestor m (by omega)

/-! ## A child above its parent -/

theorem Risen.next {e : Event} {v : Value} (h : Risen s) (he : Rising s e)
    (hrun : Run.outcome (e.perform s) = .ok v) : Risen (Run.after (e.perform s)) := by
  cases hresult : e.perform s with
  | ok w s' => exact h.step he hresult
  | error f s' => rw [hresult] at hrun; cases hrun

theorem not_ascends_of_root {p c : NodeId} (hp : (s.node p).parent = none) (hne : p ≠ c) :
    ¬ ReflTransGen s.Ascends p c := by
  intro hway
  rcases hway.cases_head with heq | ⟨q, hq, -⟩
  · exact hne heq
  · rw [Ascends, hp] at hq
    cases hq

/-- A node, and another one that was its only child. -/
def withPopped : Store :=
  (Action.performAll [.create .node .empty, .create .node .empty, .push (.node 0) (.node 1),
    .pop (.node 0)] .empty).2

theorem risen_withPopped : Risen withPopped := by
  have hcreate {s : Store} : Rising s (act (.create .node .empty)) :=
    .create .node .empty [] (fun o ho => by cases ho) (fun v hv => List.mem_singleton.mp hv) rfl
      (fun c hc => by cases hc) (Or.inl (Or.inl rfl))
  have h₀ : Risen .empty := .start rfl
  have h₁ := h₀.next hcreate rfl
  have h₂ := h₁.next hcreate rfl
  have h₃ := h₂.next (.onNodes (.push 0 1 (by decide) (by decide) (not_ascends_of_root rfl (by decide)))) rfl
  exact h₃.next (.onNodes (.pop 0)) rfl

/-- The child that was taken away is inside of the node still. -/
theorem isInside_withPopped :
    Risen withPopped ∧ withPopped.Lineage (withPopped.parentValue 1) [0] ∧
      withPopped.isInside 1 (.text "name") = .ok false := by
  obtain ⟨ns, hns, hsearch⟩ := isInside_ends risen_withPopped 1
  have hzero : withPopped.Lineage (withPopped.parentValue 1) [0] := .up 0 [] .root
  refine ⟨risen_withPopped, hzero, ?_⟩
  rw [hsearch, hns.unique hzero]
  rfl

/-- **Lists do not tell who is above.** The node is in no list and leads to no other; yet when it is put
under what was its child, a search among the ancestors has no end. -/
theorem pushed_below_own_child :
    Risen withPopped ∧ (∀ q, ¬ withPopped.Holds q 0) ∧ ¬ ReflTransGen withPopped.Holds 0 1 ∧
      Run.outcome ((Action.push (.node 1) (.node 0)).perform withPopped) = .ok (.int 1) ∧
      (Run.after ((Action.push (.node 1) (.node 0)).perform withPopped)).isInside 0 (.text "name") =
        .error .endless := by
  refine ⟨risen_withPopped, fun q hq => ?_, fun hdown => ?_, rfl, rfl⟩
  · match q with
    | 0 => cases hq
    | 1 => cases hq
    | q + 2 =>
        rw [Holds, children, node_of_size_le withPopped (Nat.le_add_left 2 q)] at hq
        cases hq
  · rcases hdown.cases_head with heq | ⟨d, hd, -⟩
    · cases heq
    · cases hd

end Event
end SyntaxTree
