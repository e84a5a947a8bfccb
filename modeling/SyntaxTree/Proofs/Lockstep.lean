import SyntaxTree.Proofs.Twins

/-!
# `Proofs.Lockstep` — operations on twins

Each operation is run on both of two twins and ends alike, in twins again (`Run.Agree Twins`). Where the
children or the parent that an operation is given have to be nodes, that is known of the store before the
operation. `Settled` carries it along: as long as only lists and maps are made and changed, nothing that
passes for a node comes or goes.
-/

namespace SyntaxTree
namespace Store

variable {s₀ s t : Store}

/-! ## What passes for a node -/

/-- What is neither made nor changed when nodes are made: objects with fields that can be set at will. -/
def isKept : Object → Bool
  | .foreign .. | .wrapper .. => true
  | _ => false

/-- The objects that are kept are those of `s₀`. -/
def Settled (s₀ s : Store) : Prop :=
  ∀ o, isKept (s₀.object o) ∨ isKept (s.object o) → s.object o = s₀.object o

theorem Settled.refl (s : Store) : s.Settled s := fun _ _ => rfl

/-- Only what is kept can have the marker of nodes. -/
theorem marker?_of_not_isKept {o : ObjectId} (h : ¬ isKept (s.object o)) : s.marker? o = none := by
  unfold marker?
  cases hx : s.object o with
  | foreign cls marker fields => rw [hx] at h; exact absurd rfl h
  | wrapper tracker start fields => rw [hx] at h; exact absurd rfl h
  | _ => rfl

/-- The marker of an object is one of its fields, or comes with its class. -/
theorem Settled.isNode (h : s₀.Settled s) (v : Value) : s.isNode v = s₀.isNode v := by
  cases v with
  | object o =>
      by_cases hkept : isKept (s₀.object o) ∨ isKept (s.object o)
      · rw [Store.isNode, Store.isNode, marker?, marker?, h o hkept]
      · rw [Store.isNode, Store.isNode, marker?_of_not_isKept fun hs => hkept (Or.inr hs),
          marker?_of_not_isKept fun hs => hkept (Or.inl hs)]
  | _ => rfl

theorem Settled.nodesOnly (h : s₀.Settled s) (hnodes : s₀.NodesOnly) : s.NodesOnly :=
  fun v hv => hnodes v (h.isNode v ▸ hv)

theorem Settled.addObject (h : s₀.Settled s) {x : Object} (hx : isKept x = false) :
    s₀.Settled (s.addObject x) := by
  intro o ho
  rcases Nat.lt_trichotomy o s.objects.size with hlt | rfl | hgt
  · rw [object_addObject_of_lt s x hlt] at ho ⊢
    exact h o ho
  · -- the place was free before, so it held nothing that is kept
    rw [object_addObject_self, hx] at ho
    rcases ho with ho | ho
    · rw [← h _ (Or.inl ho), object_of_size_le s (Nat.le_refl _)] at ho
      cases ho
    · cases ho
  · have hout : (s.addObject x).objects.size ≤ o := by
      rw [size_addObject]
      exact hgt
    rw [object_of_size_le _ hout, ← object_of_size_le s (Nat.le_of_lt hgt)] at ho ⊢
    exact h o ho

theorem Settled.updateObject (h : s₀.Settled s) {o : ObjectId} {x : Object}
    (ho : isKept (s.object o) = false) (hx : isKept x = false) :
    s₀.Settled (s.updateObject o fun _ => x) := by
  intro p hp
  rw [object_updateObject] at hp ⊢
  split at hp
  · next hpo =>
      -- neither what was there nor what is put there is kept
      obtain ⟨rfl, -⟩ := hpo
      rcases hp with hp | hp
      · rw [h p (Or.inl hp), hp] at ho
        cases ho
      · rw [hx] at hp
        cases hp
  · next hpo =>
      rw [if_neg hpo]
      exact h p hp

/-- Twins in which nothing that passes for a node has come or gone since `s₀`. -/
def Close (s₀ s t : Store) : Prop := Twins s t ∧ s₀.Settled s

theorem congruence_close : Congruence (Close s₀) where
  resembles h := h.1.resembles
  left h := h.1.left
  right h := h.1.right
  reread h hs ht := by
    refine ⟨h.1.reread hs ht, fun o ho => ?_⟩
    rw [hs.resembles.object_eq] at ho ⊢
    exact h.2 o ho
  setParent h c p := ⟨Twins.congruence.setParent h.1 c p, h.2⟩
  setNodes h n l := ⟨Twins.congruence.setNodes h.1 n l, h.2⟩

open Run

theorem agree_of_close {α : Type} {run : Run α} (h : Agree (Close s₀) run s t) : Agree Twins run s t :=
  h.mono fun _ _ hrel => hrel.1

/-! ## Making nodes -/

theorem agree_allocate (h : Twins s t) (x : Object) : Agree Twins (allocate x) s t :=
  h.resembles.agree_allocate (h.addObject x)

theorem agree_allocate_settled (h : Close s₀ s t) {x : Object} (hx : isKept x = false) :
    Agree (Close s₀) (allocate x) s t :=
  h.1.resembles.agree_allocate ⟨h.1.addObject x, h.2.addObject hx⟩

theorem agree_allocateNode (h : Twins s t) {r : NodeRecord} (hr : r.Proper) :
    Agree Twins (allocateNode r) s t := by
  have hleft : allocateNode r s = .ok t.nodes.size (s.addNode r) := by
    rw [← h.size_eq]
    rfl
  exact .of_ok hleft rfl (h.addNode hr)

/-- Putting an item fails alike in both stores, or changes the same object in the same way. -/
theorem putItem_cases (h : Close s₀ s t) (v : Value) (key : Key) (item : Value) :
    (∃ e, s.putItem v key item = .error e ∧ t.putItem v key item = .error e) ∨
      ∃ s' t', s.putItem v key item = .ok s' ∧ t.putItem v key item = .ok t' ∧ Close s₀ s' t' := by
  have hrefuse (w : Value) : (.error (.noItemAssignment (s.qualifiedKindName w)) : Except Fault Store) =
      .error (.noItemAssignment (t.qualifiedKindName w)) := by
    rw [h.1.resembles.qualifiedKindName_eq w]
  cases v with
  | object o =>
      have hobject : t.object o = s.object o := by
        rw [object, object, h.1.objects_eq]
      unfold putItem
      dsimp only
      rw [hobject]
      cases hx : s.object o with
      | map es =>
          dsimp only
          rw [h.1.resembles.akin.keyAs_eq]
          exact Or.inr ⟨_, _, rfl, rfl, h.1.updateObject o _, h.2.updateObject (by rw [hx]; rfl) rfl⟩
      | collection shape items =>
          cases shape with
          | list =>
              have hplace : t.placeOf "list" items.length .placeOutOfRange key.value =
                  s.placeOf "list" items.length .placeOutOfRange key.value :=
                (h.1.resembles.placeOf_eq _ _ _ _).symm
              dsimp only
              rw [hplace]
              cases s.placeOf "list" items.length .placeOutOfRange key.value with
              | ok i =>
                  exact Or.inr ⟨_, _, rfl, rfl, h.1.updateObject o _,
                    h.2.updateObject (by rw [hx]; rfl) rfl⟩
              | error e => exact Or.inl ⟨e, rfl, rfl⟩
          | _ => exact Or.inl ⟨_, hrefuse _, rfl⟩
      | _ => exact Or.inl ⟨_, hrefuse _, rfl⟩
  | _ => exact Or.inl ⟨_, hrefuse _, rfl⟩

theorem agree_assignExtra (h : Close s₀ s t) (n : NodeId) (key : Key) (v : Value) :
    Agree (Close s₀) (assignExtra n key v) s t := by
  have hcases := putItem_cases h (s.node n).attr key v
  have hattr : t.setExtra n key v = t.putItem (s.node n).attr key v := by
    rw [setExtra, h.1.resembles.attr n]
  rcases hcases with ⟨e, hs, ht⟩ | ⟨s', t', hs, ht, hrel⟩
  · exact .of_error (bind_of_error (check_of_error hs))
      (bind_of_error (check_of_error (hattr.trans ht))) h
  · exact .of_ok (bind_of_ok (check_of_ok hs)) (bind_of_ok (check_of_ok (hattr.trans ht))) hrel

theorem agree_assignParent (hnodes : s₀.NodesOnly) (h : Close s₀ s t) (n : NodeId) (v : Value) :
    Agree (Close s₀) (assignParent n v) s t := by
  unfold assignParent
  refine Agree.ite (fun _ => ?_) fun _ => ?_
  · exact .update ⟨h.1.setParent n (fun p hp => by cases hp), h.2⟩
  · refine Agree.check_bind (h.1.resembles.requireNode_eq "parent" v) h fun _ hcheck => ?_
    obtain ⟨c, rfl⟩ := node_of_requireNode (h.2.nodesOnly hnodes) hcheck
    exact .update ⟨h.1.setParent n (fun p hp => ⟨c, by cases hp; rfl⟩), h.2⟩

theorem agree_mergeField (hnodes : s₀.NodesOnly) (h : Close s₀ s t) (n : NodeId) (children : Value)
    (key : Key) (v : Value) : Agree (Close s₀) (mergeField n children key v) s t := by
  have hanswer (s' t' : Store) (h' : Close s₀ s' t') : Agree (Close s₀) (pure children) s' t' :=
    .pure children h'
  unfold mergeField
  refine Agree.get_bind (by rw [h.1.resembles.cls n]) ?_
  refine Agree.ite (fun _ => ?_) fun _ => ?_
  · exact Agree.bind (.update ⟨h.1.note _, h.2⟩) fun _ => hanswer
  split
  · exact Agree.bind (.update ⟨h.1.updateNode n (fun _ => rfl) fun _ hr => ⟨hr.hint_int, hr.parent_node⟩,
      h.2⟩) fun _ => hanswer
  · exact Agree.bind (.update ⟨h.1.updateNode n (fun _ => rfl) fun _ hr => ⟨hr.hint_int, hr.parent_node⟩,
      h.2⟩) fun _ => hanswer
  · exact Agree.bind (.update ⟨h.1.updateNode n (fun _ => rfl) fun _ hr => ⟨hr.hint_int, hr.parent_node⟩,
      h.2⟩) fun _ => hanswer
  · exact .pure v h
  · exact .pure v h
  · refine Agree.ite (fun _ => ?_) fun _ => hanswer s t h
    exact Agree.bind (agree_assignParent hnodes h n v) fun _ => hanswer
  · exact Agree.bind (agree_assignExtra h n _ v) fun _ => hanswer

theorem agree_mergeEach (hnodes : s₀.NodesOnly) (h : Close s₀ s t) (n : NodeId) (children : Value)
    (fields : Entries Value) : Agree (Close s₀) (mergeEach n children fields) s t := by
  induction fields generalizing s t children with
  | nil => exact .pure children h
  | cons e fields ih =>
      exact Agree.bind (agree_mergeField hnodes h n children e.1 e.2) fun children' s' t' h' =>
        ih h' children'

theorem agree_push (hnodes : s₀.NodesOnly) (h : Close s₀ s t) (n : NodeId) (child : Value) :
    Agree (Close s₀) (push n child) s t :=
  congruence_close.push h (h.2.nodesOnly hnodes) n child

theorem agree_unshift (hnodes : s₀.NodesOnly) (h : Close s₀ s t) (n : NodeId) (child : Value) :
    Agree (Close s₀) (unshift n child) s t :=
  congruence_close.unshift h (h.2.nodesOnly hnodes) n child

theorem agree_pushAll (hnodes : s₀.NodesOnly) (h : Close s₀ s t) (n : NodeId) (vs : List Value) :
    Agree (Close s₀) (pushAll n vs) s t := by
  induction vs generalizing s t with
  | nil => exact .pure () h
  | cons v vs ih => exact Agree.bind (agree_push hnodes h n v) fun _ s' t' h' => ih h'

theorem agree_mergeFields (hnodes : s₀.NodesOnly) (h : Close s₀ s t) (n : NodeId)
    (fields : Entries Value) : Agree (Close s₀) (mergeFields n fields) s t := by
  unfold mergeFields
  refine Agree.bind (agree_mergeEach hnodes h n .null fields) fun children s' t' h' => ?_
  refine Agree.ite (fun _ => ?_) fun _ => .pure () h'
  have hitems : s'.items children = t'.items children :=
    h'.1.resembles.items_eq children
  refine Agree.check_bind hitems h' fun vs _ => ?_
  exact Agree.check_bind (h'.1.resembles.requireNodes_eq "nodes" vs) h' fun _ _ => agree_pushAll hnodes h' n vs

theorem agree_blank (h : Close s₀ s t) (cls : NodeClass) : Agree (Close s₀) (blank cls) s t := by
  refine Agree.bind (agree_allocate_settled h rfl) fun attr s' t' h' => ?_
  have hproper : (NodeRecord.blank cls attr).Proper := ⟨⟨_, rfl⟩, fun p hp => by cases hp⟩
  exact ⟨(agree_allocateNode h'.1 hproper).1, h'.1.addNode hproper, h'.2⟩

theorem agree_fill (hnodes : s₀.NodesOnly) (h : Close s₀ s t) (n : NodeId) (given : Construction) :
    Agree (Close s₀) (fill n given) s t := by
  have hentries : t.entries? given.value = s.entries? given.value :=
    (h.1.resembles.entries?_eq given.value).symm
  have hset {f : NodeRecord → NodeRecord} (hf : ∀ r, (f r).unhinted = (f r.unhinted).unhinted)
      (hproper : ∀ r, r.Proper → (f r).Proper) : Close s₀ (s.updateNode n f) (t.updateNode n f) :=
    ⟨h.1.updateNode n hf hproper, h.2⟩
  cases hmap : s.entries? given.value with
  | some fields =>
      have hrun {u : Store} (hu : u.entries? given.value = some fields) :
          fill n given u = (mergeFields n fields >>= fun _ => pure given.parent) u := by
        rw [fill, Run.get_bind, hu]
      rw [Agree, hrun hmap, hrun (hentries.trans hmap)]
      exact Agree.bind (agree_mergeFields hnodes h n fields) fun _ s' t' h' => .pure given.parent h'
  | none =>
      -- the type decides whether it is one, or stands for the parent
      have htype : fill n given s = .ok given.parent (s.updateNode n fun r =>
            { r with type := given.type, value := given.value }) ∧
          fill n given t = .ok given.parent (t.updateNode n fun r =>
            { r with type := given.type, value := given.value }) ∨
          fill n given s = .ok given.type (s.updateNode n fun r => { r with value := given.value }) ∧
            fill n given t = .ok given.type (t.updateNode n fun r => { r with value := given.value }) := by
        rw [fill, Run.get_bind, Run.get_bind, hentries, hmap]
        cases given.type with
        | null => exact Or.inl ⟨rfl, rfl⟩
        | text name => exact Or.inl ⟨rfl, rfl⟩
        | _ => exact Or.inr ⟨rfl, rfl⟩
      rcases htype with ⟨hs, ht⟩ | ⟨hs, ht⟩
      · exact .of_ok hs ht (hset (fun _ => rfl) fun _ hr => ⟨hr.hint_int, hr.parent_node⟩)
      · exact .of_ok hs ht (hset (fun _ => rfl) fun _ hr => ⟨hr.hint_int, hr.parent_node⟩)

theorem agree_construct (hnodes : s₀.NodesOnly) (h : Close s₀ s t) (n : NodeId) (given : Construction) :
    Agree (Close s₀) (construct n given) s t := by
  unfold construct
  refine Agree.bind (agree_fill hnodes h n given) fun parent s' t' h' => ?_
  exact Agree.ite (fun _ => agree_assignParent hnodes h' n parent) fun _ => .pure () h'

theorem agree_createUnplaced (hnodes : s₀.NodesOnly) (h : Close s₀ s t) (cls : NodeClass)
    (given : Construction) : Agree (Close s₀) (createUnplaced cls given) s t :=
  Agree.bind (agree_blank h cls) fun n _ _ h₁ =>
    Agree.bind (agree_construct hnodes h₁ n given) fun _ _ _ h₂ => .pure n h₂

/-! ## Taking away and reading -/

/-- **Twins remove the same child**, one by its hint if that holds, the other by a scan. -/
theorem agree_remove (h : Twins s t) (hfit : s.Fit) (n : NodeId) (child : Value) :
    Agree Twins (remove n child) s t :=
  Twins.congruence.remove (fun h => h.nodes_eq n) h hfit child

theorem agree_listValue (h : Twins s t) (items : Option (List Value)) :
    Agree Twins (listValue items) s t := by
  cases items with
  | none => exact .pure Value.null h
  | some items => exact agree_allocate h _

theorem agree_readSiblings (h : Twins s t) (n : NodeId) : Agree Twins (readSiblings n) s t := by
  unfold readSiblings
  refine Agree.recover ?_ fun s' t' h' => ?_
  · cases hparent : (s.node n).parent with
    | none =>
        refine Agree.get_bind (by rw [← h.resembles.parent n, hparent]) ?_
        rw [hparent]
        exact .pure Value.null h
    | some v =>
        obtain ⟨p, rfl⟩ := (h.left n).parent_node v hparent
        refine Agree.get_bind (by rw [← h.resembles.parent n, hparent]; dsimp only; rw [h.nodes_eq p]) ?_
        rw [hparent]
        exact agree_listValue h _
  · exact .check (h'.resembles.extra_eq n "siblings") h'

end Store
end SyntaxTree
