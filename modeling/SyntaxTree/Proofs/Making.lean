import SyntaxTree.Proofs.Growing
import SyntaxTree.Proofs.Trimming

/-!
# `Proofs.Making` — nodes made from what is given

A node that is made from fields is first filled, then gets its children, and then its parent. `Merging` is
what is known while it is filled: nothing else has changed, and its parent is one of those that were given.
`Made` is what is known from the children on: whatever such steps keep is kept (`Growth`), and the new node is in no
list yet.

What has to be known of the things that are given is `Construction.Sound`: parents are living nodes, and
the children that are given last are distinct free nodes.
-/

namespace SyntaxTree

open Store

/-- The fields of a map that are given for the parent. -/
def parentsGiven (cls : NodeClass) (fields : Entries Value) : List Value :=
  fields.filterMap fun e => if e.1 = .text "parent" ∧ ¬ isReservedKey cls e.1 then some e.2 else none

/-- The answer after one more field to what was last given for the children. -/
def childrenAfter (cls : NodeClass) (children : Value) (key : Key) (v : Value) : Value :=
  if isReservedKey cls key then children
  else if key = .text "nodes" ∨ key = .text "children" then v
  else children

/-- What the fields of a map give for the children: the last of them decides. -/
def childrenGiven (cls : NodeClass) (children : Value) : Entries Value → Value
  | [] => children
  | (key, v) :: rest => childrenGiven cls (childrenAfter cls children key v) rest

namespace Construction

/-- What is given for a parent, in whatever way. -/
def parents (given : Construction) (s : Store) (cls : NodeClass) : List Value :=
  match s.entries? given.value, given.type with
  | some fields, _ => given.parent :: parentsGiven cls fields
  | none, .null | none, .text _ => [given.parent]
  | none, type => [type]

/-- The children that a new node is given. -/
def children (given : Construction) (s : Store) (cls : NodeClass) : Except Fault (List Value) :=
  match s.entries? given.value with
  | none => .ok []
  | some fields =>
    if childrenGiven cls .null fields = .null then .ok [] else s.items (childrenGiven cls .null fields)

/-- What is given fits a forest: it is in the store, parents are living nodes, and children are distinct
nodes in no list. -/
structure Sound (given : Construction) (s : Store) (gone : NodeId → Prop) (cls : NodeClass) : Prop where
  exist : ∀ o, given.value = .object o → o < s.objects.size
  parents : ∀ v ∈ given.parents s cls, v ≠ .null → ∃ p, v = .node p ∧ s.Living gone p
  children : ∀ fields, s.entries? given.value = some fields → childrenGiven cls .null fields ≠ .null →
    ∃ cs : List NodeId, s.items (childrenGiven cls .null fields) = .ok (cs.map .node) ∧ cs.Nodup ∧
      ∀ c ∈ cs, s.Free gone c

end Construction

namespace Store

variable {s s' t : Store} {gone : NodeId → Prop} {cls : NodeClass} {given : Construction} {vs : List Value}

/-! ## Filling -/

/-- While it is filled the new node has a class and an integer hint, and its parent is a living node. -/
structure Merging (s : Store) (gone : NodeId → Prop) (cls : NodeClass) (t : Store) : Prop
    extends Filling s t where
  cls_eq : (t.node s.nodes.size).cls = cls
  hint_int : ∃ i : Int, (t.node s.nodes.size).hint = .int i
  parent : ∀ v, (t.node s.nodes.size).parent = some v → ∃ p, v = .node p ∧ s.Living gone p

namespace Merging

theorem withBlank (s : Store) (gone : NodeId → Prop) (cls : NodeClass) :
    s.Merging gone cls (s.withBlank cls) where
  toFilling := filling_withBlank s cls
  cls_eq := by rw [node_withBlank]; rfl
  hint_int := by rw [node_withBlank]; exact ⟨_, rfl⟩
  parent v hv := by rw [node_withBlank] at hv; cases hv

/-- Changes of the new node in other fields than these. -/
theorem updateNode (h : s.Merging gone cls t) {f : NodeRecord → NodeRecord}
    (hf : ∀ r, (f r).attr = r.attr ∧ (f r).nodes = r.nodes)
    (hf' : ∀ r, (f r).cls = r.cls ∧ (f r).hint = r.hint)
    (hparent : ∀ r v, (f r).parent = some v → r.parent = some v ∨ ∃ p, v = .node p ∧ s.Living gone p) :
    s.Merging gone cls (t.updateNode s.nodes.size f) where
  toFilling := h.toFilling.updateNode hf
  cls_eq := by rw [node_updateNode_self t f h.lt_size, (hf' _).1, h.cls_eq]
  hint_int := by rw [node_updateNode_self t f h.lt_size, (hf' _).2]; exact h.hint_int
  parent v hv := by
    rw [node_updateNode_self t f h.lt_size] at hv
    rcases hparent _ v hv with hv | hv
    · exact h.parent v hv
    · exact hv

theorem proper (h : s.Merging gone cls t) : (t.node s.nodes.size).Proper :=
  ⟨h.hint_int, fun v hv => (h.parent v hv).imp fun _ hp => hp.1⟩

theorem sprouted (h : s.Merging gone cls t) : s.Sprouted t := ⟨h.toExtends, h.one, h.toFilling.children⟩

/-- The parent of the new node is living. -/
theorem parent_living (h : s.Merging gone cls t) {p : NodeId} (hp : (t.node s.nodes.size).parent = some (.node p)) :
    t.Living gone p := by
  obtain ⟨q, hq, hliving⟩ := h.parent _ hp
  cases hq
  exact hliving.mono h.size

theorem assignExtra (key : Key) (v : Value) :
    Run.Preserves (s.Merging gone cls) (assignExtra s.nodes.size key v) := by
  intro t h
  rw [Store.assignExtra, Run.ends_bind, Run.ends_check]
  cases hput : t.setExtra s.nodes.size key v with
  | ok t' =>
      rw [setExtra, h.attr] at hput
      obtain ⟨x, rfl⟩ := putItem_ok hput
      exact ⟨h.toFilling.updateObject _, h.cls_eq, h.hint_int, h.parent⟩
  | error e => exact h

/-- A parent that is given is a living node, or none. -/
theorem assignParent {v : Value} (hv : v ≠ .null → ∃ p, v = .node p ∧ s.Living gone p) :
    Run.Preserves (s.Merging gone cls) (assignParent s.nodes.size v) := by
  unfold Store.assignParent
  refine Run.Preserves.ite (fun _ => ?_) fun hnull => (Run.Preserves.check _).bind fun _ => ?_
  · refine Run.Preserves.update fun t h => h.updateNode (fun _ => ⟨rfl, rfl⟩) (fun _ => ⟨rfl, rfl⟩) ?_
    intro r w hw
    cases hw
  · refine Run.Preserves.update fun t h => h.updateNode (fun _ => ⟨rfl, rfl⟩) (fun _ => ⟨rfl, rfl⟩) ?_
    intro r w hw
    cases hw
    exact Or.inr (hv hnull)

theorem mergeable (s : Store) (gone : NodeId → Prop) (cls : NodeClass) :
    Mergeable (s.Merging gone cls) s.nodes.size where
  note _ r h := ⟨h.toFilling.note r, h.cls_eq, h.hint_int, h.parent⟩
  type _ _ h := h.updateNode (fun _ => ⟨rfl, rfl⟩) (fun _ => ⟨rfl, rfl⟩) fun _ _ => Or.inl
  value _ _ h := h.updateNode (fun _ => ⟨rfl, rfl⟩) (fun _ => ⟨rfl, rfl⟩) fun _ _ => Or.inl
  extra := assignExtra

end Merging

/-- Merging a field passes on what was last given for the children. -/
theorem mergeField_answer (n : NodeId) (children : Value) (key : Key) (v : Value) (t : Store) :
    Run.Ends (mergeField n children key v) t
      (fun answer _ => answer = childrenAfter (t.node n).cls children key v) fun _ _ => True := by
  have hthen {α : Type} (run : Run α) (t : Store) (answer : Value) :
      Run.Ends (run >>= fun _ => pure answer) t (fun a _ => a = answer) fun _ _ => True := by
    rw [Run.ends_bind]
    unfold Run.Ends
    cases run t with
    | ok _ t' => rfl
    | error _ t' => trivial
  unfold mergeField
  rw [Run.ends_bind, Run.ends_get, childrenAfter]
  by_cases hreserved : isReservedKey (t.node n).cls key
  · rw [if_pos hreserved, if_pos hreserved]
    exact hthen _ t children
  rw [if_neg hreserved, if_neg hreserved]
  split
  · exact hthen _ t children
  · exact hthen _ t children
  · exact hthen _ t children
  · exact (if_pos (Or.inl rfl)).symm
  · exact (if_pos (Or.inr rfl)).symm
  · refine Run.ends_ite.mpr ⟨fun _ => hthen _ t children, fun _ => ?_⟩
    rfl
  · next hnodes hchildren _ =>
      rw [if_neg (not_or.mpr ⟨hnodes, hchildren⟩)]
      exact hthen _ t children

/-- **Merging fields fills the new node** and finds what is given for the children. -/
theorem Merging.mergeEach {fields : Entries Value}
    (hparents : ∀ v ∈ parentsGiven cls fields, v ≠ .null → ∃ p, v = .node p ∧ s.Living gone p)
    (children : Value) (h : s.Merging gone cls t) :
    Run.Ends (mergeEach s.nodes.size children fields) t
      (fun answer t' => s.Merging gone cls t' ∧ answer = childrenGiven cls children fields)
      fun _ _ => True := by
  induction fields generalizing children t with
  | nil => exact ⟨h, rfl⟩
  | cons e fields ih =>
      obtain ⟨key, v⟩ := e
      have hrest : ∀ w ∈ parentsGiven cls fields, w ≠ .null → ∃ p, w = .node p ∧ s.Living gone p := by
        intro w hw
        refine hparents w ?_
        obtain ⟨e, he, hsome⟩ := List.mem_filterMap.mp hw
        exact List.mem_filterMap.mpr ⟨e, List.mem_cons_of_mem _ he, hsome⟩
      have hhead : Run.Ends (mergeField s.nodes.size children key v) t
          (fun _ t' => s.Merging gone cls t') fun _ _ => True := by
        by_cases hreserved : isReservedKey cls key
        · -- the class keeps the field out, whatever it is
          have hdropped : mergeField s.nodes.size children key v t =
              .ok children (t.note (.droppedField (shownKey key))) := by
            unfold mergeField
            rw [Run.get_bind, h.cls_eq, if_pos hreserved]
            rfl
          rw [Run.ends_of_ok hdropped]
          exact (mergeable s gone cls).note t _ h
        · have hmerge : Run.Preserves (s.Merging gone cls) (mergeField s.nodes.size children key v) := by
            refine (mergeable s gone cls).mergeField children fun hkey hnull => ?_
            refine assignParent fun _ => hparents v ?_ hnull
            exact List.mem_filterMap.mpr ⟨(key, v), List.mem_cons_self .., if_pos ⟨hkey, hreserved⟩⟩
          exact (hmerge t h).mono (fun _ _ h' => h') fun _ _ _ => trivial
      have hanswer := mergeField_answer s.nodes.size children key v t
      rw [h.cls_eq] at hanswer
      rw [Store.mergeEach, Run.ends_bind]
      cases hrun : mergeField s.nodes.size children key v t with
      | error e t' => exact (Run.ends_of_error hrun).mpr trivial
      | ok answer t' =>
          rw [Run.ends_of_ok hrun] at hhead hanswer ⊢
          rw [childrenGiven, ← hanswer]
          exact ih hrest answer hhead

/-! ## Children and parent -/

/-- The new node has been made: the store is kept as it should be, the node is in no list, and the objects of
before are what they were. -/
structure Made (inv : Store → Prop) (s : Store) (gone : NodeId → Prop) (t : Store) : Prop where
  kept : inv t
  free : t.Free gone s.nodes.size
  object : ∀ o, o < s.objects.size → t.object o = s.object o
  size : s.nodes.size ≤ t.nodes.size

variable {inv : Store → Prop}

theorem Merging.made (h : s.Merging gone cls t) (hinv : Growth gone inv) (hs : inv s) : s.Made inv gone t := by
  obtain ⟨hkept, hfree⟩ := hinv.sprout hs h.sprouted h.proper fun p => h.parent_living
  exact ⟨hkept, hfree, h.object, h.size⟩

namespace Made

/-- **Free nodes become children one by one.** -/
theorem appendAll (h : s.Made inv gone t) (hinv : Growth gone inv) {cs : List NodeId} (hnodup : cs.Nodup)
    (hfree : ∀ c ∈ cs, t.Free gone c ∧ c ≠ s.nodes.size) :
    s.Made inv gone (t.appendAll s.nodes.size (cs.map .node)) := by
  induction cs generalizing t with
  | nil => exact h
  | cons c cs ih =>
      obtain ⟨hc, hnodup⟩ := List.nodup_cons.mp hnodup
      obtain ⟨hcfree, hne⟩ := hfree c (List.mem_cons_self ..)
      have hattached := attached_append h.free.living.1 hcfree.living.1
      refine ih ⟨?_, ?_, h.object, ?_⟩ hnodup fun d hd => ?_
      · exact hinv.append h.kept h.free hcfree hne
      · exact h.free.attached hattached hne.symm
      · rw [hattached.size]
        exact h.size
      · obtain ⟨hdfree, hdne⟩ := hfree d (List.mem_cons_of_mem _ hd)
        have hdc : d ≠ c := by
          intro heq
          exact hc (heq ▸ hd)
        exact ⟨hdfree.attached hattached hdc, hdne⟩

/-- As long as a node is in no list, its parent may be any living node. -/
theorem setParent (h : s.Made inv gone t) (hinv : Growth gone inv) {p : NodeId} (hp : t.Living gone p) :
    s.Made inv gone (t.setParent s.nodes.size (some (.node p))) := by
  refine ⟨hinv.setParent h.kept h.free hp, h.free.setParent _, h.object, ?_⟩
  rw [size_setParent]
  exact h.size

end Made

/-- What is left of a well kept store is well kept. -/
theorem Trimmed.wellKept (h : t.Trimmed s') (ht : t.WellKept gone) : s'.WellKept gone where
  forest := by
    rw [living_eq_of_size h.size]
    exact h.forest ht.forest
  proper n := h.proper n (ht.proper n)
  made n hn := h.size ▸ ht.made n hn

/-- A scalar fills the new node and leaves one of the given parents to be linked. -/
theorem merging_fill (h : s.Merging gone cls t)
    (hscalar : s.entries? given.value = none) (hsame : t.entries? given.value = none) :
    Run.Ends (fill s.nodes.size given) t
      (fun parent t' => s.Merging gone cls t' ∧ parent ∈ given.parents s cls) fun _ _ => True := by
  have hset {f : NodeRecord → NodeRecord} (hf : ∀ r, (f r).attr = r.attr ∧ (f r).nodes = r.nodes)
      (hf' : ∀ r, (f r).cls = r.cls ∧ (f r).hint = r.hint) (hparent : ∀ r, (f r).parent = r.parent) :
      s.Merging gone cls (t.updateNode s.nodes.size f) :=
    h.updateNode hf hf' fun r v hv => Or.inl (hparent r ▸ hv)
  rw [fill, Run.ends_bind, Run.ends_get, hsame, Construction.parents, hscalar]
  cases given.type with
  | null =>
      exact ⟨hset (fun _ => ⟨rfl, rfl⟩) (fun _ => ⟨rfl, rfl⟩) fun _ => rfl, List.mem_singleton_self _⟩
  | text name =>
      exact ⟨hset (fun _ => ⟨rfl, rfl⟩) (fun _ => ⟨rfl, rfl⟩) fun _ => rfl, List.mem_singleton_self _⟩
  | _ =>
      exact ⟨hset (fun _ => ⟨rfl, rfl⟩) (fun _ => ⟨rfl, rfl⟩) fun _ => rfl, List.mem_singleton_self _⟩

/-- Fields fill the new node, and then their children are put under it. -/
theorem mergeFields_adds (h : s.Merging gone cls t) {fields : Entries Value}
    (hparents : ∀ v ∈ parentsGiven cls fields, v ≠ .null → ∃ q, v = .node q ∧ s.Living gone q)
    (hchildren : (if childrenGiven cls .null fields = .null then .ok []
      else s.items (childrenGiven cls .null fields)) = .ok vs) :
    Run.Ends (mergeFields s.nodes.size fields) t
      (fun _ u => ∃ t', s.Merging gone cls t' ∧ u = t'.appendAll s.nodes.size vs) fun _ _ => True := by
  rw [mergeFields, Run.ends_bind]
  refine (Merging.mergeEach hparents .null h).mono ?_ fun _ _ _ => trivial
  rintro answer t' ⟨ht', rfl⟩
  refine Run.ends_ite.mpr ⟨fun hgiven => ?_, fun hnull => ?_⟩
  · rw [if_neg hgiven] at hchildren
    rw [Run.ends_bind, Run.ends_check, items_of_extends ht'.toExtends hchildren]
    dsimp only
    rw [Run.ends_bind, Run.ends_check]
    cases hnodes : t'.requireNodes "nodes" vs with
    | error e => trivial
    | ok _ =>
        dsimp only
        rw [Run.ends_of_ok (pushAll_eq (requireNodes_ok.mp hnodes))]
        exact ⟨t', ht', rfl⟩
  · rw [if_pos (not_not.mp hnull)] at hchildren
    cases hchildren
    exact ⟨t', ht', rfl⟩

/-- **A node that is made is filled, then gets its children, and then its parent.** -/
theorem createUnplaced_adds
    (hexist : ∀ o, given.value = .object o → o < s.objects.size)
    (hparents : ∀ v ∈ given.parents s cls, v ≠ .null → ∃ q, v = .node q ∧ s.Living gone q)
    (hchildren : given.children s cls = .ok vs) :
    Run.Ends (createUnplaced cls given) s
      (fun n u => n = s.nodes.size ∧ ∃ t, s.Merging gone cls t ∧
        (u = t.appendAll s.nodes.size vs ∨ ∃ q, s.Living gone q ∧
          u = (t.appendAll s.nodes.size vs).setParent s.nodes.size (some (.node q))))
      fun _ _ => True := by
  have h := Merging.withBlank s gone cls
  have hsame : (s.withBlank cls).entries? given.value = s.entries? given.value := by
    cases hvalue : given.value with
    | object o => exact h.keeps.entries o (hexist o hvalue)
    | _ => rfl
  have hconstruct : Run.Ends (construct s.nodes.size given) (s.withBlank cls)
      (fun _ u => ∃ t, s.Merging gone cls t ∧ (u = t.appendAll s.nodes.size vs ∨
        ∃ q, s.Living gone q ∧
          u = (t.appendAll s.nodes.size vs).setParent s.nodes.size (some (.node q))))
      fun _ _ => True := by
    cases hmap : s.entries? given.value with
    | none =>
        rw [Construction.children, hmap] at hchildren
        cases hchildren
        rw [construct, Run.ends_bind]
        refine (merging_fill h hmap (hsame.trans hmap)).mono ?_ fun _ _ _ => trivial
        rintro parent t ⟨ht, hparent⟩
        have hlinked : Run.Preserves (s.Merging gone cls)
            (if parent ≠ .null then assignParent s.nodes.size parent else pure ()) :=
          Run.Preserves.ite (fun _ => Merging.assignParent (hparents parent hparent)) fun _ => .pure _
        exact (hlinked t ht).mono (fun _ u hu => ⟨u, hu, Or.inl rfl⟩) fun _ _ _ => trivial
    | some fields =>
        rw [Construction.children, hmap] at hchildren
        have hgiven : given.parents s cls = given.parent :: parentsGiven cls fields := by
          rw [Construction.parents, hmap]
        have hmerge := mergeFields_adds h
          (fun v hv => hparents v (hgiven ▸ List.mem_cons_of_mem _ hv)) hchildren
        rw [Run.Ends, construct_map given (hsame.trans hmap)]
        refine Run.ends_bind.mpr (hmerge.mono ?_ fun _ _ _ => trivial)
        rintro _ u ⟨t, ht, rfl⟩
        refine Run.ends_ite.mpr ⟨fun hnull => ?_, fun _ => ⟨t, ht, Or.inl rfl⟩⟩
        obtain ⟨q, hq, hliving⟩ := hparents _ (hgiven ▸ List.mem_cons_self ..) hnull
        rw [hq, assignParent, if_neg (fun heq => by cases heq)]
        exact ⟨t, ht, Or.inr ⟨q, hliving, rfl⟩⟩
  rw [createUnplaced, Run.ends_bind, Run.ends_of_ok (blank_eq s cls), Run.ends_bind]
  exact hconstruct.mono (fun _ _ hu => ⟨rfl, hu⟩) fun _ _ _ => trivial

/-- The children that fit are free nodes, each given once. -/
theorem children_of_sound (hgiven : given.Sound s gone cls) :
    ∃ cs : List NodeId, given.children s cls = .ok (cs.map .node) ∧ cs.Nodup ∧ ∀ c ∈ cs, s.Free gone c := by
  cases hmap : s.entries? given.value with
  | none => exact ⟨[], by rw [Construction.children, hmap]; rfl, List.nodup_nil, fun _ hc => (by cases hc)⟩
  | some fields =>
      by_cases hnull : childrenGiven cls .null fields = .null
      · refine ⟨[], ?_, List.nodup_nil, fun _ hc => (by cases hc)⟩
        rw [Construction.children, hmap]
        exact if_pos hnull
      · obtain ⟨cs, hitems, hcs⟩ := hgiven.children fields hmap hnull
        refine ⟨cs, ?_, hcs⟩
        rw [Construction.children, hmap]
        exact (if_neg hnull).trans hitems

/-- **A node that is made from what is sound keeps the store as it should be.** -/
theorem made_createUnplaced (hinv : Growth gone inv) (hs : inv s) (hgiven : given.Sound s gone cls) :
    Run.Ends (createUnplaced cls given) s (fun n t => n = s.nodes.size ∧ s.Made inv gone t)
      fun _ _ => True := by
  obtain ⟨cs, hchildren, hnodup, hfree⟩ := children_of_sound hgiven
  refine (createUnplaced_adds hgiven.exist hgiven.parents hchildren).mono ?_ fun _ _ _ => trivial
  rintro n u ⟨rfl, t, ht, hu⟩
  have hmade := ht.made hinv hs
  have hadded : s.Made inv gone (t.appendAll s.nodes.size (cs.map .node)) :=
    hmade.appendAll hinv hnodup fun c hc =>
      ⟨hinv.free (hfree c hc) hs hmade.kept ht.toExtends, Nat.ne_of_lt (hfree c hc).living.1⟩
  rcases hu with rfl | ⟨q, hq, rfl⟩
  · exact ⟨rfl, hadded⟩
  · exact ⟨rfl, hadded.setParent hinv (hq.mono hadded.size)⟩

/-! ## The position -/

theorem trimmed_stamp (tracker : ObjectId) (start : Value) (n : NodeId) :
    Run.Preserves t.Trimmed (stamp tracker start (.node n)) := by
  refine (Run.Preserves.read _).bind fun standing => ?_
  obtain ⟨source, line, column⟩ := standing
  refine (trimmed_allocate _).bind fun finish => (trimmed_allocate _).bind fun span => ?_
  exact (trimmed_assignExtra n (.text "position") span).bind fun _ => .pure _

/-- A wrapper that is called with a node stamps it. -/
theorem call_wrapper {o tracker : ObjectId} {start : Value} {fields : Entries Value}
    (h : t.object o = .wrapper tracker start fields) (n : NodeId) :
    call (.object o) [.node n] [] t = stamp tracker start (.node n) t := by
  have hobject : t.object? (.object o) = some (.wrapper tracker start fields) := congrArg some h
  rw [call, callAsking, Run.get_bind, hobject]
  rfl

/-- A wrapper of before stamps the new node. -/
theorem Made.call_wrapper (h : s.Made inv gone t) {o tracker : ObjectId} {start : Value} {fields : Entries Value}
    (hwrapper : s.object o = .wrapper tracker start fields) (n : NodeId) :
    call (.object o) [.node n] [] t = stamp tracker start (.node n) t := by
  have ho : o < s.objects.size := lt_size_of_object (hwrapper ▸ fun heq => (by cases heq))
  exact Store.call_wrapper ((h.object o ho).trans hwrapper) n

/-- **Making a node keeps the store as it should be**, if calling its position does. -/
theorem kept_create (hinv : Growth gone inv) (hs : inv s) (hgiven : given.Sound s gone cls)
    (hcall : ∀ n t, createUnplaced cls given s = .ok n t → s.Made inv gone t → given.position ≠ .null →
      Run.Ends (call given.position [.node n] []) t (fun _ t' => inv t') fun _ _ => True) :
    Run.Ends (create cls given) s (fun _ t => inv t) fun _ _ => True := by
  have hmade := made_createUnplaced hinv hs hgiven
  rw [create, Run.ends_bind]
  cases hrun : createUnplaced cls given s with
  | error e t => exact (Run.ends_of_error hrun).mpr trivial
  | ok n t =>
      obtain ⟨-, ht⟩ := (Run.ends_of_ok hrun).mp hmade
      refine (Run.ends_of_ok hrun).mpr (Run.ends_ite.mpr ⟨fun hposition => ?_, fun _ => ht.kept⟩)
      rw [Run.ends_bind]
      exact hcall n t hrun ht hposition

end Store
end SyntaxTree
