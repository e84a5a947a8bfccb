import SyntaxTree.Action
import SyntaxTree.Proofs.Construction
import SyntaxTree.Proofs.Rejection

/-!
# `Proofs.Refused` — what a refused call leaves behind

A call that is refused should leave what was there as it was. The operations that check one argument and
then act do so: they refuse at the check or not at all. Making a node checks one argument late. The parent
is looked at when the children are in the new node already, and if it is no node, the new node is given
up with the children linked to it.

`Action.Takes` is the exact condition for that, and it does not speak of the parent: the same call without
one succeeds, and gives the new node a child that was there before.
-/

namespace SyntaxTree

namespace Run

variable {α β : Type}

theorem error_of_map {run : Run β} {f : β → α} {s s' : Store} {e : Fault}
    (h : (f <$> run) s = .error e s') : run s = .error e s' := by
  have h : EStateM.map f run s = .error e s' := h
  rw [EStateM.map] at h
  cases hrun : run s with
  | ok b t => rw [hrun] at h; cases h
  | error e' t => rw [hrun] at h; cases h; rfl

end Run

namespace Store

variable {s s' : Store}

theorem error_of_unit {run : Run Unit} {e : Fault} (h : unit run s = .error e s') :
    run s = .error e s' := by
  cases hrun : run s with
  | ok b t =>
      rw [unit, Run.bind_of_ok hrun] at h
      cases h
  | error e' t =>
      rw [unit, Run.bind_of_error hrun] at h
      cases h
      rfl

/-! ## Children that are taken -/

/-- Adding something that was not a node of `s` changes no node of `s`. -/
theorem Keeps.append (h : s.Keeps s') {v : Value} (hv : ∀ c, c < s.nodes.size → v ≠ .node c) :
    s.Keeps (s'.append s.nodes.size v) where
  node c hc := by
    rw [node_append s' v (Nat.ne_of_lt hc), if_neg fun hvc => hv c hc hvc.1, h.node c hc]
  entries o ho := by
    have hsame : (s'.append s.nodes.size v).entries? (.object o) = s'.entries? (.object o) := by
      cases v with
      | object p => exact (entries?_setFreeField _ p _ _ o).trans (entries?_setFreeField _ p _ _ o)
      | _ => rfl
    rw [hsame, h.entries o ho]

theorem Keeps.appendAll (h : s.Keeps s') {vs : List Value}
    (hvs : ∀ c, c < s.nodes.size → Value.node c ∉ vs) : s.Keeps (s'.appendAll s.nodes.size vs) := by
  induction vs generalizing s' with
  | nil => exact h
  | cons v vs ih =>
      have hv : ∀ c, c < s.nodes.size → v ≠ .node c := by
        intro c hc heq
        exact hvs c hc (heq ▸ List.mem_cons_self ..)
      exact ih (h.append hv) fun c hc hmem => hvs c hc (List.mem_cons_of_mem _ hmem)

/-- Every node among the children that are added ends with the new parent. -/
theorem parent_appendAll {n c : NodeId} (hc : c < s.nodes.size) (hne : c ≠ n) {vs : List Value}
    (h : Value.node c ∈ vs ∨ (s.node c).parent = some (.node n)) :
    ((s.appendAll n vs).node c).parent = some (.node n) := by
  induction vs generalizing s with
  | nil =>
      rcases h with h | h
      · cases h
      · exact h
  | cons v vs ih =>
      have hlinked : v = .node c ∨ (s.node c).parent = some (.node n) →
          ((s.append n v).node c).parent = some (.node n) := by
        intro hor
        rw [node_append s v hne]
        by_cases hv : v = .node c
        · rw [if_pos ⟨hv, hc⟩]
        · rw [if_neg fun h => hv h.1]
          exact hor.resolve_left hv
      refine ih (by rw [size_append]; exact hc) ?_
      rcases h with h | h
      · rcases List.mem_cons.mp h with hv | hmem
        · exact Or.inr (hlinked (Or.inl hv.symm))
        · exact Or.inl hmem
      · exact Or.inr (hlinked (Or.inr h))

/-! ## Making a node -/

/-- A map of fields is merged inside the new node, and then all children are added or none. -/
theorem mergeFields_cases (h : s.Filling s') (fields : Entries Value) :
    (∃ e t, mergeFields s.nodes.size fields s' = .error e t ∧ s.Filling t) ∨
      ∃ t vs, mergeFields s.nodes.size fields s' = .ok () (t.appendAll s.nodes.size vs) ∧
        s.Filling t := by
  have hmerge := filling_mergeEach s .null fields s' h
  unfold mergeFields
  cases hrun : mergeEach s.nodes.size .null fields s' with
  | error e t =>
      rw [Run.ends_of_error hrun] at hmerge
      exact Or.inl ⟨e, t, Run.bind_of_error hrun, hmerge⟩
  | ok children t =>
      rw [Run.ends_of_ok hrun] at hmerge
      rw [Run.bind_of_ok hrun]
      by_cases hnull : children = .null
      · refine Or.inr ⟨t, [], ?_, hmerge⟩
        rw [if_neg (not_not_intro hnull)]
        rfl
      rw [if_pos hnull]
      cases hitems : t.items children with
      | error e => exact Or.inl ⟨e, t, Run.bind_of_error (Run.check_of_error hitems), hmerge⟩
      | ok vs =>
          rw [Run.bind_of_ok (Run.check_of_ok hitems)]
          cases hnodes : t.requireNodes "nodes" vs with
          | error e => exact Or.inl ⟨e, t, Run.bind_of_error (Run.check_of_error hnodes), hmerge⟩
          | ok _ =>
              rw [Run.bind_of_ok (Run.check_of_ok hnodes)]
              exact Or.inr ⟨t, vs, pushAll_eq (requireNodes_ok.mp hnodes), hmerge⟩

/-- A parent is refused before it is linked. -/
theorem assignParent_error {n : NodeId} {v : Value} {e : Fault} (h : assignParent n v s = .error e s') :
    s' = s := by
  unfold assignParent at h
  by_cases hnull : v = .null
  · rw [if_pos hnull] at h
    cases h
  · rw [if_neg hnull] at h
    cases hcheck : s.requireNode "parent" v with
    | ok _ => rw [Run.bind_of_ok (Run.check_of_ok hcheck)] at h; cases h
    | error e' => rw [Run.bind_of_error (Run.check_of_error hcheck)] at h; cases h; rfl

/-- A node is made by filling a blank one. -/
theorem createUnplaced_eq (s : Store) (cls : NodeClass) (given : Construction) : createUnplaced cls given s =
    (construct s.nodes.size given >>= fun _ => pure s.nodes.size) (s.withBlank cls) := by
  rw [createUnplaced, Run.bind_of_ok (blank_eq s cls)]

theorem filling_fill (h : s.Filling s') (given : Construction) (hscalar : s'.entries? given.value = none) :
    Run.Ends (fill s.nodes.size given) s' (fun _ t => s.Filling t) fun _ t => s.Filling t := by
  rw [fill, Run.ends_bind, Run.ends_get, hscalar]
  -- the type is one, or is missing, or stands for the parent
  split
  · next heq => cases heq
  · exact h.updateNode fun _ => ⟨rfl, rfl⟩
  · exact h.updateNode fun _ => ⟨rfl, rfl⟩
  · exact h.updateNode fun _ => ⟨rfl, rfl⟩

/-- What is made from a scalar stays inside the new node. -/
theorem filling_createUnplaced (cls : NodeClass) (given : Construction)
    (hscalar : (s.withBlank cls).entries? given.value = none) :
    Run.Ends (createUnplaced cls given) s (fun _ t => s.Filling t) fun _ t => s.Filling t := by
  have hfill := filling_fill (filling_withBlank s cls) given hscalar
  have hconstruct : Run.Ends (construct s.nodes.size given) (s.withBlank cls) (fun _ t => s.Filling t)
      fun _ t => s.Filling t := by
    rw [construct, Run.ends_bind]
    refine hfill.mono (fun parent t ht => ?_) fun _ _ ht => ht
    exact Run.Preserves.ite (fun _ => filling_assignParent s parent) (fun _ => .pure _) t ht
  rw [Run.Ends, createUnplaced_eq]
  exact Run.ends_bind.mpr hconstruct

/-- From a map of fields the children are in before the parent is looked at: either the fields are refused
    whatever the parent is, or the node is there but for its parent. -/
theorem createUnplaced_map (cls : NodeClass) (given : Construction) {fields : Entries Value}
    (hmap : (s.withBlank cls).entries? given.value = some fields) :
    (∃ e t, s.Filling t ∧ ∀ parent, createUnplaced cls { given with parent } s = .error e t) ∨
      ∃ t vs, s.Filling t ∧ ∀ parent, createUnplaced cls { given with parent } s =
        ((if parent ≠ .null then assignParent s.nodes.size parent else pure ()) >>= fun _ =>
          pure s.nodes.size) (t.appendAll s.nodes.size vs) := by
  have hconstruct (parent : Value) : construct s.nodes.size { given with parent } (s.withBlank cls) =
      (mergeFields s.nodes.size fields >>= fun _ =>
        if parent ≠ .null then assignParent s.nodes.size parent else pure ()) (s.withBlank cls) :=
    construct_map { given with parent } hmap
  rcases mergeFields_cases (filling_withBlank s cls) fields with ⟨e, t, hmerge, ht⟩ | ⟨t, vs, hmerge, ht⟩
  · refine Or.inl ⟨e, t, ht, fun parent => ?_⟩
    have hfailed := (hconstruct parent).trans (Run.bind_of_error hmerge)
    rw [createUnplaced_eq, Run.bind_of_error hfailed]
  · refine Or.inr ⟨t, vs, ht, fun parent => ?_⟩
    have hlinking := (hconstruct parent).trans (Run.bind_of_ok hmerge)
    rw [createUnplaced_eq]
    exact Run.bind_congr hlinking

/-- **A construction that fails leaves nothing but the new node, or what the same construction without a
    parent leaves.** In the second case the children have been added. -/
theorem createUnplaced_error {cls : NodeClass} {given : Construction} {e : Fault}
    (h : createUnplaced cls given s = .error e s') :
    (s.Filling s' ∧ ∀ t, createUnplaced cls { given with parent := .null } s = .ok s.nodes.size t →
        t.children s.nodes.size = []) ∨
      ∃ t vs, s.Filling t ∧ s' = t.appendAll s.nodes.size vs ∧
        createUnplaced cls { given with parent := .null } s = .ok s.nodes.size s' := by
  cases hentries : (s.withBlank cls).entries? given.value with
  | none =>
      -- from a scalar nothing is added, with a parent or without
      refine Or.inl ⟨?_, fun t ht => ?_⟩
      · exact (Run.ends_of_error h).mp (filling_createUnplaced cls given hentries)
      · have hfilling := filling_createUnplaced cls { given with parent := .null } hentries
        exact ((Run.ends_of_ok ht).mp hfilling).children
  | some fields =>
      rcases createUnplaced_map cls given hentries with ⟨e', t, ht, hfailed⟩ | ⟨t, vs, ht, hlinking⟩
      · cases (hfailed given.parent).symm.trans h
        refine Or.inl ⟨ht, fun u hu => ?_⟩
        cases (hfailed .null).symm.trans hu
      · -- the children are in; what may still fail is the parent, which changes nothing then
        have hsame : s' = t.appendAll s.nodes.size vs := by
          have hrun := (hlinking given.parent).symm.trans h
          by_cases hparent : given.parent = .null
          · rw [if_neg (not_not_intro hparent)] at hrun
            cases hrun
          · rw [if_pos hparent] at hrun
            cases hassign : assignParent s.nodes.size given.parent (t.appendAll s.nodes.size vs) with
            | ok _ u => rw [Run.bind_of_ok hassign] at hrun; cases hrun
            | error e' u =>
                rw [Run.bind_of_error hassign] at hrun
                cases hrun
                exact assignParent_error hassign
        refine Or.inr ⟨t, vs, ht, hsame, ?_⟩
        rw [hsame]
        exact hlinking .null

/-- Without a position to call, making a node ends there. -/
theorem create_error {cls : NodeClass} {given : Construction} {e : Fault}
    (hposition : given.position = .null) (h : create cls given s = .error e s') :
    createUnplaced cls given s = .error e s' := by
  cases hrun : createUnplaced cls given s with
  | ok n t =>
      rw [create, Run.bind_of_ok hrun, hposition] at h
      cases h
  | error e' t =>
      rw [create, Run.bind_of_error hrun] at h
      cases h
      rfl

end Store

/-! ## Refused calls -/

namespace Action

open Store

/-- The calls that are made of nodes and refuse what is wrong: making a node, adding and removing a child,
setting extra attributes, searching by type, and assigning the parent or a computed property. -/
inductive Guarded : Action → Prop
  | create {cls : NodeClass} {given : Construction} :
    given.position = .null → Guarded (.create cls given)
  | push (n : NodeId) (child : Value) : Guarded (.push (.node n) child)
  | unshift (n : NodeId) (child : Value) : Guarded (.unshift (.node n) child)
  | remove (n : NodeId) (child : Value) : Guarded (.remove (.node n) child)
  | setAttributes (n : NodeId) (mapping : Value) (named : Entries Value) :
    Guarded (.setAttributes (.node n) mapping named)
  | find (n : NodeId) (matcher : Value) : Guarded (.find (.node n) matcher)
  | isType (n : NodeId) (matcher : Value) : Guarded (.isType (.node n) matcher)
  | hasType (n : NodeId) (matcher : Value) : Guarded (.hasType (.node n) matcher)
  | isInside (n : NodeId) (matcher : Value) : Guarded (.isInside (.node n) matcher)
  | assign {name : String} (n : NodeId) (v : Value) :
    name ∈ ["parent", "siblings", "prev", "next", "first", "last", "scope"] →
      Guarded (.assign (.node n) name v)

/-- The call makes a node, and would succeed without the parent it is given and add to the new node a child
that is a node already. -/
def Takes (a : Action) (s : Store) : Prop :=
  ∃ cls given s' c, a = .create cls given ∧
    createUnplaced cls { given with parent := .null } s = .ok s.nodes.size s' ∧
    c < s.nodes.size ∧ Value.node c ∈ s'.children s.nodes.size

/-- A refused construction keeps what was there exactly if it does not take a child. -/
theorem create_keeps_iff {s s' : Store} {cls : NodeClass} {given : Construction} {e : Fault}
    (hlinks : ∀ n p, (s.node n).parent = some (.node p) → p < s.nodes.size)
    (h : createUnplaced cls given s = .error e s') :
    s.Keeps s' ↔ ¬ (create cls given).Takes s := by
  rcases createUnplaced_error h with ⟨hfilling, hchildless⟩ | ⟨t, vs, hfilling, rfl, hsucceeds⟩
  · refine ⟨fun _ htakes => ?_, fun _ => hfilling.keeps⟩
    obtain ⟨_, _, u, c, heq, hu, -, hmem⟩ := htakes
    cases heq
    rw [hchildless u hu] at hmem
    cases hmem
  · have hchildren : (t.appendAll s.nodes.size vs).children s.nodes.size = vs := by
      rw [children_appendAll hfilling.lt_size, hfilling.children, List.nil_append]
    constructor
    · -- a child that was taken has a new parent, which no node had before
      rintro hkeeps ⟨_, _, u, c, heq, hu, hc, hmem⟩
      cases heq
      cases hsucceeds.symm.trans hu
      rw [hchildren] at hmem
      have hct : c < t.nodes.size := Nat.lt_trans hc hfilling.lt_size
      have hparent := parent_appendAll hct (Nat.ne_of_lt hc) (Or.inl hmem)
      rw [hkeeps.node c hc] at hparent
      exact Nat.lt_irrefl _ (hlinks c _ hparent)
    · intro hnot
      refine hfilling.keeps.appendAll fun c hc hmem => hnot ⟨_, _, _, c, rfl, hsucceeds, hc, ?_⟩
      rw [hchildren]
      exact hmem

/-- **A refused call keeps every node as it was, except a construction that takes children.** The one case
    where it does not is a construction from fields with children whose parent argument is no node. -/
theorem refused_keeps_iff {s s' : Store} {a : Action} {e : Fault}
    (hlinks : ∀ n p, (s.node n).parent = some (.node p) → p < s.nodes.size) (ha : a.Guarded)
    (h : a.perform s = .error e s') (he : e.isRejection = true) :
    s.Keeps s' ↔ ¬ a.Takes s := by
  -- everything but a construction leaves the store alone, and takes no child
  have hunchanged (hs : s' = s) (hother : ∀ cls given, a ≠ .create cls given) :
      s.Keeps s' ↔ ¬ a.Takes s := by
    refine ⟨fun _ ⟨cls, given, _, _, heq, _⟩ => hother cls given heq, fun _ => ?_⟩
    rw [hs]
    exact .refl s
  cases ha with
  | create hposition => exact create_keeps_iff hlinks (create_error hposition (Run.error_of_map h))
  | push n child =>
      refine hunchanged ?_ fun _ _ heq => by cases heq
      exact Run.unchanged_of_check (fun _ => (Run.FailsOnly.update _).bind fun _ => .read _)
        (Run.error_of_map h) he
  | unshift n child =>
      refine hunchanged ?_ fun _ _ heq => by cases heq
      exact Run.unchanged_of_check (fun _ => (Run.FailsOnly.update _).bind fun _ => .read _)
        (Run.error_of_map h) he
  | remove n child =>
      refine hunchanged ?_ fun _ _ heq => by cases heq
      exact remove_refused h he
  | setAttributes n mapping named =>
      have hother : e.isRejection = false :=
        (setAttributes_failsOnly n mapping named).of_error (error_of_unit h)
      rw [he] at hother
      cases hother
  | find n matcher =>
      refine hunchanged ?_ fun _ _ heq => by cases heq
      exact Run.unchanged_of_check_error (f := fun s => s.find n matcher) h
  | isType n matcher =>
      refine hunchanged ?_ fun _ _ heq => by cases heq
      exact Run.unchanged_of_check_error (Run.error_of_map h)
  | hasType n matcher =>
      refine hunchanged ?_ fun _ _ heq => by cases heq
      exact Run.unchanged_of_check_error (Run.error_of_map h)
  | isInside n matcher =>
      refine hunchanged ?_ fun _ _ heq => by cases heq
      exact Run.unchanged_of_check_error (Run.error_of_map h)
  | @assign name n v hname =>
      refine hunchanged ?_ fun _ _ heq => by cases heq
      have h : assignNode n name v s = .error e s' := error_of_unit h
      simp only [List.mem_cons, List.not_mem_nil, or_false] at hname
      rcases hname with rfl | rfl | rfl | rfl | rfl | rfl | rfl
      · exact assignParent_error h
      all_goals cases h; rfl

/-- A node with a child, and a map of fields that has this child for a child. -/
def withFields : Store :=
  ((performAll [.create .node .empty, .create .node .empty, .push (.node 0) (.node 1)] .empty).2.addObject
    (.collection .list [.node 1])).addObject (.map [(.text "nodes", .object 2)])

/-- Makes a node from the map of fields, below a parent that is none. -/
def badParent : Action := .create .node ⟨.object 3, .null, .int 5, .null⟩

/-- The refused construction takes the child. -/
theorem badParent_takes :
    (∀ n p, (withFields.node n).parent = some (.node p) → p < withFields.nodes.size) ∧
      badParent.Guarded ∧
      badParent.perform withFields =
        .error (.expectedNode "parent" "int") (Run.after (badParent.perform withFields)) ∧
      (Fault.expectedNode "parent" "int").isRejection = true ∧
      ¬ withFields.Keeps (Run.after (badParent.perform withFields)) := by
  have hlinks : ∀ n p, (withFields.node n).parent = some (.node p) → p < withFields.nodes.size := by
    intro n p hp
    match n with
    | 0 => cases hp
    | 1 => cases hp; decide
    | n + 2 =>
        have hout : withFields.nodes.size ≤ n + 2 := Nat.le_add_left 2 n
        rw [node_of_size_le _ hout] at hp
        cases hp
  have hguarded : badParent.Guarded := .create rfl
  have hrefused : badParent.perform withFields =
      .error (.expectedNode "parent" "int") (Run.after (badParent.perform withFields)) := rfl
  refine ⟨hlinks, hguarded, hrefused, rfl, fun hkeeps => ?_⟩
  refine (refused_keeps_iff hlinks hguarded hrefused rfl).mp hkeeps ?_
  exact ⟨_, _, _, 1, rfl, rfl, by decide, by decide⟩

/-- It leaves the child with the node that was not made for its parent, although another lists it still. -/
theorem badParent_orphans :
    badParent.perform withFields =
        .error (.expectedNode "parent" "int") (Run.after (badParent.perform withFields)) ∧
      (withFields.node 1).parent = some (.node 0) ∧
      ((Run.after (badParent.perform withFields)).node 1).parent = some (.node 2) ∧
      (Run.after (badParent.perform withFields)).children 0 = [.node 1] :=
  ⟨rfl, rfl, rfl, rfl⟩

end Action

end SyntaxTree
