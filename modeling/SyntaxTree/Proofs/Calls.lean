import SyntaxTree.Node.Call
import SyntaxTree.Proofs.TwinCopies

/-!
# `Proofs.Calls` — calls with a new node

The position that a new node is given is called with it. That may be a wrapper, which stamps the node, but
also any operation that was taken as a value: one of another node, say, which gets the new node for its
child. Called with twins of the node, each of them ends alike (`agree_call`).

An operation is known by its name, and gets its arguments from a signature. All of them are nodes here,
since nothing but the new node is given (`node_of_bind`); so no operation can set a hint to anything but an
integer, and a predicate is never one that can be asked.
-/

namespace SyntaxTree

/-! ## Arguments -/

/-- What is under a key of a map is one of its values. -/
theorem Entries.mem_of_find? {α : Type} {es : Entries α} {key : Key} {a : α} (h : es.find? key = some a) :
    ∃ k, (k, a) ∈ es := by
  induction es with
  | nil => cases h
  | cons e rest ih =>
      obtain ⟨k, b⟩ := e
      rw [find?] at h
      split at h
      · cases h
        exact ⟨k, List.mem_cons_self ..⟩
      · obtain ⟨k', hmem⟩ := ih h
        exact ⟨k', List.mem_cons_of_mem _ hmem⟩

/-- Every argument is a node. -/
def Entries.NodesGiven (given : Entries Value) : Prop := ∀ e ∈ given, ∃ n, e.2 = .node n

theorem Entries.NodesGiven.argument {given : Entries Value} (h : given.NodesGiven) (name : String) :
    given.argument name = .null ∨ ∃ n, given.argument name = .node n := by
  unfold Entries.argument
  cases hfind : given.find? (.text name) with
  | none => exact Or.inl rfl
  | some v =>
      obtain ⟨k, hmem⟩ := Entries.mem_of_find? hfind
      obtain ⟨n, rfl⟩ := h _ hmem
      exact Or.inr ⟨n, rfl⟩

theorem Entries.NodesGiven.filter {given : Entries Value} (h : given.NodesGiven)
    (keep : Key × Value → Bool) : Entries.NodesGiven (given.filter keep) :=
  fun e he => h e (List.mem_filter.mp he).1

/-- An operation that is given a node and nothing else has nodes for its arguments. -/
theorem Signature.node_of_bind {sig : Signature} {n : NodeId} {given : Entries Value}
    (h : sig.bind [.node n] [] = .ok given) : given.NodesGiven := by
  have hplaced : given = Entries.ofPairs ((sig.places.map Key.text).zip [.node n]) := by
    simp only [Signature.bind, Signature.addNamed] at h
    change (if _ then _ else _) = _ at h
    split at h
    · cases h
    · split at h
      · exact (Except.ok.inj h).symm
      · cases h
  rw [hplaced]
  intro e he
  -- the one argument goes to the first place, if there is a place
  cases hplaces : sig.places with
  | nil => rw [hplaces] at he; cases he
  | cons place places =>
      rw [hplaces] at he
      have hone : Entries.ofPairs (((place :: places).map Key.text).zip [Value.node n]) =
          [(.text place, .node n)] := by
        simp [Entries.ofPairs, Entries.put]
      rw [hone, List.mem_singleton] at he
      exact ⟨n, congrArg Prod.snd he⟩

namespace Store

open Run

variable {s t : Store}

/-! ## Extra attributes -/

theorem agree_mergeAttributes (h : Twins s t) (n : NodeId) (es : Entries Value) :
    Agree Twins (mergeAttributes n es) s t := by
  induction es generalizing s t with
  | nil => exact .pure () h
  | cons e es ih =>
      refine Agree.get_bind (by rw [h.resembles.cls n]) ?_
      refine Agree.ite (fun _ => ?_) fun _ => ?_
      · exact Agree.bind (.update (h.note _)) fun _ _ _ h' => ih h'
      · exact Agree.bind (agree_of_close (agree_assignExtra ⟨h, .refl s⟩ n e.1 e.2)) fun _ _ _ h' => ih h'

theorem agree_setAttributes (h : Twins s t) (n : NodeId) (mapping : Value) (named : Entries Value) :
    Agree Twins (setAttributes n mapping named) s t :=
  Agree.check_bind (h.resembles.mappingEntries_eq mapping) h
    fun _ _ => agree_mergeAttributes h n _

/-! ## Operations of nodes -/

theorem agree_unit {rel : Store → Store → Prop} {run : Run Unit} (h : Agree rel run s t) :
    Agree rel (unit run) s t :=
  Agree.bind h fun _ _ _ h' => .pure Value.null h'

/-- A question that does not look at hints. -/
theorem agree_question {α : Type} {f : Store → Except Fault α} (h : Twins s t)
    (hf : ∀ {s t : Store}, s.Resembles t → f s = f t) : Agree Twins (Run.check f) s t :=
  Twins.congruence.question h hf

theorem agree_truth {f : Store → Except Fault Bool} (h : Twins s t)
    (hf : ∀ {s t : Store}, s.Resembles t → f s = f t) : Agree Twins (truth f) s t :=
  Twins.congruence.truth h hf

/-- Filling a node anew is making one in its place. -/
theorem agree_reconstruct (hnodes : s.NodesOnly) (h : Twins s t) (n : NodeId) (given : Construction) :
    Agree Twins (reconstruct n given) s t := by
  suffices hrun : Agree (Close s) (reconstruct n given) s t from agree_of_close hrun
  refine Agree.bind (agree_allocate_settled ⟨h, .refl s⟩ rfl) fun attr s₁ t₁ h₁ => ?_
  have hblank (r : NodeRecord) : (NodeRecord.blank r.cls attr).Proper :=
    ⟨⟨_, rfl⟩, fun p hp => by cases hp⟩
  refine Agree.bind (.update ⟨h₁.1.updateNode n (fun _ => rfl) fun r _ => hblank r, h₁.2⟩)
    fun _ s₂ t₂ h₂ => ?_
  exact agree_construct hnodes h₂ n given

/-- A predicate that cannot be asked ends the search at once. -/
theorem isEmptyBy_node (s : Store) (n k : NodeId) : isEmptyBy askByCall n (.node k) s =
    .error (.notCallable (s.qualifiedKindName (.node k))) s := rfl

theorem agree_isEmptyBy (h : Twins s t) (n : NodeId) {predicate : Value}
    (hpredicate : predicate = .null ∨ ∃ k, predicate = .node k) :
    Agree Twins (isEmptyBy askByCall n predicate) s t := by
  rcases hpredicate with rfl | ⟨k, rfl⟩
  · have hrun (u : Store) : isEmptyBy askByCall n .null u = Run.check (fun s => s.isEmpty n) u := rfl
    rw [Agree, hrun, hrun]
    exact agree_question h fun h => h.isEmpty_eq n
  · refine .of_error (isEmptyBy_node s n k) ?_ h
    rw [isEmptyBy_node, h.resembles.qualifiedKindName_eq (.node k)]

/-- A position that is a node, or nothing, is not one that could stamp. -/
theorem agree_askPosition (h : Twins s t) (n : NodeId) {position : Value}
    (hposition : position = .null ∨ ∃ k, position = .node k) :
    Agree Twins (askPosition askByCall n position) s t := by
  rcases hposition with rfl | ⟨k, rfl⟩
  · exact .pure () h
  · have hrun (u : Store) : askPosition askByCall n (.node k) u =
        .error (.notCallable (u.qualifiedKindName (.node k))) u := rfl
    refine .of_error (hrun s) ?_ h
    rw [hrun, h.resembles.qualifiedKindName_eq (.node k)]

theorem agree_mergeMap (hnodes : s.NodesOnly) (h : Twins s t) (n : NodeId) (fields : Value) :
    Agree Twins (mergeMap n fields) s t := by
  have hentries : s.entries? fields = t.entries? fields :=
    h.resembles.entries?_eq fields
  have hrefuse : s.refusal fields "items" = t.refusal fields "items" :=
    h.resembles.refusal_eq fields "items"
  refine Agree.get_bind (by rw [hentries, hrefuse]) ?_
  cases s.entries? fields with
  | some es => exact agree_of_close (agree_mergeFields hnodes ⟨h, .refl s⟩ n es)
  | none => exact .throw _ h

/-- What is given for a name is no text, so that it can only be an extra attribute that is set. -/
theorem agree_assignNamed (h : Twins s t) (n : NodeId) {name : Value} (v : Value)
    (hname : name = .null ∨ ∃ k, name = .node k) : Agree Twins (assignNamed n name v) s t := by
  rcases hname with rfl | ⟨k, rfl⟩
  · exact agree_of_close (agree_assignExtra ⟨h, .refl s⟩ n _ v)
  · exact agree_of_close (agree_assignExtra ⟨h, .refl s⟩ n _ v)

theorem Resembles.extraOf_eq (h : s.Resembles t) (n : NodeId) (name : Value) :
    s.extraOf n name = t.extraOf n name := by
  cases name with
  | text name => exact h.extra_eq n name
  | _ => exact congrArg Except.error (h.refusal_eq _ _)

/-- **Every operation that is given nodes alone ends alike** on twins. -/
theorem agree_operate (h : Twins s t) (hfit : s.Fit) (n : NodeId) (operation : String)
    {given : Entries Value} (hgiven : given.NodesGiven) :
    Agree Twins (operate askByCall n operation given) s t := by
  have hclose : Close s s t := ⟨h, .refl s⟩
  unfold operate
  -- one case for each name
  split
  -- children
  · exact Agree.map (agree_of_close (agree_push hfit.nodesOnly hclose n _))
  · exact Agree.map (agree_of_close (agree_unshift hfit.nodesOnly hclose n _))
  · exact agree_remove h hfit n _
  · exact Twins.congruence.pop h n
  · exact Twins.congruence.shift h n
  -- copies
  · exact Agree.map (agree_clone h n)
  · exact agree_toMap h n
  -- questions
  · exact agree_question h fun h => h.find_eq n _
  · exact agree_truth h fun h => h.isType_eq n _
  · exact agree_truth h fun h => h.hasType_eq n _
  · exact agree_truth h fun h => h.isInside_eq n _
  · exact Agree.map (agree_isEmptyBy h n (hgiven.argument "predicate"))
  -- extra attributes
  · exact agree_question h fun h => h.getAttributes_eq n _ _
  · exact agree_unit (agree_setAttributes h n _ _)
  -- what serves the other operations
  · refine Agree.bind (agree_question h fun h => ?_) fun action s₁ t₁ h₁ => agree_unit ?_
    · rw [funext h.display_eq]
    · exact agree_question h₁ fun h => h.requireNode_eq action _
  · exact agree_unit (agree_mergeMap hfit.nodesOnly h n _)
  · refine agree_unit (Agree.bind (agree_reconstruct hfit.nodesOnly h n _) fun _ _ _ h₁ => ?_)
    exact agree_askPosition h₁ n (hgiven.argument "position")
  · exact Agree.map (agree_question h fun h => h.display_eq _)
  · exact agree_question h fun h => h.extraOf_eq n _
  · exact agree_unit (agree_assignNamed h n _ (hgiven.argument "name"))
  -- no operation of nodes
  · exact .pure Value.null h

/-! ## Calls -/

theorem agree_callUnbound (h : Twins s t) (hfit : s.Fit) (cls name : String) (n : NodeId) :
    Agree Twins (callUnbound askByCall cls name [.node n] []) s t := by
  unfold callUnbound
  split
  · next sig _ =>
      refine Agree.check_bind rfl h fun given hbind => ?_
      have hgiven : given.NodesGiven := Signature.node_of_bind hbind
      split
      · exact agree_truth h fun h => congrArg Except.ok (h.isNode_eq _)
      · next m _ => exact agree_operate h hfit m name (hgiven.filter _)
      · next v _ _ => exact agree_question h fun h => congrArg Except.error (h.missing_eq v name)
  · exact .throw _ h

theorem Resembles.standing_eq (h : s.Resembles t) (tracker : ObjectId) :
    s.standing tracker = t.standing tracker := by
  rw [standing, standing, h.object_eq]

theorem agree_capture (h : Twins s t) (tracker : ObjectId) : Agree Twins (capture tracker) s t := by
  unfold capture
  refine Agree.read_bind (h.resembles.standing_eq tracker) ?_
  obtain ⟨source, line, column⟩ := s.standing tracker
  exact Agree.bind (agree_allocate h _) fun start _ _ h₁ => agree_allocate h₁ _

/-- A node, or nothing, is no text that a tracker could follow. -/
theorem agree_advance (h : Twins s t) (tracker : ObjectId) {chunk : Value}
    (hchunk : chunk = .null ∨ ∃ k, chunk = .node k) : Agree Twins (advance tracker chunk) s t := by
  have hrefuse : s.refusal chunk "count" = t.refusal chunk "count" :=
    h.resembles.refusal_eq chunk "count"
  have hrun (u : Store) : advance tracker chunk u = .error (u.refusal chunk "count") u := by
    rcases hchunk with rfl | ⟨k, rfl⟩
    · rfl
    · rfl
  exact .of_error (hrun s) (hrefuse ▸ hrun t) h

/-- What is asked with the arguments of an operation that may be unknown. -/
theorem agree_bound (h : Twins s t) (sig? : Option Signature) (owner : Value) (name : String) (n : NodeId)
    {run : Entries Value → Run Value}
    (hrun : ∀ given : Entries Value, given.NodesGiven → Agree Twins (run given) s t) :
    Agree Twins (Run.check (fun s => match sig? with
      | some sig => sig.bind [.node n] []
      | none => .error (s.missing owner name)) >>= run) s t := by
  cases sig? with
  | none =>
      refine Agree.check_bind ?_ h fun _ hfail => by cases hfail
      exact congrArg Except.error (h.resembles.missing_eq owner name)
  | some sig => exact Agree.check_bind rfl h fun given hbind => hrun given (Signature.node_of_bind hbind)

theorem agree_callOperation (h : Twins s t) (hfit : s.Fit) (owner : Value) (name : String) (n : NodeId) :
    Agree Twins (callOperation askByCall owner name [.node n] []) s t := by
  have hobject : s.object? owner = t.object? owner :=
    h.resembles.object?_eq owner
  have hmissing (v : Value) : s.missing v name = t.missing v name :=
    h.resembles.missing_eq v name
  refine Agree.get_bind (by simp only [hobject, hmissing]) ?_
  dsimp only
  -- the owner is a class, a node, a tracker, a matcher, or nothing that has operations
  split
  · next cls => exact agree_callUnbound h hfit cls name n
  · next m => exact agree_bound h _ _ name n fun given hgiven => agree_operate h hfit m name hgiven
  · next tracker _ _ _ _ =>
      refine agree_bound h _ _ name n fun given hgiven => Agree.ite (fun _ => ?_) fun _ => ?_
      · exact agree_unit (agree_advance h tracker (hgiven.argument "text"))
      · exact agree_capture h tracker
  · exact agree_bound h _ _ name n fun given _ => agree_truth h fun h => h.objectAccepts_eq _ _
  · exact .throw _ h

theorem agree_stamp (h : Twins s t) (tracker : ObjectId) (start : Value) (n : NodeId) :
    Agree Twins (stamp tracker start (.node n)) s t := by
  unfold stamp
  refine Agree.read_bind (h.resembles.standing_eq tracker) ?_
  obtain ⟨source, line, column⟩ := s.standing tracker
  refine Agree.bind (agree_allocate h _) fun finish s₁ t₁ h₁ => ?_
  refine Agree.bind (agree_allocate h₁ _) fun span s₂ t₂ h₂ => ?_
  refine Agree.bind (agree_of_close (agree_assignExtra ⟨h₂, .refl s₂⟩ n (.text "position") span)) ?_
  exact fun _ _ _ h₃ => .pure _ h₃

/-- **Twins are called alike** with a node, whatever it is that is called. -/
theorem agree_call (h : Twins s t) (hfit : s.Fit) (f : Value) (n : NodeId) :
    Agree Twins (call f [.node n] []) s t := by
  have hobject : s.object? f = t.object? f :=
    h.resembles.object?_eq f
  have hkind (v : Value) : s.qualifiedKindName v = t.qualifiedKindName v :=
    h.resembles.qualifiedKindName_eq v
  have hclass (name : String) : s.nodeClass? name = t.nodeClass? name :=
    h.resembles.nodeClass?_eq name
  refine Agree.get_bind (by simp only [hobject, hkind, hclass]) ?_
  -- a wrapper, a matcher, an operation, a class, or nothing that can be called
  split
  · next tracker start _ _ =>
      have hbind : Signature.wrapping.bind [.node n] [] = .ok [(.text "node", .node n)] := rfl
      refine Agree.check_bind rfl h fun given hgiven => ?_
      cases hbind.symm.trans hgiven
      exact agree_stamp h tracker start n
  · exact Agree.check_bind rfl h fun given _ => agree_truth h fun h => h.objectAccepts_eq _ _
  · exact agree_callOperation h hfit _ _ n
  · next name =>
      split
      · next cls _ =>
          refine Agree.check_bind rfl h fun given hbind => ?_
          have hmade := agree_of_close (agree_createUnplaced hfit.nodesOnly ⟨h, .refl s⟩ cls (.ofArguments given))
          refine Agree.bind hmade fun m _ _ h₁ => ?_
          refine Agree.bind (agree_askPosition h₁ m ?_) fun _ _ _ h₂ => .pure _ h₂
          exact (Signature.node_of_bind hbind).argument "position"
      · refine Agree.ite (fun _ => Agree.bind (.throw _ h) fun _ _ _ h₁ => ?_) fun _ => ?_
        · exact Agree.check_bind rfl h₁ fun given _ => agree_allocate h₁ _
        · exact Agree.check_bind rfl h fun given _ => agree_allocate h _
  · exact .throw _ h

/-- **Twins make nodes alike**, if it is known of the store in which the position is called that no list
    holds a node twice and that debug records can be written. -/
theorem agree_create (h : Twins s t) (hnodes : s.NodesOnly) (cls : NodeClass) (given : Construction)
    (hfit : (after (createUnplaced cls given s)).Fit) : Agree Twins (create cls given) s t := by
  have hmade : Agree Twins (createUnplaced cls given) s t :=
    agree_of_close (agree_createUnplaced hnodes ⟨h, .refl s⟩ cls given)
  rcases hmade.cases with ⟨n, s', t', hs, ht, h'⟩ | ⟨e, s', t', hs, ht, h'⟩
  · rw [hs] at hfit
    rw [Agree, create, bind_of_ok hs, bind_of_ok ht]
    refine Agree.ite (fun _ => ?_) fun _ => .pure n h'
    exact Agree.bind (agree_call h' hfit given.position n) fun _ _ _ h'' => .pure n h''
  · exact .of_error (bind_of_error hs) (bind_of_error ht) h'

end Store
end SyntaxTree
