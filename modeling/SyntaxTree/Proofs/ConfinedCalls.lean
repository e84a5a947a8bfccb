import SyntaxTree.Node.Call
import SyntaxTree.Proofs.ConfinedCopies

/-!
# `Proofs.ConfinedCalls` — calls of things outside of a fence

What is called may be a wrapper, a matcher, a class, or any operation that was taken as a value, with any
arguments. If all of these are outside of a fence, what the call does is done to things outside, and the fence
stands afterwards (`Fence.confined_call`). A predicate is asked by a call, and so is the position that a new node
is given (`Fence.confined_create`).

The arguments of an operation are what it was given by position or by name (`Signature.bind_inherits`). A
tracker that moves stays what it is, so that no object of a fixed kind is changed under its name (`Fence.Tracks`).
-/

namespace SyntaxTree

open Store

/-! ## Arguments -/

section Arguments

variable {P : Value → Prop} {given named : Entries Value}

theorem Signature.addNamed_inherits (hscalar : ∀ v, v.isLink = false → P v) (sig : Signature)
    {start : Entries Value} (hstart : ∀ w ∈ entryValues start, P w) (hnamed : ∀ w ∈ entryValues named, P w)
    (h : sig.addNamed start named = .ok given) : ∀ w ∈ entryValues given, P w := by
  induction named generalizing start with
  | nil =>
      cases h
      exact hstart
  | cons e rest ih =>
      obtain ⟨key, v⟩ := e
      rw [entryValues_cons, List.forall_mem_cons, List.forall_mem_cons] at hnamed
      obtain ⟨hv, -, hrest⟩ := hnamed
      unfold addNamed at h
      split at h
      · next heq => cases heq
      · next heq =>
          cases heq
          dsimp only at h
          split at h
          · cases h
          · split at h
            · exact ih (Entries.put_inherits hstart (hscalar _ rfl) hv) hrest h
            · cases h
      · next heq =>
          cases heq
          exact ih hstart hrest h

/-- What an operation is given by its names was given to it, or is a name. -/
theorem Signature.bind_inherits (hscalar : ∀ v, v.isLink = false → P v) {sig : Signature} {args : List Value}
    (hargs : ∀ v ∈ args, P v) (hnamed : ∀ w ∈ entryValues named, P w) (h : sig.bind args named = .ok given) :
    ∀ w ∈ entryValues given, P w := by
  have hplaced : ∀ w ∈ entryValues (Entries.ofPairs ((sig.places.map Key.text).zip args)), P w := by
    intro w hw
    rcases Entries.mem_entryValues_putAll hw with hw | hw
    · cases hw
    · obtain ⟨e, he, rfl | rfl⟩ := Entries.mem_entryValues.mp hw
      · exact hargs _ (List.of_mem_zip he).2
      · obtain ⟨name, -, hname⟩ := List.mem_map.mp (List.of_mem_zip he).1
        rw [← hname]
        exact hscalar _ rfl
  obtain ⟨bound, hbound, h⟩ := exists_of_bind_ok h
  have hinherits := addNamed_inherits hscalar sig hplaced hnamed hbound
  dsimp only at h
  split at h
  · cases h
  · split at h
    · cases h
      exact hinherits
    · cases h

theorem Entries.argument_inherits (hscalar : ∀ v, v.isLink = false → P v)
    (hgiven : ∀ w ∈ entryValues given, P w) (name : String) : P (given.argument name) := by
  unfold argument
  cases hfind : given.find? (.text name) with
  | none => exact hscalar _ rfl
  | some v => exact hgiven v (find?_mem_entryValues hfind)

end Arguments

namespace Fence

open Run

variable {F : Fence} {u : Store} {v w : Value} {n : NodeId} {o : ObjectId} {given : Entries Value}

/-- All that is given is outside. -/
abbrev Gets (F : Fence) (given : Entries Value) : Prop := ∀ w ∈ entryValues given, F.Outside w

theorem Gets.argument (h : F.Gets given) (name : String) : F.Outside (given.argument name) :=
  Entries.argument_inherits (fun _ => outside_scalar) h name

theorem Gets.filter (h : F.Gets given) (keep : Key × Value → Bool) : F.Gets (given.filter keep) := by
  intro w hw
  obtain ⟨e, he, hw⟩ := Entries.mem_entryValues.mp hw
  exact h w (Entries.mem_entryValues.mpr ⟨e, (List.mem_filter.mp he).1, hw⟩)

theorem Gets.admits (h : F.Gets given) : F.Admits (.ofArguments given) :=
  ⟨h.argument "value", h.argument "type", h.argument "parent"⟩

/-! ## Trackers -/

/-- The fence stands, and the object is of a kind that can change. -/
structure Tracks (F : Fence) (t : ObjectId) (u : Store) : Prop where
  stands : F.Stands u
  changes : (u.object t).isFixed = false

section Trackers

variable {t : ObjectId}

theorem outside_standing (h : F.Stands u) (ht : F.Outside (.object t)) :
    F.Outside (u.standing t).1 ∧ F.Outside (u.standing t).2.1 ∧ F.Outside (u.standing t).2.2 := by
  have hparts := h.contained ht not_false
  unfold standing
  split
  · next hx =>
      rw [hx] at hparts
      simp only [Store.contained, List.forall_mem_cons] at hparts
      exact ⟨hparts.1, hparts.2.1, hparts.2.2.1⟩
  · exact ⟨outside_scalar rfl, outside_scalar rfl, outside_scalar rfl⟩

theorem Tracks.lt_size (h : F.Tracks t u) : t < u.objects.size := by
  refine lt_size_of_object fun hplain => ?_
  have hchanges := h.changes
  rw [hplain] at hchanges
  cases hchanges

theorem Tracks.addObject (h : F.Tracks t u) {x : Object} (hx : ∀ v ∈ Store.contained x, F.Outside v) :
    F.Tracks t (u.addObject x) where
  stands := h.stands.addObject fun _ => hx
  changes := by rw [object_addObject_of_lt u x h.lt_size, h.changes]

theorem Tracks.setTracker (h : F.Tracks t u) (ht : F.Outside (.object t)) {source line column : Value}
    (hsource : F.Outside source) (hline : F.Outside line) (hcolumn : F.Outside column) :
    F.Tracks t (u.setTracker t source line column) where
  stands := by
    refine h.stands.refill ht h.changes ?_
    simp only [Store.contained, List.forall_mem_cons]
    exact ⟨hsource, hline, hcolumn, fun w hw => (by cases hw)⟩
  changes := by
    rw [object_setTracker_self u source line column h.lt_size]
    rfl

/-- What a tracker counts is a number. -/
theorem yields_increase (v : Value) (count : Nat) : Yields (F.Tracks t) (increase v count) F.Outside := by
  unfold increase
  split
  · exact .pure (outside_scalar rfl)
  · exact .pure (outside_scalar rfl)
  · exact fun u h => ⟨h.addObject fun w hw => (by cases hw), outside_scalar rfl⟩
  · exact .pure (outside_scalar rfl)
  · exact fun u h => h
  · refine .check fun u w _ hw => ?_
    split at hw <;> cases hw

theorem tracks_moveInLine (ht : F.Outside (.object t)) (count : Nat) :
    Preserves (F.Tracks t) (moveInLine t count) := by
  refine Preserves.read_bind fun u h => ?_
  obtain ⟨hsource, hline, -⟩ := outside_standing h.stands ht
  generalize u.standing t = standing at hsource hline
  obtain ⟨source, line, column⟩ := standing
  exact (yields_increase column count).bind_preserves fun w hw => .update fun _ h => h.setTracker ht hsource hline hw

theorem tracks_moveLines (ht : F.Outside (.object t)) (count : Nat) :
    Preserves (F.Tracks t) (moveLines t count) := by
  refine Preserves.read_bind fun u h => ?_
  obtain ⟨hsource, -, hcolumn⟩ := outside_standing h.stands ht
  generalize u.standing t = standing at hsource hcolumn
  obtain ⟨source, line, column⟩ := standing
  exact (yields_increase line count).bind_preserves fun w hw => .update fun _ h => h.setTracker ht hsource hw hcolumn

theorem tracks_moveToColumn (ht : F.Outside (.object t)) (column : Nat) :
    Preserves (F.Tracks t) (moveToColumn t column) := by
  refine Preserves.read_bind fun u h => ?_
  obtain ⟨hsource, hline, -⟩ := outside_standing h.stands ht
  generalize u.standing t = standing at hsource hline
  obtain ⟨source, line, _⟩ := standing
  exact .update fun _ h => h.setTracker ht hsource hline (outside_scalar rfl)

theorem tracks_moveText (ht : F.Outside (.object t)) (cs : List Char) : Preserves (F.Tracks t) (moveText t cs) := by
  refine .ite (fun _ => tracks_moveInLine ht _) fun _ => ?_
  exact (tracks_moveLines ht _).bind fun _ => tracks_moveToColumn ht _

/-- A tracker moves past a chunk and stays a tracker. -/
theorem tracks_advance (ht : F.Outside (.object t)) (chunk : Value) : Preserves (F.Tracks t) (advance t chunk) := by
  have hlines {e : Fault} (count : Nat) : Preserves (F.Tracks t) (do moveLines t count; throw e : Run Unit) :=
    (tracks_moveLines ht count).bind fun _ => .throw _
  refine Preserves.get.bind fun u => ?_
  split
  · exact tracks_moveText ht _
  · exact .throw _
  · split
    · exact tracks_moveInLine ht _
    · exact hlines _
  · split
    · exact tracks_moveInLine ht _
    · exact hlines _
  · exact .throw _

theorem confined_newTracker (hv : F.Outside v) : Preserves F.Stands (newTracker v) := by
  refine confined_allocate ?_
  simp only [Store.contained, List.forall_mem_cons]
  exact ⟨hv, outside_scalar rfl, outside_scalar rfl, fun w hw => (by cases hw)⟩

/-- A place in a text, where its line and its column are outside. -/
theorem yields_locationValue (hv : F.Outside v) (hw : F.Outside w) :
    Yields F.Stands (locationValue v w) F.Outside := by
  refine yields_allocate ?_
  simp only [Store.contained, List.forall_mem_cons]
  exact ⟨hv, hw, fun x hx => (by cases hx)⟩

theorem confined_capture (ht : F.Outside (.object t)) : Preserves F.Stands (capture t) := by
  refine Preserves.read_bind fun u h => ?_
  obtain ⟨-, hline, hcolumn⟩ := outside_standing h ht
  generalize u.standing t = standing at hline hcolumn
  obtain ⟨source, line, column⟩ := standing
  refine (yields_locationValue hline hcolumn).bind_preserves fun start hstart => confined_allocate ?_
  simp only [Store.contained, List.forall_mem_cons]
  exact ⟨ht, hstart, fun w hw => (by cases hw)⟩

theorem confined_stamp (ht : F.Outside (.object t)) (hv : F.Outside v) (hw : F.Outside w) :
    Preserves F.Stands (stamp t v w) := by
  refine Preserves.read_bind fun u h => ?_
  obtain ⟨hsource, hline, hcolumn⟩ := outside_standing h ht
  generalize u.standing t = standing at hsource hline hcolumn
  obtain ⟨source, line, column⟩ := standing
  refine (yields_locationValue hline hcolumn).bind_preserves fun finish hfinish => ?_
  have hspan : ∀ w ∈ Store.contained (.position v finish source), F.Outside w := by
    simp only [Store.contained, List.forall_mem_cons]
    exact ⟨hv, hfinish, hsource, fun w hw => (by cases hw)⟩
  refine (yields_allocate hspan).bind_preserves fun span hspan => ?_
  exact (confined_assignAttribute hw "position" hspan).bind fun _ => .pure _

end Trackers

/-! ## Predicates -/

/-- Asking a predicate from outside about a node outside leaves the fence standing. -/
def Heeds (F : Fence) (ask : Asking) : Prop :=
  ∀ predicate n, F.Outside predicate → F.Outside (.node n) → Preserves F.Stands (ask predicate n)

theorem confined_allEmptyBy {search : NodeId → Run Bool}
    (hsearch : ∀ n, F.Outside (.node n) → Preserves F.Stands (search n)) {vs : List Value}
    (hvs : ∀ v ∈ vs, F.Outside v) : Preserves F.Stands (allEmptyBy search vs) := by
  induction vs with
  | nil => exact .pure _
  | cons v vs ih =>
      obtain ⟨hv, hvs⟩ := List.forall_mem_cons.mp hvs
      refine Preserves.check_bind fun u c h hc => ?_
      exact (hsearch c (h.inherited.actor hv hc)).bind fun b => .ite (fun _ => ih hvs) fun _ => .pure _

theorem confined_emptyByWithin {test : NodeId → Run Bool}
    (htest : ∀ n, F.Outside (.node n) → Preserves F.Stands (test n)) (fuel : Nat) (hn : F.Outside (.node n)) :
    Preserves F.Stands (emptyByWithin test fuel n) := by
  induction fuel generalizing n with
  | zero => exact .throw _
  | succ fuel ih =>
      refine (htest n hn).bind fun passes => .ite (fun _ => .pure _) fun _ => ?_
      refine Preserves.get_bind fun u h => .ite (fun _ => .pure _) fun _ => ?_
      exact confined_allEmptyBy (fun m hm => ih hm) (h.all hn).children

theorem confined_isEmptyBy {ask : Asking} (hask : F.Heeds ask) (hn : F.Outside (.node n)) (hv : F.Outside v) :
    Preserves F.Stands (isEmptyBy ask n v) :=
  Preserves.get.bind fun _ => .ite (fun _ => .check _) fun _ =>
    confined_emptyByWithin (fun m hm => hask v m hv hm) _ hn

/-! ## Operations -/

theorem confined_unit {run : Run Unit} (h : Preserves F.Stands run) : Preserves F.Stands (Store.unit run) :=
  h.bind fun _ => .pure _

theorem confined_askPosition {ask : Asking} (hask : F.Heeds ask) (hn : F.Outside (.node n)) (hv : F.Outside v) :
    Preserves F.Stands (askPosition ask n v) :=
  .ite (fun _ => (hask v n hv hn).bind fun _ => .pure _) fun _ => .pure _

theorem confined_truth (f : Store → Except Fault Bool) : Preserves F.Stands (truth f) := .map (.check f)

theorem confined_mergeMap (hn : F.Outside (.node n)) (hv : F.Outside v) : Preserves F.Stands (mergeMap n v) := by
  refine Preserves.get_bind fun u h => ?_
  split
  · next es hes => exact confined_mergeFields hn (h.inherited.entries? hv hes)
  · exact .throw _

theorem confined_assignNamed (hn : F.Outside (.node n)) (hv : F.Outside v) (hw : F.Outside w) :
    Preserves F.Stands (assignNamed n v w) := by
  unfold assignNamed
  split
  · exact confined_assignNode hn _ hw
  · refine confined_assignExtra hn ?_ hw
    rw [Key.value_ofValue]
    exact hv

/-- **An operation of a node outside leaves the fence standing**, whatever it is given from outside. -/
theorem confined_operate {ask : Asking} (hask : F.Heeds ask) (hn : F.Outside (.node n)) (operation : String)
    (hgiven : F.Gets given) : Preserves F.Stands (operate ask n operation given) := by
  unfold operate
  -- one case for each name
  split
  -- children
  · exact .map (confined_push hn (hgiven.argument _))
  · exact .map (confined_unshift hn (hgiven.argument _))
  · exact confined_remove hn (hgiven.argument _)
  · exact confined_pop hn
  · exact confined_shift hn
  -- copies
  · exact .map (yields_clone hn).preserves
  · exact confined_toMap hn
  -- questions
  · exact .check _
  · exact confined_truth _
  · exact confined_truth _
  · exact confined_truth _
  · exact .map (confined_isEmptyBy hask hn (hgiven.argument _))
  -- extra attributes
  · exact .check _
  · exact confined_unit (confined_setAttributes hn (hgiven.argument _) (hgiven.filter _))
  -- what serves the other operations
  · exact (Preserves.check _).bind fun _ => confined_unit (.check _)
  · exact confined_unit (confined_mergeMap hn (hgiven.argument _))
  · refine confined_unit ((confined_reconstruct hn hgiven.admits).bind fun _ => ?_)
    exact confined_askPosition hask hn (hgiven.argument _)
  · exact .map (.check _)
  · exact .check _
  · exact confined_unit (confined_assignNamed hn (hgiven.argument _) (hgiven.argument _))
  -- no operation of nodes
  · exact .pure _

/-! ## Calls -/

section Calls

variable {ask : Asking} {args : List Value} {named : Entries Value}

theorem confined_callUnbound (hask : F.Heeds ask) (cls name : String) (hargs : ∀ v ∈ args, F.Outside v)
    (hnamed : F.Gets named) : Preserves F.Stands (callUnbound ask cls name args named) := by
  unfold callUnbound
  split
  · refine Preserves.check_bind fun u given _ hbind => ?_
    have hgiven : F.Gets given := Signature.bind_inherits (fun _ => outside_scalar) hargs hnamed hbind
    split
    · exact confined_truth _
    · next m hself =>
        have hm : F.Outside (.node m) := hgiven _ (Entries.find?_mem_entryValues hself)
        exact confined_operate hask hm name (hgiven.filter _)
    · exact .check _
  · exact .throw _

/-- What is asked with the arguments of an operation that may be unknown. -/
theorem confined_bound (sig? : Option Signature) (owner : Value) (name : String)
    (hargs : ∀ v ∈ args, F.Outside v) (hnamed : F.Gets named) {run : Entries Value → Run Value}
    (hrun : ∀ given, F.Gets given → Ends (run given) u (fun _ u' => F.Stands u') fun _ u' => F.Stands u')
    (h : F.Stands u) : Ends (Run.check (fun s => match sig? with
      | some sig => sig.bind args named
      | none => .error (s.missing owner name)) >>= run) u (fun _ u' => F.Stands u') fun _ u' => F.Stands u' := by
  rw [ends_bind, ends_check]
  cases sig? with
  | none => exact h
  | some sig =>
      dsimp only
      cases hbind : sig.bind args named with
      | error e => exact h
      | ok given => exact hrun given (Signature.bind_inherits (fun _ => outside_scalar) hargs hnamed hbind)

theorem confined_callOperation (hask : F.Heeds ask) (hv : F.Outside v) (name : String)
    (hargs : ∀ v ∈ args, F.Outside v) (hnamed : F.Gets named) :
    Preserves F.Stands (callOperation ask v name args named) := by
  intro u h
  unfold callOperation
  rw [ends_bind, ends_get]
  dsimp only
  -- the owner is a class, a node, a tracker, a matcher, or nothing that has operations
  split
  · exact confined_callUnbound hask _ name hargs hnamed u h
  · exact confined_bound _ _ name hargs hnamed (fun given hgiven => confined_operate hask hv name hgiven u h) h
  · next t source line column hx =>
      have hchanges : (u.object t).isFixed = false := by
        rw [Option.some.inj hx]
        rfl
      refine confined_bound _ _ name hargs hnamed (fun given _ => ends_ite.mpr ⟨fun _ => ?_, fun _ => ?_⟩) h
      · have hadvance : Preserves (F.Tracks t) (unit (advance t (given.argument "text"))) :=
          (tracks_advance hv _).bind fun _ => .pure _
        exact (hadvance u ⟨h, hchanges⟩).mono (fun _ _ h' => h'.stands) fun _ _ h' => h'.stands
      · exact confined_capture hv u h
  · exact confined_bound _ _ name hargs hnamed (fun given _ => confined_truth _ u h) h
  · exact h

/-- Whatever is called and given from outside, the fence stands. -/
theorem confined_callAsking (hask : F.Heeds ask) (hv : F.Outside v) (hargs : ∀ v ∈ args, F.Outside v)
    (hnamed : F.Gets named) : Preserves F.Stands (callAsking ask v args named) := by
  have hgets {sig : Signature} {given : Entries Value} (hbind : sig.bind args named = .ok given) : F.Gets given :=
    Signature.bind_inherits (fun _ => outside_scalar) hargs hnamed hbind
  refine Preserves.get_bind fun u h => ?_
  -- a wrapper, a matcher, an operation, a class, or nothing that can be called
  split
  · next t start fields hx =>
      have hparts := h.inherited.object? hv hx
      simp only [Store.contained, List.forall_mem_cons] at hparts
      refine Preserves.check_bind fun _ given _ hbind => ?_
      exact confined_stamp hparts.1 hparts.2.1 ((hgets hbind).argument _)
  · exact (Preserves.check _).bind fun _ => confined_truth _
  · next owner name hx =>
      have howner := h.inherited.object? hv hx owner (List.mem_singleton_self _)
      exact confined_callOperation hask howner name hargs hnamed
  · split
    · refine Preserves.check_bind fun _ given _ hbind => ?_
      refine (yields_createUnplaced _ (hgets hbind).admits).bind_preserves fun n hn => ?_
      exact (confined_askPosition hask hn ((hgets hbind).argument _)).bind fun _ => .pure _
    · refine Preserves.ite (fun _ => (Preserves.throw _).bind fun _ => ?_) fun _ => ?_
      all_goals
        exact Preserves.check_bind fun _ given _ hbind => confined_newTracker ((hgets hbind).argument _)
  · exact .throw _

end Calls

theorem heeds_askNode : F.Heeds askNode := fun _ _ _ _ => .check _

/-- Asking by a call with the node is asking things outside. -/
theorem heeds_askByCall : F.Heeds askByCall := by
  intro predicate n hpredicate hn
  have hargs : ∀ v ∈ [Value.node n], F.Outside v := fun v hv => List.mem_singleton.mp hv ▸ hn
  exact (confined_callAsking heeds_askNode hpredicate hargs fun w hw => by cases hw).bind fun _ => .read _

/-- **A call of something outside leaves the fence standing**, whatever it is given from outside. -/
theorem confined_call {args : List Value} {named : Entries Value} (hv : F.Outside v)
    (hargs : ∀ v ∈ args, F.Outside v) (hnamed : F.Gets named) : Preserves F.Stands (call v args named) :=
  confined_callAsking heeds_askByCall hv hargs hnamed

/-- **Making a node from things outside leaves the fence standing**, whatever its position does when it is
called. -/
theorem confined_create (cls : NodeClass) {given : Construction} (hgiven : F.Admits given)
    (hposition : F.Outside given.position) : Preserves F.Stands (create cls given) := by
  refine (yields_createUnplaced cls hgiven).bind_preserves fun n hn => .ite (fun _ => ?_) fun _ => .pure _
  have hargs : ∀ v ∈ [Value.node n], F.Outside v := fun v hv => List.mem_singleton.mp hv ▸ hn
  exact (confined_call hposition hargs fun w hw => by cases hw).bind fun _ => .pure _

end Fence
end SyntaxTree
