import SyntaxTree.Action
import SyntaxTree.Proofs.Fence
import SyntaxTree.Proofs.CopiedContents
import SyntaxTree.Proofs.Mutation

/-!
# `Proofs.Confinement` — operations on things outside of a fence

Whatever is done to a node or an object outside of a fence, and with values from outside, the fence stands
afterwards, also where the operation fails half way. There is one lemma for each operation, and each follows
the program: what a step reads from things outside is outside again, and what it changes is outside.
-/

namespace SyntaxTree

namespace Fence

open Store Run

variable {F : Fence} {u u' : Store} {v w : Value} {n : NodeId} {o : ObjectId} {es : Entries Value}

namespace StandsBut

/-! ## Links and lists -/

theorem setParent (h : F.Stands u) (hn : F.Outside (.node n)) {parent : Option Value}
    (hparent : ∀ p, parent = some p → F.Outside p) : F.Stands (u.setParent n parent) :=
  h.updateNode hn { h.all hn with parent := hparent }

theorem setHint (h : F.Stands u) (hn : F.Outside (.node n)) (hv : F.Outside v) : F.Stands (u.setHint n v) :=
  h.updateNode hn { h.all hn with hint := hv }

theorem setNodes (h : F.Stands u) (hn : F.Outside (.node n)) {nodes : Option (List Value)}
    (hnodes : ∀ v ∈ nodes.getD [], F.Outside v) : F.Stands (u.setNodes n nodes) :=
  h.updateNode hn { h.all hn with children := hnodes }

/-- Taking children away. -/
theorem dropNodes (h : F.Stands u) (hn : F.Outside (.node n)) {nodes : List Value}
    (hnodes : ∀ v ∈ nodes, v ∈ u.children n) : F.Stands (u.setNodes n (some nodes)) :=
  h.setNodes hn fun v hv => (h.all hn).children v (hnodes v hv)

theorem setFreeField (h : F.Stands u) (ho : F.Outside (.object o)) (name : String) (hv : F.Outside v) :
    F.Stands (u.setFreeField o name v) := by
  have hcontained := h.contained ho not_false
  have hput {fields : Entries Value} (hfields : ∀ w ∈ entryValues fields, F.Outside w) :
      ∀ w ∈ entryValues (fields.put (.text name) v), F.Outside w :=
    Entries.put_inherits hfields (outside_scalar rfl) hv
  refine h.updateObject ho (fun _ _ => id) (fun _ hfixed => Object.mapFreeFields_of_isFixed hfixed _) ?_
  cases hx : u.object o with
  | foreign cls marker fields =>
      rw [hx] at hcontained
      exact hput hcontained
  | wrapper tracker start fields =>
      rw [hx] at hcontained
      simp only [Store.contained, List.forall_mem_cons] at hcontained
      simp only [Object.mapFreeFields, Store.contained, List.forall_mem_cons]
      exact ⟨hcontained.1, hcontained.2.1, hput hcontained.2.2⟩
  | _ =>
      rw [hx] at hcontained
      exact hcontained

theorem linkParent (h : F.Stands u) (hv : F.Outside v) (hn : F.Outside (.node n)) :
    F.Stands (u.linkParent v n) := by
  cases v with
  | node c => exact h.setParent hv fun p hp => by cases hp; exact hn
  | object o => exact h.setFreeField hv "parent" hn
  | _ => exact h

theorem hintChild (h : F.Stands u) (hv : F.Outside v) (hw : F.Outside w) : F.Stands (u.hintChild v w) := by
  cases v with
  | node c => exact h.setHint hv hw
  | object o => exact h.setFreeField hv "index" hw
  | _ => exact h

theorem append (h : F.Stands u) (hn : F.Outside (.node n)) (hv : F.Outside v) : F.Stands (u.append n v) := by
  refine ((h.linkParent hv hn).hintChild hv (outside_scalar rfl)).setNodes hn fun w hw => ?_
  rcases List.mem_append.mp hw with hw | hw
  · exact (h.all hn).children w hw
  · rw [List.mem_singleton.mp hw]
    exact hv

theorem prepend (h : F.Stands u) (hn : F.Outside (.node n)) (hv : F.Outside v) : F.Stands (u.prepend n v) := by
  refine ((h.linkParent hv hn).hintChild hv (outside_scalar rfl)).setNodes hn fun w hw => ?_
  rcases List.mem_cons.mp hw with rfl | hw
  · exact hv
  · exact (h.all hn).children w hw

/-! ## Items of containers -/

/-- A container outside gets other items, from outside. -/
theorem refill (h : F.Stands u) (ho : F.Outside (.object o)) {x : Object} (hfixed : (u.object o).isFixed = false)
    (hx : ∀ v ∈ Store.contained x, F.Outside v) : F.Stands (u.updateObject o fun _ => x) :=
  h.updateObject ho (fun _ _ => id) (fun _ hisFixed => by rw [hfixed] at hisFixed; cases hisFixed) hx

theorem putItem (h : F.Stands u) (hv : F.Outside v) {key : Key} (hkey : F.Outside key.value) (hw : F.Outside w)
    (hput : u.putItem v key w = .ok u') : F.Stands u' := by
  cases v with
  | object o =>
      have hcontained := h.contained hv not_false
      unfold Store.putItem at hput
      dsimp only at hput
      split at hput
      · next es hmap =>
          cases hput
          rw [hmap] at hcontained
          exact h.refill hv (by rw [hmap]; rfl) (put_keyAs_inherits hcontained hkey hw)
      · next items hlist =>
          cases hplace : u.placeOf "list" items.length .placeOutOfRange key.value with
          | ok i =>
              rw [hplace] at hput
              cases hput
              rw [hlist] at hcontained
              refine h.refill hv (by rw [hlist]; rfl) fun x hx => ?_
              rcases List.mem_or_eq_of_mem_set hx with hx | rfl
              · exact hcontained x hx
              · exact hw
          | error e => rw [hplace] at hput; cases hput
      · cases hput
  | _ => cases hput

end StandsBut

/-! ## Children -/

theorem confined_push (hn : F.Outside (.node n)) (hv : F.Outside v) : Preserves F.Stands (push n v) :=
  (Preserves.check _).bind fun _ => (Preserves.update fun _ h => h.append hn hv).bind fun _ => .read _

theorem confined_unshift (hn : F.Outside (.node n)) (hv : F.Outside v) : Preserves F.Stands (unshift n v) :=
  (Preserves.check _).bind fun _ => (Preserves.update fun _ h => h.prepend hn hv).bind fun _ => .read _

theorem confined_pushAll (hn : F.Outside (.node n)) {vs : List Value} (hvs : ∀ v ∈ vs, F.Outside v) :
    Preserves F.Stands (pushAll n vs) := by
  induction vs with
  | nil => exact .pure _
  | cons v vs ih =>
      obtain ⟨hv, hvs⟩ := List.forall_mem_cons.mp hvs
      exact (confined_push hn hv).bind fun _ => ih hvs

theorem confined_pop (hn : F.Outside (.node n)) : Preserves F.Stands (pop n) := by
  intro u h
  unfold Ends pop
  cases hlast : (u.children n).getLast? with
  | none => exact h
  | some v => exact h.dropNodes hn fun w hw => List.dropLast_subset _ hw

theorem confined_shift (hn : F.Outside (.node n)) : Preserves F.Stands (shift n) := by
  intro u h
  unfold Ends shift
  cases hchildren : u.children n with
  | nil => exact h
  | cons v rest =>
      refine h.dropNodes hn fun w hw => ?_
      rw [hchildren]
      exact List.mem_cons_of_mem _ hw

theorem confined_deleteAt (hn : F.Outside (.node n)) (position : Value) :
    Preserves F.Stands (deleteAt n position) := by
  intro u h
  rw [Ends, deleteAt_eq]
  cases hnodes : (u.node n).nodes with
  | none => exact h
  | some nodes =>
      dsimp only
      cases u.placeOf "list" nodes.length .placeOutOfRange position with
      | error e => exact h
      | ok i =>
          refine h.dropNodes hn fun w hw => ?_
          rw [children, hnodes]
          exact List.eraseIdx_subset hw

/-! ## Neighbours -/

/-- Showing a value for a debug record changes nothing. -/
theorem confined_shownInRecord (v : Value) : Preserves F.Stands (shownInRecord v) := by
  intro u h
  unfold Ends shownInRecord
  cases u.display v with
  | ok text => exact h
  | error e => cases u.logIsRead <;> exact h

/-- The position that a scan finds is a number. -/
theorem outside_scanned (s : Store) (vs : List Value) (n : NodeId) : F.Outside (s.scanned vs n) := by
  rw [scanned]
  cases position? vs n <;> exact outside_scalar rfl

theorem confined_rescan (hn : F.Outside (.node n)) (siblings : Siblings) :
    Preserves F.Stands (rescan n siblings) := by
  refine (confined_shownInRecord _).bind fun shown => ?_
  refine (Preserves.update fun _ h => h.note _).bind fun _ => (Preserves.check _).bind fun items => ?_
  intro u h
  exact h.setHint hn (outside_scanned u items n)

theorem confined_locate (hn : F.Outside (.node n)) : Preserves F.Stands (locate n) := by
  refine Preserves.get.bind fun s => .ite (fun _ => .check _) fun _ => ?_
  refine (Preserves.check _).bind fun siblings => ?_
  cases siblings with
  | absent => exact .pure _
  | _ => exact (Preserves.check _).bind fun _ => .ite (fun _ => .pure _) fun _ => confined_rescan hn _

theorem confined_readIndex (hn : F.Outside (.node n)) : Preserves F.Stands (readIndex n) :=
  .recover (confined_locate hn) (.check _)

theorem confined_indexOf (hv : F.Outside v) : Preserves F.Stands (indexOf v) := by
  unfold indexOf
  split
  · exact confined_readIndex hv
  · exact .check _

theorem confined_prev (hn : F.Outside (.node n)) : Preserves F.Stands (prev n) := by
  refine .recover ?_ (.check _)
  refine (Preserves.check _).bind fun siblings => Preserves.get.bind fun s => .ite (fun _ => .pure _) fun _ => ?_
  exact (confined_readIndex hn).bind fun index => .ite (fun _ => .check _) fun _ => .pure _

/-- The climb goes from one node outside to the next. -/
theorem confined_nextWithin (fuel : Nat) (hn : F.Outside (.node n)) :
    Preserves F.Stands (nextWithin fuel n) := by
  induction fuel generalizing n with
  | zero => exact .throw _
  | succ fuel ih =>
      refine .recover ?_ (.check _)
      refine (Preserves.check _).bind fun siblings => Preserves.get.bind fun s => .ite (fun _ => .pure _) fun _ => ?_
      refine (confined_readIndex hn).bind fun index => Preserves.get_bind fun s hs => ?_
      refine .ite (fun _ => .pure _) fun _ => ?_
      refine (Preserves.check _).bind fun count => .ite (fun _ => .check _) fun _ => ?_
      split
      · exact .pure _
      · next p hp => exact ih ((hs.all hn).parent _ hp)
      · exact .check _

theorem confined_next (hn : F.Outside (.node n)) : Preserves F.Stands (next n) :=
  Preserves.get.bind fun _ => confined_nextWithin _ hn

theorem confined_remove (hn : F.Outside (.node n)) (hv : F.Outside v) : Preserves F.Stands (remove n v) := by
  refine (Preserves.check _).bind fun _ => (Preserves.check _).bind fun parent => ?_
  refine Preserves.read_bind fun s _ => ?_
  have hdetached : F.Outside (s.detached n) := outside_scalar rfl
  refine Preserves.ite (fun _ => (confined_indexOf hv).bind fun index => ?_)
    fun _ => (Preserves.pure _).bind fun index => ?_
  all_goals
    refine Preserves.ite (fun _ => ?_) fun _ => ?_
    · refine (confined_shownInRecord _).bind fun _ => (confined_shownInRecord _).bind fun _ => ?_
      exact (Preserves.update fun _ h => h.note _).bind fun _ => .pure _
    · refine (confined_deleteAt hn index).bind fun _ => ?_
      exact (Preserves.update fun _ h => h.hintChild hv hdetached).bind fun _ => .pure _

/-! ## Attributes -/

theorem confined_assignExtra (hn : F.Outside (.node n)) {key : Key} (hkey : F.Outside key.value)
    (hv : F.Outside v) : Preserves F.Stands (assignExtra n key v) := by
  refine Preserves.check_bind fun u u' h hput => ?_
  have h' : F.Stands u' := h.putItem (h.all hn).attr hkey hv hput
  exact Preserves.set h'

theorem confined_mergeAttributes (hn : F.Outside (.node n)) (hes : ∀ w ∈ entryValues es, F.Outside w) :
    Preserves F.Stands (mergeAttributes n es) := by
  induction es with
  | nil => exact .pure _
  | cons e rest ih =>
      rw [entryValues_cons, List.forall_mem_cons, List.forall_mem_cons] at hes
      obtain ⟨hvalue, hkey, hrest⟩ := hes
      refine Preserves.get.bind fun s => Preserves.ite (fun _ => ?_) fun _ => ?_
      · exact (Preserves.update fun _ h => h.note _).bind fun _ => ih hrest
      · exact (confined_assignExtra hn hkey hvalue).bind fun _ => ih hrest

theorem confined_setAttributes (hn : F.Outside (.node n)) (hv : F.Outside v)
    (hes : ∀ w ∈ entryValues es, F.Outside w) : Preserves F.Stands (setAttributes n v es) := by
  refine Preserves.check_bind fun u fs h hfs => confined_mergeAttributes hn fun w hw => ?_
  rcases Entries.mem_entryValues_putAll hw with hw | hw
  · exact h.inherited.mappingEntries hv hfs w hw
  · exact hes w hw

/-! ## Assignments -/

theorem confined_assignParent (hn : F.Outside (.node n)) (hv : F.Outside v) :
    Preserves F.Stands (assignParent n v) := by
  refine Preserves.ite (fun _ => ?_) fun _ => (Preserves.check _).bind fun _ => ?_
  · exact .update fun _ h => h.setParent hn fun p hp => by cases hp
  · exact .update fun _ h => h.setParent hn fun p hp => by cases hp; exact hv

theorem confined_assignClass (hn : F.Outside (.node n)) : Preserves F.Stands (assignClass n v) := by
  refine Preserves.get_bind fun u h => ?_
  split
  · split
    · next cls _ =>
        have h' : F.Stands (u.updateNode n fun r => { r with cls }) := h.updateNode hn { h.all hn with }
        exact Preserves.set h'
    · exact .throw _
  · exact .throw _

/-- Whatever an assignment to a member means, the fence stands. -/
theorem confined_assignMember (hn : F.Outside (.node n)) (hv : F.Outside v) (name : String) (m : Member) :
    Preserves F.Stands (assignMember n name v m) := by
  unfold assignMember
  split
  -- the stored fields
  · exact .update fun _ h => h.updateNode hn { h.all hn with type := hv }
  · exact .update fun _ h => h.updateNode hn { h.all hn with value := hv }
  · refine Preserves.check_bind fun u nodes h hnodes => .update fun _ h' => ?_
    exact h'.setNodes hn (h.inherited.childrenOf hv hnodes)
  · exact .update fun _ h => h.updateNode hn { h.all hn with attr := hv }
  · exact .update fun _ h => h.setHint hn hv
  · exact .update fun _ h => h.setHint hn hv
  · exact .update fun _ h => h.setParent hn fun p hp => by cases hp
  · exact confined_assignParent hn hv
  · exact .check _
  · exact confined_assignClass hn
  -- what refuses every assignment
  · exact .throw _
  · exact .check _
  · exact .ite (fun _ => .throw _) fun _ => .check _

theorem confined_assignNode (hn : F.Outside (.node n)) (name : String) (hv : F.Outside v) :
    Preserves F.Stands (assignNode n name v) := by
  unfold assignNode
  split
  · exact confined_assignMember hn hv _ _
  · exact confined_assignExtra hn (outside_scalar rfl) hv

/-- The three fields of a tracker take any value; everything else about it refuses assignment. -/
theorem confined_assignTracker (h : F.Stands u) (ho : F.Outside (.object o)) {source line column : Value}
    (hx : u.object o = .tracker source line column) (name : String) (hv : F.Outside v) :
    Ends (assignTracker o source line column name v) u (fun _ u' => F.Stands u') fun _ u' => F.Stands u' := by
  have hcontained := h.contained ho not_false
  rw [hx] at hcontained
  simp only [Store.contained, List.forall_mem_cons] at hcontained
  obtain ⟨hsource, hline, hcolumn, -⟩ := hcontained
  have hset {a b c : Value} (ha : F.Outside a) (hb : F.Outside b) (hc : F.Outside c) :
      F.Stands (u.setTracker o a b c) := by
    refine h.refill ho (by rw [hx]; rfl) ?_
    simp only [Store.contained, List.forall_mem_cons]
    exact ⟨ha, hb, hc, fun w hw => (by cases hw)⟩
  unfold assignTracker
  split
  · exact ends_update.mpr (hset hv hline hcolumn)
  · exact ends_update.mpr (hset hsource hv hcolumn)
  · exact ends_update.mpr (hset hsource hline hv)
  · exact h
  all_goals first | exact h | exact ends_ite.mpr ⟨fun _ => h, fun _ => h⟩

theorem confined_assignAttribute (hv : F.Outside v) (name : String) (hw : F.Outside w) :
    Preserves F.Stands (assignAttribute v name w) := by
  unfold assignAttribute
  split
  · exact confined_assignNode hv name hw
  · next o =>
      intro u h
      rw [ends_bind, ends_get]
      split
      · next hx => exact confined_assignTracker h hv hx name hw
      · exact h.setFreeField hv name hw
      · exact h.setFreeField hv name hw
      · split <;> exact h
  · exact .pure _
  · exact .check _

/-! ## Reading -/

theorem confined_allocate {x : Object} (hx : ∀ v ∈ Store.contained x, F.Outside v) :
    Preserves F.Stands (allocate x) :=
  .allocate fun _ h => h.addObject fun _ => hx

theorem confined_listValue {nodes : Option (List Value)} (hnodes : ∀ v ∈ nodes.getD [], F.Outside v) :
    Preserves F.Stands (listValue nodes) := by
  cases nodes with
  | none => exact .pure _
  | some items => exact confined_allocate hnodes

/-- Names are texts. -/
theorem outside_names (names : List String) : ∀ v ∈ names.map Value.text, F.Outside v := by
  intro v hv
  obtain ⟨name, -, rfl⟩ := List.mem_map.mp hv
  exact outside_scalar rfl

theorem confined_namesSet (names : List String) : Preserves F.Stands (namesSet names) :=
  confined_allocate (outside_names names)

theorem confined_allocateTuple {items : List Value} (hitems : ∀ v ∈ items, F.Outside v) :
    Preserves F.Stands (allocateTuple items) := by
  intro u h
  have hmade : F.Stands (u.addObject (.collection .tuple items)) := h.addObject fun _ => hitems
  unfold Ends allocateTuple
  cases u.emptyTuple? with
  | none => exact hmade
  | some o =>
      cases items with
      | nil => exact h
      | cons v vs => exact hmade

theorem confined_namesTuple (names : List String) : Preserves F.Stands (namesTuple names) :=
  confined_allocateTuple (outside_names names)

theorem confined_operationOf (hv : F.Outside v) (name : String) : Preserves F.Stands (operationOf v name) :=
  confined_allocate fun _ hw => List.mem_singleton.mp hw ▸ hv

theorem confined_classOperation (name : String) : Preserves F.Stands (classOperation name) := by
  intro u h
  unfold Ends classOperation
  cases u.classOperation? name with
  | some o => exact h
  | none => exact confined_operationOf (outside_scalar rfl) name u h

theorem confined_readSiblings (hn : F.Outside (.node n)) : Preserves F.Stands (readSiblings n) := by
  refine .recover (Preserves.get_bind fun u h => ?_) (.check _)
  split
  · exact .pure _
  · next p hp => exact confined_listValue (h.all ((h.all hn).parent _ hp)).children
  · exact .check _

theorem confined_readMember (hn : F.Outside (.node n)) (name : String) (m : Member) :
    Preserves F.Stands (readMember n name m) := by
  have hforeign : Preserves F.Stands (allocate (.foreign "ReferenceType" .null [])) :=
    confined_allocate fun _ hw => by cases hw
  have hnodes : Preserves F.Stands (do listValue (← Run.read fun s => (s.node n).nodes)) :=
    Preserves.read_bind fun u h => confined_listValue (h.all hn).children
  cases m with
  | nodes => exact hnodes
  | children => exact hnodes
  | link => exact (Preserves.read _).bind fun _ => .ite (fun _ => .pure _) fun _ => hforeign
  | index => exact confined_readIndex hn
  | siblings => exact confined_readSiblings hn
  | prev => exact confined_prev hn
  | next => exact confined_next hn
  | scope => exact .recover (.check _) (.check _)
  | reserved => exact (Preserves.read _).bind fun _ => confined_namesSet _
  | fields => exact (Preserves.read _).bind fun _ => confined_namesTuple _
  | operation => exact .ite (fun _ => confined_classOperation name) fun _ => confined_operationOf hn name
  | marker => exact .pure _
  | watchers => exact .pure _
  | remark => exact .pure _
  | classOnly => exact .check fun s => s.extra n name
  | _ => exact .read _

theorem confined_readNode (hn : F.Outside (.node n)) (name : String) : Preserves F.Stands (readNode n name) := by
  unfold readNode
  split
  · exact confined_readMember hn name _
  · exact .check _

theorem confined_readClass (cls : NodeClass) (name : String) : Preserves F.Stands (readClass cls name) := by
  unfold readClass
  split
  · exact .pure _
  · exact confined_namesSet _
  · exact .pure _
  · exact confined_namesTuple _
  · exact confined_classOperation name
  · exact .pure _
  · exact .throw _
  · exact .throw _
  · exact confined_allocate fun _ hw => by cases hw

/-- What is read off an object outside is either there already or made of what is. -/
theorem confined_readObject (hv : F.Outside v) {x : Object} (hx : ∀ w ∈ Store.contained x, F.Outside w)
    {name : String} {run : Run Value} (hrun : readObject? v name x = some run) : Preserves F.Stands run := by
  unfold readObject? at hrun
  split at hrun
  -- the parts are there already
  all_goals try (cases hrun; exact .pure _)
  · -- the location of a tracker is made of its line and its column
    cases hrun
    exact confined_allocate fun w hw => hx w (List.mem_cons_of_mem _ hw)
  · obtain ⟨names, -, rfl⟩ := Option.map_eq_some_iff.mp hrun
    exact confined_namesTuple names
  · split at hrun
    · cases hrun
      exact confined_operationOf hv name
    · cases hrun

theorem confined_readAttribute (hv : F.Outside v) (name : String) : Preserves F.Stands (readAttribute v name) := by
  refine Preserves.get_bind fun u h => ?_
  split
  · exact confined_readNode hv name
  · exact .pure _
  · split
    · exact confined_readClass _ name
    · exact .throw _
  · refine .ite (fun _ => .pure _) fun _ => ?_
    split
    · next run hrun =>
        obtain ⟨x, hx, hrun⟩ := Option.bind_eq_some_iff.mp hrun
        exact confined_readObject hv (h.inherited.object? hv hx) hrun
    · exact .throw _

/-! ## Making nodes -/

theorem yields_allocate {x : Object} (hx : ∀ v ∈ Store.contained x, F.Outside v) :
    Yields F.Stands (allocate x) F.Outside := fun _ h =>
  ends_allocate.mpr ⟨h.addObject fun _ => hx, outside_newObject h.objects⟩

theorem yields_blank (cls : NodeClass) : Yields F.Stands (blank cls) fun n => F.Outside (.node n) := by
  refine (yields_allocate fun _ hw => by cases hw).bind fun attr hattr => ?_
  intro u h
  exact ⟨h.addNode (all_blank hattr), outside_newNode h.nodes⟩

theorem yields_mergeField (hn : F.Outside (.node n)) (hv : F.Outside v) {key : Key} (hkey : F.Outside key.value)
    (hw : F.Outside w) : Yields F.Stands (mergeField n v key w) F.Outside := by
  have hkept {run : Run Unit} (hrun : Preserves F.Stands run) :
      Yields F.Stands (do run; return v) F.Outside := hrun.yields.bind fun _ _ => .pure hv
  refine Yields.get.bind fun s _ => ?_
  split
  · exact hkept (.update fun _ h => h.note _)
  · split
    · exact hkept (confined_assignMember hn hw _ _)
    · exact hkept (confined_assignMember hn hw _ _)
    · exact hkept (confined_assignMember hn hw _ _)
    · exact .pure hw
    · exact .pure hw
    · split
      · exact hkept (confined_assignParent hn hw)
      · exact .pure hv
    · exact hkept (confined_assignExtra hn hkey hw)

theorem yields_mergeEach (hn : F.Outside (.node n)) (hv : F.Outside v) (hes : ∀ w ∈ entryValues es, F.Outside w) :
    Yields F.Stands (mergeEach n v es) F.Outside := by
  induction es generalizing v with
  | nil => exact .pure hv
  | cons e rest ih =>
      rw [entryValues_cons, List.forall_mem_cons, List.forall_mem_cons] at hes
      obtain ⟨hvalue, hkey, hrest⟩ := hes
      exact (yields_mergeField hn hv hkey hvalue).bind fun children hchildren => ih hchildren hrest

theorem confined_mergeFields (hn : F.Outside (.node n)) (hes : ∀ w ∈ entryValues es, F.Outside w) :
    Preserves F.Stands (mergeFields n es) := by
  refine (yields_mergeEach hn (outside_scalar rfl) hes).bind_preserves fun children hchildren => ?_
  refine .ite (fun _ => ?_) fun _ => .pure _
  refine Preserves.check_bind fun u items h hitems => (Preserves.check _).bind fun _ => ?_
  exact confined_pushAll hn (h.inherited.items hchildren hitems)

/-- What a node is made from is outside. -/
structure Admits (F : Fence) (given : Construction) : Prop where
  value : F.Outside given.value
  type : F.Outside given.type
  parent : F.Outside given.parent

theorem yields_fill (hn : F.Outside (.node n)) {given : Construction} (hgiven : F.Admits given) :
    Yields F.Stands (fill n given) F.Outside := by
  refine Yields.get.bind fun u h => ?_
  have hset {r : NodeRecord → NodeRecord} (hr : (r (u.node n)).All F.Outside) :
      Yields F.Stands (set (u.updateNode n r)) fun _ => True :=
    (Preserves.set (h.updateNode hn hr)).yields
  split
  · next hfields =>
      have hmerged := confined_mergeFields hn (h.inherited.entries? hgiven.value hfields)
      exact hmerged.yields.bind fun _ _ => .pure hgiven.parent
  · refine (hset ?_).bind fun _ _ => .pure hgiven.parent
    exact { h.all hn with type := hgiven.type, value := hgiven.value }
  · refine (hset ?_).bind fun _ _ => .pure hgiven.parent
    exact { h.all hn with type := hgiven.type, value := hgiven.value }
  · refine (hset ?_).bind fun _ _ => .pure hgiven.type
    exact { h.all hn with value := hgiven.value }

theorem confined_construct (hn : F.Outside (.node n)) {given : Construction} (hgiven : F.Admits given) :
    Preserves F.Stands (construct n given) := by
  refine (yields_fill hn hgiven).bind_preserves fun parent hparent => ?_
  exact .ite (fun _ => confined_assignParent hn hparent) fun _ => .pure _

theorem yields_createUnplaced (cls : NodeClass) {given : Construction} (hgiven : F.Admits given) :
    Yields F.Stands (createUnplaced cls given) fun n => F.Outside (.node n) :=
  (yields_blank cls).bind fun _ hn => (confined_construct hn hgiven).yields.bind fun _ _ => .pure hn

/-- Emptying a node outside and filling it anew. -/
theorem confined_reconstruct (hn : F.Outside (.node n)) {given : Construction} (hgiven : F.Admits given) :
    Preserves F.Stands (reconstruct n given) := by
  refine (yields_allocate fun w hw => by cases hw).bind_preserves fun attr hattr => ?_
  refine (Preserves.update fun _ h => h.updateNode hn (all_blank hattr)).bind fun _ => ?_
  exact confined_construct hn hgiven

/-! ## Containers -/

theorem confined_appendItem (hv : F.Outside v) (hw : F.Outside w) : Preserves F.Stands (appendItem v w) := by
  refine Preserves.get_bind fun u h => ?_
  split
  · next o items hlist =>
      have hx : u.object o = .collection .list items := Option.some.inj hlist
      have hitems := h.contained hv not_false
      rw [hx] at hitems
      refine Preserves.set (h.refill hv (by rw [hx]; rfl) fun x hx => ?_)
      rcases List.mem_append.mp hx with hx | hx
      · exact hitems x hx
      · rw [List.mem_singleton.mp hx]
        exact hw
  · exact .throw _

theorem confined_putEntry (hv : F.Outside v) {key : Value} (hkey : F.Outside key) (hw : F.Outside w) :
    Preserves F.Stands (putEntry v key w) := by
  have hvalue : F.Outside (Key.ofValue key).value := by rwa [Key.value_ofValue]
  refine (Preserves.check _).bind fun _ => Preserves.check_bind fun u u' h hput => ?_
  exact .set (h.putItem hv hvalue hw hput)

end Fence
end SyntaxTree
