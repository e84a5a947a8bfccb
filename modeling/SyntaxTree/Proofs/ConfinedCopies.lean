import SyntaxTree.Proofs.Confinement
import SyntaxTree.Proofs.PlainData

/-!
# `Proofs.ConfinedCopies` — copies are outside

A deep copy of a value from outside of a fence is outside, whatever it leads to. So is a deep copy of plain
data that is enclosed: all that could change in it is made anew, and a tuple is its own copy only if nothing
in it could change. While that copy is made, a new object may hold parts of the original for some time; it is
pending until its parts are replaced by their copies.

So the clone of a tree is outside: either the tree is, or everything of before is enclosed, and the payload
of the tree is plain data with types that cannot change.
-/

namespace SyntaxTree

namespace Store.Copying

variable {α β : Type} {inv : Copying → Prop}

/-- The invariant outlives the step, and what the step gives has a property. -/
def Gives (inv : Copying → Prop) (p : Step α) (property : α → Prop) : Prop :=
  ∀ c, inv c → inv (p.run c).2 ∧ property (p.run c).1

theorem Gives.pure {a : α} {property : α → Prop} (h : property a) : Gives inv (pure a : Step α) property :=
  fun _ hc => ⟨hc, h⟩

/-- Copying with an invariant, whatever else may change. -/
def keeping (inv : Copying → Prop) : Course where
  holds := inv
  later _ _ := True
  refl _ := trivial
  trans _ _ := trivial

theorem Gives.keeps {p : Step α} {property : α → Prop} (h : Gives inv p property) :
    (keeping inv).Gives p fun _ => property :=
  fun c hc => ⟨(h c hc).1, trivial, (h c hc).2⟩

section Parts

variable {copy : Value → Step Value} {property : Value → Prop}

theorem stable_property (inv : Copying → Prop) (property : Value → Prop) (_ w : Value) :
    (keeping inv).Stable fun _ => property w :=
  fun _ _ _ => id

theorem forall_of_forall₂ {vs ws : List Value} (h : List.Forall₂ (fun _ => property) vs ws) :
    ∀ w ∈ ws, property w := by
  intro w hw
  obtain ⟨v, -, hproperty⟩ := exists_of_forall₂ h.flip hw
  exact hproperty

/-- An object is remade from copies of what stands in it. -/
theorem gives_contents {x : Object} (hshared : isShared x = false)
    (h : ∀ v ∈ contained x, Gives inv (copy v) property) :
    Gives inv (contents copy x) fun made => ∀ w ∈ contained made, property w := by
  intro c hc
  obtain ⟨hc', -, hmade⟩ := Course.gives_contents (stable_property inv property) hshared
    (fun v hv => (h v hv).keeps) c hc
  exact ⟨hc', forall_of_forall₂ hmade.parts⟩

/-- A node is remade from copies of what stands in it, but for its parent. -/
theorem gives_nodeContents {r : NodeRecord} (hparent : ∀ p, r.parent = some p → property p)
    (h : r.All fun v => Gives inv (copy v) property) :
    Gives inv (nodeContents copy r) fun made => made.All property := by
  intro c hc
  obtain ⟨hc', -, hmade⟩ := Course.gives_nodeContents (stable_property inv property)
    (fun v hv => (h.held (List.mem_append_left _ hv)).keeps) c hc
  exact ⟨hc', forall_of_forall₂ hmade.children, hmade.type, hmade.value, hmade.attr, hmade.hint,
    fun p hp => hparent p (hmade.parent ▸ hp)⟩

end Parts

end Store.Copying

namespace Fence

open Store Copying Run

variable {F : Fence} {pending : ObjectId → Prop} {u : Store} {v w : Value} {n : NodeId} {o : ObjectId}

/-! ## Copying -/

/-- The fence stands but for what is pending, and all copies so far are outside. -/
structure Watches (F : Fence) (pending : ObjectId → Prop) (c : Copying) : Prop where
  stands : F.StandsBut pending c.store
  copies : ∀ v w, c.copies.lookup v = some w → F.Outside w

/-- A copy of so many levels of the value is outside: the value is, and nothing is pending, or everything of
the base is enclosed and the value is plain data of no more levels. -/
inductive Copyable (F : Fence) (pending : ObjectId → Prop) (depth : Nat) (v : Value) : Prop
  | outside : F.Outside v → (∀ o, ¬ pending o) → Copyable F pending depth v
  | data : (∀ w, F.base.Has w → F.encloses w) → F.base.DataWithin depth v → Copyable F pending depth v

theorem Watches.remember {c : Copying} (h : F.Watches pending c) (v : Value) (hw : F.Outside w) :
    F.Watches pending { c with copies := (v, w) :: c.copies } where
  stands := h.stands
  copies u x hlookup := by
    rw [List.lookup_cons] at hlookup
    split at hlookup
    · cases hlookup
      exact hw
    · exact h.copies u x hlookup

/-- Plain data that is enclosed is in the store what it was in the base. -/
theorem Watches.object {c : Copying} (hc : F.Watches pending c) (hall : ∀ w, F.base.Has w → F.encloses w)
    {depth : Nat} (h : F.base.DataWithin depth (.object o)) : c.store.object o = F.base.object o :=
  hc.stands.object o (hall _ h.cases_object.1)

/-- What stands in an object that can be copied can be copied as well. -/
theorem Copyable.contained {c : Copying} (hc : F.Watches pending c) {depth : Nat}
    (h : F.Copyable pending (depth + 1) (.object o)) (hw : w ∈ contained (c.store.object o)) :
    F.Copyable pending depth w := by
  cases h with
  | outside hout hnone => exact .outside (hc.stands.contained hout (hnone o) w hw) hnone
  | data hall hdata =>
      rw [hc.object hall hdata] at hw
      obtain ⟨-, -, j, hj, hparts⟩ := hdata.cases_object
      cases hj
      exact .data hall (hparts w hw)

/-- What copies share cannot change, if it is plain data. -/
theorem Copyable.outside_shared {c : Copying} (hc : F.Watches pending c) {depth : Nat}
    (h : F.Copyable pending depth (.object o)) (hshared : isShared (c.store.object o)) :
    F.Outside (.object o) := by
  cases h with
  | outside hout _ => exact hout
  | data hall hdata =>
      rw [hc.object hall hdata] at hshared
      obtain ⟨hlt, ⟨l, hlabel⟩, -⟩ := hdata.cases_object
      cases hx : F.base.object o with
      | method owner name =>
          cases owner with
          | cls cls =>
              refine Or.inr (.object hlt (by rw [hx]; rfl) fun w hw => ?_)
              rw [hx] at hw
              rw [List.mem_singleton.mp hw]
              exact .scalar rfl
          | _ => rw [hx] at hshared; cases hshared
      | wrapper tracker start fields => rw [hx] at hlabel; cases hlabel
      | _ => rw [hx] at hshared; cases hshared

/-- A tuple of plain data that is its own copy cannot change. -/
theorem Copyable.outside_ownCopy {c : Copying} (hc : F.Watches pending c) {depth : Nat}
    (h : F.Copyable pending depth (.object o)) {made : Object} (hown : isOwnCopy (c.store.object o) made)
    (hmade : ∀ w ∈ Store.contained made, F.Outside w) : F.Outside (.object o) := by
  cases h with
  | outside hout _ => exact hout
  | data hall hdata =>
      rw [hc.object hall hdata] at hown
      obtain ⟨hlt, -, j, -, hparts⟩ := hdata.cases_object
      unfold isOwnCopy at hown
      split at hown
      · next items copies hx =>
          rw [hx] at hparts
          refine Or.inr (.object hlt (by rw [hx]; rfl) fun w hw => ?_)
          rw [hx] at hw
          -- an item is its own copy too, and so it is outside although it is enclosed
          have hout : F.Outside w := hmade w (of_decide_eq_true hown ▸ hw)
          cases hparts w hw with
          | scalar hscalar => exact .scalar hscalar
          | object hlabel hitems =>
              exact hout.resolve_left (not_not_intro (hall _ (DataWithin.object hlabel hitems).cases_object.1))
      · cases hown

section Objects

variable {copy : Value → Step Value} {depth : Nat} {c : Copying} {x : Object}

/-- The copy of an object that is made of ready parts. -/
theorem gives_madeLast (hcopy : ∀ w, F.Copyable pending depth w → Gives (F.Watches pending) (copy w) F.Outside)
    (h : F.Copyable pending (depth + 1) (.object o)) (hc : F.Watches pending c) (hx : c.store.object o = x)
    (hshared : isShared x = false) (hlast : isMadeLast x = true) :
    F.Watches pending ((ofObject copy o x).run c).2 ∧ F.Outside ((ofObject copy o x).run c).1 := by
  have hparts := gives_contents hshared fun w hw => hcopy w (h.contained hc (hx ▸ hw))
  obtain ⟨hc', hmade⟩ := hparts c hc
  generalize hrun : (contents copy x).run c = result at hc' hmade
  obtain ⟨made, c'⟩ := result
  rcases run_madeLast (o := o) hshared hlast hrun with ⟨earlier, hearlier, hrun⟩ | ⟨hown, hrun⟩ | hrun
  · rw [hrun]
    exact ⟨hc', hc'.copies _ _ hearlier⟩
  · rw [hrun]
    exact ⟨hc', h.outside_ownCopy hc (hx ▸ hown) hmade⟩
  · rw [hrun]
    have hp : F.Outside (.object c'.store.objects.size) := outside_newObject hc'.stands.objects
    have hadded : F.Watches pending { c' with store := c'.store.addObject made } :=
      ⟨hc'.stands.addObject fun _ => hmade, hc'.copies⟩
    exact ⟨hadded.remember _ hp, hp⟩

/-- The copy of an object that gets its place first. Plain data is pending until its parts are copied. -/
theorem gives_madeFirst (hcopy : ∀ {pending : ObjectId → Prop} (w : Value), F.Copyable pending depth w →
      Gives (F.Watches pending) (copy w) F.Outside)
    (h : F.Copyable pending (depth + 1) (.object o)) (hc : F.Watches pending c) (hx : c.store.object o = x)
    (hshared : isShared x = false) (hlast : isMadeLast x = false) :
    F.Watches pending ((ofObject copy o x).run c).2 ∧ F.Outside ((ofObject copy o x).run c).1 := by
  have hp : F.Outside (.object c.store.objects.size) := outside_newObject hc.stands.objects
  have hplace : ∃ pending' : ObjectId → Prop, (∀ p, p ≠ c.store.objects.size → pending' p → pending p) ∧
      F.StandsBut pending' (c.store.addObject x) ∧ ∀ w ∈ contained x, F.Copyable pending' depth w := by
    cases h with
    | outside hout hnone =>
        have hparts : ∀ w ∈ contained x, F.Outside w := hx ▸ hc.stands.contained hout (hnone o)
        exact ⟨pending, fun _ _ => id, hc.stands.addObject fun _ => hparts, fun w hw => .outside (hparts w hw) hnone⟩
    | data hall hdata =>
        refine ⟨fun p => p = c.store.objects.size ∨ pending p, fun p hne => (·.resolve_left hne), ?_, fun w hw => ?_⟩
        · exact (hc.stands.weaken fun p => Or.inr).addObject fun hnot => absurd (Or.inl rfl) hnot
        · rw [← hx, hc.object hall hdata] at hw
          obtain ⟨-, -, j, hj, hparts⟩ := hdata.cases_object
          cases hj
          exact .data hall (hparts w hw)
  obtain ⟨pending', hsettled, hstands, hparts⟩ := hplace
  have hstart : F.Watches pending' ⟨c.store.addObject x, (.object o, .object c.store.objects.size) :: c.copies⟩ :=
    Watches.remember (c := ⟨c.store.addObject x, c.copies⟩) ⟨hstands, hc.copies⟩ _ hp
  obtain ⟨hc', hmade⟩ := gives_contents hshared (fun w hw => hcopy w (hparts w hw)) _ hstart
  generalize hrun : (contents copy x).run _ = result at hc' hmade
  obtain ⟨made, c'⟩ := result
  rw [run_madeFirst hshared hlast hrun]
  refine ⟨⟨hc'.stands.updateObject hp hsettled (fun hlt => ?_) hmade, hc'.copies⟩, hp⟩
  exact absurd hlt (Nat.not_lt_of_le hc.stands.objects)

theorem gives_ofObject (hcopy : ∀ {pending : ObjectId → Prop} (w : Value), F.Copyable pending depth w →
      Gives (F.Watches pending) (copy w) F.Outside)
    (h : F.Copyable pending (depth + 1) (.object o)) (hc : F.Watches pending c) :
    F.Watches pending ((ofObject copy o (c.store.object o)).run c).2 ∧
      F.Outside ((ofObject copy o (c.store.object o)).run c).1 := by
  cases hshared : isShared (c.store.object o) with
  | true =>
      rw [ofObject, if_pos hshared]
      exact ⟨hc, h.outside_shared hc hshared⟩
  | false =>
      cases hlast : isMadeLast (c.store.object o) with
      | true => exact gives_madeLast (fun w => hcopy w) h hc rfl hshared hlast
      | false => exact gives_madeFirst hcopy h hc rfl hshared hlast

/-- A node is copied only from outside, and keeps its parent. -/
theorem gives_ofNode (hcopy : ∀ {pending : ObjectId → Prop} (w : Value), F.Copyable pending depth w →
      Gives (F.Watches pending) (copy w) F.Outside)
    (h : F.Copyable pending (depth + 1) (.node n)) (hc : F.Watches pending c) :
    F.Watches pending ((ofNode copy n (c.store.node n)).run c).2 ∧
      F.Outside ((ofNode copy n (c.store.node n)).run c).1 := by
  cases h with
  | data _ hdata => cases hdata with | scalar hscalar => cases hscalar
  | outside hout hnone =>
      have hall := hc.stands.all hout
      have hm : F.Outside (.node c.store.nodes.size) := outside_newNode hc.stands.nodes
      have hstart : F.Watches pending
          ⟨c.store.addNode (c.store.node n), (.node n, .node c.store.nodes.size) :: c.copies⟩ :=
        Watches.remember (c := ⟨c.store.addNode (c.store.node n), c.copies⟩)
          ⟨hc.stands.addNode hall, hc.copies⟩ _ hm
      have hgives {w : Value} (hw : F.Outside w) : Gives (F.Watches pending) (copy w) F.Outside :=
        hcopy w (.outside hw hnone)
      have hparts : (c.store.node n).All fun w => Gives (F.Watches pending) (copy w) F.Outside :=
        ⟨fun w hw => hgives (hall.children w hw), hgives hall.type, hgives hall.value, hgives hall.attr,
          hgives hall.hint, fun p hp => hgives (hall.parent p hp)⟩
      obtain ⟨hc', hmade⟩ := gives_nodeContents hall.parent hparts _ hstart
      exact ⟨⟨hc'.stands.updateNode hm hmade, hc'.copies⟩, hm⟩

end Objects

/-- **A copy of what can be copied is outside.** -/
theorem gives_within (depth : Nat) (h : F.Copyable pending depth v) :
    Gives (F.Watches pending) (within depth v) F.Outside := by
  induction depth generalizing pending v with
  | zero =>
      refine .pure ?_
      cases h with
      | outside hout _ => exact hout
      | data _ hdata => cases hdata with | scalar hscalar => exact outside_scalar hscalar
  | succ depth ih =>
      intro c hc
      rw [run_within]
      cases hearlier : c.copies.lookup v with
      | some w => exact ⟨hc, hc.copies v w hearlier⟩
      | none =>
          cases v with
          | node n => exact gives_ofNode (fun w hw => ih hw) h hc
          | object o => exact gives_ofObject (fun w hw => ih hw) h hc
          | _ => exact ⟨hc, outside_scalar rfl⟩

/-- The value is outside, or enclosed plain data. -/
def Takes (F : Fence) (v : Value) : Prop :=
  F.Outside v ∨ (∀ w, F.base.Has w → F.encloses w) ∧ F.base.Data v

theorem yields_copy (h : F.Takes v) : Yields F.Stands (copy v) F.Outside := by
  intro u hu
  have hcopyable : F.Copyable (fun _ => False) u.copyDepth v := by
    rcases h with hout | ⟨hall, hdata⟩
    · exact .outside hout fun _ => id
    · refine .data hall (hdata.within (hu.objects.trans ?_))
      calc u.objects.size ≤ u.objects.size + 2 := Nat.le_add_right _ _
        _ ≤ (u.nodes.size + u.objects.size + 2) * (u.objects.size + 2) := Nat.le_mul_of_pos_left _ (by omega)
  have hstart : F.Watches (fun _ => False) ⟨u, []⟩ := ⟨hu, fun v w hlookup => by cases hlookup⟩
  obtain ⟨hc, hw⟩ := gives_within u.copyDepth hcopyable _ hstart
  rw [Ends, copy_eq]
  exact ⟨hc.stands, hw⟩

/-! ## Cloning -/

/-- A clone of a node with this record is outside: the type is, and value and attributes are, or are enclosed
plain data. -/
structure Duplicates (F : Fence) (r : NodeRecord) : Prop where
  type : F.Outside r.type
  value : F.Takes r.value
  attr : F.Takes r.attr

theorem duplicates_of_all {r : NodeRecord} (h : r.All F.Outside) : F.Duplicates r :=
  ⟨h.type, Or.inl h.value, Or.inl h.attr⟩

theorem yields_clonePayload (hn : ∀ u, F.Stands u → F.Duplicates (u.node n)) :
    Yields F.Stands (clonePayload n) fun c => F.Outside (.node c) := by
  refine (Yields.read hn).bind fun r hr => (yields_blank r.cls).bind fun c hc => ?_
  have hset {f : NodeRecord → NodeRecord} (hf : ∀ r, r.All F.Outside → (f r).All F.Outside) :
      Yields F.Stands (Run.update fun s => s.updateNode c f) fun _ => True :=
    (Preserves.update fun _ h => h.updateNode hc (hf _ (h.all hc))).yields
  have hbare : ∀ w ∈ (r.nodes.map fun _ => ([] : List Value)).getD [], F.Outside w := by
    cases r.nodes <;> exact fun w hw => (by cases hw)
  refine Yields.bind (hset fun fresh h => ?_) fun _ _ => (yields_copy hr.value).bind fun value hvalue => ?_
  · exact { h with type := hr.type }
  refine Yields.bind (hset fun fresh h => ?_) fun _ _ => (yields_copy hr.attr).bind fun attr hattr => ?_
  · exact { h with value := hvalue }
  refine Yields.bind (hset fun fresh h => ?_) fun _ _ => .pure hc
  exact { h with attr := hattr, children := hbare }

mutual

/-- **The clone of a tree is outside**, if that of every node in it is. -/
theorem yields_cloneTree : (t : Subtree) → (∀ n ∈ t.preorder, ∀ u, F.Stands u → F.Duplicates (u.node n)) →
    Yields F.Stands (cloneTree t) fun c => F.Outside (.node c)
  | .node n branches, h => by
      rw [Subtree.preorder, List.forall_mem_cons] at h
      rw [cloneTree]
      refine (yields_clonePayload h.1).bind fun c hc => ?_
      exact (confined_cloneInto branches h.2 hc).yields.bind fun _ _ => .pure hc

theorem confined_cloneInto : (ts : List Subtree) → ∀ {p : NodeId},
    (∀ n ∈ Subtree.preorderAll ts, ∀ u, F.Stands u → F.Duplicates (u.node n)) → F.Outside (.node p) →
      Preserves F.Stands (cloneInto p ts)
  | [], p, _, _ => by
      rw [cloneInto]
      exact .pure _
  | t :: ts, p, h, hp => by
      rw [Subtree.preorderAll, List.forall_mem_append] at h
      rw [cloneInto]
      refine (yields_cloneTree t h.1).bind_preserves fun c hc => ?_
      exact (confined_push hp hc).bind fun _ => confined_cloneInto ts h.2 hp

end

/-- The tree below a node outside consists of nodes outside. -/
theorem outside_subtreeWithin (h : F.Stands u) (operation : String) (fuel : Nat) (hn : F.Outside (.node n))
    {t : Subtree} (ht : u.subtreeWithin operation fuel n = .ok t) : ∀ m ∈ t.preorder, F.Outside (.node m) :=
  forall_mem_subtreeWithin (fun _ hm v hv _ hc => h.inherited.actor ((h.all hm).children v hv) hc) fuel hn ht

theorem yields_clone (hn : F.Outside (.node n)) : Yields F.Stands (clone n) fun c => F.Outside (.node c) := by
  refine Yields.bind (Yields.check fun u t h ht => outside_subtreeWithin h _ _ hn ht) fun t ht => ?_
  exact yields_cloneTree t fun m hm u h => duplicates_of_all (h.all (ht m hm))

/-! ## Outlining -/

/-- The outline of a node outside shows values outside. -/
theorem outside_outline (h : F.Stands u) (hn : F.Outside (.node n)) {o : Outline} (ho : u.outline n = .ok o) :
    o.All F.Outside :=
  h.inherited.outlineWithin (fun _ hm v hv _ hc => h.inherited.actor ((h.all hm).children v hv) hc)
    (fun _ hm => ⟨(h.all hm).type, (h.all hm).value, (h.all hm).attr⟩) hn ho

mutual

theorem yields_writeOutline : (o : Outline) → o.All F.Outside → Yields F.Stands (writeOutline o) F.Outside
  | .node fields none, h => by
      rw [writeOutline]
      exact yields_allocate h
  | .node fields (some nodes), h => by
      obtain ⟨hfields, hnodes⟩ := h
      rw [writeOutline]
      refine (yields_writeOutlines nodes hnodes).bind fun items hitems => ?_
      refine (yields_allocate (x := .collection .list items) hitems).bind fun list hlist => ?_
      exact yields_allocate (Entries.put_inherits hfields (outside_scalar rfl) hlist)

theorem yields_writeOutlines : (os : List Outline) → Outline.AllOf F.Outside os →
    Yields F.Stands (writeOutlines os) fun vs => ∀ v ∈ vs, F.Outside v
  | [], _ => by
      rw [writeOutlines]
      exact .pure fun v hv => by cases hv
  | o :: os, h => by
      rw [writeOutlines]
      refine (yields_writeOutline o h.1).bind fun v hv => (yields_writeOutlines os h.2).bind fun vs hvs => ?_
      exact .pure (List.forall_mem_cons.mpr ⟨hv, hvs⟩)

end

theorem confined_toMap (hn : F.Outside (.node n)) : Preserves F.Stands (toMap n) :=
  Preserves.check_bind fun _ o h ho => (yields_writeOutline o (outside_outline h hn ho)).preserves

end Fence
end SyntaxTree
