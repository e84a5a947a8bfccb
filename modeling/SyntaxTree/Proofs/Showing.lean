import SyntaxTree.Proofs.Index

/-!
# `Proofs.Showing` — what can be shown still can be shown

The text of a node gives its type and its value, and the number of its children. So lists of children, parents and
hints have no part in whether there is a text at all: two stores that agree on types, values and objects can show the
same things, if not with the same texts (`display_follows`), and debug records can be written in both or in neither
(`Loggable.transfer`).
-/

namespace SyntaxTree
namespace Store

/-- Where the first ends with a value, so does the second. -/
def Follows {α : Type} (x y : Except Fault α) : Prop := ∀ a, x = .ok a → ∃ b, y = .ok b

namespace Follows

variable {α β : Type} {x y : Except Fault α}

theorem ok (x : Except Fault α) (b : α) : Follows x (.ok b) := fun _ _ => ⟨b, rfl⟩

theorem error (e : Fault) (y : Except Fault α) : Follows (.error e) y := fun _ h => by cases h

theorem bind {f g : α → Except Fault β} (h : Follows x y) (hfg : ∀ a b, Follows (f a) (g b)) :
    Follows (x >>= f) (y >>= g) := by
  intro c hc
  cases x with
  | error e => cases hc
  | ok a =>
      obtain ⟨b, rfl⟩ := h a rfl
      exact hfg a b c hc

theorem map {f g : α → β} (h : Follows x y) : Follows (f <$> x) (g <$> y) := by
  intro c hc
  cases x with
  | error e => cases hc
  | ok a =>
      obtain ⟨b, rfl⟩ := h a rfl
      exact ⟨g b, rfl⟩

end Follows

/-! ## Texts -/

section Display

variable {s t : Store} {shown shown' : Value → Except Fault String}

theorem displayAll_follows (h : ∀ v, Follows (shown v) (shown' v)) (vs : List Value) :
    Follows (displayAll shown vs) (displayAll shown' vs) := by
  induction vs with
  | nil => exact .ok _ _
  | cons v vs ih => exact (h v).bind fun _ _ => ih.bind fun _ _ => .ok _ _

theorem displayEntries_follows (h : ∀ v, Follows (shown v) (shown' v)) (es : Entries Value) :
    Follows (displayEntries shown es) (displayEntries shown' es) := by
  induction es with
  | nil => exact .ok _ _
  | cons e es ih => exact (h _).bind fun _ _ => (h _).bind fun _ _ => ih.bind fun _ _ => .ok _ _

theorem displayPlain_follows (h : ∀ v, Follows (shown v) (shown' v)) (v : Value) :
    Follows (displayPlain shown v) (displayPlain shown' v) := by
  unfold displayPlain
  split
  · exact .ok _ _
  · exact .ok _ _
  · exact h v

theorem displayObject_follows (h : ∀ v, Follows (shown v) (shown' v)) (o : Object) :
    Follows (s.displayObject shown o) (t.displayObject shown' o) := by
  cases o with
  | collection shape items => exact (displayAll_follows h items).map
  | map es => exact (displayEntries_follows h es).bind fun _ _ => .ok _ _
  | location line column => exact (h _).bind fun _ _ => (h _).bind fun _ _ => .ok _ _
  | position start finish source =>
      exact (h _).bind fun _ _ => (h _).bind fun _ _ => (h _).bind fun _ _ => .ok _ _
  | matcher kind target => exact (h _).bind fun _ _ => .ok _ _
  | tracker source line column =>
      exact (h _).bind fun _ _ => (displayPlain_follows h line).bind fun _ _ =>
        (displayPlain_follows h column).bind fun _ _ => .ok _ _
  | method owner name => exact (h _).bind fun _ _ => .ok _ _
  | wrapper tracker start fields => exact .ok _ _
  | foreign cls marker fields => exact .ok _ _
  | plain => exact .ok _ _

theorem displayNode_follows (h : ∀ v, Follows (shown v) (shown' v)) {r r' : NodeRecord} (htype : r'.type = r.type)
    (hvalue : r'.value = r.value) : Follows (displayNode shown r) (displayNode shown' r') := by
  unfold displayNode
  rw [htype, hvalue]
  refine (h r.type).bind fun type type' => ?_
  dsimp only
  split
  · exact (Follows.ok _ _).bind fun _ _ => .ok _ _
  · exact (h r.value).map.bind fun _ _ => .ok _ _

/-- The stores have the same objects, and their nodes the same types and values. -/
structure ShowsAlike (s t : Store) : Prop where
  size : t.nodes.size = s.nodes.size
  objects : t.objects = s.objects
  type : ∀ n, (t.node n).type = (s.node n).type
  value : ∀ n, (t.node n).value = (s.node n).value

theorem displayWithin_follows (h : s.ShowsAlike t) (fuel : Nat) (within : List ObjectId) (entered : List Value)
    (v : Value) : Follows (s.displayWithin fuel within entered v) (t.displayWithin fuel within entered v) := by
  have hobject (o : ObjectId) : t.object o = s.object o := by rw [object, object, h.objects]
  induction fuel generalizing within entered v with
  | zero => exact .error _ _
  | succ fuel ih =>
      cases v with
      | node n =>
          rw [displayWithin, displayWithin]
          split
          · exact .error _ _
          · exact displayNode_follows (fun w => ih _ _ w) (h.type n) (h.value n)
      | object o =>
          rw [displayWithin, displayWithin, hobject o]
          split
          · split
            · exact .ok _ _
            · exact displayObject_follows (fun w => ih _ _ w) _
          · split
            · exact .error _ _
            · exact displayObject_follows (fun w => ih _ _ w) _
      | _ => exact .ok _ _

/-- **What can be shown in one store can be shown in the other.** -/
theorem display_follows (h : s.ShowsAlike t) (v : Value) : Follows (s.display v) (t.display v) := by
  rw [display, display, h.size, h.objects]
  exact displayWithin_follows h _ _ _ v

theorem Loggable.transfer (hs : s.Loggable) (h : s.ShowsAlike t) (hread : t.logIsRead = s.logIsRead) : t.Loggable := by
  intro hlog n
  obtain ⟨shown, hshown⟩ := hs (hread ▸ hlog) n
  exact display_follows h (.node n) shown hshown

end Display

end Store
end SyntaxTree
