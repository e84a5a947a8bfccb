import SyntaxTree.Proofs.Contents

/-!
# `Proofs.Courses` — going through contents while copying

Whatever is claimed of copying is claimed of the copies of values first, and then of the objects and nodes
that are put together from them. The way from the one to the other is always the same: the contents are
copied one after the other, and what was found out about an earlier one must still be so at the end. A
`Course` says what holds all the time and what may change on the way; a statement about a value and its copy
that changes on the way do not disturb goes over from the parts to the whole (`gives_contents`,
`gives_nodeContents`).
-/

namespace SyntaxTree

theorem Key.value_ofValue (v : Value) : (Key.ofValue v).value = v := by
  cases v <;> rfl

namespace NodeRecord

variable {R R' : Value → Value → Prop} {r made : NodeRecord}

/-- What stands in the two nodes is related one by one, and they have the same parent. -/
structure Remade (R : Value → Value → Prop) (r made : NodeRecord) : Prop where
  children : List.Forall₂ R (r.nodes.getD []) (made.nodes.getD [])
  type : R r.type made.type
  value : R r.value made.value
  attr : R r.attr made.attr
  hint : R r.hint made.hint
  parent : made.parent = r.parent

theorem Remade.mono (h : r.Remade R made) (hR : ∀ v w, R v w → R' v w) : r.Remade R' made :=
  ⟨h.children.imp hR, hR _ _ h.type, hR _ _ h.value, hR _ _ h.attr, hR _ _ h.hint, h.parent⟩

theorem Remade.children_eq_nil (h : r.Remade R made) (hnone : r.nodes.getD [] = []) : made.nodes.getD [] = [] := by
  have hchildren := h.children
  rw [hnone] at hchildren
  exact List.forall₂_nil_left_iff.mp hchildren

end NodeRecord

/-- What stands in the two objects is related one by one, and the second has the label of the first. -/
structure Object.Remade (R : Value → Value → Prop) (x made : Object) : Prop where
  label : ∀ l, x.label? = some l → made.label? = some l
  parts : List.Forall₂ R (Store.contained x) (Store.contained made)

namespace Store.Copying

variable {α β : Type}

/-- What holds all the time while copying, and how one state of copying may follow on another. -/
structure Course where
  holds : Copying → Prop
  later : Copying → Copying → Prop
  refl : ∀ c, later c c
  trans : ∀ {c d e : Copying}, later c d → later d e → later c e

namespace Course

variable {C : Course}

/-- What is so stays so. -/
def Stable (C : Course) (property : Copying → Prop) : Prop :=
  ∀ c d, C.later c d → property c → property d

/-- The step keeps to the course, and what it gives has a property in the end. -/
def Gives (C : Course) (p : Step α) (property : Copying → α → Prop) : Prop :=
  ∀ c, C.holds c → C.holds (p.run c).2 ∧ C.later c (p.run c).2 ∧ property (p.run c).2 (p.run c).1

theorem Gives.pure {a : α} {property : Copying → α → Prop} (h : ∀ c, property c a) :
    C.Gives (pure a : Step α) property :=
  fun c hc => ⟨hc, C.refl c, h c⟩

theorem Gives.map {p : Step β} {f : β → α} {property : Copying → α → Prop}
    (h : C.Gives p fun c b => property c (f b)) : C.Gives (f <$> p) property := h

theorem Gives.imp {p : Step α} {property property' : Copying → α → Prop} (h : C.Gives p property)
    (himp : ∀ c a, property c a → property' c a) : C.Gives p property' :=
  fun c hc => ⟨(h c hc).1, (h c hc).2.1, himp _ _ (h c hc).2.2⟩

/-- What is found out about the first result may be used for the whole. -/
theorem Gives.bind {p : Step β} {next : β → Step α} {given : Copying → β → Prop}
    {property : Copying → α → Prop} (hstable : ∀ b, C.Stable fun c => given c b) (h : C.Gives p given)
    (hnext : ∀ b, C.Gives (next b) fun c a => given c b → property c a) : C.Gives (p >>= next) property := by
  intro c hc
  obtain ⟨hc', hlater, hgiven⟩ := h c hc
  obtain ⟨hc'', hlater', hproperty⟩ := hnext _ _ hc'
  exact ⟨hc'', C.trans hlater hlater', hproperty (hstable _ _ _ hlater' hgiven)⟩

section Parts

variable {copy : Value → Step Value} {R : Copying → Value → Value → Prop}

theorem stable_forall₂ (hR : ∀ v w, C.Stable fun c => R c v w) (vs ws : List Value) :
    C.Stable fun c => List.Forall₂ (R c) vs ws :=
  fun c d hlater h => h.imp fun v w => hR v w c d hlater

theorem stable_entries (hR : ∀ v w, C.Stable fun c => R c v w) (es fs : Entries Value) :
    C.Stable fun c => fs.Keyed ∧ List.Forall₂ (R c) (entryValues es) (entryValues fs) :=
  fun c d hlater h => ⟨h.1, stable_forall₂ hR _ _ c d hlater h.2⟩

variable (hR : ∀ v w, C.Stable fun c => R c v w)

include hR

theorem gives_all {vs : List Value} (h : ∀ v ∈ vs, C.Gives (copy v) fun c w => R c v w) :
    C.Gives (all copy vs) fun c ws => List.Forall₂ (R c) vs ws := by
  induction vs with
  | nil => exact .pure fun c => .nil
  | cons v vs ih =>
      obtain ⟨hv, hvs⟩ := List.forall_mem_cons.mp h
      refine hv.bind (hR v) fun w => (ih hvs).bind (stable_forall₂ hR vs) fun ws => .pure fun c hws hw => ?_
      exact .cons hw hws

/-- The copy of the entries of a map has keys made of what the copies of the keys are. -/
theorem gives_entries {es : Entries Value} (h : ∀ v ∈ entryValues es, C.Gives (copy v) fun c w => R c v w) :
    C.Gives (entries copy es) fun c fs => fs.Keyed ∧ List.Forall₂ (R c) (entryValues es) (entryValues fs) := by
  induction es with
  | nil => exact .pure fun c => ⟨fun _ he => (by cases he), .nil⟩
  | cons e es ih =>
      rw [entryValues_cons, List.forall_mem_cons, List.forall_mem_cons] at h
      obtain ⟨hvalue, hkey, hes⟩ := h
      refine hvalue.bind (hR _) fun w => hkey.bind (hR _) fun key => ?_
      refine (ih hes).bind (stable_entries hR es) fun fs => .pure fun c hfs hk hw => ⟨fun f hf => ?_, ?_⟩
      · rcases List.mem_cons.mp hf with rfl | hf
        · rw [Key.value_ofValue]
        · exact hfs.1 f hf
      · rw [entryValues_cons, entryValues_cons, Key.value_ofValue]
        exact .cons hw (.cons hk hfs.2)

theorem gives_pair {u v : Value} {α : Type} (f : Value → Value → α) (hu : C.Gives (copy u) fun c w => R c u w)
    (hv : C.Gives (copy v) fun c w => R c v w) :
    C.Gives (do return f (← copy u) (← copy v) : Step α)
      fun c made => ∃ a b, made = f a b ∧ List.Forall₂ (R c) [u, v] [a, b] :=
  hu.bind (hR u) fun a => hv.bind (hR v) fun b => .pure fun _ hb ha => ⟨a, b, rfl, .cons ha (.cons hb .nil)⟩

theorem gives_triple {u v w : Value} {α : Type} (f : Value → Value → Value → α)
    (hu : C.Gives (copy u) fun c x => R c u x) (hv : C.Gives (copy v) fun c x => R c v x)
    (hw : C.Gives (copy w) fun c x => R c w x) :
    C.Gives (do return f (← copy u) (← copy v) (← copy w) : Step α)
      fun c made => ∃ a b d, made = f a b d ∧ List.Forall₂ (R c) [u, v, w] [a, b, d] :=
  hu.bind (hR u) fun a => hv.bind (hR v) fun b => hw.bind (hR w) fun d =>
    .pure fun _ hd hb ha => ⟨a, b, d, rfl, .cons ha (.cons hb (.cons hd .nil))⟩

/-- **What stands in an object is copied one by one.** -/
theorem gives_contents {x : Object} (hshared : isShared x = false)
    (h : ∀ v ∈ contained x, C.Gives (copy v) fun c w => R c v w) :
    C.Gives (contents copy x) fun c made => x.Remade (R c) made := by
  cases x with
  | collection shape items =>
      exact (gives_all hR h).bind (stable_forall₂ hR items) fun ws => .pure fun c hws => ⟨fun _ hl => hl, hws⟩
  | map es =>
      refine (gives_entries hR h).bind (stable_entries hR es) fun fs => .pure fun c hfs => ⟨fun l hl => ?_, hfs.2⟩
      cases Object.labelled hl with
      | map _ => exact if_pos hfs.1
  | foreign cls marker fields =>
      exact (gives_entries hR h).bind (stable_entries hR fields) fun fs =>
        .pure fun c hfs => ⟨fun _ hl => (by cases hl), hfs.2⟩
  | location line column =>
      simp only [contained, List.forall_mem_cons] at h
      refine (gives_pair hR Object.location h.1 h.2.1).imp ?_
      rintro c _ ⟨a, b, rfl, hparts⟩
      exact ⟨fun _ hl => hl, hparts⟩
  | position start finish source =>
      simp only [contained, List.forall_mem_cons] at h
      refine (gives_triple hR Object.position h.1 h.2.1 h.2.2.1).imp ?_
      rintro c _ ⟨a, b, d, rfl, hparts⟩
      exact ⟨fun _ hl => hl, hparts⟩
  | tracker source line column =>
      simp only [contained, List.forall_mem_cons] at h
      refine (gives_triple hR Object.tracker h.1 h.2.1 h.2.2.1).imp ?_
      rintro c _ ⟨a, b, d, rfl, hparts⟩
      exact ⟨fun _ hl => (by cases hl), hparts⟩
  | matcher kind target =>
      exact (h target (List.mem_singleton_self _)).bind (hR target) fun a =>
        .pure fun c ha => ⟨fun _ hl => hl, .cons ha .nil⟩
  | method owner name =>
      refine (h owner (List.mem_singleton_self _)).bind (hR owner) fun a =>
        .pure fun c ha => ⟨fun l hl => ?_, .cons ha .nil⟩
      cases Object.labelled hl with
      | operation cls => cases hshared
  | wrapper tracker start fields => cases hshared
  | plain => exact .pure fun c => ⟨fun _ hl => hl, .nil⟩

/-- **What stands in a node is copied one by one**, and the parent is kept. -/
theorem gives_nodeContents {r : NodeRecord}
    (h : ∀ v ∈ r.nodes.getD [] ++ [r.type, r.value, r.attr, r.hint], C.Gives (copy v) fun c w => R c v w) :
    C.Gives (nodeContents copy r) fun c made => r.Remade (R c) made := by
  obtain ⟨cls, rtype, rvalue, rnodes, rattr, rparent, rhint⟩ := r
  rw [List.forall_mem_append] at h
  simp only [List.forall_mem_cons] at h
  obtain ⟨hchildren, htype, hvalue, hattr, hhint, -⟩ := h
  refine htype.bind (hR rtype) fun type => hvalue.bind (hR rvalue) fun value => ?_
  have hrest (nodes : Option (List Value)) : C.Gives (do
        let attr ← copy rattr
        let hint ← copy rhint
        return NodeRecord.mk cls type value nodes attr rparent hint : Step NodeRecord) fun c made =>
      List.Forall₂ (R c) (rnodes.getD []) (nodes.getD []) → R c rvalue value → R c rtype type →
        NodeRecord.Remade (R c) ⟨cls, rtype, rvalue, rnodes, rattr, rparent, rhint⟩ made :=
    hattr.bind (hR rattr) fun attr => hhint.bind (hR rhint) fun hint =>
      .pure fun c hhint hattr hnodes hvalue htype => ⟨hnodes, htype, hvalue, hattr, hhint, rfl⟩
  have hstable (nodes : Option (List Value)) := stable_forall₂ hR (rnodes.getD []) (nodes.getD [])
  cases rnodes with
  | none =>
      have hnone : C.Gives (pure none : Step (Option (List Value)))
          fun c nodes => List.Forall₂ (R c) [] (nodes.getD []) := .pure fun c => .nil
      exact hnone.bind hstable hrest
  | some children =>
      have hsome : C.Gives (some <$> all copy children) fun c nodes => List.Forall₂ (R c) children (nodes.getD []) :=
        (gives_all hR hchildren).map
      exact hsome.bind hstable hrest

end Parts

end Course
end Store.Copying
end SyntaxTree
