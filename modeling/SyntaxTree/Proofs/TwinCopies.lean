import SyntaxTree.Node.Clone
import SyntaxTree.Node.Outline
import SyntaxTree.Proofs.Copies
import SyntaxTree.Proofs.Lockstep

/-!
# `Proofs.TwinCopies` — copies of twins

A deep copy goes through everything that a value leads to, and so it comes upon nodes with their hints. A
hint that is an integer is its own copy. Two deep copies that start from twins therefore make the same
things in the same order, and differ in the hints of the nodes they make. `Alike` is that statement for
the steps of copying; what two steps give need not be equal, since the record of a node is among it.

A clone takes nothing from a node but its class, type, value, attributes and list of children.
-/

namespace SyntaxTree
namespace Store
namespace Copying

/-- Copying from twins has come equally far; only what has links can have a copy. -/
structure Twinned (c d : Copying) : Prop where
  twins : Twins c.store d.store
  copies : c.copies = d.copies
  links : ∀ e ∈ c.copies, e.1.isLink = true

/-- The two steps give related values and lead on to states that are again twinned. -/
def Alike {α β : Type} (R : α → β → Prop) (p : Step α) (q : Step β) : Prop :=
  ∀ c d, Twinned c d → R (p.run c).1 (q.run d).1 ∧ Twinned (p.run c).2 (q.run d).2

section Alike

variable {α β γ δ : Type} {R : α → β → Prop} {S : γ → δ → Prop}

theorem Alike.pure {a : α} {b : β} (h : R a b) : Alike R (pure a) (pure b) := fun _ _ hcd => ⟨h, hcd⟩

theorem Alike.bind {p : Step α} {q : Step β} {f : α → Step γ} {g : β → Step δ} (h : Alike R p q)
    (hnext : ∀ a b, R a b → Alike S (f a) (g b)) : Alike S (p >>= f) (q >>= g) := by
  intro c d hcd
  obtain ⟨hab, hcd'⟩ := h c d hcd
  exact hnext _ _ hab _ _ hcd'

/-- The usual case: both steps give the same value. -/
theorem Alike.bind_eq {p q : Step α} {f : α → Step γ} {g : α → Step δ} (h : Alike Eq p q)
    (hnext : ∀ a, Alike S (f a) (g a)) : Alike S (p >>= f) (q >>= g) :=
  h.bind fun a _ hab => hab ▸ hnext a

theorem Alike.update {f g : Store → Store} (h : ∀ s t, Twins s t → Twins (f s) (g t)) :
    Alike Eq (update f) (update g) := fun _ _ hcd =>
  ⟨rfl, h _ _ hcd.twins, hcd.copies, hcd.links⟩

theorem Alike.remember {v w : Value} (hv : v.isLink = true) : Alike Eq (remember v w) (remember v w) := by
  intro c d hcd
  refine ⟨rfl, hcd.twins, congrArg (List.cons (v, w)) hcd.copies, fun e he => ?_⟩
  rcases List.mem_cons.mp he with rfl | he
  · exact hv
  · exact hcd.links e he

theorem Alike.copyOf? (v : Value) : Alike Eq (copyOf? v) (copyOf? v) := by
  intro c d hcd
  exact ⟨congrArg (List.lookup v) hcd.copies, hcd⟩

theorem Alike.addObject (x : Object) : Alike Eq (addObject x) (addObject x) := by
  intro c d hcd
  exact ⟨congrArg Array.size hcd.twins.objects_eq, hcd.twins.addObject x, hcd.copies, hcd.links⟩

theorem Alike.addNode {r r' : NodeRecord} (hsame : r.unhinted = r'.unhinted) (hr : r.Proper)
    (hr' : r'.Proper) : Alike Eq (addNode r) (addNode r') := by
  intro c d hcd
  exact ⟨hcd.twins.size_eq, hcd.twins.addNodes hsame hr hr', hcd.copies, hcd.links⟩

end Alike

/-! ## Copying contents -/

section Contents

variable {copy : Value → Step Value}

theorem alike_all (h : ∀ v, Alike Eq (copy v) (copy v)) (vs : List Value) :
    Alike Eq (all copy vs) (all copy vs) := by
  induction vs with
  | nil => exact .pure rfl
  | cons v vs ih => exact (h v).bind_eq fun w => ih.bind_eq fun ws => .pure rfl

theorem alike_entries (h : ∀ v, Alike Eq (copy v) (copy v)) (es : Entries Value) :
    Alike Eq (entries copy es) (entries copy es) := by
  induction es with
  | nil => exact .pure rfl
  | cons e es ih =>
      exact (h _).bind_eq fun w => (h _).bind_eq fun key => ih.bind_eq fun rest => .pure rfl

theorem alike_contents (h : ∀ v, Alike Eq (copy v) (copy v)) (x : Object) :
    Alike Eq (contents copy x) (contents copy x) := by
  cases x with
  | collection shape items => exact (alike_all h items).bind_eq fun _ => .pure rfl
  | map es => exact (alike_entries h es).bind_eq fun _ => .pure rfl
  | location line column => exact (h _).bind_eq fun _ => (h _).bind_eq fun _ => .pure rfl
  | position start finish source =>
      exact (h _).bind_eq fun _ => (h _).bind_eq fun _ => (h _).bind_eq fun _ => .pure rfl
  | matcher kind target => exact (h _).bind_eq fun _ => .pure rfl
  | tracker source line column =>
      exact (h _).bind_eq fun _ => (h _).bind_eq fun _ => (h _).bind_eq fun _ => .pure rfl
  | method owner name => exact (h _).bind_eq fun _ => .pure rfl
  | foreign cls marker fields => exact (alike_entries h fields).bind_eq fun _ => .pure rfl
  | wrapper tracker start fields => exact .pure rfl
  | plain => exact .pure rfl

theorem alike_ofObject (h : ∀ v, Alike Eq (copy v) (copy v)) (o : ObjectId) (x : Object) :
    Alike Eq (ofObject copy o x) (ofObject copy o x) := by
  unfold ofObject
  split
  · exact .pure rfl
  split
  · refine (alike_contents h x).bind_eq fun made => ?_
    refine (Alike.copyOf? (.object o)).bind_eq fun earlier => ?_
    split
    · exact .pure rfl
    · split
      · exact .pure rfl
      · refine (Alike.addObject made).bind_eq fun p => ?_
        exact (Alike.remember rfl).bind_eq fun _ => .pure rfl
  · refine (Alike.addObject x).bind_eq fun p => ?_
    refine (Alike.remember rfl).bind_eq fun _ => ?_
    refine (alike_contents h x).bind_eq fun made => ?_
    exact (Alike.update fun s t hst => hst.updateObject p _).bind_eq fun _ => .pure rfl

/-- Records that differ in the hint, and have an integer for it. -/
def SameButHint (r r' : NodeRecord) : Prop := r.unhinted = r'.unhinted ∧ r.Proper ∧ r'.Proper

/-- Copies of records that differ in the hint differ in the hint. -/
theorem alike_nodeContents (h : ∀ v, Alike Eq (copy v) (copy v))
    (hint : ∀ i j : Int, Alike (fun v w => v = .int i ∧ w = .int j) (copy (.int i)) (copy (.int j)))
    {r r' : NodeRecord} (hr : SameButHint r r') :
    Alike SameButHint (nodeContents copy r) (nodeContents copy r') := by
  obtain ⟨hsame, hproper, hproper'⟩ := hr
  obtain ⟨i, hi⟩ := hproper.hint_int
  obtain ⟨j, hj⟩ := hproper'.hint_int
  obtain ⟨cls, type, value, nodes, attr, parent, rhint⟩ := r
  obtain ⟨cls', type', value', nodes', attr', parent', rhint'⟩ := r'
  dsimp only at hi hj
  subst hi hj
  injection hsame with hcls htype hvalue hnodes hattr hparent _
  subst hcls htype hvalue hnodes hattr hparent
  have hmade (type value : Value) (nodes : Option (List Value)) (attr : Value) :
      Alike SameButHint
        (do let hint ← copy (.int i)
            return (⟨cls, type, value, nodes, attr, parent, hint⟩ : NodeRecord))
        (do let hint ← copy (.int j)
            return (⟨cls, type, value, nodes, attr, parent, hint⟩ : NodeRecord)) := by
    refine (hint i j).bind fun v w hvw => .pure ?_
    obtain ⟨rfl, rfl⟩ := hvw
    exact ⟨rfl, ⟨⟨i, rfl⟩, hproper.parent_node⟩, ⟨j, rfl⟩, hproper'.parent_node⟩
  cases nodes with
  | none =>
      refine (h type).bind_eq fun type => (h value).bind_eq fun value => ?_
      exact (h attr).bind_eq fun attr => hmade type value none attr
  | some children =>
      refine (h type).bind_eq fun type => (h value).bind_eq fun value => ?_
      have hchildren : Alike Eq (some <$> all copy children) (some <$> all copy children) :=
        (alike_all h children).bind_eq fun _ => .pure rfl
      refine hchildren.bind_eq fun nodes => ?_
      exact (h attr).bind_eq fun attr => hmade type value nodes attr

theorem alike_ofNode (h : ∀ v, Alike Eq (copy v) (copy v))
    (hint : ∀ i j : Int, Alike (fun v w => v = .int i ∧ w = .int j) (copy (.int i)) (copy (.int j)))
    (n : NodeId) {r r' : NodeRecord} (hr : SameButHint r r') :
    Alike Eq (ofNode copy n r) (ofNode copy n r') := by
  obtain ⟨hsame, hproper, hproper'⟩ := hr
  -- the new node first has the record of the old one, and its contents only afterwards
  refine (Alike.addNode hsame hproper hproper').bind_eq fun m => ?_
  refine (Alike.remember rfl).bind_eq fun _ => ?_
  refine (alike_nodeContents h hint ⟨hsame, hproper, hproper'⟩).bind fun made made' hmade => ?_
  refine (Alike.update fun s t hst => ?_).bind_eq fun _ => .pure rfl
  exact hst.updateNodes m (fun _ _ _ => hmade.1) (fun _ _ => hmade.2.1) fun _ _ => hmade.2.2

end Contents

/-! ## Copying values -/

/-- What has no links is its own copy. -/
theorem within_scalar {v : Value} (hv : v.isLink = false) {c : Copying}
    (hlinks : ∀ e ∈ c.copies, e.1.isLink = true) (fuel : Nat) : (within fuel v).run c = (v, c) := by
  cases fuel with
  | zero => rfl
  | succ fuel =>
      have hlookup : c.copies.lookup v = none := by
        rw [List.lookup_eq_none_iff]
        intro e he
        have hne : v ≠ e.1 := by
          intro heq
          rw [heq, hlinks e he] at hv
          cases hv
        exact bne_iff_ne.mpr hne
      rw [run_within, hlookup]
      cases v with
      | node n => cases hv
      | object o => cases hv
      | _ => rfl

/-- **Copies of twins are twins.** -/
theorem alike_within (fuel : Nat) (v : Value) : Alike Eq (within fuel v) (within fuel v) := by
  induction fuel generalizing v with
  | zero => exact .pure rfl
  | succ fuel ih =>
      -- a hint is its own copy, so copies of hints need not be equal
      have hint (i j : Int) : Alike (fun v w => v = .int i ∧ w = .int j) (within fuel (.int i))
          (within fuel (.int j)) := by
        intro c d hcd
        rw [within_scalar rfl hcd.links, within_scalar rfl (hcd.copies ▸ hcd.links)]
        exact ⟨⟨rfl, rfl⟩, hcd⟩
      refine (Alike.copyOf? v).bind_eq fun earlier => ?_
      cases earlier with
      | some w => exact .pure rfl
      | none =>
          intro c d hcd
          cases v with
          | node n =>
              have hrecords : SameButHint (c.store.node n) (d.store.node n) :=
                ⟨hcd.twins.node_unhinted_eq n, hcd.twins.left n, hcd.twins.right n⟩
              exact alike_ofNode ih hint n hrecords c d hcd
          | object o =>
              have hobject : d.store.object o = c.store.object o := by
                rw [object, object, hcd.twins.objects_eq]
              have hleft := alike_ofObject ih o (c.store.object o) c d hcd
              show ((ofObject (within fuel) o (c.store.object o)).run c).1 =
                  ((ofObject (within fuel) o (d.store.object o)).run d).1 ∧
                Twinned ((ofObject (within fuel) o (c.store.object o)).run c).2
                  ((ofObject (within fuel) o (d.store.object o)).run d).2
              rw [hobject]
              exact hleft
          | _ => exact ⟨rfl, hcd⟩

end Copying

open Run

variable {s t : Store}

theorem agree_copy (h : Twins s t) (v : Value) : Agree Twins (copy v) s t := by
  have hdepth : s.copyDepth = t.copyDepth := by
    rw [copyDepth, copyDepth, h.size_eq, h.objects_eq]
  have hstart : Copying.Twinned ⟨s, []⟩ ⟨t, []⟩ := ⟨h, rfl, fun e he => by cases he⟩
  obtain ⟨hvalue, htwinned⟩ := Copying.alike_within s.copyDepth v _ _ hstart
  rw [Agree, copy_eq, copy_eq, ← hdepth]
  exact ⟨congrArg Except.ok hvalue, htwinned.twins⟩

/-! ## Clones -/

/-- The new node is made and filled step by step, and the hint plays a part in none of the steps. -/
theorem agree_clonePayload (h : Twins s t) (n : NodeId) : Agree Twins (clonePayload n) s t := by
  have hsame : (s.node n).unhinted = (t.node n).unhinted := h.node_unhinted_eq n
  unfold clonePayload
  rw [Agree, Run.read_bind, Run.read_bind]
  generalize s.node n = r at hsame ⊢
  generalize t.node n = r' at hsame ⊢
  obtain ⟨cls, type, value, nodes, attr, parent, hint⟩ := r
  obtain ⟨cls', type', value', nodes', attr', parent', hint'⟩ := r'
  injection hsame with hcls htype hvalue hnodes hattr _ _
  subst hcls htype hvalue hnodes hattr
  refine Agree.bind (agree_of_close (agree_blank ⟨h, .refl s⟩ cls)) fun c s₁ t₁ h₁ => ?_
  refine Agree.bind (.update (h₁.updateNode c (fun _ => rfl) fun _ hr => ⟨hr.hint_int, hr.parent_node⟩))
    fun _ s₂ t₂ h₂ => ?_
  refine Agree.bind (agree_copy h₂ value) fun value s₃ t₃ h₃ => ?_
  refine Agree.bind (.update (h₃.updateNode c (fun _ => rfl) fun _ hr => ⟨hr.hint_int, hr.parent_node⟩))
    fun _ s₄ t₄ h₄ => ?_
  refine Agree.bind (agree_copy h₄ attr) fun attr s₅ t₅ h₅ => ?_
  refine Agree.bind (.update (h₅.updateNode c (fun _ => rfl) fun _ hr => ⟨hr.hint_int, hr.parent_node⟩))
    fun _ s₆ t₆ h₆ => ?_
  exact .pure c h₆

theorem agree_push_node (h : Twins s t) (n c : NodeId) : Agree Twins (push n (.node c)) s t :=
  have happend := Twins.congruence.append h n c
  .of_ok (push_node s n c) (by rw [push_node, ← happend.resembles.children n]) happend

mutual

theorem agree_cloneTree : (tree : Subtree) → ∀ {s t : Store}, Twins s t →
    Agree Twins (cloneTree tree) s t
  | .node n branches => by
      intro h
      rw [cloneTree]
      refine Agree.bind (agree_clonePayload h n) fun c s₁ t₁ h₁ => ?_
      exact Agree.bind (agree_cloneInto c branches h₁) fun _ _ _ h₂ => .pure c h₂

theorem agree_cloneInto (parent : NodeId) : (trees : List Subtree) → ∀ {s t : Store}, Twins s t →
    Agree Twins (cloneInto parent trees) s t
  | [] => by
      intro h
      rw [cloneInto]
      exact .pure () h
  | tree :: trees => by
      intro h
      rw [cloneInto]
      refine Agree.bind (agree_cloneTree tree h) fun c s₁ t₁ h₁ => ?_
      exact Agree.bind (agree_push_node h₁ parent c) fun _ s₂ t₂ h₂ => agree_cloneInto parent trees h₂

end

/-- **Twins have equal clones**: the tree is read off the children, and copied in the same order. -/
theorem agree_clone (h : Twins s t) (n : NodeId) : Agree Twins (clone n) s t := by
  have htree : s.subtree "clone" n = t.subtree "clone" n :=
    h.resembles.subtree_eq "clone" n
  exact Agree.check_bind htree h fun tree _ => agree_cloneTree tree h

/-! ## Outlines -/

mutual

theorem agree_writeOutline : (o : Outline) → ∀ {s t : Store}, Twins s t →
    Agree Twins (writeOutline o) s t
  | .node fields none => by
      intro h
      rw [writeOutline]
      exact agree_allocate h _
  | .node fields (some nodes) => by
      intro h
      rw [writeOutline]
      refine Agree.bind (agree_writeOutlines nodes h) fun items s₁ t₁ h₁ => ?_
      exact Agree.bind (agree_allocate h₁ _) fun list s₂ t₂ h₂ => agree_allocate h₂ _

theorem agree_writeOutlines : (os : List Outline) → ∀ {s t : Store}, Twins s t →
    Agree Twins (writeOutlines os) s t
  | [] => by
      intro h
      rw [writeOutlines]
      exact .pure [] h
  | o :: os => by
      intro h
      rw [writeOutlines]
      refine Agree.bind (agree_writeOutline o h) fun v s₁ t₁ h₁ => ?_
      exact Agree.bind (agree_writeOutlines os h₁) fun vs _ _ h₂ => .pure (v :: vs) h₂

end

theorem agree_toMap (h : Twins s t) (n : NodeId) : Agree Twins (toMap n) s t := by
  have houtline : s.outline n = t.outline n :=
    h.resembles.outline_eq h.nodes_eq n
  exact Agree.check_bind houtline h fun o _ => agree_writeOutline o h

end Store
end SyntaxTree
