import SyntaxTree.Proofs.Construction
import SyntaxTree.Store.Copy
import SyntaxTree.Store.Reach

/-!
# `Proofs.Copies` — values that hold no nodes, and copying on the quiet

A value is `Nodeless` if nothing that it leads to is a node. Copying such a value makes objects and nothing
else: all nodes stay what they were, and so do the objects that were there before. The steps of copying
change the object that they made last at most, and that is later than everything from before; `Quiet` is the
invariant.
-/

namespace SyntaxTree
namespace Store

variable {s s' : Store}

/-! ## Values without nodes -/

/-- Everything that stands in a map. -/
def entryValues (es : Entries Value) : List Value := es.flatMap fun e => [e.2, e.1.value]

/-- Everything that stands in an object. -/
def contained : Object → List Value
  | .collection _ items => items
  | .map es => entryValues es
  | .location line column => [line, column]
  | .position start finish source => [start, finish, source]
  | .matcher _ target => [target]
  | .tracker source line column => [source, line, column]
  | .wrapper tracker start fields => .object tracker :: start :: entryValues fields
  | .method owner _ => [owner]
  | .foreign _ _ fields => entryValues fields
  | .plain => []

/-- Everything that stands in what a value stands for, if that is an object. -/
def inside (s : Store) : Value → List Value
  | .object o => contained (s.object o)
  | _ => []

/-- The value leads to objects that there are, and to no node. -/
def Nodeless (s : Store) (v : Value) : Prop :=
  ∀ w, Reaches s.inside [v] w → (∀ n, w ≠ .node n) ∧ ∀ o, w = .object o → o < s.objects.size

theorem Nodeless.ne_node {v : Value} (h : s.Nodeless v) (n : NodeId) : v ≠ .node n :=
  (h v (.root (List.mem_singleton_self v))).1 n

theorem Nodeless.lt_size {o : ObjectId} (h : s.Nodeless (.object o)) : o < s.objects.size :=
  (h _ (.root (List.mem_singleton_self _))).2 o rfl

/-- What stands in an object without nodes is without nodes. -/
theorem Nodeless.contained {o : ObjectId} (h : s.Nodeless (.object o)) {v : Value}
    (hv : v ∈ contained (s.object o)) : s.Nodeless v := by
  intro w hw
  refine h w ?_
  induction hw with
  | root hmem =>
      rw [List.mem_singleton.mp hmem]
      exact .step (.root (List.mem_singleton_self _)) hv
  | step _ hmem ih => exact ih.step hmem

/-- More nodes and objects do not matter. -/
theorem Nodeless.extends {v : Value} (h : s.Nodeless v) (hs : s.Extends s') : s'.Nodeless v := by
  have hreaches {w : Value} (hw : Reaches s'.inside [v] w) : Reaches s.inside [v] w := by
    induction hw with
    | root hmem => exact .root hmem
    | @step u w _ hmem ih =>
        refine ih.step ?_
        cases u with
        | object o =>
            have hsame : s'.object o = s.object o := hs.object o ((h _ ih).2 o rfl)
            rw [inside, hsame] at hmem
            exact hmem
        | _ => cases hmem
  intro w hw
  refine ⟨(h w (hreaches hw)).1, fun o ho => ?_⟩
  exact Nat.lt_of_lt_of_le ((h w (hreaches hw)).2 o ho) hs.objects

/-! ## Steps of copying -/

namespace Copying

/-- Copying has come to a store with the nodes of `s` and with its objects among others. -/
structure Quiet (s : Store) (c : Copying) : Prop where
  nodes : c.store.nodes = s.nodes
  objects : s.objects.size ≤ c.store.objects.size
  object : ∀ o, o < s.objects.size → c.store.object o = s.object o

namespace Quiet

variable {c d : Copying}

theorem refl (c : Copying) : Quiet c.store c := ⟨rfl, Nat.le_refl _, fun _ _ => rfl⟩

theorem trans (h : Quiet s c) (h' : Quiet c.store d) : Quiet s d where
  nodes := h'.nodes.trans h.nodes
  objects := Nat.le_trans h.objects h'.objects
  object o ho := (h'.object o (Nat.lt_of_lt_of_le ho h.objects)).trans (h.object o ho)

/-- What is remembered does not matter. -/
theorem congr (h : Quiet s c) (hstore : d.store = c.store) : Quiet s d :=
  ⟨hstore ▸ h.nodes, hstore ▸ h.objects, hstore ▸ h.object⟩

/-- A new object comes after those of before. -/
theorem addObject (h : Quiet s c) (x : Object) : Quiet s { c with store := c.store.addObject x } where
  nodes := h.nodes
  objects := by
    show s.objects.size ≤ (c.store.objects.push x).size
    rw [Array.size_push]
    exact Nat.le_succ_of_le h.objects
  object o ho := by
    rw [object_addObject_of_lt c.store x (Nat.lt_of_lt_of_le ho h.objects), h.object o ho]

/-- A change of an object that came later. -/
theorem updateObject (h : Quiet s c) {p : ObjectId} (hp : s.objects.size ≤ p) (f : Object → Object) :
    Quiet s { c with store := c.store.updateObject p f } where
  nodes := h.nodes
  objects := by
    show s.objects.size ≤ (c.store.objects.modify p f).size
    rw [Array.size_modify]
    exact h.objects
  object o ho := by
    rw [object_updateObject_of_ne c.store f (Nat.ne_of_lt (Nat.lt_of_lt_of_le ho hp)), h.object o ho]

end Quiet

theorem run_within (fuel : Nat) (v : Value) (c : Copying) :
    (within (fuel + 1) v).run c =
      match c.copies.lookup v, v with
      | some w, _ => (w, c)
      | none, .node n => (ofNode (within fuel) n (c.store.node n)).run c
      | none, .object o => (ofObject (within fuel) o (c.store.object o)).run c
      | none, v => (v, c) := by
  show ((copyOf? v >>= _ : Step Value).run c) = _
  have hcopy : (copyOf? v).run c = (c.copies.lookup v, c) := rfl
  rw [StateT.run_bind, hcopy]
  cases c.copies.lookup v with
  | some w => rfl
  | none => cases v <;> rfl

theorem run_bind_of {α β : Type} {p : Step α} {f : α → Step β} {c c' : Copying} {a : α}
    (h : p.run c = (a, c')) : (p >>= f).run c = (f a).run c' := by
  rw [StateT.run_bind, h]
  rfl

/-- What making an object first and its parts afterwards comes down to. -/
theorem run_madeFirst {copy : Value → Step Value} {o : ObjectId} {x made : Object} (hshared : isShared x = false)
    (hlast : isMadeLast x = false) {c c' : Copying}
    (hrun : (contents copy x).run
      ⟨c.store.addObject x, (.object o, .object c.store.objects.size) :: c.copies⟩ = (made, c')) :
    (ofObject copy o x).run c = (.object c.store.objects.size,
      ⟨c'.store.updateObject c.store.objects.size fun _ => made, c'.copies⟩) := by
  have hadd : (addObject x : Step ObjectId).run c =
      (c.store.objects.size, { c with store := c.store.addObject x }) := rfl
  have hremember : (remember (.object o) (.object c.store.objects.size)).run
      { c with store := c.store.addObject x } =
        ((), ⟨c.store.addObject x, (.object o, .object c.store.objects.size) :: c.copies⟩) := rfl
  rw [ofObject, hshared, hlast]
  simp only [Bool.false_eq_true, if_false]
  rw [run_bind_of hadd, run_bind_of hremember, run_bind_of hrun]
  rfl

/-- A node is made first, too. -/
theorem run_ofNode {copy : Value → Step Value} {n : NodeId} {r made : NodeRecord} {c c' : Copying}
    (hrun : (nodeContents copy r).run ⟨c.store.addNode r, (.node n, .node c.store.nodes.size) :: c.copies⟩ =
      (made, c')) :
    (ofNode copy n r).run c = (.node c.store.nodes.size,
      ⟨c'.store.updateNode c.store.nodes.size fun _ => made, c'.copies⟩) := by
  have hadd : (addNode r : Step NodeId).run c = (c.store.nodes.size, { c with store := c.store.addNode r }) := rfl
  have hremember : (remember (.node n) (.node c.store.nodes.size)).run { c with store := c.store.addNode r } =
      ((), ⟨c.store.addNode r, (.node n, .node c.store.nodes.size) :: c.copies⟩) := rfl
  rw [ofNode, run_bind_of hadd, run_bind_of hremember, run_bind_of hrun]
  rfl

/-- What making an object of ready parts comes down to: the way through the parts may have come back and made
it already, and it may be its own copy. -/
theorem run_madeLast {copy : Value → Step Value} {o : ObjectId} {x made : Object} (hshared : isShared x = false)
    (hlast : isMadeLast x = true) {c c' : Copying} (hrun : (contents copy x).run c = (made, c')) :
    (∃ earlier, c'.copies.lookup (.object o) = some earlier ∧ (ofObject copy o x).run c = (earlier, c')) ∨
      (isOwnCopy x made = true ∧ (ofObject copy o x).run c = (.object o, c')) ∨
      (ofObject copy o x).run c = (.object c'.store.objects.size,
        ⟨c'.store.addObject made, (.object o, .object c'.store.objects.size) :: c'.copies⟩) := by
  have hlookup : (copyOf? (.object o)).run c' = (c'.copies.lookup (.object o), c') := rfl
  rw [ofObject, hshared, hlast]
  simp only [Bool.false_eq_true, if_false, if_true]
  rw [run_bind_of hrun, run_bind_of hlookup]
  split
  · next earlier hearlier => exact Or.inl ⟨earlier, hearlier, rfl⟩
  · split
    · next hown => exact Or.inr (Or.inl ⟨hown, rfl⟩)
    · exact Or.inr (Or.inr rfl)

end Copying

/-- A deep copy never fails. -/
theorem copy_eq (s : Store) (v : Value) : copy v s = .ok ((Copying.within s.copyDepth v).run ⟨s, []⟩).1
    ((Copying.within s.copyDepth v).run ⟨s, []⟩).2.store := by
  rw [copy]
  generalize (Copying.within s.copyDepth v).run ⟨s, []⟩ = ended
  rfl

end Store
end SyntaxTree
