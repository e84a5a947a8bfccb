import SyntaxTree.Action
import SyntaxTree.Proofs.EqualEntries

/-!
# `Proofs.Heredity` — properties that pass on to what is read

A property of values is inherited in a store if all scalars have it, and if it passes from an object to
everything that stands in the object. Such a property then passes on to whatever is read off a value: its
items, its entries, its fields, the node that carries out an operation for it. Read off a tree whose nodes
hold nothing else, an outline shows values with the property only (`Inherited.outlineWithin`).
-/

namespace SyntaxTree

theorem Entries.mem_entryValues {es : Entries Value} {w : Value} :
    w ∈ Store.entryValues es ↔ ∃ e ∈ es, w = e.2 ∨ w = e.1.value := by
  simp [Store.entryValues]

/-- What stands under a key stands in the map. -/
theorem Entries.find?_mem_entryValues {es : Entries Value} {key : Key} {w : Value} (h : es.find? key = some w) :
    w ∈ Store.entryValues es := by
  induction es with
  | nil => cases h
  | cons e rest ih =>
      rw [find?] at h
      split at h
      · cases h
        exact mem_entryValues.mpr ⟨e, List.mem_cons_self .., Or.inl rfl⟩
      · obtain ⟨f, hf, hw⟩ := mem_entryValues.mp (ih h)
        exact mem_entryValues.mpr ⟨f, List.mem_cons_of_mem _ hf, hw⟩

/-- Putting a value adds nothing but the value and its key. -/
theorem Entries.mem_entryValues_put {es : Entries Value} {key : Key} {v w : Value}
    (h : w ∈ Store.entryValues (es.put key v)) : w ∈ Store.entryValues es ∨ w = v ∨ w = key.value := by
  induction es with
  | nil =>
      obtain ⟨e, he, hw⟩ := mem_entryValues.mp h
      rw [put, List.mem_singleton] at he
      subst he
      exact Or.inr hw
  | cons e rest ih =>
      obtain ⟨f, hf, hw⟩ := mem_entryValues.mp h
      have hhead (hw : w = e.2 ∨ w = e.1.value) : w ∈ Store.entryValues (e :: rest) :=
        mem_entryValues.mpr ⟨e, List.mem_cons_self .., hw⟩
      rw [put] at hf
      split at hf
      · rcases List.mem_cons.mp hf with rfl | hf
        · rcases hw with rfl | rfl
          · exact Or.inr (Or.inl rfl)
          · exact Or.inl (hhead (Or.inr rfl))
        · exact Or.inl (mem_entryValues.mpr ⟨f, List.mem_cons_of_mem _ hf, hw⟩)
      · rcases List.mem_cons.mp hf with rfl | hf
        · exact Or.inl (hhead hw)
        · rcases ih (mem_entryValues.mpr ⟨f, hf, hw⟩) with hold | hnew
          · obtain ⟨g, hg, hw⟩ := mem_entryValues.mp hold
            exact Or.inl (mem_entryValues.mpr ⟨g, List.mem_cons_of_mem _ hg, hw⟩)
          · exact Or.inr hnew

theorem Entries.put_inherits {P : Value → Prop} {es : Entries Value} (hes : ∀ w ∈ Store.entryValues es, P w)
    {key : Key} (hkey : P key.value) {v : Value} (hv : P v) : ∀ w ∈ Store.entryValues (es.put key v), P w := by
  intro w hw
  rcases mem_entryValues_put hw with hw | rfl | rfl
  · exact hes w hw
  · exact hv
  · exact hkey

/-- Putting many values adds nothing but these and their keys. -/
theorem Entries.mem_entryValues_putAll {es fs : Entries Value} {w : Value}
    (h : w ∈ Store.entryValues (es.putAll fs)) : w ∈ Store.entryValues es ∨ w ∈ Store.entryValues fs := by
  induction fs generalizing es with
  | nil => exact Or.inl h
  | cons f fs ih =>
      have hhead (hw : w = f.2 ∨ w = f.1.value) : w ∈ Store.entryValues (f :: fs) :=
        mem_entryValues.mpr ⟨f, List.mem_cons_self .., hw⟩
      rcases ih h with hput | hrest
      · exact (mem_entryValues_put hput).imp_right hhead
      · obtain ⟨g, hg, hw⟩ := mem_entryValues.mp hrest
        exact Or.inr (mem_entryValues.mpr ⟨g, List.mem_cons_of_mem _ hg, hw⟩)

mutual

/-- Every value that the outline shows has the property. -/
def Outline.All (property : Value → Prop) : Outline → Prop
  | .node fields none => ∀ v ∈ Store.entryValues fields, property v
  | .node fields (some nodes) => (∀ v ∈ Store.entryValues fields, property v) ∧ AllOf property nodes

/-- Every value that one of the outlines shows has the property. -/
def Outline.AllOf (property : Value → Prop) : List Outline → Prop
  | [] => True
  | o :: os => o.All property ∧ AllOf property os

end

namespace Store

variable {s : Store} {P : Value → Prop} {v w : Value} {n : NodeId} {es : Entries Value}

/-- Scalars have the property, and it passes from an object to what stands in it. -/
structure Inherited (s : Store) (P : Value → Prop) : Prop where
  scalar : ∀ v, v.isLink = false → P v
  contained : ∀ o, P (.object o) → ∀ w ∈ Store.contained (s.object o), P w

/-- The key that a key counts as is that of an entry, or the key itself. -/
theorem keyAs_inherits (hes : ∀ w ∈ entryValues es, P w) {key : Key} (hkey : P key.value) :
    P (s.keyAs es key).value := by
  rcases s.keyAs_mem_or es key with hmem | hself
  · obtain ⟨e, he, hkeyOf⟩ := List.mem_map.mp hmem
    exact hes _ (Entries.mem_entryValues.mpr ⟨e, he, Or.inr (congrArg Key.value hkeyOf.symm)⟩)
  · rwa [hself]

theorem put_keyAs_inherits (hes : ∀ w ∈ entryValues es, P w) {key : Key} (hkey : P key.value) (hv : P v) :
    ∀ w ∈ entryValues (es.put (s.keyAs es key) v), P w :=
  Entries.put_inherits hes (keyAs_inherits hes hkey) hv

theorem putEach_inherits {fs : Entries Value} (hes : ∀ w ∈ entryValues es, P w) (hfs : ∀ w ∈ entryValues fs, P w) :
    ∀ w ∈ entryValues (s.putEach es fs), P w := by
  induction fs generalizing es with
  | nil => exact hes
  | cons f fs ih =>
      rw [entryValues_cons, List.forall_mem_cons, List.forall_mem_cons] at hfs
      exact ih (put_keyAs_inherits hes hfs.2.1 hfs.1) hfs.2.2

namespace Inherited

/-- The property passes on to all that the value leads to. -/
theorem reaches (h : s.Inherited P) (hv : P v) (hw : Reaches s.inside [v] w) : P w := by
  induction hw with
  | root hmem =>
      rw [List.mem_singleton.mp hmem]
      exact hv
  | @step u w _ hmem ih =>
      cases u with
      | object o => exact h.contained o ih w hmem
      | _ => cases hmem

theorem and {Q : Value → Prop} (h : s.Inherited P) (h' : s.Inherited Q) : s.Inherited fun v => P v ∧ Q v where
  scalar v hv := ⟨h.scalar v hv, h'.scalar v hv⟩
  contained o ho w hw := ⟨h.contained o ho.1 w hw, h'.contained o ho.2 w hw⟩

/-! ## Reading values -/

theorem object? (h : s.Inherited P) (hv : P v) {x : Object} (hx : s.object? v = some x) :
    ∀ w ∈ Store.contained x, P w := by
  cases v with
  | object o =>
      cases hx
      exact h.contained o hv
  | _ => cases hx

theorem entries? (h : s.Inherited P) (hv : P v) (hes : s.entries? v = some es) : ∀ w ∈ entryValues es, P w := by
  rw [Store.entries?] at hes
  split at hes
  · next fs hmap =>
      cases hes
      exact h.object? hv hmap
  · cases hes

theorem freeField? (h : s.Inherited P) (hv : P v) {name : String} (hw : s.freeField? v name = some w) : P w := by
  rw [Store.freeField?] at hw
  split at hw
  · next x hx =>
      obtain ⟨fields, hfields, hfind⟩ := Option.bind_eq_some_iff.mp hw
      have hmem := Entries.find?_mem_entryValues hfind
      refine h.object? hv hx w ?_
      cases x with
      | foreign cls marker fs => cases hfields; exact hmem
      | wrapper tracker start fs => cases hfields; simp [Store.contained, hmem]
      | _ => cases hfields
  · cases hw

/-- The property passes on to the node that carries out an operation. -/
theorem actor (h : s.Inherited P) (hv : P v) {operation : String} (hn : s.actor operation v = .ok n) :
    P (.node n) := by
  unfold Store.actor at hn
  split at hn
  · cases hn
    exact hv
  · split at hn
    · next m name hmethod =>
        split at hn
        · cases hn
          obtain ⟨field, hfield, hobject⟩ := Option.bind_eq_some_iff.mp hmethod
          exact h.object? (h.freeField? hv hfield) hobject _ (List.mem_singleton_self _)
        · cases hn
    · cases hn

theorem items (h : s.Inherited P) (hv : P v) {vs : List Value} (hvs : s.items v = .ok vs) : ∀ w ∈ vs, P w := by
  unfold Store.items at hvs
  split at hvs
  · next shape items hx =>
      cases hvs
      exact h.object? hv hx
  · next es hx =>
      cases hvs
      intro w hw
      obtain ⟨k, hk, rfl⟩ := List.mem_map.mp hw
      obtain ⟨e, he, rfl⟩ := List.mem_map.mp hk
      exact h.object? hv hx _ (Entries.mem_entryValues.mpr ⟨e, he, Or.inr rfl⟩)
  · cases hvs
    intro w hw
    obtain ⟨c, -, rfl⟩ := List.mem_map.mp hw
    exact h.scalar _ rfl
  · cases hvs
    intro w hw
    obtain ⟨b, -, rfl⟩ := List.mem_map.mp hw
    exact h.scalar _ rfl
  · cases hvs

theorem childrenOf (h : s.Inherited P) (hv : P v) {nodes : Option (List Value)}
    (hnodes : s.childrenOf v = .ok nodes) : ∀ w ∈ nodes.getD [], P w := by
  have hitems (hnodes : some <$> s.items v = .ok nodes) : ∀ w ∈ nodes.getD [], P w := by
    cases hvs : s.items v with
    | ok vs =>
        rw [hvs] at hnodes
        cases hnodes
        exact h.items hv hvs
    | error e => rw [hvs] at hnodes; cases hnodes
  cases v with
  | null => cases hnodes; exact fun w hw => (by cases hw)
  | _ => exact hitems hnodes

theorem mappingEntries (h : s.Inherited P) (hv : P v) (hes : s.mappingEntries v = .ok es) :
    ∀ w ∈ entryValues es, P w := by
  rw [Store.mappingEntries] at hes
  split at hes
  · split at hes
    · next fs hfs => cases hes; exact h.entries? hv hfs
    · cases hes
  · cases hes
    exact fun w hw => (by cases hw)

/-! ## Reading entries -/

theorem entryOf (h : s.Inherited P) (hv : P v) {place : Nat} {e : Key × Value}
    (he : s.entryOf place v = .ok e) : P e.2 ∧ P e.1.value := by
  unfold Store.entryOf at he
  split at he
  · cases he
  · next key w hitems =>
      have hparts := h.items hv hitems
      simp only [List.forall_mem_cons] at hparts
      obtain ⟨-, -, he⟩ := exists_of_bind_ok he
      cases he
      rw [Key.value_ofValue]
      exact ⟨hparts.2.1, hparts.1⟩
  · cases he

theorem entriesOf (h : s.Inherited P) {vs : List Value} (hvs : ∀ v ∈ vs, P v) {place : Nat}
    (hes : s.entriesOf place vs = .ok es) : ∀ w ∈ entryValues es, P w := by
  induction vs generalizing place es with
  | nil =>
      cases hes
      exact fun w hw => (by cases hw)
  | cons v vs ih =>
      obtain ⟨hv, hvs⟩ := List.forall_mem_cons.mp hvs
      obtain ⟨e, he, hes⟩ := exists_of_bind_ok hes
      obtain ⟨rest, hrest, hes⟩ := exists_of_bind_ok hes
      cases hes
      rw [entryValues_cons, List.forall_mem_cons, List.forall_mem_cons]
      obtain ⟨hvalue, hkey⟩ := h.entryOf hv he
      exact ⟨hvalue, hkey, ih hvs hrest⟩

theorem entriesIn (h : s.Inherited P) (hv : P v) (hes : s.entriesIn v = .ok es) : ∀ w ∈ entryValues es, P w := by
  rw [Store.entriesIn] at hes
  cases hmap : s.entries? v with
  | some fs =>
      rw [hmap] at hes
      cases hes
      exact h.entries? hv hmap
  | none =>
      rw [hmap] at hes
      cases hkeys : s.substitute? v "keys" with
      | some w => rw [hkeys] at hes; cases hes
      | none =>
          rw [hkeys] at hes
          obtain ⟨vs, hitems, hes⟩ := exists_of_bind_ok hes
          obtain ⟨entries, hentries, hes⟩ := exists_of_bind_ok hes
          cases hes
          exact putEach_inherits (fun w hw => by cases hw) (h.entriesOf (h.items hv hitems) hentries)

/-! ## Reading outlines -/

theorem outlineFields (h : s.Inherited P) (htype : P (s.node n).type) (hvalue : P (s.node n).value)
    (hattr : P (s.node n).attr) (hes : s.outlineFields n = .ok es) : ∀ w ∈ entryValues es, P w := by
  obtain ⟨extra, hextra, hes⟩ := exists_of_bind_ok hes
  cases hes
  intro w hw
  rcases Entries.mem_entryValues_putAll hw with hown | hw
  · obtain ⟨e, he, hw⟩ := Entries.mem_entryValues.mp hown
    have hmem : e = (.text "type", (s.node n).type) ∨ e = (.text "value", (s.node n).value) := by
      split at he
      · exact Or.inl (List.mem_singleton.mp he)
      · simpa using he
    rcases hmem with rfl | rfl <;> rcases hw with rfl | rfl
    · exact htype
    · exact h.scalar _ rfl
    · exact hvalue
    · exact h.scalar _ rfl
  · exact h.entriesIn hattr hextra w hw

theorem outlineAll {below : NodeId → Prop} {outline : NodeId → Except Fault Outline}
    (houtline : ∀ c o, below c → outline c = .ok o → o.All P) {vs : List Value}
    (hvs : ∀ v ∈ vs, ∀ c, s.actor "to_dict" v = .ok c → below c) {os : List Outline}
    (hos : s.outlineAll outline vs = .ok os) : Outline.AllOf P os := by
  induction vs generalizing os with
  | nil =>
      cases hos
      trivial
  | cons v vs ih =>
      obtain ⟨hv, hvs⟩ := List.forall_mem_cons.mp hvs
      obtain ⟨c, hactor, hos⟩ := exists_of_bind_ok hos
      obtain ⟨o, hfirst, hos⟩ := exists_of_bind_ok hos
      obtain ⟨rest, hrest, hos⟩ := exists_of_bind_ok hos
      cases hos
      exact ⟨houtline c o (hv c hactor) hfirst, ih hvs hrest⟩

/-- **An outline shows what its nodes hold**: if every node `below` has a payload with the property, and leads
to nodes `below` again, every value in the outline has the property. -/
theorem outlineWithin (h : s.Inherited P) {below : NodeId → Prop}
    (hchildren : ∀ m, below m → ∀ v ∈ s.children m, ∀ c, s.actor "to_dict" v = .ok c → below c)
    (hpayload : ∀ m, below m → P (s.node m).type ∧ P (s.node m).value ∧ P (s.node m).attr) {fuel : Nat}
    (hn : below n) {o : Outline} (ho : s.outlineWithin fuel n = .ok o) : o.All P := by
  induction fuel generalizing n o with
  | zero => cases ho
  | succ fuel ih =>
      obtain ⟨htype, hvalue, hattr⟩ := hpayload n hn
      obtain ⟨fields, hfields, ho⟩ := exists_of_bind_ok ho
      have hshown := h.outlineFields htype hvalue hattr hfields
      have hvs := hchildren n hn
      rw [children] at hvs
      cases hnodes : (s.node n).nodes with
      | none =>
          rw [hnodes] at ho
          cases ho
          exact hshown
      | some children =>
          rw [hnodes] at ho hvs
          obtain ⟨os, hos, ho⟩ := exists_of_bind_ok ho
          cases ho
          exact ⟨hshown, outlineAll (fun c o hc ho => ih hc ho) hvs hos⟩

end Inherited

/-! ## Unfolding -/

/-- Unfolding values meets nodes with a property, if every tree does that is unfolded. -/
theorem forall_mem_subtrees {below : NodeId → Prop} {operation : String} {unfold : NodeId → Except Fault Subtree}
    (hunfold : ∀ n t, below n → unfold n = .ok t → ∀ m ∈ t.preorder, below m) {vs : List Value}
    (hvs : ∀ v ∈ vs, ∀ c, s.actor operation v = .ok c → below c) {ts : List Subtree}
    (hts : s.subtrees operation unfold vs = .ok ts) : ∀ m ∈ Subtree.preorderAll ts, below m := by
  induction vs generalizing ts with
  | nil =>
      cases hts
      exact fun m hm => (by cases hm)
  | cons v vs ih =>
      obtain ⟨hv, hvs⟩ := List.forall_mem_cons.mp hvs
      rw [subtrees] at hts
      obtain ⟨c, hactor, hts⟩ := exists_of_bind_ok hts
      obtain ⟨t, hfirst, hts⟩ := exists_of_bind_ok hts
      obtain ⟨rest, hrest, hts⟩ := exists_of_bind_ok hts
      cases hts
      rw [Subtree.preorderAll, List.forall_mem_append]
      exact ⟨hunfold c t (hv c hactor) hfirst, ih hvs hrest⟩

/-- **A property that passes from a node to its children passes to the whole tree below it.** -/
theorem forall_mem_subtreeWithin {below : NodeId → Prop} {operation : String}
    (hstep : ∀ n, below n → ∀ v ∈ s.children n, ∀ c, s.actor operation v = .ok c → below c) (fuel : Nat)
    (hn : below n) {t : Subtree} (ht : s.subtreeWithin operation fuel n = .ok t) : ∀ m ∈ t.preorder, below m := by
  induction fuel generalizing n t with
  | zero => cases ht
  | succ fuel ih =>
      rw [subtreeWithin] at ht
      cases hts : s.subtrees operation (s.subtreeWithin operation fuel) (s.children n) with
      | error e => rw [hts] at ht; cases ht
      | ok ts =>
          rw [hts] at ht
          cases ht
          rw [Subtree.preorder, List.forall_mem_cons]
          exact ⟨hn, forall_mem_subtrees (fun m t hm ht => ih hm ht) (hstep n hn) hts⟩

end Store
end SyntaxTree
