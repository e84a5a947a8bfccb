import SyntaxTree.Proofs.Forest
import SyntaxTree.Proofs.Heredity
import SyntaxTree.Proofs.Keys

/-!
# `Proofs.PlainData` — plain data goes only so deep

Plain data is built from scalars alone: its contents are a finite tree, and no object stands inside itself.
So the way down is no longer than there are objects (`Denotes.height_le`). A recursion on plain data that has
as many levels as that does not depend on their number, nor on what else the store holds: reading a key or
an entry gives the same in every store with the same data in it (`outlineFields_same`).
-/

namespace SyntaxTree
namespace Content

mutual

/-- The number of levels. -/
def height : Content → Nat
  | .atom _ => 0
  | .parts _ cs => heights cs + 1

/-- The number of levels of the deepest of some contents. -/
def heights : List Content → Nat
  | [] => 0
  | c :: cs => max c.height (heights cs)

end

theorem heights_le {cs : List Content} {k : Nat} : heights cs ≤ k ↔ ∀ c ∈ cs, c.height ≤ k := by
  induction cs with
  | nil => simp [heights]
  | cons c cs ih => simp [heights, ih]

theorem height_lt {l : Label} {cs : List Content} {c : Content} (hc : c ∈ cs) :
    c.height < (Content.parts l cs).height := by
  rw [height]
  exact Nat.lt_succ_of_le (heights_le.mp (Nat.le_refl _) c hc)

/-- Nothing in the contents stands for itself but scalars. -/
inductive Bare : Content → Prop
  | atom {v : Value} : v.isLink = false → Bare (.atom v)
  | parts {l : Label} {cs : List Content} : (∀ c ∈ cs, Bare c) → Bare (.parts l cs)

end Content

namespace Store

open Relation

variable {s s' : Store} {v w : Value} {o : ObjectId} {t : Content} {n : NodeId}

/-- The value is plain data, built from scalars alone. -/
def Data (s : Store) (v : Value) : Prop := ∃ t, s.Denotes v t ∧ t.Bare

/-- What stands in an object of plain data denotes less. -/
theorem Denotes.contained (h : s.Denotes (.object o) t) (ht : t.Bare) (hw : w ∈ contained (s.object o)) :
    ∃ c, s.Denotes w c ∧ c.Bare ∧ c.height < t.height := by
  cases ht with
  | atom hscalar =>
      cases h with
      | scalar hobject => cases hobject
      | wrapper _ => cases hscalar
  | parts hbare =>
      obtain ⟨-, hparts⟩ := h.parts
      obtain ⟨c, hc, hdenotes⟩ := exists_of_forall₂ hparts hw
      exact ⟨c, hdenotes, hbare c hc, Content.height_lt hc⟩

theorem Data.contained (h : s.Data (.object o)) (hw : w ∈ contained (s.object o)) : s.Data w := by
  obtain ⟨t, hdenotes, hbare⟩ := h
  obtain ⟨c, hw, hc, -⟩ := hdenotes.contained hbare hw
  exact ⟨c, hw, hc⟩

theorem Data.label (h : s.Data (.object o)) : ∃ l, (s.object o).label? = some l := by
  obtain ⟨t, hdenotes, hbare⟩ := h
  cases hdenotes with
  | scalar hscalar => cases hscalar
  | wrapper _ =>
      cases hbare with
      | atom hscalar => cases hscalar
  | object hlabel => exact ⟨_, hlabel⟩

/-- Plain data is a scalar or an object that there is. -/
theorem Data.cases (h : s.Data v) : v.isLink = false ∨ ∃ o, v = .object o ∧ o < s.objects.size := by
  obtain ⟨t, hdenotes, -⟩ := h
  cases v with
  | node n => cases hdenotes with | scalar hscalar => cases hscalar
  | object o => exact Or.inr ⟨o, rfl, hdenotes.lt_size⟩
  | _ => exact Or.inl rfl

theorem data_scalar (h : v.isLink = false) : s.Data v := ⟨.atom v, .scalar h, .atom h⟩

/-- An object is plain data if it has a label and all that stands in it is plain data. -/
theorem data_object {l : Label} (hlabel : (s.object o).label? = some l)
    (hparts : ∀ w ∈ Store.contained (s.object o), s.Data w) : s.Data (.object o) := by
  have hcontents {vs : List Value} (hvs : ∀ w ∈ vs, s.Data w) :
      ∃ cs, List.Forall₂ s.Denotes vs cs ∧ ∀ c ∈ cs, c.Bare := by
    induction vs with
    | nil => exact ⟨[], .nil, fun c hc => by cases hc⟩
    | cons w ws ih =>
        obtain ⟨⟨c, hw, hc⟩, hws⟩ := List.forall_mem_cons.mp hvs
        obtain ⟨cs, hdenotes, hbare⟩ := ih hws
        exact ⟨c :: cs, .cons hw hdenotes, List.forall_mem_cons.mpr ⟨hc, hbare⟩⟩
  obtain ⟨cs, hdenotes, hbare⟩ := hcontents hparts
  exact ⟨.parts l cs, .of_parts hlabel hdenotes, .parts hbare⟩

theorem inherited_data (s : Store) : s.Inherited s.Data where
  scalar _ := data_scalar
  contained _ h _ hw := h.contained hw

theorem Data.nodeless (h : s.Data v) : s.Nodeless v := by
  intro w hw
  rcases ((inherited_data s).reaches h hw).cases with hscalar | ⟨p, rfl, hp⟩
  · constructor
    · rintro n rfl
      cases hscalar
    · rintro o rfl
      cases hscalar
  · constructor
    · rintro n ⟨⟩
    · rintro o ⟨⟩
      exact hp

/-- A copy of plain data is plain data. -/
theorem Data.copy (h : s.Data v) (hw : s.CopyOf v s' w) : s'.Data w := by
  obtain ⟨t, hdenotes, hbare⟩ := h
  exact ⟨t, hw t hdenotes, hbare⟩

/-! ## The way down -/

/-- A way down goes through objects that are all different, since each denotes more than the next: so it is
no longer than there are objects. -/
theorem Denotes.height_add_le (h : s.Denotes v t) (ht : t.Bare) {above : List ObjectId} (hnodup : above.Nodup)
    (habove : ∀ p ∈ above, ∃ c, s.Denotes (.object p) c ∧ t.height < c.height) :
    t.height + above.length ≤ s.objects.size := by
  have hlength {ps : List ObjectId} (hps : ps.Nodup) (hlt : ∀ p ∈ ps, p < s.objects.size) :
      ps.length ≤ s.objects.size := by
    have hsubset : ps ⊆ List.range s.objects.size := fun p hp => List.mem_range.mpr (hlt p hp)
    exact (hps.subperm hsubset).length_le.trans (Nat.le_of_eq List.length_range)
  induction t generalizing v above with
  | atom a =>
      rw [Content.height, Nat.zero_add]
      exact hlength hnodup fun p hp => (habove p hp).choose_spec.1.lt_size
  | parts l cs ih =>
      cases v with
      | object o =>
          have hnot : o ∉ above := by
            intro hmem
            obtain ⟨c, hc, hlt⟩ := habove o hmem
            rw [h.unique hc] at hlt
            exact Nat.lt_irrefl _ hlt
          have hnodup' : (o :: above).Nodup := List.nodup_cons.mpr ⟨hnot, hnodup⟩
          have hparts : ∀ c ∈ cs, c.height + (above.length + 1) ≤ s.objects.size := by
            intro c hc
            obtain ⟨w, hw, hdenotes⟩ := exists_of_forall₂ h.parts.2.flip hc
            cases ht with
            | parts hbare =>
                refine ih c hc hdenotes (hbare c hc) hnodup' fun p hp => ?_
                rcases List.mem_cons.mp hp with rfl | hp
                · exact ⟨_, h, Content.height_lt hc⟩
                · obtain ⟨d, hd, hlt⟩ := habove p hp
                  exact ⟨d, hd, Nat.lt_trans (Content.height_lt hc) hlt⟩
          have hmade : above.length + 1 ≤ s.objects.size := by
            refine hlength hnodup' fun p hp => ?_
            rcases List.mem_cons.mp hp with rfl | hp
            · exact h.lt_size
            · exact (habove p hp).choose_spec.1.lt_size
          have hheights : Content.heights cs ≤ s.objects.size - (above.length + 1) :=
            Content.heights_le.mpr fun c hc => Nat.le_sub_of_add_le (hparts c hc)
          rw [Content.height]
          omega
      | _ => cases h

/-- **Plain data has no more levels than there are objects.** -/
theorem Denotes.height_le (h : s.Denotes v t) (ht : t.Bare) : t.height ≤ s.objects.size :=
  h.height_add_le ht List.nodup_nil fun p hp => by cases hp

/-- The value is plain data of at most so many levels. -/
inductive DataWithin (s : Store) : Nat → Value → Prop
  | scalar {k : Nat} {v : Value} : v.isLink = false → DataWithin s k v
  | object {k : Nat} {o : ObjectId} {l : Label} : (s.object o).label? = some l →
      (∀ w ∈ Store.contained (s.object o), DataWithin s k w) → DataWithin s (k + 1) (.object o)

theorem DataWithin.cases_object {k : Nat} (h : s.DataWithin k (.object o)) :
    o < s.objects.size ∧ (∃ l, (s.object o).label? = some l) ∧
      ∃ j, k = j + 1 ∧ ∀ w ∈ Store.contained (s.object o), s.DataWithin j w := by
  cases h with
  | scalar hscalar => cases hscalar
  | object hlabel hparts =>
      refine ⟨lt_size_of_object fun hplain => ?_, ⟨_, hlabel⟩, _, rfl, hparts⟩
      rw [hplain] at hlabel
      cases hlabel

theorem Denotes.dataWithin (h : s.Denotes v t) (ht : t.Bare) {k : Nat} (hk : t.height ≤ k) :
    s.DataWithin k v := by
  induction t generalizing v k with
  | atom a =>
      cases h with
      | scalar hscalar => exact .scalar hscalar
      | wrapper _ => cases ht with | atom hscalar => cases hscalar
  | parts l cs ih =>
      cases v with
      | object o =>
          rw [Content.height] at hk
          obtain ⟨k, rfl⟩ : ∃ j, k = j + 1 := ⟨k - 1, by omega⟩
          obtain ⟨hlabel, hparts⟩ := h.parts
          refine .object hlabel fun w hw => ?_
          obtain ⟨c, hc, hdenotes⟩ := exists_of_forall₂ hparts hw
          cases ht with
          | parts hbare =>
              exact ih c hc hdenotes (hbare c hc) (Content.heights_le.mp (Nat.le_of_succ_le_succ hk) c hc)
      | _ => cases h

theorem Data.within (h : s.Data v) {k : Nat} (hk : s.objects.size ≤ k) : s.DataWithin k v := by
  obtain ⟨t, hdenotes, hbare⟩ := h
  exact hdenotes.dataWithin hbare ((hdenotes.height_le hbare).trans hk)

/-! ## Data in two stores -/

/-- Every object that the value leads to is in `s'` what it is in `s`. -/
def SameBelow (s s' : Store) (v : Value) : Prop :=
  ∀ w, Reaches s.inside [v] w → ∀ o, w = .object o → s'.object o = s.object o

theorem SameBelow.self (h : s.SameBelow s' (.object o)) : s'.object o = s.object o :=
  h _ (.root (List.mem_singleton_self _)) o rfl

theorem SameBelow.contained (h : s.SameBelow s' (.object o)) (hw : w ∈ contained (s.object o)) :
    s.SameBelow s' w := by
  intro u hu
  refine h u ?_
  induction hu with
  | root hmem =>
      rw [List.mem_singleton.mp hmem]
      exact .step (.root (List.mem_singleton_self _)) hw
  | step _ hmem ih => exact ih.step hmem

/-- What a property that is inherited keeps as it is, it keeps below as well. -/
theorem Inherited.sameBelow {P : Value → Prop} (h : s.Inherited P)
    (hsame : ∀ o, P (.object o) → s'.object o = s.object o) (hv : P v) : s.SameBelow s' v := by
  rintro w hw o rfl
  exact hsame o (h.reaches hv hw)

/-- A scalar leads to no object. -/
theorem sameBelow_scalar (h : v.isLink = false) : s.SameBelow s' v := by
  have hscalars : s.Inherited fun w => w.isLink = false := ⟨fun _ hw => hw, fun _ ho => by cases ho⟩
  exact hscalars.sameBelow (fun _ ho => by cases ho) h

theorem inherited_sameBelow (s s' : Store) : s.Inherited (s.SameBelow s') where
  scalar _ := sameBelow_scalar
  contained _ h _ hw := h.contained hw

theorem forM_congr {vs : List Value} {f g : Value → Except Fault Unit} (h : ∀ v ∈ vs, f v = g v) :
    vs.forM f = vs.forM g := by
  induction vs with
  | nil => rfl
  | cons v vs ih =>
      have hrest := ih fun w hw => h w (List.mem_cons_of_mem _ hw)
      simp only [List.forM_eq_forM] at hrest ⊢
      rw [List.forM_cons, List.forM_cons, h v (List.mem_cons_self ..), hrest]

/-- With enough levels, refusing what cannot be a key depends on the value alone. -/
theorem requireHashableWithin_same {k : Nat} (h : s.DataWithin k v) (hsame : s.SameBelow s' v)
    {fuel fuel' : Nat} (hfuel : k ≤ fuel) (hfuel' : k ≤ fuel') :
    s'.requireHashableWithin fuel' v = s.requireHashableWithin fuel v := by
  induction h generalizing fuel fuel' with
  | @scalar k v hscalar =>
      have hnone (u : Store) (j : Nat) : u.requireHashableWithin j v = .ok () := by
        cases j with
        | zero => rfl
        | succ j => rw [requireHashableWithin, object?_of_scalar hscalar]
      rw [hnone, hnone]
  | @object k o l _ _ ih =>
      obtain ⟨fuel, rfl⟩ : ∃ j, fuel = j + 1 := ⟨fuel - 1, by omega⟩
      obtain ⟨fuel', rfl⟩ : ∃ j, fuel' = j + 1 := ⟨fuel' - 1, by omega⟩
      have hparts : ∀ w ∈ Store.contained (s.object o),
          s'.requireHashableWithin fuel' w = s.requireHashableWithin fuel w := fun w hw =>
        ih w hw (hsame.contained hw) (Nat.le_of_succ_le_succ hfuel) (Nat.le_of_succ_le_succ hfuel')
      rw [requireHashableWithin, requireHashableWithin, object?, object?, hsame.self, kindName, kindName, hsame.self]
      cases hx : s.object o with
      | collection shape items =>
          rw [hx] at hparts
          cases shape with
          | tuple => exact forM_congr hparts
          | _ => rfl
      | location line column => rw [hx] at hparts; exact forM_congr hparts
      | position start finish source => rw [hx] at hparts; exact forM_congr hparts
      | matcher kind target => rw [hx] at hparts; exact hparts target (List.mem_singleton_self _)
      | _ => rfl

/-- Plain data in `s` that is the same in `s'`. -/
structure Shared (s s' : Store) (v : Value) : Prop where
  data : s.Data v
  same : s.SameBelow s' v

theorem shared_scalar (h : v.isLink = false) : s.Shared s' v :=
  ⟨data_scalar h, sameBelow_scalar h⟩

theorem Shared.contained (h : s.Shared s' (.object o)) (hw : w ∈ contained (s.object o)) : s.Shared s' w :=
  ⟨h.data.contained hw, h.same.contained hw⟩

theorem Shared.requireHashable_eq (h : s.Shared s' v) (hs : s.objects.size ≤ s'.objects.size) :
    s'.requireHashable v = s.requireHashable v :=
  requireHashableWithin_same (h.data.within (Nat.le_refl _)) h.same (Nat.le_succ _) (Nat.le_succ_of_le hs)

theorem Shared.object?_eq (h : s.Shared s' v) : s'.object? v = s.object? v := by
  cases v with
  | object o => exact congrArg some h.same.self
  | _ => rfl

theorem Shared.items_eq (h : s.Shared s' v) : s'.items v = s.items v := by
  cases v with
  | node n => exact (h.data.nodeless.ne_node n rfl).elim
  | object o =>
      have hsame := h.same.self
      simp only [items, object?, hsame]
      cases hx : s.object o <;> simp only [qualifiedKindName, kindName, hsame]
  | _ => rfl

theorem inherited_shared (s s' : Store) : s.Inherited (s.Shared s') where
  scalar _ := shared_scalar
  contained _ h _ hw := h.contained hw

theorem Shared.entryOf_eq (h : s.Shared s' v) (hs : s.objects.size ≤ s'.objects.size) (place : Nat) :
    s'.entryOf place v = s.entryOf place v := by
  unfold entryOf
  rw [h.items_eq]
  cases hitems : s.items v with
  | error e => rfl
  | ok vs =>
      match vs, hitems with
      | [key, w], hitems =>
          dsimp only
          rw [((inherited_shared s s').items h hitems key (List.mem_cons_self ..)).requireHashable_eq hs]
      | [], _ => rfl
      | [_], _ => rfl
      | _ :: _ :: _ :: _, _ => rfl

theorem entriesOf_shared {vs : List Value} (h : ∀ v ∈ vs, s.Shared s' v) (hs : s.objects.size ≤ s'.objects.size)
    (place : Nat) : s'.entriesOf place vs = s.entriesOf place vs := by
  induction vs generalizing place with
  | nil => rfl
  | cons v vs ih =>
      rw [entriesOf, entriesOf, (h v (List.mem_cons_self ..)).entryOf_eq hs,
        ih fun w hw => h w (List.mem_cons_of_mem _ hw)]

/-- Plain data has no fields that can be set. -/
theorem Data.freeField? (h : s.Data v) (name : String) : s.freeField? v name = none := by
  cases v with
  | object o =>
      obtain ⟨l, hl⟩ := h.label
      rw [Store.freeField?, object?]
      generalize s.object o = x at hl
      cases Object.labelled hl <;> rfl
  | _ => rfl

/-- What is compared of an object stands in it. -/
theorem contained_of_parts {x : Object} (hw : w ∈ x.parts) : w ∈ Store.contained x := by
  cases x with
  | map es =>
      rw [Store.contained, Entries.mem_entryValues]
      rcases List.mem_append.mp hw with hkey | hvalue
      · obtain ⟨k, hk, rfl⟩ := List.mem_map.mp hkey
        obtain ⟨e, he, rfl⟩ := List.mem_map.mp hk
        exact ⟨e, he, Or.inr rfl⟩
      · obtain ⟨e, he, rfl⟩ := List.mem_map.mp hvalue
        exact ⟨e, he, Or.inl rfl⟩
  | tracker source line column => cases hw
  | wrapper tracker start fields => cases hw
  | method owner name => cases hw
  | foreign cls marker fields => cases hw
  | _ => exact hw

theorem comparedAlike_shared (s s' : Store) : s.ComparedAlike s' (s.Shared s') where
  essence _ h := congrArg Object.essence h.same.self
  parts _ h _ hw := h.contained (contained_of_parts hw)

theorem Shared.entriesIn_eq (h : s.Shared s' v) (hs : s.objects.size ≤ s'.objects.size) :
    s'.entriesIn v = s.entriesIn v := by
  have hitems : (s'.items v >>= fun vs => s'.entriesOf 0 vs >>= fun es => .ok (s'.putEach [] es)) =
      s.items v >>= fun vs => s.entriesOf 0 vs >>= fun es => .ok (s.putEach [] es) := by
    rw [h.items_eq]
    cases hvs : s.items v with
    | error e => simp only [bind, Except.bind]
    | ok vs =>
        have hshared := (inherited_shared s s').items h hvs
        simp only [bind, Except.bind, entriesOf_shared hshared hs]
        cases hes : s.entriesOf 0 vs with
        | error e => simp only
        | ok es =>
            have hkeys : ∀ k ∈ es.keys, s.Shared s' k.value := fun k hk => by
              obtain ⟨e, he, rfl⟩ := List.mem_map.mp hk
              exact (inherited_shared s s').entriesOf hshared hes _ (Entries.mem_entryValues.mpr ⟨e, he, Or.inr rfl⟩)
            have hputs : s'.putEach [] es = s.putEach [] es :=
              (comparedAlike_shared s s').putEach_eq (fun _ hk => by cases hk) hkeys
            simp only [hputs]
  have hentries : s'.entries? v = s.entries? v := by rw [entries?, entries?, h.object?_eq]
  have hnone {u : Store} (hfield : ∀ name, u.freeField? v name = none) : u.substitute? v "keys" = none := by
    cases v with
    | node n => exact (h.data.nodeless.ne_node n rfl).elim
    | _ => exact hfield "keys"
  have hfield' (name : String) : s'.freeField? v name = none := by
    rw [Store.freeField?, h.object?_eq]
    exact h.data.freeField? name
  rw [entriesIn, entriesIn, hentries, hnone h.data.freeField?, hnone hfield']
  cases s.entries? v with
  | some es => rfl
  | none => exact hitems

/-- **The fields that a node shows are the same wherever the record and the data in it are.** -/
theorem outlineFields_same (hnode : s'.node n = s.node n) (hattr : s.Shared s' (s.node n).attr)
    (hs : s.objects.size ≤ s'.objects.size) : s'.outlineFields n = s.outlineFields n := by
  simp only [outlineFields, hnode, hattr.entriesIn_eq hs]

/-! ## Outlines in two stores -/

theorem outlineAll_same {outline outline' : NodeId → Except Fault Outline} {vs : List Value}
    (h : ∀ v ∈ vs, ∃ c, v = .node c ∧ outline' c = outline c) :
    s'.outlineAll outline' vs = s.outlineAll outline vs := by
  induction vs with
  | nil => rfl
  | cons v vs ih =>
      obtain ⟨c, rfl, hc⟩ := h v (List.mem_cons_self ..)
      rw [outlineAll, outlineAll, actor_node, actor_node]
      simp only [bind, Except.bind, hc, ih fun w hw => h w (List.mem_cons_of_mem _ hw)]

/-- With as many levels as there are nodes below it, the outline of a node depends on these nodes alone. -/
theorem outlineWithin_same {alive : NodeId → Prop} (h : s.Acyclic alive) (hs : s.objects.size ≤ s'.objects.size)
    (hsame : ∀ m, alive m → s'.node m = s.node m ∧ s.Shared s' (s.node m).attr) {fuel fuel' : Nat} (hn : alive n)
    (hfuel : (s.below n).card ≤ fuel) (hfuel' : (s.below n).card ≤ fuel') :
    s'.outlineWithin fuel' n = s.outlineWithin fuel n := by
  induction fuel generalizing n fuel' with
  | zero => exact absurd (card_below_pos h hn) (by omega)
  | succ fuel ih =>
      obtain ⟨fuel', rfl⟩ : ∃ f, fuel' = f + 1 := ⟨fuel' - 1, by have := card_below_pos h hn; omega⟩
      obtain ⟨hnode, hattr⟩ := hsame n hn
      have hbranch : ∀ v ∈ s.children n, ∃ c, v = .node c ∧
          s'.outlineWithin fuel' c = s.outlineWithin fuel c := by
        intro v hv
        obtain ⟨c, rfl, hc⟩ := h.child n v hn hv
        have hlt := card_below_lt h hn hv
        exact ⟨c, rfl, ih hc (by omega) (by omega)⟩
      rw [outlineWithin, outlineWithin, outlineFields_same hnode hattr hs, hnode]
      rw [children] at hbranch
      cases hnodes : (s.node n).nodes with
      | none => rfl
      | some vs =>
          rw [hnodes, Option.getD_some] at hbranch
          dsimp only
          rw [outlineAll_same hbranch]

/-- **The outline of a node is the same wherever the nodes below it and the data in them are.** -/
theorem outline_same {alive : NodeId → Prop} (h : s.Acyclic alive) (hnodes : s.nodes.size ≤ s'.nodes.size)
    (hs : s.objects.size ≤ s'.objects.size)
    (hsame : ∀ m, alive m → s'.node m = s.node m ∧ s.Shared s' (s.node m).attr) (hn : alive n) :
    s'.outline n = s.outline n := by
  have hcard := card_below_le s n
  exact outlineWithin_same h hs hsame hn (by omega) (by omega)

/-- The outline of `n` is in `s'` what it is in `s`, and so is all that it shows. -/
def SameOutline (s s' : Store) (n : NodeId) : Prop :=
  s'.outline n = s.outline n ∧ ∀ o, s.outline n = .ok o → o.All (s.SameBelow s')

/-- The node is in `s'` what it is in `s`, and so is all that its payload leads to. -/
structure SameAt (s s' : Store) (n : NodeId) : Prop where
  node : s'.node n = s.node n
  type : s.SameBelow s' (s.node n).type
  value : s.SameBelow s' (s.node n).value
  attr : s.Shared s' (s.node n).attr

/-- Where all nodes below are the same, so is the outline. -/
theorem sameOutline_of_below (h : s.Acyclic (ReflTransGen s.Holds n)) (hnodes : s.nodes.size ≤ s'.nodes.size)
    (hs : s.objects.size ≤ s'.objects.size) (hsame : ∀ m, ReflTransGen s.Holds n m → s.SameAt s' m) :
    s.SameOutline s' n := by
  have hchildren : ∀ p, ReflTransGen s.Holds n p → ∀ v ∈ s.children p, ∀ c, s.actor "to_dict" v = .ok c →
      ReflTransGen s.Holds n c := by
    intro p hp v hv c hactor
    obtain ⟨d, rfl, hd⟩ := h.child p v hp hv
    rw [actor_node] at hactor
    cases hactor
    exact hd
  have hpayload : ∀ m, ReflTransGen s.Holds n m → s.SameBelow s' (s.node m).type ∧
      s.SameBelow s' (s.node m).value ∧ s.SameBelow s' (s.node m).attr := fun m hm =>
    ⟨(hsame m hm).type, (hsame m hm).value, (hsame m hm).attr.same⟩
  refine ⟨outline_same h hnodes hs (fun m hm => ⟨(hsame m hm).node, (hsame m hm).attr⟩) .refl, fun o ho => ?_⟩
  exact (inherited_sameBelow s s').outlineWithin hchildren hpayload .refl ho

end Store
end SyntaxTree
