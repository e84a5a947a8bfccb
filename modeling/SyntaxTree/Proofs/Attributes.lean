import SyntaxTree.Proofs.Fields
import SyntaxTree.Proofs.Keys
import SyntaxTree.Proofs.Spans

/-!
# `Proofs.Attributes` — which keys get among the extra attributes

Every node is made with a map of its own for its extra attributes. As long as nothing else is put in the place of
this map, three ways lead into it, and each lets other keys through: fields that a node is made from (`IsExtra`), names
that are assigned and have no meaning of their own, and maps that are merged. So what is known of the keys that get in
on each of the ways is known of all keys in the end.

`Attributed` is the invariant, with a condition on keys that may depend on the class of the node. What leaves all maps
and all classes alone keeps it whatever the condition is (`KeepsMaps`); setting an attribute keeps it where the key is
allowed. The stores that are `Reached` by constructions, assignments, merges and by moving children about are all
attributed (`reached_attributed`).
-/

namespace SyntaxTree

namespace Store

variable {s s' s'' : Store} {n : NodeId} {o : ObjectId} {cls : NodeClass} {key : Key} {v w : Value} {es : Entries Value}
  {allowed : NodeClass → Key → Prop}

/-! ## The invariant -/

/-- Every node has a map of its own for its extra attributes, with keys that are allowed for its class. -/
structure Attributed (allowed : NodeClass → Key → Prop) (s : Store) : Prop where
  attr : ∀ n < s.nodes.size, ∃ m es, (s.node n).attr = .object m ∧ s.object m = .map es ∧
    ∀ k ∈ es.keys, allowed (s.node n).cls k
  own : ∀ n < s.nodes.size, ∀ n' < s.nodes.size, (s.node n).attr = (s.node n').attr → n = n'
  maps : ∀ o es, s.object o = .map es → s.IsMap es

/-! ## What leaves maps and classes alone -/

/-- The maps are what they were, and so is what can be a key; the nodes have the classes and the maps that they had. -/
structure KeepsMaps (s s' : Store) : Prop where
  size : s'.nodes.size = s.nodes.size
  cls : ∀ n, (s'.node n).cls = (s.node n).cls
  attr : ∀ n, (s'.node n).attr = (s.node n).attr
  map : ∀ o es, s'.object o = .map es ↔ s.object o = .map es
  lasts : s.Lasts s'

theorem Attributed.keepsMaps (h : s.Attributed allowed) (hs : s.KeepsMaps s') : s'.Attributed allowed where
  attr n hn := by
    obtain ⟨m, es, hattr, hm, hkeys⟩ := h.attr n (hs.size ▸ hn)
    exact ⟨m, es, (hs.attr n).trans hattr, (hs.map m es).mpr hm, by rwa [hs.cls n]⟩
  own n hn n' hn' heq := by
    rw [hs.attr, hs.attr] at heq
    exact h.own n (hs.size ▸ hn) n' (hs.size ▸ hn') heq
  maps o es ho := (h.maps o es ((hs.map o es).mp ho)).mono hs.lasts

namespace KeepsMaps

theorem refl (s : Store) : s.KeepsMaps s := ⟨rfl, fun _ => rfl, fun _ => rfl, fun _ _ => Iff.rfl, .refl s⟩

theorem trans (h : s.KeepsMaps s') (h' : s'.KeepsMaps s'') : s.KeepsMaps s'' where
  size := h'.size.trans h.size
  cls n := (h'.cls n).trans (h.cls n)
  attr n := (h'.attr n).trans (h.attr n)
  map o es := (h'.map o es).trans (h.map o es)
  lasts := h.lasts.trans h'.lasts

theorem note (h : s.KeepsMaps s') (r : DebugRecord) : s.KeepsMaps (s'.note r) :=
  ⟨h.size, h.cls, h.attr, h.map, h.lasts.objects, h.lasts.object⟩

/-- Changes of a node in other fields. -/
theorem updateNode (h : s.KeepsMaps s') (n : NodeId) {f : NodeRecord → NodeRecord}
    (hf : ∀ r, (f r).cls = r.cls ∧ (f r).attr = r.attr) : s.KeepsMaps (s'.updateNode n f) where
  size := by rw [size_updateNode, h.size]
  cls m := by rw [field_updateNode NodeRecord.cls s' n fun r => (hf r).1, h.cls]
  attr m := by rw [field_updateNode NodeRecord.attr s' n fun r => (hf r).2, h.attr]
  map := h.map
  lasts := ⟨h.lasts.objects, h.lasts.object⟩

/-- Changes of an object that make no map of it, and do not change one or what can be a key. -/
theorem updateObject (h : s.KeepsMaps s') (o : ObjectId) {f : Object → Object}
    (hf : ∀ es, f (s'.object o) = .map es ↔ s'.object o = .map es)
    (hlasting : (f (s'.object o)).essence = (s'.object o).essence) : s.KeepsMaps (s'.updateObject o f) where
  size := h.size
  cls := h.cls
  attr := h.attr
  map p es := by
    rw [object_updateObject]
    split
    · next hp => rw [← h.map, hp.1, hf]
    · exact h.map p es
  lasts := h.lasts.updateObject o fun _ => hlasting

theorem setHint (h : s.KeepsMaps s') (n : NodeId) (v : Value) : s.KeepsMaps (s'.setHint n v) :=
  h.updateNode n fun _ => ⟨rfl, rfl⟩

theorem setParent (h : s.KeepsMaps s') (n : NodeId) (parent : Option Value) : s.KeepsMaps (s'.setParent n parent) :=
  h.updateNode n fun _ => ⟨rfl, rfl⟩

theorem setNodes (h : s.KeepsMaps s') (n : NodeId) (nodes : Option (List Value)) :
    s.KeepsMaps (s'.setNodes n nodes) :=
  h.updateNode n fun _ => ⟨rfl, rfl⟩

theorem setFreeField (h : s.KeepsMaps s') (o : ObjectId) (name : String) (v : Value) :
    s.KeepsMaps (s'.setFreeField o name v) := by
  refine h.updateObject o (fun es => ?_) ?_
  · cases s'.object o <;> simp [Object.mapFreeFields]
  · cases s'.object o <;> rfl

theorem linkParent (h : s.KeepsMaps s') (v : Value) (n : NodeId) : s.KeepsMaps (s'.linkParent v n) := by
  cases v with
  | node c => exact h.setParent c _
  | object o => exact h.setFreeField o _ _
  | _ => exact h

theorem hintChild (h : s.KeepsMaps s') (v w : Value) : s.KeepsMaps (s'.hintChild v w) := by
  cases v with
  | node c => exact h.setHint c w
  | object o => exact h.setFreeField o _ w
  | _ => exact h

theorem append (h : s.KeepsMaps s') (n : NodeId) (v : Value) : s.KeepsMaps (s'.append n v) :=
  ((h.linkParent v n).hintChild v _).setNodes n _

theorem prepend (h : s.KeepsMaps s') (n : NodeId) (v : Value) : s.KeepsMaps (s'.prepend n v) :=
  ((h.linkParent v n).hintChild v _).setNodes n _

theorem collect (h : s.KeepsMaps s') (inUse : List Value) : s.KeepsMaps (s'.collect inUse) where
  size := by rw [size_collect, h.size]
  cls n := by
    rw [← h.cls n, node_collect]
    rcases cutParent_parent_or (s'.reachable inUse) (s'.node n) with hsame | hcut
    · rw [hsame]
    · rw [hcut]
  attr n := by
    rw [← h.attr n, node_collect]
    rcases cutParent_parent_or (s'.reachable inUse) (s'.node n) with hsame | hcut
    · rw [hsame]
    · rw [hcut]
  map := h.map
  lasts := ⟨h.lasts.objects, h.lasts.object⟩

end KeepsMaps

/-- Objects that are made are no matter, if they are no maps. -/
theorem keepsMaps_addObject (s : Store) {x : Object} (hx : ∀ es, x ≠ .map es) : s.KeepsMaps (s.addObject x) where
  size := rfl
  cls _ := rfl
  attr _ := rfl
  map o es := by
    rcases Nat.lt_trichotomy o s.objects.size with hlt | rfl | hgt
    · rw [object_addObject_of_lt s x hlt]
    · rw [object_addObject_self, object_of_size_le s (Nat.le_refl _)]
      exact ⟨fun h => absurd h (hx es), fun h => by cases h⟩
    · rw [object_of_size_le s (Nat.le_of_lt hgt), object_of_size_le _ (by rw [size_addObject]; exact hgt)]
  lasts := .of_extends (.addObject s x)

/-! ## Moving children about -/

variable {s₀ : Store}

theorem keepsMaps_shownInRecord (v : Value) : Run.Preserves s₀.KeepsMaps (shownInRecord v) := by
  intro s h
  unfold Run.Ends shownInRecord
  cases s.display v with
  | ok text => exact h
  | error e => cases s.logIsRead <;> exact h

theorem keepsMaps_locate (n : NodeId) : Run.Preserves s₀.KeepsMaps (locate n) := by
  refine Run.Preserves.get.bind fun s => ?_
  refine Run.Preserves.ite (fun _ => .check _) fun _ => (Run.Preserves.check _).bind fun siblings => ?_
  -- a scan leaves a record and a hint behind
  have hscan (siblings : Siblings) : Run.Preserves s₀.KeepsMaps (rescan n siblings) := by
    refine (keepsMaps_shownInRecord _).bind fun shown => ?_
    refine (Run.Preserves.update fun s h => h.note _).bind fun _ => (Run.Preserves.check _).bind fun items => ?_
    exact (Run.Preserves.read _).bind fun found =>
      (Run.Preserves.update fun s h => h.setHint n found).bind fun _ => .pure _
  cases siblings with
  | absent => exact .pure _
  | _ => exact (Run.Preserves.check _).bind fun holds => .ite (fun _ => .pure _) fun _ => hscan _

theorem keepsMaps_readIndex (n : NodeId) : Run.Preserves s₀.KeepsMaps (readIndex n) :=
  .recover (keepsMaps_locate n) (.check _)

theorem keepsMaps_push (n : NodeId) (v : Value) : Run.Preserves s₀.KeepsMaps (push n v) :=
  (Run.Preserves.check _).bind fun _ => (Run.Preserves.update fun _ h => h.append n v).bind fun _ => .read _

theorem keepsMaps_unshift (n : NodeId) (v : Value) : Run.Preserves s₀.KeepsMaps (unshift n v) :=
  (Run.Preserves.check _).bind fun _ => (Run.Preserves.update fun _ h => h.prepend n v).bind fun _ => .read _

theorem keepsMaps_pushAll (n : NodeId) (vs : List Value) : Run.Preserves s₀.KeepsMaps (pushAll n vs) := by
  induction vs with
  | nil => exact .pure _
  | cons v vs ih => exact (keepsMaps_push n v).bind fun _ => ih

theorem keepsMaps_pop (n : NodeId) : Run.Preserves s₀.KeepsMaps (pop n) := by
  intro s h
  unfold Run.Ends pop
  cases (s.children n).getLast? with
  | none => exact h
  | some v => exact h.setNodes n _

theorem keepsMaps_shift (n : NodeId) : Run.Preserves s₀.KeepsMaps (shift n) := by
  intro s h
  unfold Run.Ends shift
  cases s.children n with
  | nil => exact h
  | cons v rest => exact h.setNodes n _

theorem keepsMaps_deleteAt (n : NodeId) (position : Value) : Run.Preserves s₀.KeepsMaps (deleteAt n position) := by
  intro s h
  rw [Run.Ends, deleteAt_eq]
  cases (s.node n).nodes with
  | none => exact h
  | some nodes =>
      dsimp only
      cases s.placeOf "list" nodes.length .placeOutOfRange position with
      | error e => exact h
      | ok i => exact h.setNodes n _

theorem keepsMaps_indexOf (v : Value) : Run.Preserves s₀.KeepsMaps (indexOf v) := by
  unfold indexOf
  split
  · exact keepsMaps_readIndex _
  · exact .check _

theorem keepsMaps_remove (n : NodeId) (child : Value) : Run.Preserves s₀.KeepsMaps (remove n child) := by
  refine (Run.Preserves.check _).bind fun _ => (Run.Preserves.check _).bind fun parent => ?_
  refine (Run.Preserves.read _).bind fun detached => ?_
  refine Run.Preserves.ite (fun _ => (keepsMaps_indexOf child).bind fun index => ?_)
    fun _ => (Run.Preserves.pure _).bind fun index => ?_
  all_goals
    refine Run.Preserves.ite (fun _ => ?_) fun _ => ?_
    · refine (keepsMaps_shownInRecord _).bind fun _ => (keepsMaps_shownInRecord _).bind fun _ => ?_
      exact (Run.Preserves.update fun _ h => h.note _).bind fun _ => .pure _
    · refine (keepsMaps_deleteAt n index).bind fun _ => ?_
      exact (Run.Preserves.update fun _ h => h.hintChild child detached).bind fun _ => .pure _

theorem keepsMaps_assignParent (n : NodeId) (v : Value) : Run.Preserves s₀.KeepsMaps (assignParent n v) := by
  unfold assignParent
  refine .ite (fun _ => .update fun _ h => h.setParent n _) fun _ => ?_
  exact (Run.Preserves.check _).bind fun _ => .update fun _ h => h.setParent n _

/-- Of the members of a node only two are other than children, links and fields of no matter here. -/
theorem keepsMaps_assignMember (n : NodeId) (name : String) (v : Value) {m : Member} (hattr : m ≠ .attr)
    (hcls : m ≠ .cls) : Run.Preserves s₀.KeepsMaps (assignMember n name v m) := by
  unfold assignMember
  split
  -- the stored fields
  · exact .update fun _ h => h.updateNode n fun _ => ⟨rfl, rfl⟩
  · exact .update fun _ h => h.updateNode n fun _ => ⟨rfl, rfl⟩
  · exact (Run.Preserves.check _).bind fun nodes => .update fun _ h => h.setNodes n nodes
  · exact absurd rfl hattr
  · exact .update fun _ h => h.setHint n v
  · exact .update fun _ h => h.setHint n v
  · exact .update fun _ h => h.setParent n _
  · exact keepsMaps_assignParent n v
  · exact .check _
  · exact absurd rfl hcls
  -- what refuses every assignment
  · exact .throw _
  · exact .check _
  · exact .ite (fun _ => .throw _) fun _ => .check _

/-! ## Setting attributes -/

theorem Attributed.putExtra (h : s.Attributed allowed) {m : ObjectId} (hn : n < s.nodes.size)
    (hattr : (s.node n).attr = .object m) (hm : s.object m = .map es) (hkeyed : key = .ofValue key.value)
    (hkey : s.Keyable key.value) (hallowed : allowed (s.node n).cls key) :
    (s.updateObject m fun _ => .map (es.put (s.keyAs es key) v)).Attributed allowed where
  attr n' hn' := by
    obtain ⟨m', es', hattr', hm', hkeys⟩ := h.attr n' hn'
    by_cases hsame : m' = m
    · -- nobody else has this map
      subst hsame
      obtain rfl : n' = n := h.own n' hn' n hn (hattr'.trans hattr.symm)
      cases hm.symm.trans hm'
      refine ⟨m', es.put (s.keyAs es key) v, hattr,
        object_updateObject_self s _ (lt_size_of_object (hm ▸ fun heq => by cases heq)), ?_⟩
      exact forall_keys_put_keyAs hkeys hallowed
    · exact ⟨m', es', hattr', (object_updateObject_of_ne s _ hsame).trans hm', hkeys⟩
  own := h.own
  maps o fs ho := by
    have hlasts : s.Lasts (s.updateObject m fun _ => .map (es.put (s.keyAs es key) v)) := (Lasts.refl s).updateMap hm _
    rw [object_updateObject] at ho
    split at ho
    · cases ho
      exact ((h.maps m es hm).put hkeyed hkey v).mono hlasts
    · exact (h.maps o fs ho).mono hlasts

/-- What the making and the changing of one node keeps: all nodes are attributed, its class is known, and what could be
a key in the beginning still is what it was. -/
structure AttributedAs (allowed : NodeClass → Key → Prop) (s₀ : Store) (n : NodeId) (cls : NodeClass) (s : Store) :
    Prop where
  attributed : s.Attributed allowed
  cls_eq : (s.node n).cls = cls
  lasts : s₀.Lasts s

theorem AttributedAs.keepsMaps {s₀ : Store} (h : AttributedAs allowed s₀ n cls s) (hs : s.KeepsMaps s') :
    AttributedAs allowed s₀ n cls s' :=
  ⟨h.attributed.keepsMaps hs, (hs.cls n).trans h.cls_eq, h.lasts.trans hs.lasts⟩

theorem attributedAs_of_keepsMaps {s₀ : Store} {α : Type} {run : Run α}
    (h : ∀ s : Store, Run.Preserves s.KeepsMaps run) : Run.Preserves (AttributedAs allowed s₀ n cls) run := fun s hs =>
  (h s s (.refl s)).mono (fun _ _ hkept => hs.keepsMaps hkept) fun _ _ hkept => hs.keepsMaps hkept

/-- **An attribute is set under a key that is allowed.** -/
theorem attributed_assignExtra (hkeyed : key = .ofValue key.value) (hkey : s₀.Keyable key.value)
    (hallowed : allowed cls key) (v : Value) :
    Run.Preserves (AttributedAs allowed s₀ n cls) (assignExtra n key v) := by
  refine Run.Preserves.check_bind fun s s' h hput => Run.Preserves.set ?_
  obtain ⟨hs, hcls, hlasts⟩ := h
  by_cases hn : n < s.nodes.size
  · obtain ⟨m, es, hattr, hm, -⟩ := hs.attr n hn
    rw [setExtra, hattr] at hput
    simp only [putItem, hm] at hput
    cases hput
    exact ⟨hs.putExtra hn hattr hm hkeyed (hkey.mono hlasts) (hcls.symm ▸ hallowed), hcls, hlasts.updateMap hm _⟩
  · -- what has not been made has no map
    rw [setExtra, node_of_size_le s (Nat.le_of_not_lt hn)] at hput
    cases hput

/-! ## Making nodes -/

/-- The condition on keys holds of all that is given or assigned for an attribute. -/
structure Admits (allowed : NodeClass → Key → Prop) : Prop where
  given : ∀ {cls key}, IsExtra cls key → allowed cls key
  assigned : ∀ cls {name}, Member.ofName? name = none → allowed cls (.text name)

theorem Attributed.addObject (h : s.Attributed allowed) {x : Object} (hx : ∀ es, x = .map es → s.IsMap es) :
    (s.addObject x).Attributed allowed where
  attr n hn := by
    obtain ⟨m, es, hattr, hm, hkeys⟩ := h.attr n hn
    exact ⟨m, es, hattr, object_of_extends (.addObject s x) hm (fun heq => by cases heq), hkeys⟩
  own := h.own
  maps o es ho := by
    have hlasts : s.Lasts (s.addObject x) := .of_extends (.addObject s x)
    rcases Nat.lt_trichotomy o s.objects.size with hlt | rfl | hgt
    · rw [object_addObject_of_lt s x hlt] at ho
      exact (h.maps o es ho).mono hlasts
    · rw [object_addObject_self] at ho
      exact (hx es ho).mono hlasts
    · rw [object_of_size_le _ (by rw [size_addObject]; exact hgt)] at ho
      cases ho

/-- A new node has a new map. -/
theorem Attributed.withBlank (h : s.Attributed allowed) (cls : NodeClass) :
    (s.withBlank cls).Attributed allowed := by
  have hadded : (s.addObject (.map [])).Attributed allowed := h.addObject fun es hes => by cases hes; exact .nil s
  have hold {n : NodeId} (hn : n < s.nodes.size) : (s.withBlank cls).node n = s.node n :=
    (extends_withBlank s cls).node n hn
  have hmade {n : NodeId} (hn : n < (s.withBlank cls).nodes.size) : n < s.nodes.size ∨ n = s.nodes.size := by
    rw [size_withBlank] at hn
    exact Nat.lt_succ_iff_lt_or_eq.mp hn
  -- the maps of the other nodes were there before
  have hother {n : NodeId} (hn : n < s.nodes.size) : (s.node n).attr ≠ .object s.objects.size := by
    intro hattr
    obtain ⟨m, es, hattr', hm, -⟩ := h.attr n hn
    cases hattr.symm.trans hattr'
    rw [object_of_size_le s (Nat.le_refl _)] at hm
    cases hm
  have hlasts : (s.addObject (.map [])).Lasts (s.withBlank cls) := .of_extends (.addNode _ _)
  refine ⟨fun n hn => ?_, fun n hn n' hn' heq => ?_, fun o es ho => (hadded.maps o es ho).mono hlasts⟩
  · rcases hmade hn with hlt | rfl
    · rw [hold hlt]
      exact hadded.attr n hlt
    · rw [node_withBlank]
      exact ⟨s.objects.size, [], rfl, object_addObject_self s _, fun k hk => by cases hk⟩
  · rcases hmade hn with hlt | rfl
    · rcases hmade hn' with hlt' | rfl
      · rw [hold hlt, hold hlt'] at heq
        exact h.own n hlt n' hlt' heq
      · rw [hold hlt, node_withBlank] at heq
        exact absurd heq (hother hlt)
    · rcases hmade hn' with hlt' | rfl
      · rw [hold hlt', node_withBlank] at heq
        exact absurd heq.symm (hother hlt')
      · rfl

/-- A field that is given sets a field, or else its key is that of an extra attribute. -/
theorem attributed_mergeField (hadmits : Admits allowed) (hkeyed : key = .ofValue key.value)
    (hkey : s₀.Keyable key.value) (children v : Value) :
    Run.Preserves (AttributedAs allowed s₀ n cls) (mergeField n children key v) := by
  have hmember (name : String) {m : Member} (hattr : m ≠ .attr) (hcls : m ≠ .cls) :
      Run.Preserves (AttributedAs allowed s₀ n cls) (assignMember n name v m) :=
    attributedAs_of_keepsMaps fun _ => keepsMaps_assignMember n name v hattr hcls
  unfold mergeField
  refine Run.Preserves.get_bind fun s hs => Run.Preserves.ite (fun _ => ?_) fun hreserved => ?_
  · refine Run.Preserves.bind ?_ fun _ => .pure _
    exact attributedAs_of_keepsMaps fun _ => .update fun _ h => h.note _
  split
  · exact (hmember _ (by decide) (by decide)).bind fun _ => .pure _
  · exact (hmember _ (by decide) (by decide)).bind fun _ => .pure _
  · exact (hmember _ (by decide) (by decide)).bind fun _ => .pure _
  · exact .pure _
  · exact .pure _
  · refine Run.Preserves.ite (fun _ => ?_) fun _ => .pure _
    exact (attributedAs_of_keepsMaps fun _ => keepsMaps_assignParent n v).bind fun _ => .pure _
  · next htype hvalue hval hnodes hchildren hparent =>
      have hextra : IsExtra cls key := by
        refine ⟨by rw [← hs.cls_eq]; exact Bool.eq_false_iff.mpr hreserved, fun name hname => ?_⟩
        simp only [fieldNames, List.mem_cons, List.not_mem_nil, or_false] at hname
        rcases hname with rfl | rfl | rfl | rfl | rfl | rfl
        exacts [htype, hvalue, hval, hnodes, hchildren, hparent]
      exact (attributed_assignExtra hkeyed hkey (hadmits.given hextra) v).bind fun _ => .pure _

theorem attributed_mergeFields (hadmits : Admits allowed) (hes : es.Keyed) (hkeys : s₀.LastingKeys es) :
    Run.Preserves (AttributedAs allowed s₀ n cls) (mergeFields n es) := by
  have heach (children : Value) : Run.Preserves (AttributedAs allowed s₀ n cls) (mergeEach n children es) := by
    induction es generalizing children with
    | nil => exact .pure _
    | cons e es ih =>
        obtain ⟨he, hes⟩ := List.forall_mem_cons.mp hes
        obtain ⟨hkey, hkeys⟩ := List.forall_mem_cons.mp hkeys
        exact (attributed_mergeField hadmits he hkey children e.2).bind fun children => ih hes hkeys children
  refine (heach .null).bind fun children => Run.Preserves.ite (fun _ => ?_) fun _ => .pure _
  refine (Run.Preserves.check _).bind fun items => (Run.Preserves.check _).bind fun _ => ?_
  exact attributedAs_of_keepsMaps fun _ => keepsMaps_pushAll n items

theorem attributed_construct (hadmits : Admits allowed) (given : Construction) (h : AttributedAs allowed s n cls s) :
    Run.Ends (construct n given) s (fun _ s' => AttributedAs allowed s n cls s')
      fun _ s' => AttributedAs allowed s n cls s' := by
  have hlink (parent : Value) : Run.Preserves (AttributedAs allowed s n cls)
      (if parent ≠ .null then assignParent n parent else pure ()) :=
    .ite (fun _ => attributedAs_of_keepsMaps fun _ => keepsMaps_assignParent n parent) fun _ => .pure _
  have hset {f : NodeRecord → NodeRecord} (hf : ∀ r, (f r).cls = r.cls ∧ (f r).attr = r.attr) :
      AttributedAs allowed s n cls (s.updateNode n f) :=
    h.keepsMaps ((KeepsMaps.refl s).updateNode n hf)
  rw [construct, fill, Run.ends_bind, Run.ends_bind, Run.ends_get]
  split
  · next fields hfields =>
      obtain ⟨o, -, ho⟩ := entries?_eq_some.mp hfields
      have hmap := h.attributed.maps o fields ho
      rw [Run.ends_bind]
      refine (attributed_mergeFields hadmits hmap.keyed hmap.lasting s h).mono ?_ fun _ _ h => h
      exact fun _ s' h' => hlink given.parent s' h'
  · exact hlink _ _ (hset fun _ => ⟨rfl, rfl⟩)
  · exact hlink _ _ (hset fun _ => ⟨rfl, rfl⟩)
  · exact hlink _ _ (hset fun _ => ⟨rfl, rfl⟩)

/-- **What is given gets in where it belongs**, also if something that is given is refused. -/
theorem attributed_createUnplaced (hadmits : Admits allowed) (cls : NodeClass) (given : Construction) :
    Run.Preserves (Attributed allowed) (createUnplaced cls given) := by
  intro s h
  rw [createUnplaced, Run.ends_bind]
  refine (Run.ends_of_ok (blank_eq s cls)).mpr (Run.ends_bind.mpr ?_)
  have hblank : AttributedAs allowed (s.withBlank cls) s.nodes.size cls (s.withBlank cls) :=
    ⟨h.withBlank cls, by rw [node_withBlank]; rfl, .refl _⟩
  exact (attributed_construct hadmits given hblank).mono (fun _ _ h => h.attributed) fun _ _ h => h.attributed

/-! ## Merging and assigning -/

/-- Of the keys that are merged the reserved ones are dropped, and the others must be allowed. -/
theorem attributed_mergeAttributes (hes : es.Keyed) (hkeys : s₀.LastingKeys es)
    (hallowed : ∀ k ∈ es.keys, isReservedKey cls k = false → allowed cls k) :
    Run.Preserves (AttributedAs allowed s₀ n cls) (mergeAttributes n es) := by
  induction es with
  | nil => exact .pure _
  | cons e es ih =>
      obtain ⟨he, hes⟩ := List.forall_mem_cons.mp hes
      obtain ⟨hkey, hkeys⟩ := List.forall_mem_cons.mp hkeys
      obtain ⟨hfirst, hrest⟩ := List.forall_mem_cons.mp hallowed
      refine Run.Preserves.get_bind fun s hs => Run.Preserves.ite (fun _ => ?_) fun hreserved => ?_
      · refine Run.Preserves.bind ?_ fun _ => ih hes hkeys hrest
        exact attributedAs_of_keepsMaps fun _ => .update fun _ h => h.note _
      · refine (attributed_assignExtra he hkey (hfirst ?_) e.2).bind fun _ => ih hes hkeys hrest
        rw [← hs.cls_eq]
        exact Bool.eq_false_iff.mpr hreserved

theorem attributed_setAttributes (h : s.Attributed allowed) {mapping : Value} {named : Entries Value}
    (hnamed : named.Keyed) (hkeys : s.LastingKeys named)
    (hallowed : ∀ es, s.mappingEntries mapping = .ok es → ∀ k ∈ (es.putAll named).keys,
      isReservedKey (s.node n).cls k = false → allowed (s.node n).cls k) :
    Run.Ends (setAttributes n mapping named) s (fun _ s' => s'.Attributed allowed)
      fun _ s' => s'.Attributed allowed := by
  rw [setAttributes, Run.ends_bind, Run.ends_check]
  cases hes : s.mappingEntries mapping with
  | error e => exact h
  | ok es =>
      have hmap : s.IsMap es := by
        unfold mappingEntries at hes
        split at hes
        · split at hes
          · next hentries =>
              cases hes
              obtain ⟨o, -, ho⟩ := entries?_eq_some.mp hentries
              exact h.maps o es ho
          · cases hes
        · cases hes
          exact .nil s
      have hall : s.LastingKeys (es.putAll named) := fun k hk =>
        (Entries.mem_keys_putAll hk).elim (hmap.lasting k) (hkeys k)
      have hkept := attributed_mergeAttributes (hmap.toRegular.putAll hnamed).keyed hall (hallowed es hes) s
        ⟨h, rfl, .refl s⟩
      exact hkept.mono (fun _ _ h => h.attributed) fun _ _ h => h.attributed

/-- What a name means besides operations and what only classes have stands in the table of names. -/
theorem mem_names_of_ofName? {name : String} {m : Member} (h : Member.ofName? name = some m)
    (hoperation : m ≠ .operation) (hclass : m ≠ .classOnly) : (name, m) ∈ Member.names := by
  unfold Member.ofName? at h
  split at h
  · next hlookup =>
      cases h
      obtain ⟨before, after, hnames, -⟩ := List.lookup_eq_some_iff.mp hlookup
      rw [hnames]
      exact List.mem_append_right _ (List.mem_cons_self ..)
  · split at h
    · cases h
      exact absurd rfl hoperation
    · split at h
      · cases h
        exact absurd rfl hclass
      · cases h

/-- A node may be of any class that allows the keys that it has. -/
theorem Attributed.setClass (h : s.Attributed allowed) (hkeys : ∀ k ∈ (s.attributes n).keys, allowed cls k) :
    (s.updateNode n fun r => { r with cls }).Attributed allowed := by
  refine ⟨fun n' hn' => ?_, fun n₁ hn₁ n₂ hn₂ heq => ?_,
    fun o es ho => (h.maps o es ho).mono ⟨Nat.le_refl _, fun _ _ _ => rfl⟩⟩
  · rw [size_updateNode] at hn'
    obtain ⟨m, es, hattr, hm, hold⟩ := h.attr n' hn'
    rw [node_updateNode]
    split
    · next hn =>
        rw [hn.1] at hattr ⊢
        have hes : s.attributes n = es := by rw [attributes, hattr, entries?, object?, hm]; rfl
        exact ⟨m, es, hattr, hm, hes ▸ hkeys⟩
    · exact ⟨m, es, hattr, hm, hold⟩
  · rw [size_updateNode] at hn₁ hn₂
    have hattr (r : NodeRecord) : ({ r with cls } : NodeRecord).attr = r.attr := rfl
    rw [field_updateNode NodeRecord.attr s n hattr, field_updateNode NodeRecord.attr s n hattr] at heq
    exact h.own n₁ hn₁ n₂ hn₂ heq

/-- **Assigning keeps the maps**, unless the map itself is assigned; and a new class has to allow the keys that the
node has. -/
theorem attributed_assignNode (hadmits : Admits allowed) (h : s.Attributed allowed) {name : String}
    (hname : name ≠ "attr") (hcls : name = "__class__" → ∀ c cls, v = .cls c → s.nodeClass? c = some cls →
      ∀ k ∈ (s.attributes n).keys, allowed cls k) :
    Run.Ends (assignNode n name v) s (fun _ s' => s'.Attributed allowed) fun _ s' => s'.Attributed allowed := by
  unfold assignNode
  cases hmember : Member.ofName? name with
  | none =>
      have hkept := attributed_assignExtra (n := n) rfl (keyable_text s name) (hadmits.assigned (s.node n).cls hmember) v
        s ⟨h, rfl, .refl s⟩
      exact hkept.mono (fun _ _ h => h.attributed) fun _ _ h => h.attributed
  | some m =>
      by_cases hm : m = .cls
      · subst hm
        have hmem := mem_names_of_ofName? hmember (by decide) (by decide)
        have hclass : name = "__class__" := by simpa [Member.names] using hmem
        show Run.Ends (assignClass n v) s _ _
        unfold assignClass
        rw [Run.ends_bind, Run.ends_get]
        split
        · next c =>
            split
            · next cls hfound => exact h.setClass (hcls hclass c cls rfl hfound)
            · exact h
        · exact h
      · have hattr : m ≠ .attr := by
          rintro rfl
          have hmem := mem_names_of_ofName? hmember (by decide) (by decide)
          exact hname (by simpa [Member.names] using hmem)
        refine (keepsMaps_assignMember n name v hattr hm s (.refl s)).mono ?_ ?_
        · exact fun _ _ hkept => h.keepsMaps hkept
        · exact fun _ _ hkept => h.keepsMaps hkept

/-- A wrapper that is applied to a node assigns its position. -/
theorem attributed_stamp (hadmits : Admits allowed) (t : ObjectId) (start : Value) (n : NodeId) :
    Run.Preserves (Attributed allowed) (stamp t start (.node n)) := by
  have hadd {x : Object} (hx : ∀ es, x ≠ .map es) (s : Store) (h : s.Attributed allowed) :
      (s.addObject x).Attributed allowed := h.keepsMaps (keepsMaps_addObject s hx)
  refine Run.Preserves.read_bind fun s _ => ?_
  refine (Run.Preserves.allocate (hadd fun es heq => by cases heq)).bind fun finish => ?_
  refine (Run.Preserves.allocate (hadd fun es heq => by cases heq)).bind fun span => ?_
  refine Run.Preserves.bind (fun s h => ?_) fun _ => .pure _
  have hname : "position" ≠ "attr" := by decide
  exact attributed_assignNode hadmits h hname fun hclass => absurd hclass (by decide)

end Store

open Store

namespace Event

variable {s : Store} {allowed : NodeClass → Key → Prop}

/-! ## What may happen to nodes -/

/-- The changes of nodes by operations, assignments and merges. The map of extra attributes is not replaced, keys that
are merged are allowed for the class of the node, and so are those that it has when it gets another class. -/
inductive Changes (allowed : NodeClass → Key → Prop) (s : Store) : Action → Prop
  | push (n : NodeId) (v : Value) : Changes allowed s (.push (.node n) v)
  | unshift (n : NodeId) (v : Value) : Changes allowed s (.unshift (.node n) v)
  | pop (n : NodeId) : Changes allowed s (.pop (.node n))
  | shift (n : NodeId) : Changes allowed s (.shift (.node n))
  | remove (n : NodeId) (v : Value) : Changes allowed s (.remove (.node n) v)
  | assign (n : NodeId) (name : String) (v : Value) : name ≠ "attr" →
      (name = "__class__" → ∀ c cls, v = .cls c → s.nodeClass? c = some cls →
        ∀ k ∈ (s.attributes n).keys, allowed cls k) → Changes allowed s (.assign (.node n) name v)
  | merge (n : NodeId) (mapping : Value) (named : Entries Value) : named.Keyed → s.LastingKeys named →
      (∀ es, s.mappingEntries mapping = .ok es → ∀ k ∈ (es.putAll named).keys,
        isReservedKey (s.node n).cls k = false → allowed (s.node n).cls k) →
      Changes allowed s (.setAttributes (.node n) mapping named)
  | stamp (n : NodeId) {o tracker : ObjectId} {start : Value} {fields : Entries Value} :
      s.object o = .wrapper tracker start fields → Changes allowed s (.call (.object o) (.node n))

/-- The events by which nodes come about and change. The position of a new node may do to nodes whatever else may be
done to them. -/
inductive Permitted (allowed : NodeClass → Key → Prop) (s : Store) : Event → Prop
  | create (cls : NodeClass) (given : Construction) :
      (given.position ≠ .null → ∀ n u, createUnplaced cls given s = .ok n u →
        ∃ a, Changes allowed u a ∧ call given.position [.node n] [] u = a.perform u) →
      Permitted allowed s (act (.create cls given))
  | change {a : Action} : Changes allowed s a → Permitted allowed s (act a)
  | make (o : Object) : (∀ es, o = .map es → s.IsMap es) → Permitted allowed s (make o)
  | collect (inUse : List Value) : Permitted allowed s (collect inUse)

/-- The stores that come about from a store without nodes by events that are permitted. What a failing event leaves
behind is among them. -/
inductive Reached (allowed : NodeClass → Key → Prop) : Store → Prop
  | start {s : Store} : s.nodes = #[] → (∀ o es, s.object o = .map es → s.IsMap es) → Reached allowed s
  | step {s : Store} {e : Event} : Reached allowed s → Permitted allowed s e →
      Reached allowed (Run.after (e.perform s))

/-! ## One event -/

theorem attributed_change (hadmits : Admits allowed) (h : s.Attributed allowed) {a : Action}
    (ha : Changes allowed s a) :
    Run.Ends a.perform s (fun _ s' => s'.Attributed allowed) fun _ s' => s'.Attributed allowed := by
  have hkeeps {α : Type} {run : Run α} (hrun : Run.Preserves s.KeepsMaps run) :
      Run.Ends run s (fun _ s' => s'.Attributed allowed) fun _ s' => s'.Attributed allowed :=
    (hrun s (.refl s)).mono (fun _ _ hs => h.keepsMaps hs) fun _ _ hs => h.keepsMaps hs
  cases ha with
  | push n v => exact hkeeps (.map (keepsMaps_push n v))
  | unshift n v => exact hkeeps (.map (keepsMaps_unshift n v))
  | pop n => exact hkeeps (keepsMaps_pop n)
  | shift n => exact hkeeps (keepsMaps_shift n)
  | remove n v => exact hkeeps (keepsMaps_remove n v)
  | assign n name v hname hcls => exact Run.ends_bind.mpr (attributed_assignNode hadmits h hname hcls)
  | merge n mapping named hnamed hkeys hallowed =>
      exact Run.ends_bind.mpr (attributed_setAttributes h hnamed hkeys hallowed)
  | @stamp n o tracker start fields ho =>
      have hstamp := attributed_stamp hadmits tracker start n s h
      rw [Run.Ends] at hstamp ⊢
      rwa [Action.perform, call_wrapper ho]

/-- **Every event that is permitted keeps the nodes attributed**, whether it fails or not. -/
theorem attributed_event (hadmits : Admits allowed) (h : s.Attributed allowed) {e : Event}
    (he : Permitted allowed s e) :
    Run.Ends e.perform s (fun _ s' => s'.Attributed allowed) fun _ s' => s'.Attributed allowed := by
  cases he with
  | create cls given hposition =>
      have hmade := attributed_createUnplaced hadmits cls given s h
      refine Run.ends_map.mpr ?_
      rw [create, Run.ends_bind]
      cases hrun : createUnplaced cls given s with
      | error e u => exact (Run.ends_of_error hrun).mpr ((Run.ends_of_error hrun).mp hmade)
      | ok n u =>
          have hu := (Run.ends_of_ok hrun).mp hmade
          refine (Run.ends_of_ok hrun).mpr (Run.ends_ite.mpr ⟨fun hcalled => ?_, fun _ => hu⟩)
          obtain ⟨a, ha, hcall⟩ := hposition hcalled n u hrun
          have hkept := attributed_change hadmits hu ha
          rw [Run.ends_bind]
          rw [Run.Ends] at hkept ⊢
          rw [hcall]
          exact hkept
  | change ha => exact attributed_change hadmits h ha
  | make o ho => exact h.addObject ho
  | collect inUse => exact h.keepsMaps ((KeepsMaps.refl s).collect inUse)

/-- **In every store that is reached the nodes are attributed.** -/
theorem reached_attributed (hadmits : Admits allowed) (h : Reached allowed s) : s.Attributed allowed := by
  induction h with
  | @start s hnodes hmaps =>
      have hnone {n : NodeId} (hn : n < s.nodes.size) : False := by
        rw [hnodes] at hn
        exact Nat.not_lt_zero n hn
      exact ⟨fun n hn => (hnone hn).elim, fun n hn => (hnone hn).elim, hmaps⟩
  | step _ he ih => exact Run.after_of_ends (attributed_event hadmits ih he)

end Event

end SyntaxTree
