import SyntaxTree.Proofs.Attributes
import SyntaxTree.Proofs.FieldOrder

/-!
# `Proofs.Acceptance` — the extra attributes are what was accepted

Fields of a construction, merged maps and assigned names all lead into the one map of a node. What gets in on each way
is a list of entries (`extrasGiven`, `accepted`, `assigned`), and the map is all of them put into it one after the
other (`Gathered.writes`). Merging puts a map and the named values together first, which comes to the same as one after
the other, because the map has no key twice (`putEach_putAll`), and it drops reserved names last, which comes to the
same as first (`filter_putAll`).

An object among the keys counts as the first key that it is equal to, and what is equal does not change later on.
-/

namespace SyntaxTree

/-! ## Putting one map after another -/

namespace Entries

variable {α : Type} {es fs gs : Entries α} {key k : Key} {a b : α}

theorem put_put (h : key.counted = k.counted) (es : Entries α) (a b : α) : (es.put key a).put k b = es.put key b := by
  induction es with
  | nil => exact if_pos h
  | cons e es ih =>
      obtain ⟨head, c⟩ := e
      by_cases hhead : head.counted = key.counted
      · simp only [put, if_pos hhead, if_pos (hhead.trans h)]
      · simp only [put, if_neg hhead, if_neg (h ▸ hhead), ih]

/-- A key that is there already keeps its place, so it may be put before or after another one. -/
theorem put_comm (hkey : ∃ c ∈ es.keys, c.counted = k.counted) (hne : key.counted ≠ k.counted) (a b : α) :
    (es.put key a).put k b = (es.put k b).put key a := by
  induction es with
  | nil =>
      obtain ⟨c, hc, -⟩ := hkey
      cases hc
  | cons e es ih =>
      obtain ⟨head, x⟩ := e
      by_cases hhead : head.counted = k.counted
      · have hother : head.counted ≠ key.counted := fun heq => hne (heq.symm.trans hhead)
        simp only [put, if_pos hhead, if_neg hother]
      · have hrest : ∃ c ∈ keys es, c.counted = k.counted := by
          obtain ⟨c, hc, hcounted⟩ := hkey
          rcases List.mem_cons.mp hc with rfl | hc
          · exact absurd hcounted hhead
          · exact ⟨c, hc, hcounted⟩
        by_cases hsame : head.counted = key.counted
        · simp only [put, if_pos hsame, if_neg hhead]
        · simp only [put, if_neg hsame, if_neg hhead, ih hrest]

theorem exists_mem_keys_put {c : Key} (h : ∃ d ∈ es.keys, d.counted = c.counted) (key : Key) (a : α) :
    ∃ d ∈ (es.put key a).keys, d.counted = c.counted := by
  obtain ⟨d, hd, hcounted⟩ := h
  refine ⟨d, ?_, hcounted⟩
  rw [keys_put]
  split
  · exact hd
  · exact List.mem_append_left _ hd

theorem exists_mem_keys_put_self (es : Entries α) (key : Key) (a : α) :
    ∃ c ∈ (es.put key a).keys, c.counted = key.counted := by
  have hfound := find?_put_self es key a
  by_contra hnone
  rw [find?_eq_none fun c hc hcounted => hnone ⟨c, hc, hcounted⟩] at hfound
  cases hfound

section Filter

variable {p : Key → Bool}

theorem filter_put (hp : ∀ c d : Key, c.counted = d.counted → p c = p d) (es : Entries α) (key : Key) (a : α) :
    ((es.put key a).filter fun e => p e.1) =
      if p key then Entries.put (es.filter fun e => p e.1) key a else es.filter fun e => p e.1 := by
  induction es with
  | nil => cases hkey : p key <;> simp [put, hkey]
  | cons e es ih =>
      obtain ⟨head, x⟩ := e
      by_cases hsame : head.counted = key.counted
      · have hhead := hp head key hsame
        cases hkey : p key <;> simp [put, hsame, hhead, hkey]
      · rw [put, if_neg hsame]
        cases hhead : p head <;> cases hkey : p key <;> simp_all [put]

/-- **What is dropped may be dropped before or after.** -/
theorem filter_putAll (hp : ∀ c d : Key, c.counted = d.counted → p c = p d) (es fs : Entries α) :
    ((es.putAll fs).filter fun e => p e.1) = Entries.putAll (es.filter fun e => p e.1) (fs.filter fun e => p e.1) := by
  induction fs generalizing es with
  | nil => rfl
  | cons f fs ih =>
      rw [putAll_cons, ih, filter_put hp, List.filter_cons]
      cases p f.1 <;> rfl

end Filter

end Entries

/-! ## Texts among the keys -/

namespace Store

variable {s : Store} {es fs gs : Entries Value} {key : Key} {x : String} {b : Value}

/-- Nothing but the text itself counts as a text. -/
theorem keyAs_eq_text : s.keyAs es key = .text x ↔ key = .text x := by
  cases key with
  | other v =>
      cases v with
      | object o =>
          refine ⟨fun heq => ?_, fun heq => by cases heq⟩
          rw [keyAs] at heq
          cases hfound : es.keys.find? (s.sameKey (.other (.object o))) with
          | none =>
              rw [hfound] at heq
              cases heq
          | some k =>
              have hsame := List.find?_some hfound
              rw [hfound, Option.getD_some] at heq
              subst heq
              rw [sameKey_object_text] at hsame
              cases hsame
      | _ => exact Iff.rfl
  | _ => exact Iff.rfl

/-- A text that is there keeps its place, so it may be put before or after all of a map that it is not in. -/
theorem putEach_put_comm (hthere : ∃ c ∈ es.keys, c.counted = (Key.text x).counted) (hnot : .text x ∉ fs.keys)
    (b : Value) :
    (s.putEach es fs).put (.text x) b = s.putEach (es.put (.text x) b) fs := by
  induction fs generalizing es with
  | nil => rfl
  | cons f fs ih =>
      have hne : (s.keyAs es f.1).counted ≠ (Key.text x).counted := fun hcounted =>
        hnot (List.mem_cons.mpr (.inl (keyAs_eq_text.mp (eq_text_of_counted hcounted)).symm))
      have hkeys : (es.put (.text x) b).keys = es.keys := by
        rw [Entries.keys_put, if_pos]
        obtain ⟨c, hc, hcounted⟩ := hthere
        by_contra hnone
        exact Entries.counted_ne_of_find?_eq_none (by simpa using hnone) hc hcounted
      have hsame : s.keyAs (es.put (.text x) b) f.1 = s.keyAs es f.1 := by
        unfold keyAs
        rw [hkeys]
      rw [putEach_cons, putEach_cons, ih (Entries.exists_mem_keys_put hthere ..) (fun hmem => hnot (.tail _ hmem)),
        hsame, Entries.put_comm hthere hne]

theorem putEach_put (h : (fs.keys.map Key.counted).Nodup) (es : Entries Value) (x : String) (b : Value) :
    s.putEach es (fs.put (.text x) b) = (s.putEach es fs).put (.text x) b := by
  induction fs generalizing es with
  | nil => rfl
  | cons f fs ih =>
      obtain ⟨key, a⟩ := f
      obtain ⟨hnot, hrest⟩ := List.nodup_cons.mp h
      by_cases hsame : key.counted = (Key.text x).counted
      · -- the text has its place among the old keys, and does not come again
        obtain rfl := eq_text_of_counted hsame
        have hother : .text x ∉ Entries.keys fs := fun hmem => hnot (List.mem_map_of_mem hmem)
        rw [Entries.put, if_pos rfl, putEach_cons, putEach_cons, keyAs_text,
          putEach_put_comm (Entries.exists_mem_keys_put_self ..) hother, Entries.put_put rfl]
      · rw [Entries.put, if_neg hsame, putEach_cons, putEach_cons, ih hrest]

/-- **Named values that were put into a map come to the same as the map and then the named values.** -/
theorem putEach_putAll (h : (fs.keys.map Key.counted).Nodup) (hgs : ∀ k ∈ gs.keys, k.isText = true)
    (es : Entries Value) : s.putEach es (fs.putAll gs) = s.putEach es (fs ++ gs) := by
  rw [putEach_append]
  induction gs generalizing fs with
  | nil => rfl
  | cons g gs ih =>
      obtain ⟨key, b⟩ := g
      obtain ⟨htext, hrest⟩ : key.isText = true ∧ ∀ k ∈ Entries.keys gs, k.isText = true := List.forall_mem_cons.mp hgs
      obtain ⟨x, rfl⟩ := Key.isText_iff.mp htext
      rw [Entries.putAll_cons, ih (Entries.distinct_put h (.text x) b) hrest, putEach_put h, putEach_cons, keyAs_text]

/-- Nothing is found under a text exactly if nothing was there and nothing was put there. -/
theorem find?_putEach_eq_none : (s.putEach es fs).find? (.text x) = none ↔
    es.find? (.text x) = none ∧ .text x ∉ fs.keys := by
  induction fs generalizing es with
  | nil => exact ⟨fun h => ⟨h, List.not_mem_nil⟩, fun h => h.1⟩
  | cons f fs ih =>
      obtain ⟨key, a⟩ := f
      have hkeys : Key.text x ∉ Entries.keys ((key, a) :: fs) ↔ key ≠ .text x ∧ .text x ∉ Entries.keys fs := by
        rw [Entries.keys, List.map_cons, List.mem_cons, not_or]
        exact and_congr_left fun _ => ne_comm
      rw [putEach_cons, ih, hkeys]
      by_cases hkey : key = .text x
      · subst hkey
        rw [keyAs_text, Entries.find?_put_self]
        constructor
        · rintro ⟨hsome, -⟩
          cases hsome
        · rintro ⟨-, hne, -⟩
          exact absurd rfl hne
      · have hne : (Key.text x).counted ≠ (s.keyAs es key).counted := fun hcounted =>
          hkey (keyAs_eq_text.mp (eq_text_of_counted hcounted.symm))
        rw [Entries.find?_put_of_ne _ _ hne]
        exact and_congr_right fun _ => (and_iff_right hkey).symm

end Store

/-! ## What gets in -/

/-- Of the entries that are merged those that the class does not reserve. -/
def accepted (cls : NodeClass) (es : Entries Value) : Entries Value := es.filter fun e => !Store.isReservedKey cls e.1

/-- What is assigned under a name, if the class has nothing under it. -/
def assigned (name : String) (v : Value) : Entries Value :=
  if (Member.ofName? name).isNone then [(.text name, v)] else []

/-- The extra attributes that a new node is given. -/
def Construction.extras (given : Construction) (s : Store) (cls : NodeClass) : Entries Value :=
  (s.entries? given.value).elim [] (extrasGiven cls)

namespace Store

variable {s t u : Store} {n : NodeId} {cls : NodeClass} {es fs named items : Entries Value} {key : Key}
  {v mapping : Value} {name : String} {given : Construction}

/-- A node of a class has a map with some entries for its extra attributes. -/
structure Holding (n : NodeId) (cls : NodeClass) (es : Entries Value) (s : Store) : Prop where
  cls_eq : (s.node n).cls = cls
  map : ∃ m, (s.node n).attr = .object m ∧ s.object m = .map es

/-- The entries of the map are all that was put into it, one after the other. -/
structure Gathered (n : NodeId) (cls : NodeClass) (items : Entries Value) (s : Store) : Prop where
  keys : s.LastingKeys items
  holding : Holding n cls (s.putEach [] items) s

/-- What is done elsewhere: the node keeps its class, its map, and the entries of the map, and keys stay what they
are. -/
structure KeepsExtras (n : NodeId) (s t : Store) : Prop where
  cls : (t.node n).cls = (s.node n).cls
  attr : (t.node n).attr = (s.node n).attr
  entries : t.entries? (s.node n).attr = s.entries? (s.node n).attr
  lasts : s.Lasts t

/-- Writes to the extra attributes of a node lead from one store to another, each without a fault; the entries are what
was accepted, in its order. What is merged is a map and values named by texts. Anything else may be done in between, as
long as it leaves the extra attributes alone. -/
inductive Writes (n : NodeId) (cls : NodeClass) (s : Store) : Entries Value → Store → Prop
  | nil : Writes n cls s [] s
  | merge {t u : Store} {items es named : Entries Value} {mapping : Value} : Writes n cls s items t →
    t.mappingEntries mapping = .ok es → t.IsMap es → (∀ k ∈ named.keys, k.isText = true) →
      setAttributes n mapping named t = .ok () u → Writes n cls s (items ++ (accepted cls es ++ accepted cls named)) u
  | assign {t u : Store} {items : Entries Value} {name : String} {v : Value} : Writes n cls s items t →
    isReservedName name = false → name ≠ "attr" → assignNode n name v t = .ok () u →
      Writes n cls s (items ++ assigned name v) u
  | other {t u : Store} {items : Entries Value} : Writes n cls s items t → KeepsExtras n t u →
      Writes n cls s items u

theorem KeepsMaps.keepsExtras (h : s.KeepsMaps t) (hn : Holding n cls es s) : KeepsExtras n s t where
  cls := h.cls n
  attr := h.attr n
  entries := by
    obtain ⟨m, hattr, hm⟩ := hn.map
    rw [hattr, entries?, entries?, object?, object?, hm, (h.map m es).mpr hm]
  lasts := h.lasts

theorem Holding.keepsExtras (h : Holding n cls es s) (ht : KeepsExtras n s t) : Holding n cls es t where
  cls_eq := ht.cls.trans h.cls_eq
  map := by
    obtain ⟨m, hattr, hm⟩ := h.map
    have hentries : t.entries? (.object m) = some es := by
      rw [← hattr, ht.entries, hattr, entries?, object?, hm]
    obtain ⟨o, ho, hmap⟩ := entries?_eq_some.mp hentries
    cases ho
    exact ⟨m, ht.attr.trans hattr, hmap⟩

theorem Holding.keepsMaps (h : Holding n cls es s) (ht : s.KeepsMaps t) : Holding n cls es t :=
  h.keepsExtras (ht.keepsExtras h)

/-- Keys that count as one are reserved alike: only texts are. -/
theorem isReservedKey_counted {c d : Key} (h : c.counted = d.counted) : isReservedKey cls c = isReservedKey cls d := by
  by_cases hc : ∃ x, c = .text x
  · obtain ⟨x, rfl⟩ := hc
    rw [eq_text_of_counted h.symm]
  · have hd : ¬ ∃ x, d = .text x := by
      rintro ⟨x, rfl⟩
      exact hc ⟨x, eq_text_of_counted h⟩
    have hnot {k : Key} (hk : ¬ ∃ x, k = .text x) : isReservedKey cls k = false := by
      cases k with
      | text x => exact absurd ⟨x, rfl⟩ hk
      | _ => rfl
    rw [hnot hc, hnot hd]

theorem LastingKeys.accepted (h : s.LastingKeys es) (cls : NodeClass) : s.LastingKeys (accepted cls es) := h.filter _

/-! ## One write -/

theorem Holding.assignExtra (h : Holding n cls es t) (key : Key) (v : Value) :
    ∃ u, assignExtra n key v t = .ok () u ∧ t.Lasts u ∧ Holding n cls (es.put (t.keyAs es key) v) u := by
  obtain ⟨m, hattr, hm⟩ := h.map
  have hlt : m < t.objects.size := lt_size_of_object (hm ▸ fun heq => by cases heq)
  exact ⟨_, assignExtra_map hattr hm key v, (Lasts.refl t).updateMap hm _, h.cls_eq, m, hattr,
    object_updateObject_self t _ hlt⟩

/-- Merging never fails; what the class reserves is left out. -/
theorem Holding.mergeAttributes (h : Holding n cls es t) (hes : t.LastingKeys es) (hfs : t.LastingKeys fs) :
    ∃ u, mergeAttributes n fs t = .ok () u ∧ t.Lasts u ∧ Holding n cls (t.putEach es (accepted cls fs)) u := by
  induction fs generalizing es t with
  | nil => exact ⟨t, rfl, .refl t, h⟩
  | cons f fs ih =>
      obtain ⟨key, v⟩ := f
      obtain ⟨hkey, hfs⟩ : t.Keyable key.value ∧ t.LastingKeys fs := List.forall_mem_cons.mp hfs
      rw [Store.mergeAttributes, Run.get_bind, h.cls_eq]
      cases hreserved : isReservedKey cls key with
      | true =>
          have hskipped : accepted cls ((key, v) :: fs) = accepted cls fs := by simp [accepted, hreserved]
          have hnoted : Holding n cls es (t.note (.droppedAttribute (shownKey key))) := ⟨h.cls_eq, h.map⟩
          have hlasts : t.Lasts (t.note (.droppedAttribute (shownKey key))) := ⟨Nat.le_refl _, fun _ _ _ => rfl⟩
          obtain ⟨u, hrest, hrests, hu⟩ := ih hnoted (hes.mono hlasts) (hfs.mono hlasts)
          rw [hskipped, if_pos rfl]
          rw [hlasts.putEach_eq hes (hfs.accepted cls)] at hu
          exact ⟨u, hrest, hlasts.trans hrests, hu⟩
      | false =>
          have htaken : accepted cls ((key, v) :: fs) = (key, v) :: accepted cls fs := by simp [accepted, hreserved]
          obtain ⟨t', hput, hlasts, ht'⟩ := h.assignExtra key v
          have hes' := hes.put hkey v
          obtain ⟨u, hrest, hrests, hu⟩ := ih ht' (hes'.mono hlasts) (hfs.mono hlasts)
          refine ⟨u, ?_, hlasts.trans hrests, ?_⟩
          · rw [if_neg Bool.false_ne_true, Run.bind_of_ok hput]
            exact hrest
          · rw [hlasts.putEach_eq hes' (hfs.accepted cls)] at hu
            rw [htaken, putEach_cons]
            exact hu

/-- **A map and named values are merged one after the other.** -/
theorem Holding.setAttributes (h : Holding n cls es t) (hes : t.LastingKeys es)
    (hmapping : t.mappingEntries mapping = .ok fs) (hfs : t.IsMap fs) (hnamed : ∀ k ∈ named.keys, k.isText = true)
    (hrun : setAttributes n mapping named t = .ok () u) :
    t.Lasts u ∧ Holding n cls (t.putEach es (accepted cls fs ++ accepted cls named)) u := by
  have hfilter : accepted cls (fs.putAll named) = (accepted cls fs).putAll (accepted cls named) :=
    Entries.filter_putAll (p := fun key => !isReservedKey cls key) (fun c d hcd => by rw [isReservedKey_counted hcd])
      fs named
  have hkept : ((accepted cls fs).keys.map Key.counted).Nodup :=
    ((List.filter_sublist.map Prod.fst).map Key.counted).nodup hfs.distinct
  have htexts : ∀ k ∈ (accepted cls named).keys, k.isText = true := fun k hk =>
    hnamed k ((List.filter_sublist.map Prod.fst).subset hk)
  have hall : t.LastingKeys (fs.putAll named) := fun k hk =>
    (Entries.mem_keys_putAll hk).elim (hfs.lasting k) (LastingKeys.of_texts hnamed k)
  obtain ⟨u', hmerge, hlasts, hu⟩ := h.mergeAttributes hes hall
  rw [Store.setAttributes, Run.bind_of_ok (Run.check_of_ok hmapping), hmerge] at hrun
  cases hrun
  rw [hfilter, putEach_putAll hkept htexts] at hu
  exact ⟨hlasts, hu⟩

/-- **A name that the class has is none of an extra attribute**, and any other name is. -/
theorem Holding.assignNode (h : Holding n cls es t) (hname : isReservedName name = false) (hattr : name ≠ "attr")
    (hrun : assignNode n name v t = .ok () u) : t.Lasts u ∧ Holding n cls (t.putEach es (assigned name v)) u := by
  unfold Store.assignNode at hrun
  cases hmember : Member.ofName? name with
  | none =>
      rw [hmember] at hrun
      obtain ⟨u', hput, hlasts, hu⟩ := h.assignExtra (.text name) v
      cases hput.symm.trans hrun
      rw [assigned, hmember]
      exact ⟨hlasts, hu⟩
  | some m =>
      rw [hmember] at hrun
      have hmem (hm : m = .attr ∨ m = .cls) : (name, m) ∈ Member.names := by
        apply mem_names_of_ofName? hmember
        · rcases hm with rfl | rfl <;> decide
        · rcases hm with rfl | rfl <;> decide
      have hnotAttr : m ≠ .attr := by
        rintro rfl
        exact hattr (by simpa [Member.names] using hmem (Or.inl rfl))
      have hnotCls : m ≠ .cls := by
        rintro rfl
        have hclass : name = "__class__" := by simpa [Member.names] using hmem (Or.inr rfl)
        rw [hclass] at hname
        revert hname
        decide
      have hkept := keepsMaps_assignMember n name v hnotAttr hnotCls t (.refl t)
      rw [Run.ends_of_ok hrun] at hkept
      rw [assigned, hmember]
      exact ⟨hkept.lasts, h.keepsMaps hkept⟩

/-! ## A sequence of writes -/

namespace Gathered

theorem keepsExtras (h : Gathered n cls items t) (hu : KeepsExtras n t u) : Gathered n cls items u where
  keys := h.keys.mono hu.lasts
  holding := by
    rw [hu.lasts.putEach_eq (.nil t) h.keys]
    exact h.holding.keepsExtras hu

/-- One write puts some entries more. -/
theorem write (h : Gathered n cls items t) (hnew : t.LastingKeys fs)
    (hu : t.Lasts u ∧ Holding n cls (t.putEach (t.putEach [] items) fs) u) : Gathered n cls (items ++ fs) u where
  keys := (h.keys.append hnew).mono hu.1
  holding := by
    rw [hu.1.putEach_eq (.nil t) (h.keys.append hnew), putEach_append]
    exact hu.2

/-- **All that was accepted is put into the map, from left to right.** -/
theorem writes {before : Entries Value} (h : Gathered n cls before s) (hwrites : Writes n cls s items t) :
    Gathered n cls (before ++ items) t := by
  induction hwrites with
  | nil => rwa [List.append_nil]
  | merge _ hmapping hes hnamed hrun ih =>
      rw [← List.append_assoc]
      have hnew := (hes.lasting.accepted cls).append ((LastingKeys.of_texts hnamed).accepted cls)
      exact ih.write hnew (ih.holding.setAttributes (.putEach (.nil _) ih.keys) hmapping hes hnamed hrun)
  | @assign _ _ _ name v _ hname hattr hrun ih =>
      rw [← List.append_assoc]
      have htexts : ∀ k ∈ (assigned name v).keys, k.isText = true := by
        rw [assigned]
        split <;> simp [Entries.keys, Key.isText]
      exact ih.write (.of_texts htexts) (ih.holding.assignNode hname hattr hrun)
  | other _ hkept ih => exact ih.keepsExtras hkept

end Gathered

/-! ## Making the node -/

/-- A value is a map of fields for a new node if it was one before; the map of the new node itself has nothing in it. -/
theorem entries?_withBlank_cases (s : Store) (cls : NodeClass) (v : Value) :
    (s.withBlank cls).entries? v = s.entries? v ∨ s.entries? v = none ∧ (s.withBlank cls).entries? v = some [] := by
  cases v with
  | object o =>
      rcases Nat.lt_trichotomy o s.objects.size with hlt | rfl | hgt
      · exact Or.inl ((extends_withBlank s cls).keeps.entries o hlt)
      · right
        rw [withBlank_eq, entries?, entries?, object?, object?, object_withNew, object_of_size_le s (Nat.le_refl _)]
        exact ⟨rfl, rfl⟩
      · have hsize : (s.withBlank cls).objects.size ≤ o := by
          rw [withBlank_eq]
          simp only [withNew, Array.size_push]
          exact hgt
        left
        rw [entries?, entries?, object?, object?, object_of_size_le s (Nat.le_of_lt hgt), object_of_size_le _ hsize]
  | _ => exact Or.inl rfl

theorem keepsMaps_finish (n : NodeId) (parent children : Value) :
    Run.Preserves s.KeepsMaps (finish n parent children) := by
  refine Run.Preserves.bind (Run.Preserves.ite (fun _ => ?_) fun _ => .pure _) fun _ => ?_
  · exact (Run.Preserves.check _).bind fun items => (Run.Preserves.check _).bind fun _ => keepsMaps_pushAll n items
  · exact .ite (fun _ => keepsMaps_assignParent n parent) fun _ => .pure _

/-- A new node that is made from a scalar has an empty map. -/
theorem keepsMaps_construct (h : t.entries? given.value = none) :
    Run.Ends (construct n given) t (fun _ u => t.KeepsMaps u) fun _ _ => True := by
  have hset {f : NodeRecord → NodeRecord} (hf : ∀ r, (f r).cls = r.cls ∧ (f r).attr = r.attr) :
      t.KeepsMaps (t.updateNode n f) := (KeepsMaps.refl t).updateNode n hf
  have hfill : Run.Ends (fill n given) t (fun _ u => t.KeepsMaps u) fun _ _ => True := by
    rw [fill, Run.ends_bind, Run.ends_get, h]
    cases given.type with
    | null => exact hset fun _ => ⟨rfl, rfl⟩
    | text _ => exact hset fun _ => ⟨rfl, rfl⟩
    | _ => exact hset fun _ => ⟨rfl, rfl⟩
  rw [construct, Run.ends_bind]
  refine hfill.mono (fun parent u hu => ?_) fun _ _ _ => trivial
  have hlink : Run.Preserves t.KeepsMaps (if parent ≠ .null then assignParent n parent else pure ()) :=
    .ite (fun _ => keepsMaps_assignParent n parent) fun _ => .pure _
  exact (hlink u hu).mono (fun _ _ h => h) fun _ _ _ => trivial

/-- **A new node has the extra attributes that its map of fields gives it.** -/
theorem gathered_createUnplaced (hgiven : ∀ fields, s.entries? given.value = some fields → s.LastingKeys fields)
    (cls : NodeClass) : Run.Ends (createUnplaced cls given) s
      (fun n t => n = s.nodes.size ∧ Gathered n cls (given.extras s cls) t) fun _ _ => True := by
  have hblank : Holding s.nodes.size cls [] (s.withBlank cls) := by
    rw [withBlank_eq]
    exact ⟨by rw [node_withNew]; rfl, s.objects.size, by rw [node_withNew]; rfl, object_withNew ..⟩
  cases hmap : (s.withBlank cls).entries? given.value with
  | none =>
      have hextras : given.extras s cls = [] := by
        rcases entries?_withBlank_cases s cls given.value with heq | ⟨hnone, -⟩
        · rw [Construction.extras, ← heq, hmap]
          rfl
        · rw [Construction.extras, hnone]
          rfl
      have hconstruct := keepsMaps_construct (n := s.nodes.size) hmap
      rw [Run.Ends, createUnplaced_eq, hextras]
      refine Run.ends_bind.mpr (hconstruct.mono (fun _ u hu => ?_) fun _ _ _ => trivial)
      exact ⟨rfl, .nil _, hblank.keepsMaps hu⟩
  | some fields =>
      have hextras : given.extras s cls = extrasGiven cls fields ∧ s.LastingKeys fields := by
        rcases entries?_withBlank_cases s cls given.value with heq | ⟨hnone, hempty⟩
        · rw [Construction.extras, ← heq, hmap]
          exact ⟨rfl, hgiven fields (heq ▸ hmap)⟩
        · cases hmap.symm.trans hempty
          rw [Construction.extras, hnone]
          exact ⟨rfl, .nil s⟩
      obtain ⟨hextras, hkeys⟩ := hextras
      have hrun : createUnplaced cls given s = (mergeEach s.nodes.size .null fields >>=
          finish s.nodes.size given.parent >>= fun _ => pure s.nodes.size) (s.withBlank cls) := by
        rw [← create_eq_finish hmap given.type]
        show createUnplaced cls given s = (createUnplaced cls given >>= fun n => pure n) s
        rw [bind_pure]
      rw [Run.Ends, hrun, withBlank_eq, hextras]
      refine Run.ends_bind.mpr (Run.ends_bind.mpr ?_)
      refine (mergeEach_ends rfl (.nil s) hkeys .null).mono ?_ fun _ _ _ => trivial
      rintro answer t ⟨-, rfl⟩
      have hmerged : Holding s.nodes.size cls (s.putEach [] (extrasGiven cls fields))
          (s.withMerged (.blank cls (.object s.objects.size)) [] [] fields) := by
        rw [withMerged]
        exact ⟨by rw [node_withNew]; rfl, s.objects.size, by rw [node_withNew]; rfl, object_withNew ..⟩
      refine (keepsMaps_finish s.nodes.size given.parent answer _ (.refl _)).mono
        (fun _ u hu => ?_) fun _ _ _ => trivial
      have hlasts := (Lasts.of_extends (extends_withMerged ..)).trans hu.lasts
      have hgivens : s.LastingKeys (extrasGiven cls fields) := hkeys.filter _
      refine ⟨rfl, hgivens.mono hlasts, ?_⟩
      rw [hlasts.putEach_eq (.nil s) hgivens]
      exact hmerged.keepsMaps hu

/-- A wrapper that is called with the node assigns its position. -/
theorem Writes.stamp (h : Writes n cls s items t) (ht : Holding n cls es t) {tracker : ObjectId} {start answer : Value}
    (hrun : stamp tracker start (.node n) t = .ok answer u) :
    ∃ span, Writes n cls s (items ++ assigned "position" span) u := by
  obtain ⟨⟨source, line, column⟩, hstanding⟩ : ∃ standing, t.standing tracker = standing := ⟨_, rfl⟩
  -- what is allocated for the span are no maps
  let t' := (t.addObject (.location line column)).addObject (.position start (.object t.objects.size) source)
  have hkept : t.KeepsMaps t' := (keepsMaps_addObject t fun es heq => by cases heq).trans
    (keepsMaps_addObject _ fun es heq => by cases heq)
  let span : Value := .object (t.addObject (.location line column)).objects.size
  have hstamp : (assignNode n "position" span >>= fun _ => pure (.node n)) t' = .ok answer u := by
    rw [← hrun, Store.stamp, Run.read_bind, hstanding]
    rfl
  cases hassign : assignNode n "position" span t' with
  | error e u' => rw [Run.bind_of_error hassign] at hstamp; cases hstamp
  | ok _ u' =>
      rw [Run.bind_of_ok hassign] at hstamp
      cases hstamp
      exact ⟨span, (h.other (hkept.keepsExtras ht)).assign (by decide) (by decide) hassign⟩

end Store
end SyntaxTree
