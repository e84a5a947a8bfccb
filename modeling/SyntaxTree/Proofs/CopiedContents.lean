import SyntaxTree.Proofs.Courses

/-!
# `Proofs.CopiedContents` — a deep copy has the same contents

A deep copy denotes what the original denotes, if that is plain data. While the copy is made this holds of
everything that is remembered as a copy (`Faithful`), whatever else is copied on the way. An object whose
parts are not copied yet is no exception: it starts with the parts of the original, so its contents are the
right ones from the first moment on. When its parts are replaced by their copies, the contents of nothing
change (`keepsContents_updateObject`).

The copy of a map is a map with copies of the entries in the same order, also where some of them are no plain
data (`copy_copied`).
-/

namespace SyntaxTree

namespace Store

variable {s s' s'' : Store} {v w : Value} {t : Content} {cs : List Content}

/-! ## Contents are kept -/

/-- What denotes something in `s` denotes the same in `s'`. -/
def KeepsContents (s s' : Store) : Prop := ∀ v t, s.Denotes v t → s'.Denotes v t

theorem Extends.keepsContents (hs : s.Extends s') : s.KeepsContents s' := fun _ _ hv => hv.mono hs.object

theorem entries?_eq_some {es : Entries Value} :
    s.entries? v = some es ↔ ∃ o, v = .object o ∧ s.object o = .map es := by
  constructor
  · intro h
    rw [entries?] at h
    split at h
    · next fs hmap =>
        cases h
        cases v with
        | object o => exact ⟨o, rfl, Option.some.inj hmap⟩
        | _ => cases hmap
    · cases h
  · rintro ⟨o, rfl, ho⟩
    rw [entries?, object?, ho]

/-- A map stays the map it is. -/
theorem entries?_mono {es : Entries Value} (h : s.entries? v = some es)
    (hs : ∀ o, o < s.objects.size → s'.object o = s.object o) : s'.entries? v = some es := by
  obtain ⟨o, rfl, ho⟩ := entries?_eq_some.mp h
  have hlt : o < s.objects.size := lt_size_of_object fun heq => by rw [ho] at heq; cases heq
  exact entries?_eq_some.mpr ⟨o, rfl, (hs o hlt).trans ho⟩

/-- **Parts may be replaced by others with the same contents.** -/
theorem keepsContents_updateObject {p : ObjectId} {l : Label} {made : Object}
    (hp : s.Denotes (.object p) (.parts l cs)) (hlabel : made.label? = some l)
    (hparts : List.Forall₂ s.Denotes (contained made) cs) :
    s.KeepsContents (s.updateObject p fun _ => made) := by
  have hself : (s.updateObject p fun _ => made).object p = made := object_updateObject_self s _ hp.lt_size
  have hother {o : ObjectId} (ho : o ≠ p) : (s.updateObject p fun _ => made).object o = s.object o :=
    object_updateObject_of_ne s _ ho
  intro v t hv
  induction t generalizing v with
  | atom a =>
      cases hv with
      | scalar hscalar => exact .scalar hscalar
      | @wrapper o _ _ _ hwrapper =>
          refine .wrapper ((hother fun heq => ?_).trans hwrapper)
          have hplabel := hp.parts.1
          rw [← heq, hwrapper] at hplabel
          cases hplabel
  | parts m ds ih =>
      cases v with
      | object o =>
          have hall {vs : List Value} (hvs : List.Forall₂ s.Denotes vs ds) :
              List.Forall₂ (s.updateObject p fun _ => made).Denotes vs ds := by
            obtain ⟨hlength, hzip⟩ := List.forall₂_iff_zip.mp hvs
            exact List.forall₂_iff_zip.mpr
              ⟨hlength, fun hmem => ih _ (List.of_mem_zip hmem).2 _ (hzip hmem)⟩
          by_cases ho : o = p
          · subst ho
            cases hp.unique hv
            exact .of_parts (by rw [hself, hlabel]) (by rw [hself]; exact hall hparts)
          · obtain ⟨hlabel', hparts'⟩ := hv.parts
            exact .of_parts (by rw [hother ho, hlabel']) (by rw [hother ho]; exact hall hparts')
      | _ => cases hv

/-- What is no plain data may be changed: no plain data holds it. -/
theorem keepsContents_updateObject_of_not {p : ObjectId} (hp : ∀ t, ¬ s.Denotes (.object p) t)
    (f : Object → Object) : s.KeepsContents (s.updateObject p f) := by
  intro v t hv
  have hother {o : ObjectId} {u : Content} (ho : s.Denotes (.object o) u) :
      (s.updateObject p f).object o = s.object o :=
    object_updateObject_of_ne s f fun heq => hp u (heq ▸ ho)
  induction hv with
  | scalar hscalar => exact .scalar hscalar
  | wrapper hwrapper => exact .wrapper ((hother (.wrapper hwrapper)).trans hwrapper)
  | object hlabel hlength hparts ih =>
      have hsame := hother (.object hlabel hlength hparts)
      exact .object (hsame ▸ hlabel) (hsame ▸ hlength) fun v c hmem => ih v c (hsame ▸ hmem)

/-- A value of before denotes later only what it denoted then. -/
theorem Denotes.of_extends (h : s'.Denotes v t) (hv : s.Nodeless v)
    (hs : ∀ o, o < s.objects.size → s'.object o = s.object o) : s.Denotes v t := by
  induction h with
  | scalar hscalar => exact .scalar hscalar
  | wrapper hwrapper => exact .wrapper ((hs _ hv.lt_size).symm.trans hwrapper)
  | @object o l cs hlabel hlength hparts ih =>
      have hsame := hs o hv.lt_size
      refine .object (hsame ▸ hlabel) (hsame ▸ hlength) fun v c hmem => ?_
      exact ih v c (hsame ▸ hmem) (hv.contained (List.of_mem_zip hmem).1)

/-- `w` in `s'` has the contents that `v` has in `s`, if that is plain data. -/
def CopyOf (s : Store) (v : Value) (s' : Store) (w : Value) : Prop := ∀ t, s.Denotes v t → s'.Denotes w t

theorem CopyOf.keep (h : s.CopyOf v s' w) (hs : s'.KeepsContents s'') : s.CopyOf v s'' w :=
  fun t ht => hs w t (h t ht)

/-- Copies of some values one by one. -/
def CopiesOf (s : Store) (vs : List Value) (s' : Store) (ws : List Value) : Prop :=
  List.Forall₂ (fun v w => s.CopyOf v s' w) vs ws

theorem CopiesOf.keep {vs ws : List Value} (h : s.CopiesOf vs s' ws) (hs : s'.KeepsContents s'') :
    s.CopiesOf vs s'' ws := h.imp fun _ _ hvw => hvw.keep hs

/-- Copies of values denote what the values denote. -/
theorem CopiesOf.denotes {vs ws : List Value} (h : s.CopiesOf vs s' ws) (hvs : List.Forall₂ s.Denotes vs cs) :
    List.Forall₂ s'.Denotes ws cs := by
  induction h generalizing cs with
  | nil =>
      cases hvs
      exact .nil
  | cons hvw _ ih =>
      cases hvs with
      | cons hv hvs => exact .cons (hvw _ hv) (ih hvs)

/-- An object that was made of copies is a copy, if it has kept the label. -/
theorem copyOf_object {o p : ObjectId} (hshared : Copying.isShared (s.object o) = false)
    (hlabel : ∀ l, (s.object o).label? = some l → (s'.object p).label? = some l)
    (hparts : s.CopiesOf (contained (s.object o)) s' (contained (s'.object p))) :
    s.CopyOf (.object o) s' (.object p) := by
  intro t ht
  cases t with
  | atom a =>
      -- a wrapper is shared
      cases ht with
      | scalar hscalar => cases hscalar
      | wrapper hwrapper => rw [hwrapper] at hshared; cases hshared
  | parts l cs =>
      obtain ⟨hl, hcs⟩ := ht.parts
      exact .of_parts (hlabel l hl) (hparts.denotes hcs)

namespace Copying

/-! ## Copying keeps contents -/

theorem Quiet.keepsContents {c : Copying} (h : Quiet s c) : s.KeepsContents c.store :=
  fun _ _ hv => hv.mono h.object

/-- Everything that is remembered as a copy has the contents of what it is a copy of. -/
structure Faithful (s : Store) (c : Copying) : Prop extends Quiet s c where
  copies : ∀ v w, c.copies.lookup v = some w → s.CopyOf v c.store w

/-- The step gives a copy of `v`, and all is as it was otherwise. -/
def CopiesAs (s : Store) (p : Step Value) (v : Value) : Prop :=
  ∀ c, Faithful s c → ∃ w c', p.run c = (w, c') ∧ Faithful s c' ∧ Quiet c.store c' ∧ s.CopyOf v c'.store w

/-- An original is a copy of itself. -/
theorem Faithful.original {c : Copying} (hc : Faithful s c) (v : Value) : s.CopyOf v c.store v :=
  fun _ hv => hv.mono hc.object

theorem Faithful.originals {c : Copying} (hc : Faithful s c) (vs : List Value) : s.CopiesOf vs c.store vs :=
  List.forall₂_same.mpr fun v _ => hc.original v

theorem Faithful.remember {c : Copying} (hc : Faithful s c) (hw : s.CopyOf v c.store w) :
    Faithful s { c with copies := (v, w) :: c.copies } where
  toQuiet := hc.toQuiet.congr rfl
  copies u x hlookup := by
    rw [List.lookup_cons] at hlookup
    split at hlookup
    · next heq =>
        cases hlookup
        exact beq_iff_eq.mp heq ▸ hw
    · exact hc.copies u x hlookup

/-- A change that keeps all contents. -/
theorem Faithful.change {c c' : Copying} (hc : Faithful s c) (hquiet : Quiet s c')
    (hcopies : c'.copies = c.copies) (hkeeps : c.store.KeepsContents c'.store) : Faithful s c' where
  toQuiet := hquiet
  copies u x hlookup := (hc.copies u x (hcopies ▸ hlookup)).keep hkeeps

theorem Faithful.addObject {c : Copying} (hc : Faithful s c) (x : Object) :
    Faithful s { c with store := c.store.addObject x } :=
  hc.change (hc.toQuiet.addObject x) rfl (Extends.addObject c.store x).keepsContents

section Contents

variable {copy : Value → Step Value}

/-- Copying that keeps all contents. -/
def faithful (s : Store) : Course where
  holds := Faithful s
  later c d := Quiet c.store d
  refl := .refl
  trans h h' := h.trans h'

theorem stable_copyOf (s : Store) (v w : Value) : (faithful s).Stable fun c => s.CopyOf v c.store w :=
  fun _ _ hquiet hw => hw.keep hquiet.keepsContents

theorem CopiesAs.gives {p : Step Value} (h : CopiesAs s p v) : (faithful s).Gives p fun c w => s.CopyOf v c.store w := by
  intro c hc
  obtain ⟨w, c', hrun, hc', hquiet, hw⟩ := h c hc
  rw [hrun]
  exact ⟨hc', hquiet, hw⟩

theorem copiesAs_entries {es : Entries Value} (h : ∀ v ∈ entryValues es, CopiesAs s (copy v) v)
    {c : Copying} (hc : Faithful s c) : ∃ fs c', (entries copy es).run c = (fs, c') ∧ Faithful s c' ∧
      Quiet c.store c' ∧ fs.Keyed ∧ s.CopiesOf (entryValues es) c'.store (entryValues fs) := by
  obtain ⟨hc', hquiet, hkeyed, hfs⟩ :=
    Course.gives_entries (stable_copyOf s) (fun v hv => (h v hv).gives) c hc
  exact ⟨_, _, rfl, hc', hquiet, hkeyed, hfs⟩

/-- `made` has the label of `x`, and copies of what stands in it. -/
structure Remade (s : Store) (x : Object) (s' : Store) (made : Object) : Prop where
  label : ∀ l, x.label? = some l → made.label? = some l
  parts : s.CopiesOf (contained x) s' (contained made)

theorem remade_map {es fs : Entries Value} (hkeyed : fs.Keyed)
    (hparts : s.CopiesOf (entryValues es) s' (entryValues fs)) : Remade s (.map es) s' (.map fs) where
  label l hl := by
    cases Object.labelled hl with
    | map _ => exact if_pos hkeyed
  parts := hparts

/-- **Copying what stands in an object keeps the label and the contents.** -/
theorem copiesAs_contents {x : Object} (hshared : isShared x = false)
    (h : ∀ v ∈ contained x, CopiesAs s (copy v) v) {c : Copying} (hc : Faithful s c) :
    ∃ made c', (contents copy x).run c = (made, c') ∧ Faithful s c' ∧ Quiet c.store c' ∧
      Remade s x c'.store made := by
  obtain ⟨hc', hquiet, hmade⟩ :=
    Course.gives_contents (stable_copyOf s) hshared (fun v hv => (h v hv).gives) c hc
  exact ⟨_, _, rfl, hc', hquiet, hmade.label, hmade.parts⟩

/-- The copy of an object that is made of ready parts. -/
theorem copiesAs_madeLast {o : ObjectId} {x : Object} (hx : s.object o = x) (hshared : isShared x = false)
    (hlast : isMadeLast x = true) (h : ∀ v ∈ contained x, CopiesAs s (copy v) v) :
    CopiesAs s (ofObject copy o x) (.object o) := by
  intro c hc
  obtain ⟨made, c', hrun, hc', hquiet, hmade⟩ := copiesAs_contents hshared h hc
  rcases run_madeLast (o := o) hshared hlast hrun with ⟨earlier, hearlier, hrun⟩ | ⟨-, hrun⟩ | hrun
  · exact ⟨earlier, c', hrun, hc', hquiet, hc'.copies _ _ hearlier⟩
  · exact ⟨.object o, c', hrun, hc', hquiet, hc'.original _⟩
  · have hadded := (Extends.addObject c'.store made).keepsContents
    have hp : s.CopyOf (.object o) (c'.store.addObject made) (.object c'.store.objects.size) := by
      refine copyOf_object (hx ▸ hshared) (fun l hl => ?_) ?_
      · rw [object_addObject_self]
        exact hmade.label l (hx ▸ hl)
      · rw [object_addObject_self, hx]
        exact hmade.parts.keep hadded
    exact ⟨_, _, hrun, (hc'.addObject made).remember hp, (hquiet.addObject made).congr rfl, hp⟩

/-- Replacing the parts of a copy by copies changes no contents. -/
theorem keepsContents_made {x made : Object} {c : Copying} {p : ObjectId} (hc : Faithful s c)
    (hp : c.store.object p = x) (hmade : Remade s x c.store made) (hshared : isShared x = false)
    (hnodeless : ∀ v ∈ contained x, s.Nodeless v) :
    c.store.KeepsContents (c.store.updateObject p fun _ => made) := by
  by_cases hdenotes : ∃ t, c.store.Denotes (.object p) t
  · obtain ⟨t, ht⟩ := hdenotes
    cases t with
    | atom a =>
        cases ht with
        | scalar hscalar => cases hscalar
        | wrapper hwrapper =>
            rw [← hp, hwrapper] at hshared
            cases hshared
    | parts l cs =>
        obtain ⟨hlabel, hparts⟩ := ht.parts
        rw [hp] at hlabel hparts
        -- the parts are those of the original, and denoted the same then
        have hbefore : List.Forall₂ s.Denotes (contained x) cs := by
          obtain ⟨hlength, hzip⟩ := List.forall₂_iff_zip.mp hparts
          refine List.forall₂_iff_zip.mpr ⟨hlength, fun hmem => ?_⟩
          exact (hzip hmem).of_extends (hnodeless _ (List.of_mem_zip hmem).1) hc.object
        exact keepsContents_updateObject ht (hmade.label l hlabel) (hmade.parts.denotes hbefore)
  · exact keepsContents_updateObject_of_not (fun t ht => hdenotes ⟨t, ht⟩) _

/-- An object gets its place first: it is remembered as a copy while it holds the parts of the original. -/
theorem faithful_madeFirst {o : ObjectId} {x : Object} (hx : s.object o = x) (hshared : isShared x = false)
    {c : Copying} (hc : Faithful s c) :
    Faithful s ⟨c.store.addObject x, (.object o, .object c.store.objects.size) :: c.copies⟩ := by
  refine (hc.addObject x).remember (copyOf_object (hx ▸ hshared) (fun l hl => ?_) ?_)
  · rw [object_addObject_self, ← hx, hl]
  · rw [object_addObject_self, hx]
    exact (hc.addObject x).originals _

/-- Copying the parts leaves the place alone. -/
theorem place_madeFirst {x : Object} {c c' : Copying} (h : Quiet (c.store.addObject x) c') :
    c.store.objects.size < c'.store.objects.size ∧ c'.store.object c.store.objects.size = x := by
  have hplace : c.store.objects.size < (c.store.addObject x).objects.size := by
    rw [size_addObject]
    exact Nat.lt_succ_self _
  refine ⟨Nat.lt_of_lt_of_le hplace h.objects, ?_⟩
  rw [h.object _ hplace, object_addObject_self]

/-- The copy of an object that gets its place first, and then its parts. -/
theorem copiesAs_madeFirst {o : ObjectId} {x : Object} (hx : s.object o = x) (hshared : isShared x = false)
    (hlast : isMadeLast x = false) (hnodeless : ∀ v ∈ contained x, s.Nodeless v)
    (h : ∀ v ∈ contained x, CopiesAs s (copy v) v) : CopiesAs s (ofObject copy o x) (.object o) := by
  intro c hc
  have hc₁ := faithful_madeFirst hx hshared hc
  obtain ⟨made, c', hrun, hc', hquiet, hmade⟩ := copiesAs_contents hshared h hc₁
  have hkeeps := keepsContents_made hc' (place_madeFirst hquiet).2 hmade hshared hnodeless
  have hquiet' : Quiet c.store ⟨c'.store.updateObject c.store.objects.size fun _ => made, c'.copies⟩ :=
    (((Quiet.refl c).addObject x).trans hquiet).updateObject (Nat.le_refl _) fun _ => made
  refine ⟨_, _, run_madeFirst hshared hlast hrun, hc'.change (hc.toQuiet.trans hquiet') rfl hkeeps, hquiet', ?_⟩
  have hcopy := hc₁.copies (.object o) (.object c.store.objects.size) (by rw [List.lookup_cons_self])
  exact (hcopy.keep hquiet.keepsContents).keep hkeeps

/-- **Copying an object gives a copy**, if copying its parts does. -/
theorem copiesAs_ofObject {o : ObjectId} (ho : s.Nodeless (.object o))
    (h : ∀ v ∈ contained (s.object o), CopiesAs s (copy v) v) :
    CopiesAs s (ofObject copy o (s.object o)) (.object o) := by
  cases hshared : isShared (s.object o) with
  | true =>
      intro c hc
      refine ⟨.object o, c, ?_, hc, .refl c, hc.original _⟩
      rw [ofObject, if_pos hshared]
      rfl
  | false =>
      cases hlast : isMadeLast (s.object o) with
      | true => exact copiesAs_madeLast rfl hshared hlast h
      | false => exact copiesAs_madeFirst rfl hshared hlast (fun v hv => ho.contained hv) h

end Contents

/-- Copying what holds no nodes gives a copy, however deep it goes. -/
theorem copiesAs_within (fuel : Nat) (hv : s.Nodeless v) : CopiesAs s (within fuel v) v := by
  induction fuel generalizing v with
  | zero => exact fun c hc => ⟨v, c, rfl, hc, .refl c, hc.original v⟩
  | succ fuel ih =>
      intro c hc
      rw [run_within]
      cases hearlier : c.copies.lookup v with
      | some w => exact ⟨w, c, rfl, hc, .refl c, hc.copies v w hearlier⟩
      | none =>
          cases v with
          | node n => exact absurd rfl (hv.ne_node n)
          | object o =>
              have hcopied : CopiesAs s (ofObject (within fuel) o (s.object o)) (.object o) :=
                copiesAs_ofObject hv fun u hu => ih (hv.contained hu)
              rw [← hc.object o hv.lt_size] at hcopied
              exact hcopied c hc
          | _ => exact ⟨_, c, rfl, hc, .refl c, hc.original _⟩

theorem faithful_start (s : Store) : Faithful s ⟨s, []⟩ where
  toQuiet := .refl ⟨s, []⟩
  copies _ _ hlookup := by cases hlookup

end Copying

/-! ## Deep copies -/

/-- `w` is a copy of `v`. If `v` is a map, `w` is a map with copies of the entries in the same order. -/
structure Copied (s : Store) (v : Value) (s' : Store) (w : Value) : Prop where
  contents : s.CopyOf v s' w
  entries : ∀ es, s.entries? v = some es → ∃ fs, s'.entries? w = some fs ∧ fs.Keyed ∧
    s.CopiesOf (entryValues es) s' (entryValues fs)

/-- More objects do not matter for a copy. -/
theorem Copied.mono (h : s.Copied v s' w) (hs : ∀ o, o < s'.objects.size → s''.object o = s'.object o) :
    s.Copied v s'' w where
  contents t ht := (h.contents t ht).mono hs
  entries es hes := by
    obtain ⟨fs, hfs, hkeyed, hparts⟩ := h.entries es hes
    exact ⟨fs, entries?_mono hfs hs, hkeyed, hparts.keep fun _ _ hu => hu.mono hs⟩

/-- What is copied later is copied from what it was before. -/
theorem Copied.of_mono (h : s'.Copied v s'' w) (hs : ∀ o, o < s.objects.size → s'.object o = s.object o) :
    s.Copied v s'' w where
  contents t ht := h.contents t (ht.mono hs)
  entries es hes := by
    obtain ⟨fs, hfs, hkeyed, hparts⟩ := h.entries es (entries?_mono hes hs)
    exact ⟨fs, hfs, hkeyed, hparts.imp fun _ _ hcopy t ht => hcopy t (ht.mono hs)⟩

/-- The copy of a map is made of copies of the entries. -/
theorem copy_map {o : ObjectId} {es : Entries Value} (hv : s.Nodeless (.object o)) (hes : s.object o = .map es)
    (hcopy : copy (.object o) s = .ok w s') : ∃ p fs, w = .object p ∧ s'.object p = .map fs ∧ fs.Keyed ∧
      s.CopiesOf (entryValues es) s' (entryValues fs) := by
  have hstart := Copying.faithful_start s
  obtain ⟨fuel, hdepth⟩ : ∃ fuel, s.copyDepth = fuel + 1 := by
    have hpos : 0 < s.copyDepth := Nat.mul_pos (by omega) (by omega)
    exact ⟨s.copyDepth - 1, by omega⟩
  have hparts : ∀ v ∈ contained (s.object o), s.Nodeless v := fun v hv' => hv.contained hv'
  rw [hes] at hparts
  have hcopied : ∀ v ∈ entryValues es, Copying.CopiesAs s (Copying.within fuel v) v :=
    fun v hv => Copying.copiesAs_within fuel (hparts v hv)
  obtain ⟨fs, c', hrun, hc', hquiet, hkeyed, hfs⟩ :=
    Copying.copiesAs_entries hcopied (Copying.faithful_madeFirst hes rfl hstart)
  have hmade := Copying.remade_map hkeyed hfs
  have hplace := Copying.place_madeFirst (c := ⟨s, []⟩) hquiet
  have hkeeps := Copying.keepsContents_made hc' hplace.2 hmade rfl hparts
  have hwhole : (Copying.within s.copyDepth (.object o)).run ⟨s, []⟩ =
      (Copying.ofObject (Copying.within fuel) o (.map es)).run ⟨s, []⟩ := by
    rw [hdepth, ← hes]
    rfl
  rw [copy_eq, hwhole, Copying.run_madeFirst rfl rfl (Copying.run_bind_of hrun)] at hcopy
  cases hcopy
  refine ⟨s.objects.size, fs, rfl, object_updateObject_self _ _ hplace.1, hkeyed, hfs.keep hkeeps⟩

/-- **A deep copy of a value that holds no nodes makes objects only.** -/
theorem copy_nodeless (hv : s.Nodeless v) :
    ∃ w s', copy v s = .ok w s' ∧ s'.nodes = s.nodes ∧ s.Extends s' := by
  obtain ⟨w, c, hrun, -, hquiet, -⟩ := Copying.copiesAs_within s.copyDepth hv _ (Copying.faithful_start s)
  refine ⟨w, c.store, ?_, hquiet.nodes, ⟨?_, fun n _ => ?_, hquiet.objects, hquiet.object⟩⟩
  · rw [copy_eq, hrun]
  · exact Nat.le_of_eq (congrArg Array.size hquiet.nodes.symm)
  · rw [node, node, hquiet.nodes]

/-- **A deep copy of what holds no nodes is a copy.** -/
theorem copy_copied (hv : s.Nodeless v) (hcopy : copy v s = .ok w s') : s.Copied v s' w := by
  obtain ⟨w', c, hrun, -, -, hw⟩ := Copying.copiesAs_within s.copyDepth hv _ (Copying.faithful_start s)
  have hsame := hcopy
  rw [copy_eq, hrun] at hsame
  cases hsame
  refine ⟨hw, fun es hes => ?_⟩
  obtain ⟨o, rfl, ho⟩ := entries?_eq_some.mp hes
  obtain ⟨p, fs, rfl, hfs, hkeyed, hparts⟩ := copy_map hv ho hcopy
  exact ⟨fs, entries?_eq_some.mpr ⟨p, rfl, hfs⟩, hkeyed, hparts⟩

end Store
end SyntaxTree
