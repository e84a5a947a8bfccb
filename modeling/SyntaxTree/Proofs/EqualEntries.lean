import SyntaxTree.Proofs.CopiedContents

/-!
# `Proofs.EqualEntries` — maps that agree entry by entry

Two maps are equal if they have equal entries in the same order, and no key of one of them is equal to
another (`MapsAgree.equal`). The values need not be plain data: it is enough that comparing them ends with
yes. The keys have to be: a key is looked for among the keys that stand before its own, and each of these
comparisons has to end with no.

Maps go on agreeing when the same is put into both. Putting asks what a key *counts as*, which for an object
is its identity, and not what it is equal to. So it has to be seen that the key which is put meets its like
in both maps or in neither (`counted_iff`). That is so if one of the two keys is a text, which is no object,
or if they are apart (`Discernible`).
-/

namespace SyntaxTree

/-- Only the key for an object counts as that key. -/
theorem Key.counted_eq_object {k : Key} {o : ObjectId} :
    k.counted = .other (.object o) ↔ k = .other (.object o) := by
  cases k with
  | other v =>
      rw [counted]
      cases hv : v.toInt? with
      | none => exact Iff.rfl
      | some i =>
          refine ⟨fun h => (by cases h), fun h => ?_⟩
          cases h
          cases hv
  | _ => rfl

/-- A key under which nothing is found counts as none of the keys. -/
theorem Entries.counted_ne_of_find?_eq_none {α : Type} {es : Entries α} {key : Key}
    (h : es.find? key = none) {k : Key} (hk : k ∈ es.keys) : k.counted ≠ key.counted := by
  induction es with
  | nil => cases hk
  | cons e rest ih =>
      obtain ⟨head, a⟩ := e
      rw [find?] at h
      split at h
      · cases h
      · next hne =>
          rcases List.mem_cons.mp hk with rfl | hk
          · exact hne
          · exact ih h hk

namespace Store

variable {s s' : Store} {v w : Value} {k k' l l' : Key} {es fs xs ys : Entries Value}
  {R R' : Value → Value → Prop}

/-! ## Values that agree -/

/-- Two values with one and the same contents. -/
def SameContents (s : Store) (v w : Value) : Prop := ∃ t, s.Denotes v t ∧ s.Denotes w t ∧ t.Proper

/-- The values are one thing, or have the same contents. -/
def ValuesAgree (s : Store) (v w : Value) : Prop := v = w ∨ s.SameContents v w

/-- At some depth the values turn out to be equal as parts. -/
def EndsEqual (s : Store) (v w : Value) : Prop := ∃ depth, s.partUpTo depth v w = .ok true

theorem SameContents.mono (h : s.SameContents v w) (hs : s.KeepsContents s') : s'.SameContents v w := by
  obtain ⟨t, hv, hw, ht⟩ := h
  exact ⟨t, hs v t hv, hs w t hw, ht⟩

theorem ValuesAgree.mono (h : s.ValuesAgree v w) (hs : s.KeepsContents s') : s'.ValuesAgree v w := by
  rcases h with heq | hsame
  · exact Or.inl heq
  · exact Or.inr (hsame.mono hs)

theorem ValuesAgree.endsEqual (h : s.ValuesAgree v w) : s.EndsEqual v w := by
  rcases h with rfl | ⟨t, hv, hw, ht⟩
  · exact ⟨0, partUpTo_self s 0 v⟩
  · obtain ⟨depth, hdecides⟩ := partUpTo_denotes hv ht
    refine ⟨depth, ?_⟩
    rw [hdecides w t hw, ht.same_self]

/-! ## Keys that agree -/

/-- Two keys with the same contents. -/
structure KeysAgree (s : Store) (k l : Key) : Prop where
  contents : s.SameContents k.value l.value
  left : k = .ofValue k.value
  right : l = .ofValue l.value

/-- Compared with `k`, the key `k'` is another one. -/
def Apart (s : Store) (k k' : Key) : Prop :=
  ∀ t t', s.Denotes k.value t → s.Denotes k'.value t' → t'.same t = false

/-- Whether the keys count as one is discernible by their contents. -/
def Discernible (s : Store) (k k' : Key) : Prop :=
  (∃ x, k = .text x) ∨ (∃ x, k' = .text x) ∨ s.Apart k k'

theorem keysAgree_text (s : Store) (x : String) : s.KeysAgree (.text x) (.text x) :=
  ⟨⟨.atom (.text x), .scalar rfl, .scalar rfl, .atom _⟩, rfl, rfl⟩

theorem Denotes.atom_eq {a : Value} (h : s.Denotes v (.atom a)) : v = a := by
  cases h with
  | scalar _ => rfl
  | wrapper _ => rfl

theorem Denotes.parts_object {label : Label} {cs : List Content} (h : s.Denotes v (.parts label cs)) :
    ∃ o, v = .object o := by
  cases h with
  | object _ => exact ⟨_, rfl⟩

/-- Agreeing keys are the same, or keys for two objects. -/
theorem KeysAgree.cases (h : s.KeysAgree k l) :
    k = l ∨ ∃ o p t, k = .other (.object o) ∧ l = .other (.object p) ∧ s.Denotes (.object o) t ∧
      s.Denotes (.object p) t ∧ t.Proper := by
  obtain ⟨⟨t, hk, hl, ht⟩, hleft, hright⟩ := h
  cases t with
  | atom a =>
      refine Or.inl ?_
      rw [hleft, hright, hk.atom_eq, hl.atom_eq]
  | parts label cs =>
      obtain ⟨o, ho⟩ := hk.parts_object
      obtain ⟨p, hp⟩ := hl.parts_object
      rw [ho] at hk hleft
      rw [hp] at hl hright
      exact Or.inr ⟨o, p, _, hleft, hright, hk, hl, ht⟩

/-- Objects with the same contents are not discernible. -/
theorem not_discernible {o p : ObjectId} {t : Content} (ho : s.Denotes (.object o) t)
    (hp : s.Denotes (.object p) t) (ht : t.Proper) :
    ¬ s.Discernible (.other (.object o)) (.other (.object p)) := by
  rintro (⟨x, hx⟩ | ⟨x, hx⟩ | hapart)
  · cases hx
  · cases hx
  · have hself := hapart t t ho hp
    rw [ht.same_self] at hself
    cases hself

/-- **Of agreeing keys both or neither count as one.** -/
theorem counted_iff (hk : s.KeysAgree k l) (hk' : s.KeysAgree k' l') (hdiscern : s.Discernible k k') :
    k.counted = k'.counted ↔ l.counted = l'.counted := by
  rcases hk.cases with rfl | ⟨o, p, t, rfl, rfl, ho, hp, ht⟩
  · rcases hk'.cases with rfl | ⟨o', p', t', rfl, rfl, ho', hp', ht'⟩
    · exact Iff.rfl
    · constructor
      · intro heq
        rw [Key.counted_eq_object.mp heq] at hdiscern
        exact absurd hdiscern (not_discernible ho' ho' ht')
      · intro heq
        rw [Key.counted_eq_object.mp heq] at hdiscern
        exact absurd hdiscern (not_discernible hp' ho' ht')
  · rcases hk'.cases with rfl | ⟨o', p', t', rfl, rfl, ho', hp', ht'⟩
    · constructor
      · intro heq
        rw [Key.counted_eq_object.mp heq.symm] at hdiscern
        exact absurd hdiscern (not_discernible ho ho ht)
      · intro heq
        rw [Key.counted_eq_object.mp heq.symm] at hdiscern
        exact absurd hdiscern (not_discernible ho hp ht)
    · constructor
      · intro heq
        cases heq
        exact absurd hdiscern (not_discernible ho ho ht)
      · intro heq
        cases heq
        exact absurd hdiscern (not_discernible ho (hp.unique hp' ▸ ho') ht)

/-- Discernible keys that do not count as one are apart. -/
theorem Discernible.apart (h : s.Discernible k k') (hk : k = .ofValue k.value) (hk' : k' = .ofValue k'.value)
    (hne : k.counted ≠ k'.counted) : s.Apart k k' := by
  have htext {x : String} {j : Key} (hj : j = .ofValue j.value) (hjx : j.counted ≠ .text x) :
      j.value ≠ .text x := by
    intro heq
    rw [heq] at hj
    exact hjx (hj ▸ rfl)
  rcases h with ⟨x, rfl⟩ | ⟨x, rfl⟩ | hapart
  · intro t t' ht ht'
    cases t with
    | parts label cs => obtain ⟨o, ho⟩ := ht.parts_object; cases ho
    | atom a =>
        cases ht.atom_eq
        cases t' with
        | parts label cs => simp [Content.same]
        | atom b =>
            have hb : b ≠ .text x := ht'.atom_eq ▸ htext hk' hne.symm
            rw [Content.same, Key.value, Value.equalScalar_text]
            simp [hb]
  · intro t t' ht ht'
    cases t' with
    | parts label cs => obtain ⟨o, ho⟩ := ht'.parts_object; cases ho
    | atom b =>
        cases ht'.atom_eq
        cases t with
        | parts label cs => simp [Content.same]
        | atom a =>
            have ha : a ≠ .text x := ht.atom_eq ▸ htext hk hne
            rw [Content.same, Key.value, Value.text_equalScalar]
            simp [ha, ha.symm]
  · exact hapart

/-! ## Maps that agree -/

theorem exists_of_forall₂ {α β : Type} {P : α → β → Prop} {as : List α} {bs : List β}
    (h : List.Forall₂ P as bs) {a : α} (ha : a ∈ as) : ∃ b ∈ bs, P a b := by
  induction h with
  | nil => cases ha
  | @cons a' b as bs hab _ ih =>
      rcases List.mem_cons.mp ha with rfl | ha
      · exact ⟨b, List.mem_cons_self .., hab⟩
      · obtain ⟨c, hc, hac⟩ := ih ha
        exact ⟨c, List.mem_cons_of_mem _ hc, hac⟩

/-- Two maps have keys that agree and values that are related, in the same order; and the keys are apart. -/
structure MapsAgree (s : Store) (R : Value → Value → Prop) (es fs : Entries Value) : Prop where
  entries : List.Forall₂ (fun e f => s.KeysAgree e.1 f.1 ∧ R e.2 f.2) es fs
  apart : es.keys.Pairwise s.Apart

theorem MapsAgree.imp (h : s.MapsAgree R es fs) (hR : ∀ v w, R v w → R' v w) : s.MapsAgree R' es fs :=
  ⟨h.entries.imp fun e f he => ⟨he.1, hR e.2 f.2 he.2⟩, h.apart⟩

theorem KeysAgree.mono (h : s.KeysAgree k l) (hs : s.KeepsContents s') : s'.KeysAgree k l :=
  ⟨h.contents.mono hs, h.left, h.right⟩

/-- Keys that agree with something are plain data, and stay apart. -/
theorem MapsAgree.mono (h : s.MapsAgree R es fs) (hs : s.KeepsContents s') (hR : ∀ v w, R v w → R' v w) :
    s'.MapsAgree R' es fs where
  entries := h.entries.imp fun e f he => ⟨he.1.mono hs, hR e.2 f.2 he.2⟩
  apart := by
    refine h.apart.imp_of_mem fun {j j'} hj hj' hapart t t' ht ht' => ?_
    have hcontents {i : Key} (hi : i ∈ es.keys) : ∃ u, s.Denotes i.value u := by
      obtain ⟨e, he, rfl⟩ := List.mem_map.mp hi
      obtain ⟨f, -, hef⟩ := exists_of_forall₂ h.entries he
      obtain ⟨u, hu, -⟩ := hef.1.contents
      exact ⟨u, hu⟩
    obtain ⟨u, hu⟩ := hcontents hj
    obtain ⟨u', hu'⟩ := hcontents hj'
    rw [ht.unique (hs _ u hu), ht'.unique (hs _ u' hu')]
    exact hapart u u' hu hu'

/-- Putting one thing into both. -/
theorem forall₂_put (h : List.Forall₂ (fun e f => s.KeysAgree e.1 f.1 ∧ R e.2 f.2) es fs)
    (hkey : s.KeysAgree k l) (hvalue : R v w) (hdiscern : ∀ j ∈ es.keys, s.Discernible j k) :
    List.Forall₂ (fun e f => s.KeysAgree e.1 f.1 ∧ R e.2 f.2) (es.put k v) (fs.put l w) := by
  induction h with
  | nil => exact .cons ⟨hkey, hvalue⟩ .nil
  | @cons e f es fs he hes ih =>
      have hiff := counted_iff he.1 hkey (hdiscern e.1 (List.mem_cons_self ..))
      have hrest := ih fun j hj => hdiscern j (List.mem_cons_of_mem _ hj)
      by_cases hcounted : e.1.counted = k.counted
      · rw [Entries.put, Entries.put, if_pos hcounted, if_pos (hiff.mp hcounted)]
        exact .cons ⟨he.1, hvalue⟩ hes
      · rw [Entries.put, Entries.put, if_neg hcounted, if_neg fun heq => hcounted (hiff.mpr heq)]
        exact .cons he hrest

/-- **Putting keeps maps in agreement.** -/
theorem MapsAgree.put (h : s.MapsAgree R es fs) (hkey : s.KeysAgree k l) (hvalue : R v w)
    (hdiscern : ∀ j ∈ es.keys, s.Discernible j k) : s.MapsAgree R (es.put k v) (fs.put l w) where
  entries := forall₂_put h.entries hkey hvalue hdiscern
  apart := by
    rw [Entries.keys_put]
    cases hfound : es.find? k with
    | some a => exact h.apart
    | none =>
        have hleft : ∀ j ∈ es.keys, j = .ofValue j.value := by
          intro j hj
          obtain ⟨e, he, rfl⟩ := List.mem_map.mp hj
          obtain ⟨f, -, hef⟩ := exists_of_forall₂ h.entries he
          exact hef.1.left
        refine List.pairwise_append.mpr ⟨h.apart, List.pairwise_singleton _ _, fun j hj k' hk' => ?_⟩
        rw [List.mem_singleton.mp hk']
        exact (hdiscern j hj).apart (hleft j hj) hkey.left (Entries.counted_ne_of_find?_eq_none hfound hj)

/-- A key of the map is one of before, or the one that is put. -/
theorem mem_keys_put {j : Key} (hj : j ∈ (es.put k v).keys) : j ∈ es.keys ∨ j = k := by
  rw [Entries.keys_put] at hj
  split at hj
  · exact Or.inl hj
  · rcases List.mem_append.mp hj with hj | hj
    · exact Or.inl hj
    · exact Or.inr (List.mem_singleton.mp hj)

/-- **So does putting all of two maps that agree**: their keys are apart from each other. -/
theorem MapsAgree.putAll (h : s.MapsAgree R es fs) (hmore : s.MapsAgree R xs ys)
    (hdiscern : ∀ j ∈ es.keys, ∀ k ∈ xs.keys, s.Discernible j k) :
    s.MapsAgree R (es.putAll xs) (fs.putAll ys) := by
  obtain ⟨hentries, hapart⟩ := hmore
  induction hentries generalizing es fs with
  | nil => exact h
  | @cons x y xs ys hxy _ ih =>
      rw [Entries.putAll_cons, Entries.putAll_cons]
      obtain ⟨hfirst, hapart⟩ := List.pairwise_cons.mp hapart
      have hput := h.put hxy.1 hxy.2 fun j hj => hdiscern j hj x.1 (List.mem_cons_self ..)
      refine ih hput (fun j hj k hk => ?_) hapart
      rcases mem_keys_put hj with hj | rfl
      · exact hdiscern j hj k (List.mem_cons_of_mem _ hk)
      · exact Or.inr (Or.inr (hfirst k hk))

/-! ## Their equality -/

/-- Keys that stand before and are apart are passed by. -/
theorem valueUnder_of_apart {eq : Value → Value → Except Fault Bool} {t : Content} {f : Key × Value}
    (hk : s.Decides eq k.value t) (hself : t.same t = true) (hf : s.Denotes f.1.value t)
    (after : Entries Value) {before : Entries Value}
    (hbefore : ∀ b ∈ before, ∃ d, s.Denotes b.1.value d ∧ t.same d = false) :
    valueUnder eq k.value (before ++ f :: after) = .ok (some f.2) := by
  induction before with
  | nil =>
      rw [List.nil_append, valueUnder, bind_ok (hk _ t hf), hself]
      rfl
  | cons b before ih =>
      obtain ⟨d, hd, hother⟩ := hbefore b (List.mem_cons_self ..)
      rw [List.cons_append, valueUnder, bind_ok (hk _ d hd), hother]
      exact ih fun b' hb' => hbefore b' (List.mem_cons_of_mem _ hb')

/-- Each entry of the one map is found in the other one, after the entries that came before it. -/
theorem entriesEqualIn_of_agree {bs cs : Entries Value}
    (hbefore : List.Forall₂ (fun e f => s.KeysAgree e.1 f.1 ∧ s.EndsEqual e.2 f.2) bs cs)
    (h : List.Forall₂ (fun e f => s.KeysAgree e.1 f.1 ∧ s.EndsEqual e.2 f.2) es fs)
    (hapart : (Entries.keys (bs ++ es)).Pairwise s.Apart) :
    ∃ depth, entriesEqualIn (s.partUpTo depth) (cs ++ fs) es = .ok true := by
  induction h generalizing bs cs with
  | nil => exact ⟨0, rfl⟩
  | @cons e f es fs hef _ ih =>
      have hpair := hef
      obtain ⟨⟨⟨t, he, hf, ht⟩, -, -⟩, dvalue, hvalue⟩ := hef
      obtain ⟨dkey, hkey⟩ := partUpTo_denotes he ht
      have hothers : ∀ c ∈ cs, ∃ d, s.Denotes c.1.value d ∧ t.same d = false := by
        intro c hc
        obtain ⟨b, hb, hbc⟩ := exists_of_forall₂ hbefore.flip hc
        obtain ⟨d, hbd, hcd, -⟩ := hbc.1.contents
        rw [Entries.keys, List.map_append, List.pairwise_append] at hapart
        exact ⟨d, hcd, hapart.2.2 b.1 (List.mem_map_of_mem hb) e.1 (List.mem_cons_self ..) d t hbd he⟩
      have hunder := valueUnder_of_apart hkey ht.same_self hf fs hothers
      obtain ⟨drest, hrest⟩ : ∃ depth, entriesEqualIn (s.partUpTo depth) (cs ++ f :: fs) es = .ok true := by
        have hmoved : ∃ depth, entriesEqualIn (s.partUpTo depth) ((cs ++ [f]) ++ fs) es = .ok true := by
          refine ih (List.rel_append hbefore (.cons hpair .nil)) ?_
          rwa [List.append_assoc]
        rwa [List.append_assoc] at hmoved
      -- one depth that is enough for the key, for the value and for the rest
      let depth := max dkey (max dvalue drest)
      have hdvalue : dvalue ≤ depth := (Nat.le_max_left _ _).trans (Nat.le_max_right _ _)
      have hdrest : drest ≤ depth := (Nat.le_max_right _ _).trans (Nat.le_max_right _ _)
      refine ⟨depth, ?_⟩
      rw [entriesEqualIn, bind_ok (refines_valueUnder (fun _ _ => refines_partUpTo (Nat.le_max_left _ _) _ _) _ hunder)]
      dsimp only
      rw [bind_ok (refines_partUpTo hdvalue _ _ _ hvalue)]
      exact refines_entriesEqualIn (fun _ _ _ _ => ⟨refines_partUpTo hdrest _ _, refines_partUpTo hdrest _ _⟩) _ hrest

/-- **Maps that agree are equal.** -/
theorem MapsAgree.equal (h : s.MapsAgree s.EndsEqual es fs) :
    ∃ depth, equalObjects (s.partUpTo depth) (.map es) (.map fs) = .ok true := by
  obtain ⟨depth, heq⟩ := entriesEqualIn_of_agree .nil h.entries h.apart
  exact ⟨depth, by rw [equalObjects, if_pos h.entries.length_eq]; exact heq⟩

/-- Lists whose members are equal one by one are equal. -/
theorem equalLists_of_endsEqual {vs ws : List Value} (h : List.Forall₂ s.EndsEqual vs ws) :
    ∃ depth, equalObjects (s.partUpTo depth) (.collection .list vs) (.collection .list ws) = .ok true := by
  suffices hlists : ∃ depth, equalLists (s.partUpTo depth) vs ws = .ok true by
    obtain ⟨depth, heq⟩ := hlists
    exact ⟨depth, by rw [equalObjects, if_pos h.length_eq]; exact heq⟩
  induction h with
  | nil => exact ⟨0, rfl⟩
  | @cons v w vs ws hvw _ ih =>
      obtain ⟨dfirst, hfirst⟩ := hvw
      obtain ⟨drest, hrest⟩ := ih
      refine ⟨max dfirst drest, ?_⟩
      rw [equalLists, bind_ok (refines_partUpTo (Nat.le_max_left _ _) _ _ _ hfirst)]
      exact refines_equalLists (fun _ _ _ _ => refines_partUpTo (Nat.le_max_right _ _) _ _) _ hrest

/-- Objects whose parts are equal are equal. -/
theorem endsEqual_objects {o p : ObjectId}
    (h : ∃ depth, equalObjects (s.partUpTo depth) (s.object o) (s.object p) = .ok true) :
    s.EndsEqual (.object o) (.object p) := by
  obtain ⟨depth, heq⟩ := h
  refine ⟨depth + 1, ?_⟩
  by_cases hop : o = p
  · rw [hop, partUpTo_self]
  · rw [partUpTo, if_neg fun h => hop (Value.object.inj h), equalUpTo_object hop, heq]

/-- What turns out to be equal is equal. -/
theorem equal_of_endsEqual {o p : ObjectId} (h : s.EndsEqual (.object o) (.object p)) :
    s.equal (.object o) (.object p) = .ok true := by
  obtain ⟨depth, heq⟩ := h
  by_cases hop : o = p
  · simp [hop, equal, equalWithin, object?]
  · rw [partUpTo, if_neg fun h => hop (Value.object.inj h)] at heq
    exact equal_of_equalUpTo heq

/-! ## Maps of plain data -/

theorem keysOf_denotes {cs : List Content} (h : List.Forall₂ s.Denotes (entryValues es) cs) {j : Key}
    (hj : j ∈ es.keys) : ∃ d ∈ Content.keysOf cs, s.Denotes j.value d := by
  induction es generalizing cs with
  | nil => cases hj
  | cons e es ih =>
      rw [entryValues_cons] at h
      cases h with
      | @cons _ a _ _ ha hrest =>
          cases hrest with
          | @cons _ d _ ds hd hrest =>
              rw [Content.keysOf]
              rcases List.mem_cons.mp hj with rfl | hj
              · exact ⟨d, List.mem_cons_self .., hd⟩
              · obtain ⟨d', hmem, hd'⟩ := ih hrest hj
                exact ⟨d', List.mem_cons_of_mem _ hmem, hd'⟩

/-- **Maps with the same contents agree.** -/
theorem mapsAgree_of_contents {cs : List Content} (hes : List.Forall₂ s.Denotes (entryValues es) cs)
    (hfs : List.Forall₂ s.Denotes (entryValues fs) cs) (hleft : es.Keyed) (hright : fs.Keyed)
    (hproper : ∀ c ∈ cs, c.Proper)
    (hkeys : (Content.keysOf cs).Pairwise fun t t' => t'.same t = false) :
    s.MapsAgree s.SameContents es fs := by
  induction es generalizing fs cs with
  | nil =>
      cases hes
      cases fs with
      | nil => exact ⟨.nil, List.Pairwise.nil⟩
      | cons f fs => rw [entryValues_cons] at hfs; cases hfs
  | cons e es ih =>
      rw [entryValues_cons] at hes
      cases hes with
      | @cons _ a _ _ ha hrest =>
          cases hrest with
          | @cons _ d _ ds hd hrest =>
              cases fs with
              | nil => cases hfs
              | cons f fs =>
                  rw [entryValues_cons] at hfs
                  cases hfs with
                  | cons ha' hrest' =>
                      cases hrest' with
                      | cons hd' hrest' =>
                          rw [Content.keysOf] at hkeys
                          obtain ⟨hfirst, hkeys⟩ := List.pairwise_cons.mp hkeys
                          have hmore := ih hrest hrest' (fun x hx => hleft x (List.mem_cons_of_mem _ hx))
                            (fun x hx => hright x (List.mem_cons_of_mem _ hx))
                            (fun c hc => hproper c (by simp [hc])) hkeys
                          have hkey : s.KeysAgree e.1 f.1 :=
                            ⟨⟨d, hd, hd', hproper d (by simp)⟩, hleft e (List.mem_cons_self ..),
                              hright f (List.mem_cons_self ..)⟩
                          have hvalue : s.SameContents e.2 f.2 := ⟨a, ha, ha', hproper a (by simp)⟩
                          refine ⟨.cons ⟨hkey, hvalue⟩ hmore.entries, ?_⟩
                          refine List.pairwise_cons.mpr ⟨fun j hj t t' ht ht' => ?_, hmore.apart⟩
                          obtain ⟨d', hmem, hjd⟩ := keysOf_denotes hrest hj
                          rw [ht.unique hd, ht'.unique hjd]
                          exact hfirst d' hmem

end Store
end SyntaxTree
