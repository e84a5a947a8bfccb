import Mathlib.Data.List.Find
import SyntaxTree.Proofs.EqualEntries

/-!
# `Proofs.Keys` — the keys of a map

A key that is an object counts as the first key of the map that it is equal to. So which entry it means depends on a
comparison, and a map would fall apart if its keys came to be equal to other things later. They do not: what can be a
key holds nothing that may change (`Keyable`), and of a store that comes later no more is asked here than that it
leaves such things alone (`Lasts`). Then keys mean the same entries in both stores, and putting entries into a map
gives the same map (`Lasts.putEach_eq`).

The reason is that a comparison depends on nothing but what it comes across (`ComparedAlike`).

In a map no object among the keys is equal to a key before it. `IsMap` says so, and putting an entry keeps it, since
an object that is equal to one of the keys counts as that key.
-/

namespace SyntaxTree

namespace Entries

variable {es fs : Entries Value} {key : Key} {v : Value}

/-- As in every map: keys stand for their values, and no two of them count as one. -/
structure Regular (es : Entries Value) : Prop where
  keyed : es.Keyed
  distinct : (es.keys.map Key.counted).Nodup

theorem Regular.nil : Regular [] := ⟨fun _ he => (by cases he), List.nodup_nil⟩

theorem Keyed.put (h : es.Keyed) (hkey : key = .ofValue key.value) : (es.put key v).Keyed := by
  induction es with
  | nil => exact fun e he => List.mem_singleton.mp he ▸ hkey
  | cons e es ih =>
      obtain ⟨he, hes⟩ := List.forall_mem_cons.mp h
      rw [Entries.put]
      split
      · exact List.forall_mem_cons.mpr ⟨he, hes⟩
      · exact List.forall_mem_cons.mpr ⟨he, ih hes⟩

theorem distinct_put {α : Type} {es : Entries α} (h : (es.keys.map Key.counted).Nodup) (key : Key) (a : α) :
    ((es.put key a).keys.map Key.counted).Nodup := by
  rw [keys_put]
  cases hfound : es.find? key with
  | some b => exact h
  | none =>
      rw [Option.isSome_none, if_neg Bool.false_ne_true, List.map_append]
      refine List.nodup_append.mpr ⟨h, List.nodup_singleton _, fun c hc d hd => ?_⟩
      obtain ⟨k, hk, rfl⟩ := List.mem_map.mp hc
      rw [List.mem_singleton.mp hd]
      exact counted_ne_of_find?_eq_none hfound hk

theorem Regular.put (h : es.Regular) (hkey : key = .ofValue key.value) : (es.put key v).Regular where
  keyed := h.keyed.put hkey
  distinct := distinct_put h.distinct key v

theorem Keyed.of_mem_keys (h : es.Keyed) (hkey : key ∈ es.keys) : key = .ofValue key.value := by
  obtain ⟨e, he, rfl⟩ := List.mem_map.mp hkey
  exact h e he

theorem Keyed.keyAs (h : es.Keyed) (s : Store) (hkey : key = .ofValue key.value) :
    s.keyAs es key = .ofValue (s.keyAs es key).value := by
  rcases s.keyAs_mem_or es key with hmem | hself
  · exact h.of_mem_keys hmem
  · rwa [hself]

theorem Regular.putAll (h : es.Regular) (hfs : fs.Keyed) : (es.putAll fs).Regular := by
  induction fs generalizing es with
  | nil => exact h
  | cons f fs ih =>
      obtain ⟨hf, hfs⟩ := List.forall_mem_cons.mp hfs
      exact ih (h.put hf) hfs

theorem mem_keys_putAll (hkey : key ∈ (es.putAll fs).keys) : key ∈ es.keys ∨ key ∈ fs.keys := by
  induction fs generalizing es with
  | nil => exact Or.inl hkey
  | cons f fs ih =>
      rcases ih hkey with hkey | hkey
      · rcases Store.mem_keys_put hkey with hkey | rfl
        · exact Or.inl hkey
        · exact Or.inr (List.mem_cons_self ..)
      · exact Or.inr (List.mem_cons_of_mem _ hkey)

end Entries

namespace Key

/-- Whether a key is a text. -/
def isText : Key → Bool
  | .text _ => true
  | _ => false

theorem isText_iff {k : Key} : k.isText = true ↔ ∃ x, k = .text x := by
  cases k with
  | text x => exact iff_of_true rfl ⟨x, rfl⟩
  | _ => exact iff_of_false Bool.false_ne_true fun ⟨_, heq⟩ => by cases heq

end Key

/-! ## What is compared of an object -/

namespace Object

/-- An object without what plays no part when it is compared with another one. -/
def essence : Object → Object
  | .tracker .. | .wrapper .. | .foreign .. => .plain
  | x => x

/-- Whether an object may be a key, or stand in one: collections that may change and maps may not. -/
def isLasting : Object → Bool
  | .collection .list _ | .collection .set _ | .map _ => false
  | _ => true

theorem parts_essence (x : Object) : x.essence.parts = x.parts := by cases x <;> rfl

theorem isLasting_essence (x : Object) : x.essence.isLasting = x.isLasting := by cases x <;> rfl

end Object

namespace Store

variable {s s' s'' : Store} {a b v : Value} {o : ObjectId} {es fs new : Entries Value} {key k : Key}

/-- A comparison does not look at more than that. -/
theorem equalObjects_essence (eq : Value → Value → Except Fault Bool) (x y : Object) :
    equalObjects eq x.essence y.essence = equalObjects eq x y := by
  have hleft (x y : Object) : equalObjects eq x.essence y = equalObjects eq x y := by cases x <;> rfl
  have hright (x y : Object) : equalObjects eq x y.essence = equalObjects eq x y := by
    cases x with
    | collection shape items => cases shape <;> cases y <;> rfl
    | _ => cases y <;> rfl
  rw [hleft, hright]

theorem sameKey_iff : s.sameKey key k = true ↔ s.samePart key.value k.value = .ok true := by
  rw [sameKey]
  split
  · next hsame => exact iff_of_true rfl hsame
  · next hother => exact iff_of_false Bool.false_ne_true hother

/-- What all keys of a map have, and the key that is put, all have afterwards. -/
theorem forall_keys_put_keyAs {P : Key → Prop} (hes : ∀ k ∈ es.keys, P k) (hkey : P key) :
    ∀ k ∈ (es.put (s.keyAs es key) v).keys, P k := by
  intro k hk
  rcases mem_keys_put hk with hk | rfl
  · exact hes k hk
  · rcases s.keyAs_mem_or es key with hmem | hself
    · exact hes _ hmem
    · rwa [hself]

/-- No object is equal to a text. -/
theorem sameKey_object_text (o : ObjectId) (x : String) : s.sameKey (.other (.object o)) (.text x) = false := by
  refine Bool.eq_false_iff.mpr fun hsame => ?_
  rw [sameKey_iff, samePart, if_neg (fun heq => by cases heq)] at hsame
  cases (s.equal_text _ x).symm.trans hsame

/-! ## Comparisons in two stores -/

/-- The objects among some values, and all that is compared of them, are the same in both stores. -/
structure ComparedAlike (s s' : Store) (P : Value → Prop) : Prop where
  essence : ∀ o, P (.object o) → (s'.object o).essence = (s.object o).essence
  parts : ∀ o, P (.object o) → ∀ p ∈ (s.object o).parts, P p

namespace ComparedAlike

variable {P : Value → Prop}

theorem symm (h : s.ComparedAlike s' P) : s'.ComparedAlike s P where
  essence o ho := (h.essence o ho).symm
  parts o ho p hp := by
    rw [← Object.parts_essence, h.essence o ho, Object.parts_essence] at hp
    exact h.parts o ho p hp

theorem refines_equalUpTo (h : s.ComparedAlike s' P) (depth : Nat) (ha : P a) (hb : P b) :
    Refines (s.equalUpTo depth a b) (s'.equalUpTo depth a b) := by
  induction depth generalizing a b with
  | zero => exact .of_error _ _
  | succ depth ih =>
      rw [equalUpTo, equalUpTo]
      cases a with
      | object o =>
          cases b with
          | object p =>
              dsimp only [object?]
              rw [← equalObjects_essence _ (s'.object o), h.essence o ha, h.essence p hb, equalObjects_essence]
              exact .ite (.refl _) <| refines_equalObjects fun c hc d hd =>
                .ite (.refl _) (ih (h.parts o ha c hc) (h.parts p hb d hd))
          | _ => exact .refl _
      | _ => exact .refl _

theorem refines_samePart (h : s.ComparedAlike s' P) (ha : P a) (hb : P b) :
    Refines (s.samePart a b) (s'.samePart a b) := fun r hr =>
  samePart_of_partUpTo (Refines.ite (.refl _) (h.refines_equalUpTo _ ha hb) r (partUpTo_of_samePart hr))

/-- **What is compared in the same way is equal in both stores or in none.** -/
theorem sameKey_eq (h : s.ComparedAlike s' P) (hkey : P key.value) (hk : P k.value) :
    s'.sameKey key k = s.sameKey key k := by
  rw [Bool.eq_iff_iff, sameKey_iff, sameKey_iff]
  exact ⟨h.symm.refines_samePart hkey hk true, h.refines_samePart hkey hk true⟩

theorem keyAs_eq (h : s.ComparedAlike s' P) (hes : ∀ k ∈ es.keys, P k.value) (hkey : P key.value) :
    s'.keyAs es key = s.keyAs es key := by
  have hfind : es.keys.find? (s'.sameKey key) = es.keys.find? (s.sameKey key) :=
    List.find?_congr fun k hk => h.sameKey_eq hkey (hes k hk)
  cases key with
  | other v =>
      cases v with
      | object o => rw [keyAs, keyAs, hfind]
      | _ => rfl
  | _ => rfl

theorem putEach_eq (h : s.ComparedAlike s' P) (hes : ∀ k ∈ es.keys, P k.value) (hnew : ∀ k ∈ new.keys, P k.value) :
    s'.putEach es new = s.putEach es new := by
  induction new generalizing es with
  | nil => rfl
  | cons e new ih =>
      obtain ⟨he, hnew⟩ := List.forall_mem_cons.mp hnew
      rw [putEach_cons, putEach_cons, h.keyAs_eq hes he]
      exact ih (forall_keys_put_keyAs (P := fun k => P k.value) hes he) hnew

end ComparedAlike

/-! ## What can be a key -/

/-- A value that holds nothing that may change, as far as it is compared. -/
inductive Keyable (s : Store) : Value → Prop
  | other {v : Value} : (∀ o, v ≠ .object o) → Keyable s v
  | object {o : ObjectId} : o < s.objects.size → (s.object o).isLasting = true →
      (∀ p ∈ (s.object o).parts, Keyable s p) → Keyable s (.object o)

/-- What can be a key is in a later store what it was. -/
structure Lasts (s s' : Store) : Prop where
  objects : s.objects.size ≤ s'.objects.size
  object : ∀ o < s.objects.size, (s.object o).isLasting = true → (s'.object o).essence = (s.object o).essence

/-- The keys of a map can be keys. -/
def LastingKeys (s : Store) (es : Entries Value) : Prop := ∀ k ∈ es.keys, s.Keyable k.value

theorem keyable_text (s : Store) (x : String) : s.Keyable (Key.text x).value := .other fun _ heq => by cases heq

theorem Keyable.mono (h : s.Keyable v) (hs : s.Lasts s') : s'.Keyable v := by
  induction h with
  | other hnot => exact .other hnot
  | @object o ho hlasting _ ih =>
      have hsame := hs.object o ho hlasting
      refine .object (Nat.lt_of_lt_of_le ho hs.objects) ?_ fun p hp => ?_
      · rwa [← Object.isLasting_essence, hsame, Object.isLasting_essence]
      · rw [← Object.parts_essence, hsame, Object.parts_essence] at hp
        exact ih p hp

theorem exists_partUpTo (ha : s.Keyable a) (hb : s.Keyable b) : ∃ k r, s.partUpTo k a b = .ok r := by
  have hscalar {a b : Value} (h : s.object? a = none ∨ s.object? b = none) : ∃ k r, s.partUpTo k a b = .ok r := by
    by_cases heq : a = b
    · exact ⟨0, true, if_pos heq⟩
    · exact ⟨1, _, (if_neg heq).trans (equalUpTo_scalar h)⟩
  have hnone {v : Value} (hnot : ∀ o, v ≠ .object o) : s.object? v = none := by
    cases v with
    | object o => exact absurd rfl (hnot o)
    | _ => rfl
  induction ha generalizing b with
  | other hnot => exact hscalar (.inl (hnone hnot))
  | @object o _ _ _ ih =>
      cases hb with
      | other hnot => exact hscalar (.inr (hnone hnot))
      | @object p _ _ hparts =>
          by_cases hop : o = p
          · exact ⟨0, true, if_pos (congrArg Value.object hop)⟩
          -- one depth that is enough for all pairs of parts
          have hall : ∀ a ∈ (s.object o).parts, ∃ k, ∀ b ∈ (s.object p).parts, ∃ r, s.partUpTo k a b = .ok r :=
            fun a ha => exists_enough (fun hkl ⟨r, hr⟩ => ⟨r, refines_partUpTo hkl _ _ r hr⟩)
              fun b hb => ih a ha (hparts b hb)
          obtain ⟨k, hk⟩ := exists_enough
            (fun hkl h b hb => (h b hb).imp fun r hr => refines_partUpTo hkl _ _ r hr) hall
          obtain ⟨r, hr⟩ := equalObjects_answers hk
          exact ⟨k + 1, r, (if_neg fun heq => hop (Value.object.inj heq)).trans ((equalUpTo_object hop).trans hr)⟩

/-- **What can be a key is compared to the end.** -/
theorem Keyable.samePart_answers (ha : s.Keyable a) (hb : s.Keyable b) : ∃ r, s.samePart a b = .ok r := by
  obtain ⟨k, r, hr⟩ := exists_partUpTo ha hb
  exact ⟨r, samePart_of_partUpTo hr⟩

namespace Lasts

theorem refl (s : Store) : s.Lasts s := ⟨Nat.le_refl _, fun _ _ _ => rfl⟩

theorem trans (h : s.Lasts s') (h' : s'.Lasts s'') : s.Lasts s'' where
  objects := Nat.le_trans h.objects h'.objects
  object o ho hlasting := by
    have hsame := h.object o ho hlasting
    refine (h'.object o (Nat.lt_of_lt_of_le ho h.objects) ?_).trans hsame
    rwa [← Object.isLasting_essence, hsame, Object.isLasting_essence]

theorem of_extends (h : s.Extends s') : s.Lasts s' :=
  ⟨h.objects, fun o ho _ => congrArg Object.essence (h.object o ho)⟩

/-- An object that could be no key may change, and so may what plays no part in comparisons. -/
theorem updateObject (h : s.Lasts s') (o : ObjectId) {f : Object → Object}
    (hf : (s'.object o).isLasting = true → (f (s'.object o)).essence = (s'.object o).essence) :
    s.Lasts (s'.updateObject o f) := by
  refine h.trans ⟨by rw [Store.updateObject, Array.size_modify], fun p _ hlasting => ?_⟩
  rw [object_updateObject]
  split
  · next hp =>
      obtain ⟨rfl, -⟩ := hp
      exact hf hlasting
  · rfl

theorem comparedAlike (h : s.Lasts s') : s.ComparedAlike s' s.Keyable where
  essence o ho := by
    cases ho with
    | other hnot => exact absurd rfl (hnot o)
    | object ho hlasting _ => exact h.object o ho hlasting
  parts o ho := by
    cases ho with
    | other hnot => exact absurd rfl (hnot o)
    | object _ _ hparts => exact hparts

/-- **Putting entries gives the same map later.** -/
theorem putEach_eq (h : s.Lasts s') (hes : s.LastingKeys es) (hnew : s.LastingKeys new) :
    s'.putEach es new = s.putEach es new :=
  h.comparedAlike.putEach_eq hes hnew

end Lasts

namespace LastingKeys

theorem nil (s : Store) : s.LastingKeys [] := fun _ hk => by cases hk

theorem mono (h : s.LastingKeys es) (hs : s.Lasts s') : s'.LastingKeys es := fun k hk => (h k hk).mono hs

theorem append (h : s.LastingKeys es) (h' : s.LastingKeys fs) : s.LastingKeys (es ++ fs) := by
  intro k hk
  rw [Entries.keys, List.map_append] at hk
  exact (List.mem_append.mp hk).elim (h k) (h' k)

theorem filter (h : s.LastingKeys es) (p : Key × Value → Bool) : s.LastingKeys (es.filter p) := fun k hk =>
  h k ((List.filter_sublist.map Prod.fst).subset hk)

theorem put (h : s.LastingKeys es) (hkey : s.Keyable key.value) (v : Value) :
    s.LastingKeys (es.put (s.keyAs es key) v) :=
  forall_keys_put_keyAs (P := fun k => s.Keyable k.value) h hkey

theorem putEach (h : s.LastingKeys es) (hnew : s.LastingKeys new) : s.LastingKeys (s.putEach es new) := by
  induction new generalizing es with
  | nil => exact h
  | cons e new ih =>
      obtain ⟨he, hnew⟩ := List.forall_mem_cons.mp hnew
      exact ih (h.put he e.2) hnew

theorem of_texts (h : ∀ k ∈ es.keys, k.isText = true) : s.LastingKeys es := fun k hk => by
  obtain ⟨x, rfl⟩ := Key.isText_iff.mp (h k hk)
  exact keyable_text s x

end LastingKeys

theorem putEach_append (s : Store) (es fs gs : Entries Value) :
    s.putEach es (fs ++ gs) = s.putEach (s.putEach es fs) gs := List.foldl_append ..

/-! ## Maps -/

/-- No object among the keys is equal to a key before it. -/
def KeysApart (s : Store) (es : Entries Value) : Prop :=
  es.keys.Pairwise fun k k' => ∀ o, k' = .other (.object o) → s.sameKey k' k = false

/-- A key that is equal to none of the keys counts as itself. -/
theorem keyAs_eq_self (h : ∀ o, key = .other (.object o) → ∀ k ∈ es.keys, s.sameKey key k = false) :
    s.keyAs es key = key := by
  cases key with
  | other v =>
      cases v with
      | object o =>
          have hnone : es.keys.find? (s.sameKey (.other (.object o))) = none :=
            List.find?_eq_none.mpr fun k hk hsame => by rw [h o rfl k hk] at hsame; cases hsame
          rw [keyAs, hnone, Option.getD_none]
      | _ => rfl
  | _ => rfl

/-- A key that counts as none of the keys is equal to none of them. -/
theorem sameKey_of_keyAs_notMem (h : s.keyAs es key ∉ es.keys) (o : ObjectId) (hkey : key = .other (.object o)) :
    ∀ k ∈ es.keys, s.sameKey key k = false := by
  subst hkey
  rw [keyAs] at h
  cases hfound : es.keys.find? (s.sameKey (.other (.object o))) with
  | some k =>
      rw [hfound] at h
      exact absurd (List.mem_of_find?_eq_some hfound) h
  | none => exact fun k hk => Bool.eq_false_iff.mpr (List.find?_eq_none.mp hfound k hk)

/-- **Entries whose keys are apart are put under their own keys.** -/
theorem putEach_eq_putAll (h : s.KeysApart (es ++ new)) : s.putEach es new = es.putAll new := by
  induction new generalizing es with
  | nil => rfl
  | cons e new ih =>
      have hself : s.keyAs es e.1 = e.1 := by
        refine keyAs_eq_self fun o ho k hk => ?_
        rw [KeysApart, Entries.keys, List.map_append] at h
        exact (List.pairwise_append.mp h).2.2 k hk e.1 (List.mem_cons_self ..) o ho
      rw [putEach_cons, hself, Entries.putAll_cons]
      refine ih (h.sublist ?_)
      -- the key is there already, or it comes to the end
      rw [Entries.keys, List.map_append, Entries.keys, List.map_append, List.map_cons, ← Entries.keys,
        Entries.keys_put]
      split
      · exact (List.Sublist.refl _).append (List.sublist_cons_self ..)
      · rw [List.append_assoc]
        exact List.Sublist.refl _

/-- The entries are those of a map: the keys stand for their values, they can be keys, and no two are one key. -/
structure IsMap (s : Store) (es : Entries Value) : Prop extends Entries.Regular es where
  lasting : s.LastingKeys es
  apart : s.KeysApart es

namespace IsMap

/-- Texts are keys of a map if they are different. -/
theorem of_texts (h : ∀ k ∈ es.keys, k.isText = true) (hdistinct : (es.keys.map Key.counted).Nodup) : s.IsMap es where
  keyed e he := by
    obtain ⟨x, hx⟩ := Key.isText_iff.mp (h e.1 (List.mem_map_of_mem he))
    rw [hx]
    rfl
  distinct := hdistinct
  lasting := .of_texts h
  apart := List.pairwise_of_forall_mem_list fun _ _ k' hk' o ho => by
    rw [ho] at hk'
    cases h _ hk'

theorem nil (s : Store) : s.IsMap [] := ⟨.nil, .nil s, List.Pairwise.nil⟩

/-- Texts may come before the keys of a map, if they are different from them. -/
theorem append_texts (h : s.IsMap es) (htexts : s.IsMap fs) (hfs : ∀ k ∈ fs.keys, k.isText = true)
    (hdistinct : ((Entries.keys (fs ++ es)).map Key.counted).Nodup) : s.IsMap (fs ++ es) where
  keyed e he := (List.mem_append.mp he).elim (htexts.keyed e) (h.keyed e)
  distinct := hdistinct
  lasting := htexts.lasting.append h.lasting
  apart := by
    rw [KeysApart, Entries.keys, List.map_append]
    refine List.pairwise_append.mpr ⟨htexts.apart, h.apart, fun k hk k' _ o ho => ?_⟩
    obtain ⟨x, rfl⟩ := Key.isText_iff.mp (hfs k hk)
    rw [ho, sameKey_object_text]

theorem mono (h : s.IsMap es) (hs : s.Lasts s') : s'.IsMap es where
  toRegular := h.toRegular
  lasting := h.lasting.mono hs
  apart := by
    refine h.apart.imp_of_mem fun {k k'} hk hk' hapart o ho => ?_
    rw [hs.comparedAlike.sameKey_eq (h.lasting k' hk') (h.lasting k hk)]
    exact hapart o ho

/-- **Putting an entry keeps the keys apart.** -/
theorem put (h : s.IsMap es) (hkeyed : key = .ofValue key.value) (hkey : s.Keyable key.value) (v : Value) :
    s.IsMap (es.put (s.keyAs es key) v) where
  toRegular := h.toRegular.put (h.keyed.keyAs s hkeyed)
  lasting := h.lasting.put hkey v
  apart := by
    rw [KeysApart, Entries.keys_put]
    split
    · exact h.apart
    · next hfound =>
        have hnot : s.keyAs es key ∉ es.keys := fun hmem =>
          Entries.counted_ne_of_find?_eq_none (by simpa using hfound) hmem rfl
        have hself : s.keyAs es key = key := (s.keyAs_mem_or es key).resolve_left hnot
        refine List.pairwise_append.mpr ⟨h.apart, List.pairwise_singleton .., fun k hk k' hk' o ho => ?_⟩
        rw [List.mem_singleton.mp hk', hself] at ho ⊢
        exact sameKey_of_keyAs_notMem hnot o ho k hk

/-- A map is what is put into an empty one. -/
theorem putEach_nil_self (h : s.IsMap es) : s.putEach [] es = Entries.putAll [] es := putEach_eq_putAll h.apart

end IsMap

end Store
end SyntaxTree
