import SyntaxTree.Proofs.Attributes

/-!
# `Proofs.MapEquality` — what is equal when maps are

Keys are compared when maps are, and that may be any comparison. Of two things only is it known beforehand how it ends:
a text is equal to no other value, and a key is the same as itself.

So what stands under a text in one of two equal maps is equal to what stands under it in the other
(`EndsEqual.find?_text`), where no two keys of a map are equal to one thing (`SeparateKeys`). The other way round, maps
with the same keys are equal if their values are (`endsEqual_maps`), since in a map each key turns out to be different
from the keys before it (`IsMap.differing`).
-/

namespace SyntaxTree

/-! ## Finding in maps -/

namespace Entries

variable {α : Type} {es fs : Entries α} {key : Key} {a b : α}

theorem find?_congr {k : Key} (h : k.counted = key.counted) : es.find? k = es.find? key := by
  induction es with
  | nil => rfl
  | cons e es ih => rw [find?, find?, h, ih]

theorem find?_eq_none (h : ∀ k ∈ es.keys, k.counted ≠ key.counted) : es.find? key = none := by
  induction es with
  | nil => rfl
  | cons e es ih =>
      obtain ⟨hfirst, hrest⟩ := List.forall_mem_cons.mp h
      rw [find?, if_neg hfirst, ih hrest]

/-- What has been put last is found, if there is anything under the key, and else what was there before. -/
theorem find?_putAll (h : (fs.keys.map Key.counted).Nodup) (key : Key) :
    (es.putAll fs).find? key = (fs.find? key).or (es.find? key) := by
  induction fs generalizing es with
  | nil => rfl
  | cons f fs ih =>
      obtain ⟨hnot, hrest⟩ := List.nodup_cons.mp h
      rw [putAll_cons, ih hrest, Entries.find?]
      split
      · next hsame =>
          have hnone : Entries.find? fs key = none := find?_eq_none fun k hk hcounted =>
            hnot (List.mem_map.mpr ⟨k, hk, hcounted.trans hsame.symm⟩)
          rw [hnone, ← find?_congr hsame, find?_put_self]
          rfl
      · next hother => rw [find?_put_of_ne _ _ (Ne.symm hother)]

/-- An entry is found under its key. -/
theorem find?_of_mem (h : (es.keys.map Key.counted).Nodup) (hmem : (key, a) ∈ es) : es.find? key = some a := by
  induction es with
  | nil => cases hmem
  | cons e es ih =>
      obtain ⟨hnot, hrest⟩ := List.nodup_cons.mp h
      rcases List.mem_cons.mp hmem with rfl | hmem
      · rw [find?, if_pos rfl]
      · rw [find?, if_neg fun hsame => hnot (List.mem_map.mpr ⟨key, List.mem_map_of_mem hmem, hsame.symm⟩)]
        exact ih hrest hmem

/-- A key that stands for a text is that text. -/
theorem Keyed.eq_text {es : Entries Value} (h : es.Keyed) {k : Key} (hkey : k ∈ es.keys) {x : String}
    (hvalue : k.value = .text x) : k = .text x := by
  rw [h.of_mem_keys hkey, hvalue]
  rfl

/-- What is found under a text is an entry with this key: nothing else counts as a text. -/
theorem mem_of_find?_text {x : String} (h : es.find? (.text x) = some a) : (.text x, a) ∈ es := by
  induction es with
  | nil => cases h
  | cons e es ih =>
      obtain ⟨k, b⟩ := e
      rw [find?] at h
      split at h
      · next hsame =>
          cases h
          rw [Store.eq_text_of_counted hsame]
          exact List.mem_cons_self ..
      · exact List.mem_cons_of_mem _ (ih h)

theorem put_of_find?_eq_none (h : es.find? key = none) : es.put key a = es ++ [(key, a)] := by
  induction es with
  | nil => rfl
  | cons e es ih =>
      rw [find?] at h
      split at h
      · cases h
      · next hne => rw [put, if_neg hne, ih h, List.cons_append]

theorem put_append_self (h : es.find? key = none) : (es ++ [(key, a)]).put key b = es ++ [(key, b)] := by
  induction es with
  | nil => exact if_pos rfl
  | cons e es ih =>
      rw [find?] at h
      split at h
      · cases h
      · next hne => rw [List.cons_append, put, if_neg hne, ih h, List.cons_append]

/-- Where no key counts as another, all of the one map comes after all of the other. -/
theorem putAll_eq_append (h : (Entries.keys (es ++ fs)).map Key.counted |>.Nodup) : es.putAll fs = es ++ fs := by
  induction fs generalizing es with
  | nil => rw [putAll_nil, List.append_nil]
  | cons f fs ih =>
      have hnone : es.find? f.1 = none := by
        refine find?_eq_none fun k hk hcounted => ?_
        rw [keys, List.map_append, List.map_append, List.nodup_append] at h
        exact h.2.2 _ (List.mem_map_of_mem hk) _ (List.mem_map_of_mem (List.mem_cons_self ..)) hcounted
      rw [putAll_cons, put_of_find?_eq_none hnone, ih (by rwa [List.append_assoc]), List.append_assoc]
      rfl

end Entries

namespace Store

variable {s : Store} {v w : Value} {es fs : Entries Value} {key : Key} {o p : ObjectId}

/-! ## Comparisons -/

theorem endsEqual_samePart (h : s.EndsEqual v w) : s.samePart v w = .ok true := by
  obtain ⟨depth, h⟩ := h
  exact samePart_of_partUpTo h

theorem endsEqual_of_equal (h : s.equal v w = .ok true) : s.EndsEqual v w := by
  refine ⟨_, partUpTo_of_samePart ?_⟩
  rw [samePart]
  split
  · rfl
  · exact h

theorem EndsEqual.refl (s : Store) (v : Value) : s.EndsEqual v v := ⟨0, partUpTo_self s 0 v⟩

/-- Only the same text is equal to a text. -/
theorem endsEqual_text {x : String} : s.EndsEqual v (.text x) ↔ v = .text x := by
  refine ⟨fun ⟨depth, h⟩ => ?_, fun h => h ▸ .refl s _⟩
  rw [partUpTo] at h
  split at h
  · assumption
  · cases depth with
    | zero => cases h
    | succ depth =>
        rw [equalUpTo_scalar (Or.inr rfl), Value.equalScalar_text] at h
        exact beq_iff_eq.mp (Except.ok.inj h)

theorem text_endsEqual {x : String} : s.EndsEqual (.text x) v ↔ v = .text x := by
  refine ⟨fun ⟨depth, h⟩ => ?_, fun h => h ▸ .refl s _⟩
  rw [partUpTo] at h
  split at h
  · next hsame => exact hsame.symm
  · cases depth with
    | zero => cases h
    | succ depth =>
        rw [equalUpTo_scalar (Or.inl rfl), Value.text_equalScalar] at h
        exact beq_iff_eq.mp (Except.ok.inj h)

/-- Of different objects that are equal the parts are equal at some depth. -/
theorem EndsEqual.objects (h : s.EndsEqual (.object o) (.object p)) (hne : o ≠ p) :
    ∃ depth, equalObjects (s.partUpTo depth) (s.object o) (s.object p) = .ok true := by
  obtain ⟨depth, h⟩ := h
  rw [partUpTo, if_neg fun heq => hne (Value.object.inj heq)] at h
  cases depth with
  | zero => cases h
  | succ depth => exact ⟨depth, by rwa [equalUpTo_object hne] at h⟩

/-- Where lists are found to be equal, so are their members one by one. -/
theorem forall₂_of_equalLists {eq : Value → Value → Except Fault Bool} {vs ws : List Value}
    (h : equalLists eq vs ws = .ok true) : List.Forall₂ (fun v w => eq v w = .ok true) vs ws := by
  induction vs generalizing ws with
  | nil =>
      cases ws with
      | nil => exact .nil
      | cons w ws => cases h
  | cons v vs ih =>
      cases ws with
      | nil => cases h
      | cons w ws =>
          rw [equalLists] at h
          obtain ⟨r, hfirst, h⟩ := exists_of_bind_ok h
          cases r with
          | false => cases h
          | true => exact .cons hfirst (ih h)

/-- Equal lists have members that are equal one by one. -/
theorem EndsEqual.lists {vs ws : List Value} (h : s.EndsEqual (.object o) (.object p))
    (ho : s.object o = .collection .list vs) (hp : s.object p = .collection .list ws) :
    List.Forall₂ s.EndsEqual vs ws := by
  by_cases hop : o = p
  · subst hop
    cases ho.symm.trans hp
    exact List.forall₂_same.mpr fun v _ => .refl s v
  · obtain ⟨depth, heq⟩ := h.objects hop
    rw [ho, hp, equalObjects] at heq
    split at heq
    · exact (forall₂_of_equalLists heq).imp fun v w hvw => ⟨depth, hvw⟩
    · cases heq

/-- Where maps are equal, each entry of the one has an equal one in the other. -/
theorem exists_of_entriesEqualIn {eq : Value → Value → Except Fault Bool}
    (h : entriesEqualIn eq fs es = .ok true) :
    ∀ e ∈ es, ∃ f ∈ fs, eq e.1.value f.1.value = .ok true ∧ eq e.2 f.2 = .ok true := by
  induction es with
  | nil => exact fun e he => by cases he
  | cons e es ih =>
      rw [entriesEqualIn] at h
      obtain ⟨found, hunder, h⟩ := exists_of_bind_ok h
      cases found with
      | none => cases h
      | some b =>
          obtain ⟨r, hvalue, hrest⟩ := exists_of_bind_ok h
          cases r with
          | false => cases hrest
          | true =>
              obtain ⟨f, hf, hkey, rfl⟩ := mem_of_valueUnder hunder
              exact List.forall_mem_cons.mpr ⟨⟨f, hf, hkey, hvalue⟩, ih hrest⟩

/-- No two keys are equal to one thing. A map has one entry for keys that are equal, so what this asks is no more than
that two things which are equal to a third are equal. -/
def SeparateKeys (s : Store) (es : Entries Value) : Prop :=
  ∀ k ∈ es.keys, ∀ k' ∈ es.keys, ∀ v, s.EndsEqual k.value v → s.EndsEqual k'.value v → k = k'

/-- Texts do not get in the way of other keys. -/
theorem SeparateKeys.of_texts (h : s.SeparateKeys fs) (hfs : fs.Keyed)
    (hkeys : ∀ k ∈ es.keys, k ∈ fs.keys ∨ ∃ x, k = .text x) : s.SeparateKeys es := by
  have htext {x : String} {k' : Key} (hk' : k' ∈ es.keys) (hvalue : k'.value = .text x) : k' = .text x := by
    rcases hkeys k' hk' with hk' | ⟨y, rfl⟩
    · exact hfs.eq_text hk' hvalue
    · exact congrArg Key.text (Value.text.inj hvalue)
  intro k hk k' hk' v hv hv'
  rcases hkeys k hk with hold | ⟨x, rfl⟩
  · rcases hkeys k' hk' with hold' | ⟨x, rfl⟩
    · exact h k hold k' hold' v hv hv'
    · rw [text_endsEqual.mp hv', endsEqual_text] at hv
      exact htext hk hv
  · rw [text_endsEqual.mp hv, endsEqual_text] at hv'
    exact (htext hk' hv').symm

theorem exists_forall₂ {α β : Type} {R : α → β → Prop} {as : List α} (h : ∀ a ∈ as, ∃ b, R a b) :
    ∃ bs, List.Forall₂ R as bs := by
  induction as with
  | nil => exact ⟨[], .nil⟩
  | cons a as ih =>
      obtain ⟨⟨b, hb⟩, hrest⟩ := List.forall_mem_cons.mp h
      obtain ⟨bs, hbs⟩ := ih hrest
      exact ⟨b :: bs, .cons hb hbs⟩

/-- Where entries correspond to entries of a map that has no more of them, each entry of that map corresponds to one.
Different keys cannot have one correspondent, so none is left over. -/
theorem exists_correspondent (hes : es.Regular) (hseparate : s.SeparateKeys es) (hlength : es.length = fs.length)
    (h : ∀ e ∈ es, ∃ f ∈ fs, s.EndsEqual e.1.value f.1.value) :
    ∀ f ∈ fs, ∃ e ∈ es, s.EndsEqual e.1.value f.1.value := by
  obtain ⟨gs, hgs⟩ := exists_forall₂ h
  have hsub : gs ⊆ fs := fun g hg => by
    obtain ⟨e, -, hmem, -⟩ := exists_of_forall₂ hgs.flip hg
    exact hmem
  have hnodup : gs.Nodup := by
    have hpairwise : es.Pairwise fun e e' => e.1 ≠ e'.1 := by
      have hdistinct := hes.distinct
      rw [Entries.keys, List.map_map] at hdistinct
      exact (List.pairwise_map.mp hdistinct).imp fun hne heq => hne (congrArg Key.counted heq)
    clear h hsub hlength
    induction hgs with
    | nil => exact List.nodup_nil
    | @cons e g es gs heg hrest ih =>
        obtain ⟨hfirst, hpairwise⟩ := List.pairwise_cons.mp hpairwise
        have hkey {k : Key} (hk : k ∈ Entries.keys es) : k ∈ Entries.keys (e :: es) := List.mem_cons_of_mem _ hk
        refine List.nodup_cons.mpr ⟨fun hmem => ?_, ih ?_ ?_ hpairwise⟩
        · obtain ⟨e', he', -, heq⟩ := exists_of_forall₂ hrest.flip hmem
          exact hfirst e' he' (hseparate e.1 (List.mem_cons_self ..) e'.1 (hkey (List.mem_map_of_mem he')) _ heg.2 heq)
        · exact ⟨fun e he => hes.keyed e (List.mem_cons_of_mem _ he), (List.nodup_cons.mp hes.distinct).2⟩
        · exact fun k hk k' hk' => hseparate k (hkey hk) k' (hkey hk')
  have hperm := (List.subperm_of_subset hnodup hsub).perm_of_length_le (by rw [← hgs.length_eq, hlength])
  intro f hf
  obtain ⟨e, he, -, heq⟩ := exists_of_forall₂ hgs.flip (hperm.mem_iff.mpr hf)
  exact ⟨e, he, heq⟩

/-- **Equal maps have equal values under a text**, or neither has one. -/
theorem EndsEqual.find?_text (h : s.EndsEqual (.object o) (.object p)) (ho : s.object o = .map es)
    (hp : s.object p = .map fs) (hes : es.Regular) (hfs : fs.Regular) (hseparate : s.SeparateKeys es) (x : String) :
    Option.Rel s.EndsEqual (es.find? (.text x)) (fs.find? (.text x)) := by
  by_cases hop : o = p
  · subst hop
    cases ho.symm.trans hp
    cases es.find? (.text x) with
    | none => exact .none
    | some a => exact .some (.refl s a)
  obtain ⟨depth, heq⟩ := h.objects hop
  rw [ho, hp, equalObjects] at heq
  split at heq
  · next hlength =>
      have hentries := exists_of_entriesEqualIn heq
      cases ha : es.find? (.text x) with
      | some a =>
          obtain ⟨⟨k, b⟩, hf, hkey, hvalue⟩ := hentries _ (Entries.mem_of_find?_text ha)
          have hk : k = .text x := hfs.keyed.eq_text (List.mem_map_of_mem hf) (text_endsEqual.mp ⟨depth, hkey⟩)
          rw [Entries.find?_of_mem hfs.distinct (hk ▸ hf)]
          exact .some ⟨depth, hvalue⟩
      | none =>
          cases hb : fs.find? (.text x) with
          | none => exact .none
          | some b =>
              have hkeys : ∀ e ∈ es, ∃ f ∈ fs, s.EndsEqual e.1.value f.1.value := fun e he => by
                obtain ⟨f, hf, hkey, -⟩ := hentries e he
                exact ⟨f, hf, depth, hkey⟩
              obtain ⟨⟨k, a⟩, he, hkey⟩ :=
                exists_correspondent hes hseparate hlength hkeys _ (Entries.mem_of_find?_text hb)
              have hk : k = .text x := hes.keyed.eq_text (List.mem_map_of_mem he) (endsEqual_text.mp hkey)
              rw [Entries.find?_of_mem hes.distinct (hk ▸ he)] at ha
              cases ha
  · cases heq

/-! ## Maps with the same keys -/

/-- No key is equal to one before it. -/
def Differing (eq : Value → Value → Except Fault Bool) (es : Entries Value) : Prop :=
  es.keys.Pairwise fun k k' => eq k'.value k.value = .ok false

/-- Scalars that are equal are the same, or they are equal to one integer. -/
theorem eq_or_toInt?_of_equalScalar (h : v.equalScalar w = true) :
    v = w ∨ ∃ i, v.toInt? = some i ∧ w.toInt? = some i := by
  unfold Value.equalScalar at h
  split at h
  · next x y =>
      cases x with
      | nan mark => cases h
      | infinite negative =>
          rcases Bool.or_eq_true_iff.mp h with heq | hzero
          · exact .inl (congrArg Value.float (of_decide_eq_true heq))
          · cases hzero
      | finite negative m e =>
          rcases Bool.or_eq_true_iff.mp h with heq | hzero
          · exact .inl (congrArg Value.float (of_decide_eq_true heq))
          · obtain ⟨hx, hy⟩ := Bool.and_eq_true_iff.mp hzero
            have hint {z : Binary64} (hz : z.isZero = true) : z.toInt? = some 0 := by
              unfold Binary64.isZero at hz
              split at hz
              · simp [Binary64.toInt?, Binary64.signed]
              · cases hz
            exact .inr ⟨0, hint hx, hint hy⟩
  · split at h
    · next i j hv hw =>
        obtain rfl := beq_iff_eq.mp h
        exact .inr ⟨i, hv, hw⟩
    · exact .inl (of_decide_eq_true h)
    · cases h

theorem counted_ofValue (v : Value) : (Key.ofValue v).counted = v.toInt?.elim (.ofValue v) .int := by cases v <;> rfl

/-- Scalars that are equal count as one key. -/
theorem counted_eq_of_equalScalar {k : Key} (hkey : key = .ofValue key.value) (hk : k = .ofValue k.value)
    (h : key.value.equalScalar k.value = true) : key.counted = k.counted := by
  rw [hkey, hk, counted_ofValue, counted_ofValue]
  rcases eq_or_toInt?_of_equalScalar h with heq | ⟨i, hi, hi'⟩
  · rw [heq]
  · rw [hi, hi']
    rfl

/-- **In a map no key is equal to one before it**, and comparing them comes to an end. -/
theorem IsMap.differing (h : s.IsMap es) : Differing s.samePart es := by
  have hdistinct : es.keys.Pairwise fun k k' => k.counted ≠ k'.counted := List.pairwise_map.mp h.distinct
  refine (h.apart.and hdistinct).imp_of_mem fun {k k'} hk hk' ⟨hapart, hne⟩ => ?_
  obtain ⟨r, hr⟩ := (h.lasting k' hk').samePart_answers (h.lasting k hk)
  cases r with
  | false => exact hr
  | true =>
      have hkeyed := h.keyed.of_mem_keys hk
      have hkeyed' := h.keyed.of_mem_keys hk'
      exfalso
      cases hobject : s.object? k'.value with
      | some x =>
          obtain ⟨o, ho⟩ : ∃ o, k'.value = .object o := by
            cases hvalue : k'.value with
            | object o => exact ⟨o, rfl⟩
            | _ => rw [hvalue] at hobject; cases hobject
          have hother := hapart o (by rw [hkeyed', ho]; rfl)
          rw [sameKey_iff.mpr hr] at hother
          cases hother
      | none =>
          have hpart := partUpTo_of_samePart hr
          rw [partUpTo] at hpart
          split at hpart
          · next hvalue => exact hne (by rw [hkeyed, hkeyed', hvalue])
          · rw [equalUpTo_scalar (.inl hobject)] at hpart
            exact hne (counted_eq_of_equalScalar hkeyed' hkeyed (Except.ok.inj hpart)).symm

/-- What is under a key is found behind keys that differ. -/
theorem valueUnder_of_differing {eq : Value → Value → Except Fault Bool} {before after : Entries Value}
    (hself : eq key.value key.value = .ok true) (hbefore : ∀ e ∈ before, eq key.value e.1.value = .ok false) :
    valueUnder eq key.value (before ++ (key, v) :: after) = .ok (some v) := by
  induction before with
  | nil =>
      rw [List.nil_append, valueUnder, bind_ok hself]
      rfl
  | cons e before ih =>
      obtain ⟨hfirst, hbefore⟩ := List.forall_mem_cons.mp hbefore
      rw [List.cons_append, valueUnder, bind_ok hfirst]
      exact ih hbefore

/-- **Maps with the same keys are equal if their values are.** -/
theorem entriesEqualIn_of_keys {eq : Value → Value → Except Fault Bool} (hself : ∀ v, eq v v = .ok true)
    {before : Entries Value} (h : List.Forall₂ (fun e f => f.1 = e.1 ∧ eq e.2 f.2 = .ok true) es fs)
    (hdiffering : Differing eq (before ++ es)) : entriesEqualIn eq (before ++ fs) es = .ok true := by
  induction h generalizing before with
  | nil => rfl
  | @cons e f es fs hef _ ih =>
      obtain ⟨key, w⟩ := f
      obtain ⟨rfl, hvalue⟩ := hef
      have hbefore : ∀ b ∈ before, eq e.1.value b.1.value = .ok false := fun b hb => by
        rw [Differing, Entries.keys, List.map_append, List.pairwise_append] at hdiffering
        exact hdiffering.2.2 b.1 (List.mem_map_of_mem hb) e.1 (List.mem_cons_self ..)
      have hmoved : entriesEqualIn eq (before ++ [(e.1, w)] ++ fs) es = .ok true := by
        refine ih ?_
        rwa [Differing, show Entries.keys (before ++ [(e.1, w)] ++ es) = Entries.keys (before ++ e :: es) by
          simp [Entries.keys]]
      rw [entriesEqualIn, bind_ok (valueUnder_of_differing (hself _) hbefore)]
      dsimp only
      rw [bind_ok hvalue]
      rwa [List.append_assoc] at hmoved

theorem endsEqual_maps {p : ObjectId} (ho : s.object o = .map es) (hp : s.object p = .map fs)
    (h : List.Forall₂ (fun e f => f.1 = e.1 ∧ s.EndsEqual e.2 f.2) es fs) (hdiffering : Differing s.samePart es) :
    s.EndsEqual (.object o) (.object p) := by
  -- one depth that is enough for all values, and for the keys too
  obtain ⟨depth, hvalues⟩ : ∃ depth, ∀ k ≥ depth,
      List.Forall₂ (fun e f => f.1 = e.1 ∧ s.partUpTo k e.2 f.2 = .ok true) es fs := by
    clear hdiffering ho hp
    induction h with
    | nil => exact ⟨0, fun _ _ => .nil⟩
    | cons hef _ ih =>
        obtain ⟨first, hfirst⟩ := hef.2
        obtain ⟨rest, hrest⟩ := ih
        refine ⟨max first rest, fun k hk => ?_⟩
        obtain ⟨hk, hk'⟩ := max_le_iff.mp hk
        exact .cons ⟨hef.1, refines_partUpTo hk _ _ _ hfirst⟩ (hrest k hk')
  let k := max depth (s.objects.size * s.objects.size + 1)
  have hkeys : Differing (s.partUpTo k) es :=
    hdiffering.imp fun h => refines_partUpTo (Nat.le_max_right _ _) _ _ _ (partUpTo_of_samePart h)
  have hentries : entriesEqualIn (s.partUpTo k) ([] ++ fs) es = .ok true :=
    entriesEqualIn_of_keys (partUpTo_self s k) (hvalues k (Nat.le_max_left _ _)) hkeys
  refine endsEqual_objects ⟨k, ?_⟩
  rw [ho, hp, equalObjects, if_pos h.length_eq]
  exact hentries

end Store
end SyntaxTree
