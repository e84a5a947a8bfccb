import Mathlib.Data.List.Forall2
import SyntaxTree.Proofs.Comparison
import SyntaxTree.Proofs.Copies

/-!
# `Proofs.Contents` — plain data and its equality

Plain data is what is equal to whatever has the same contents: scalars, and collections, maps and immutable
records of plain data. Its contents are a tree (`Content`), and `Denotes` says which tree a value stands for.
Trackers, nodes and objects from elsewhere are equal to themselves only and have no contents in this sense;
neither has what holds itself.

Whether two trees are the same (`Content.same`) is what the comparison of two values answers that stand for
them (`partUpTo_denotes`). So values with the same contents are equal, where the keys of every map are
different from each other (`samePart_of_denotes`).
-/

namespace SyntaxTree

/-! ## Contents as trees -/

/-- What an object is besides what stands in it. -/
inductive Label
  | collection (shape : Shape)
  | map
  | location
  | position
  | matcher (kind : MatcherKind)
  /-- An operation that belongs to a class. -/
  | operation (name : String)
deriving DecidableEq, Repr

namespace Label

/-- Whether two labels can be those of equal things: sets of either shape can. -/
def comparable : Label → Label → Bool
  | .collection .set, .collection .frozenSet | .collection .frozenSet, .collection .set => true
  | l, m => l = m

theorem comparable_self (l : Label) : l.comparable l = true := by
  cases l with
  | collection shape => cases shape <;> rfl
  | _ => simp [comparable]

end Label

/-- Contents written out: a value that stands for itself, or a label and the contents of the parts. An entry
of a map has two parts, its value and its key. -/
inductive Content
  | atom (v : Value)
  | parts (label : Label) (cs : List Content)

namespace Content

/-- Induction over the parts of contents. -/
@[induction_eliminator]
theorem induct {motive : Content → Prop} (atom : ∀ v, motive (.atom v))
    (parts : ∀ l cs, (∀ c ∈ cs, motive c) → motive (.parts l cs)) : ∀ t, motive t
  | .atom v => atom v
  | .parts l cs => parts l cs fun c _ => induct atom parts c

/-- The value under the first key that passes a test, in the parts of a map. -/
def under (test : Content → Bool) : List Content → Option Content
  | a :: k :: cs => if test k then some a else under test cs
  | _ => none

/-- The keys among the parts of a map. -/
def keysOf : List Content → List Content
  | _ :: k :: cs => k :: keysOf cs
  | _ => []

mutual

/-- Whether two contents count as one. -/
def same : Content → Content → Bool
  | .atom a, .atom b => a = b || a.equalScalar b
  | .parts l cs, .parts m ds =>
    l.comparable m &&
      match l with
      | .collection .set | .collection .frozenSet => cs.length == ds.length && allIn cs ds
      | .map => cs.length == ds.length && entriesIn cs ds
      | _ => oneByOne cs ds
  | _, _ => false

/-- Whether parts are the same one by one. -/
def oneByOne : List Content → List Content → Bool
  | [], [] => true
  | c :: cs, d :: ds => c.same d && oneByOne cs ds
  | _, _ => false

/-- Whether each part is the same as one of `ds`. -/
def allIn : List Content → List Content → Bool
  | [], _ => true
  | c :: cs, ds => (ds.any fun d => c.same d) && allIn cs ds

/-- Whether each entry has the same value as the first entry of `ds` with the same key. -/
def entriesIn : List Content → List Content → Bool
  | a :: k :: cs, ds => ((under (fun d => k.same d) ds).any fun d => a.same d) && entriesIn cs ds
  | _, _ => true

end

/-- No map in the contents has the same key twice. -/
inductive Proper : Content → Prop
  | atom (v : Value) : Proper (.atom v)
  | parts {l : Label} {cs : List Content} :
    (l = .map → (keysOf cs).Pairwise fun k k' => k'.same k = false) → (∀ c ∈ cs, Proper c) →
      Proper (.parts l cs)

/-! ## Contents are the same as themselves -/

theorem allIn_of_mem {cs ds : List Content} (h : ∀ c ∈ cs, c ∈ ds ∧ c.same c = true) : allIn cs ds = true := by
  induction cs with
  | nil => rw [allIn]
  | cons c cs ih =>
      obtain ⟨hmem, hself⟩ := h c (List.mem_cons_self ..)
      rw [allIn, ih fun c' hc' => h c' (List.mem_cons_of_mem _ hc'), Bool.and_true, List.any_eq_true]
      exact ⟨c, hmem, hself⟩

theorem oneByOne_self {cs : List Content} (h : ∀ c ∈ cs, c.same c = true) : oneByOne cs cs = true := by
  induction cs with
  | nil => rw [oneByOne]
  | cons c cs ih =>
      rw [oneByOne, h c (List.mem_cons_self ..), ih fun c' hc' => h c' (List.mem_cons_of_mem _ hc')]
      rfl

/-- Entries whose keys do not pass the test are passed by. -/
theorem under_append {test : Content → Bool} :
    ∀ {cs : List Content} (ds : List Content), cs.length % 2 = 0 → (∀ k ∈ keysOf cs, test k = false) →
      under test (cs ++ ds) = under test ds
  | [], _, _, _ => rfl
  | [_], _, hlength, _ => by cases hlength
  | a :: k :: cs, ds, hlength, hkeys => by
      have hlength' : cs.length % 2 = 0 := by
        rw [List.length_cons, List.length_cons] at hlength
        omega
      rw [List.cons_append, List.cons_append, under, hkeys k (List.mem_cons_self ..)]
      exact under_append ds hlength' fun k' hk' => hkeys k' (List.mem_cons_of_mem _ hk')

theorem keysOf_append :
    ∀ {cs : List Content} (ds : List Content), cs.length % 2 = 0 → keysOf (cs ++ ds) = keysOf cs ++ keysOf ds
  | [], _, _ => rfl
  | [_], _, hlength => by cases hlength
  | a :: k :: cs, ds, hlength => by
      have hlength' : cs.length % 2 = 0 := by
        rw [List.length_cons, List.length_cons] at hlength
        omega
      rw [List.cons_append, List.cons_append, keysOf, keysOf, keysOf_append ds hlength', List.cons_append]

/-- Every entry is found under its key, since no entry before it has the same one. -/
theorem entriesIn_append :
    ∀ {before cs : List Content}, before.length % 2 = 0 →
      (keysOf (before ++ cs)).Pairwise (fun k k' => k'.same k = false) → (∀ c ∈ cs, c.same c = true) →
        entriesIn cs (before ++ cs) = true
  | _, [], _, _, _ => by simp [entriesIn]
  | _, [_], _, _, _ => by simp [entriesIn]
  | before, a :: k :: cs, hlength, hkeys, hself => by
      have hother : ∀ k' ∈ keysOf before, k.same k' = false := by
        intro k' hk'
        rw [keysOf_append _ hlength] at hkeys
        exact (List.pairwise_append.mp hkeys).2.2 k' hk' k (List.mem_cons_self ..)
      have hfound : under (fun d => k.same d) (before ++ a :: k :: cs) = some a := by
        rw [under_append _ hlength hother, under, hself k (by simp)]
        rfl
      have hmoved : before ++ a :: k :: cs = (before ++ [a, k]) ++ cs := by simp
      have hlength' : (before ++ [a, k]).length % 2 = 0 := by
        rw [List.length_append, List.length_cons, List.length_singleton]
        omega
      have hrest : entriesIn cs (before ++ a :: k :: cs) = true := by
        rw [hmoved]
        exact entriesIn_append hlength' (hmoved ▸ hkeys) fun c hc => hself c (by simp [hc])
      rw [entriesIn, hfound, hrest, Option.any_some, hself a (by simp)]
      rfl

/-- **Contents are the same as themselves.** -/
theorem Proper.same_self {t : Content} (h : t.Proper) : t.same t = true := by
  induction h with
  | atom v => simp [same]
  | @parts l cs hkeys _ ih =>
      have hall : allIn cs cs = true := allIn_of_mem fun c hc => ⟨hc, ih c hc⟩
      unfold same
      rw [Label.comparable_self, Bool.true_and]
      split
      · rw [beq_self_eq_true, hall]
        rfl
      · rw [beq_self_eq_true, hall]
        rfl
      · have hentries : entriesIn cs ([] ++ cs) = true := entriesIn_append rfl (hkeys rfl) ih
        rw [beq_self_eq_true, Bool.true_and]
        exact hentries
      · exact oneByOne_self ih

end Content

/-- Every key of the map is the one that its value is. -/
def Entries.Keyed (es : Entries Value) : Prop := ∀ e ∈ es, e.1 = .ofValue e.1.value

instance (es : Entries Value) : Decidable es.Keyed :=
  inferInstanceAs (Decidable (∀ e ∈ es, e.1 = Key.ofValue e.1.value))

/-- The label of an object whose equality is that of its contents. -/
def Object.label? : Object → Option Label
  | .collection shape _ => some (.collection shape)
  | .map es => if Entries.Keyed es then some .map else none
  | .location .. => some .location
  | .position .. => some .position
  | .matcher kind _ => some (.matcher kind)
  | .method (.cls _) name => some (.operation name)
  | _ => none

/-- The object has this label. -/
inductive Object.Labelled : Object → Label → Prop
  | collection (shape : Shape) (items : List Value) : Labelled (.collection shape items) (.collection shape)
  | map {es : Entries Value} : Entries.Keyed es → Labelled (.map es) .map
  | location (line column : Value) : Labelled (.location line column) .location
  | position (start finish source : Value) : Labelled (.position start finish source) .position
  | matcher (kind : MatcherKind) (target : Value) : Labelled (.matcher kind target) (.matcher kind)
  | operation (cls name : String) : Labelled (.method (.cls cls) name) (.operation name)

theorem Object.labelled {x : Object} {l : Label} (h : x.label? = some l) : x.Labelled l := by
  cases x with
  | method owner name =>
      cases owner with
      | cls c => cases h; exact .operation c name
      | _ => cases h
  | collection shape items => cases h; exact .collection shape items
  | map es =>
      rw [Object.label?] at h
      split at h
      · next hkeyed => cases h; exact .map hkeyed
      · cases h
  | location line column => cases h; exact .location line column
  | position start finish source => cases h; exact .position start finish source
  | matcher kind target => cases h; exact .matcher kind target
  | _ => cases h

namespace Store

variable {s s' : Store} {v w : Value} {t u : Content} {cs ds : List Content}

/-! ## The contents of a value -/

/-- The value is plain data with these contents. Wrappers stand for themselves, since nothing copies them. -/
inductive Denotes (s : Store) : Value → Content → Prop
  | scalar {v : Value} : v.isLink = false → Denotes s v (.atom v)
  | wrapper {o tracker : ObjectId} {start : Value} {fields : Entries Value} :
    s.object o = .wrapper tracker start fields → Denotes s (.object o) (.atom (.object o))
  | object {o : ObjectId} {l : Label} {cs : List Content} : (s.object o).label? = some l →
    (contained (s.object o)).length = cs.length →
      (∀ v c, (v, c) ∈ (contained (s.object o)).zip cs → Denotes s v c) → Denotes s (.object o) (.parts l cs)

theorem Denotes.of_parts {o : ObjectId} {l : Label} (hlabel : (s.object o).label? = some l)
    (hparts : List.Forall₂ s.Denotes (contained (s.object o)) cs) :
    s.Denotes (.object o) (.parts l cs) :=
  .object hlabel hparts.length_eq fun _ _ hmem => List.forall₂_iff_zip.mp hparts |>.2 hmem

theorem Denotes.parts {o : ObjectId} {l : Label} (h : s.Denotes (.object o) (.parts l cs)) :
    (s.object o).label? = some l ∧ List.Forall₂ s.Denotes (contained (s.object o)) cs := by
  cases h with
  | object hlabel hlength hparts => exact ⟨hlabel, List.forall₂_iff_zip.mpr ⟨hlength, hparts _ _⟩⟩

/-- **A value has one tree of contents.** -/
theorem Denotes.unique (h : s.Denotes v t) (h' : s.Denotes v u) : t = u := by
  induction h generalizing u with
  | scalar hscalar =>
      cases h' with
      | scalar _ => rfl
      | wrapper _ => cases hscalar
      | object _ => cases hscalar
  | wrapper hwrapper =>
      cases h' with
      | scalar hscalar => cases hscalar
      | wrapper _ => rfl
      | object hlabel =>
          rw [hwrapper] at hlabel
          cases hlabel
  | @object o l cs hlabel hlength _ ih =>
      cases h' with
      | scalar hscalar => cases hscalar
      | wrapper hwrapper =>
          rw [hwrapper] at hlabel
          cases hlabel
      | @object _ m ds hlabel' hlength' hparts' =>
          have hl : l = m := Option.some.inj (hlabel.symm.trans hlabel')
          have hcs : cs = ds := by
            refine List.ext_getElem (hlength.symm.trans hlength') fun i hi hi' => ?_
            have hlt : i < (contained (s.object o)).length := hlength ▸ hi
            have hzip {es : List Content} (hes : i < es.length) :
                ((contained (s.object o))[i], es[i]) ∈ (contained (s.object o)).zip es := by
              refine List.mem_iff_getElem.mpr ⟨i, ?_, List.getElem_zip⟩
              rw [List.length_zip]
              omega
            exact ih _ _ (hzip hi) (hparts' _ _ (hzip hi'))
          rw [hl, hcs]

theorem Denotes.lt_size {o : ObjectId} (h : s.Denotes (.object o) t) : o < s.objects.size := by
  refine lt_size_of_object fun hplain => ?_
  cases h with
  | scalar hscalar => cases hscalar
  | wrapper hwrapper => rw [hwrapper] at hplain; cases hplain
  | object hlabel => rw [hplain] at hlabel; cases hlabel

/-- More objects do not matter. -/
theorem Denotes.mono (h : s.Denotes v t) (hs : ∀ o, o < s.objects.size → s'.object o = s.object o) :
    s'.Denotes v t := by
  induction h with
  | scalar hscalar => exact .scalar hscalar
  | @wrapper o _ _ _ hwrapper =>
      exact .wrapper ((hs o (Denotes.wrapper hwrapper).lt_size).trans hwrapper)
  | @object o l cs hlabel hlength hparts ih =>
      have hsame := hs o (Denotes.object hlabel hlength hparts).lt_size
      exact .object (hsame ▸ hlabel) (hsame ▸ hlength) fun v c hmem => ih v c (hsame ▸ hmem)

/-! ## Comparing is comparing contents -/

section Decided

variable {eq : Value → Value → Except Fault Bool} {as bs : List Value} {es fs : Entries Value}

/-- Compared with plain data, `a` answers as the contents `c` do. -/
def Decides (s : Store) (eq : Value → Value → Except Fault Bool) (a : Value) (c : Content) : Prop :=
  ∀ b d, s.Denotes b d → eq a b = .ok (c.same d)

theorem equalLists_decided (has : List.Forall₂ (s.Decides eq) as cs) (hbs : List.Forall₂ s.Denotes bs ds) :
    equalLists eq as bs = .ok (Content.oneByOne cs ds) := by
  induction has generalizing bs ds with
  | nil =>
      cases hbs with
      | nil => simp [equalLists, Content.oneByOne]
      | cons _ _ => simp [equalLists, Content.oneByOne]
  | @cons a c as cs ha _ ih =>
      cases hbs with
      | nil => simp [equalLists, Content.oneByOne]
      | @cons b d bs ds hb hbs =>
          rw [equalLists, bind_ok (ha b d hb), Content.oneByOne]
          cases c.same d with
          | true => exact ih hbs
          | false => rfl

theorem hasEqual_decided {a : Value} {c : Content} (ha : s.Decides eq a c)
    (hbs : List.Forall₂ s.Denotes bs ds) : hasEqual eq a bs = .ok (ds.any fun d => c.same d) := by
  induction hbs with
  | nil => rfl
  | @cons b d bs ds hb _ ih =>
      rw [hasEqual, bind_ok (ha b d hb), List.any_cons]
      cases c.same d with
      | true => rfl
      | false => exact ih

theorem allEqualIn_decided (has : List.Forall₂ (s.Decides eq) as cs) (hbs : List.Forall₂ s.Denotes bs ds) :
    allEqualIn eq bs as = .ok (Content.allIn cs ds) := by
  induction has with
  | nil => simp [allEqualIn, Content.allIn]
  | @cons a c as cs ha _ ih =>
      rw [allEqualIn, bind_ok (hasEqual_decided ha hbs), Content.allIn]
      cases ds.any fun d => c.same d with
      | true => exact ih
      | false => rfl

theorem entryValues_cons (e : Key × Value) (es : Entries Value) :
    entryValues (e :: es) = e.2 :: e.1.value :: entryValues es := rfl

/-- What is found under a key denotes what is found under the contents of the key. -/
theorem valueUnder_decided {k : Value} {c : Content} (hk : s.Decides eq k c)
    (hfs : List.Forall₂ s.Denotes (entryValues fs) ds) :
    ∃ found, valueUnder eq k fs = .ok found ∧
      Option.Rel s.Denotes found (Content.under (fun d => c.same d) ds) := by
  induction fs generalizing ds with
  | nil =>
      cases hfs
      exact ⟨none, rfl, .none⟩
  | cons f fs ih =>
      rw [entryValues_cons] at hfs
      cases hfs with
      | @cons _ b _ _ hb hrest =>
          cases hrest with
          | @cons _ d _ ds hd hrest =>
              rw [valueUnder, bind_ok (hk f.1.value d hd), Content.under]
              cases c.same d with
              | true => exact ⟨some f.2, rfl, .some hb⟩
              | false => exact ih hrest

theorem entriesEqualIn_decided (hes : List.Forall₂ (s.Decides eq) (entryValues es) cs)
    (hfs : List.Forall₂ s.Denotes (entryValues fs) ds) :
    entriesEqualIn eq fs es = .ok (Content.entriesIn cs ds) := by
  induction es generalizing cs with
  | nil =>
      cases hes
      simp [entriesEqualIn, Content.entriesIn]
  | cons e es ih =>
      rw [entryValues_cons] at hes
      cases hes with
      | @cons _ c _ _ ha hrest =>
          cases hrest with
          | @cons _ k _ cs hk hrest =>
              obtain ⟨found, hfound, hrel⟩ := valueUnder_decided hk hfs
              rw [entriesEqualIn, bind_ok hfound, Content.entriesIn]
              generalize Content.under (fun d => k.same d) ds = below at hrel
              cases hrel with
              | none => rfl
              | @some b d hb =>
                  dsimp only
                  rw [bind_ok (ha b d hb), Option.any_some]
                  cases c.same d with
                  | true => exact ih hrest
                  | false => rfl

theorem oneByOne_of_length_ne (h : cs.length ≠ ds.length) : Content.oneByOne cs ds = false := by
  induction cs generalizing ds with
  | nil =>
      cases ds with
      | nil => exact absurd rfl h
      | cons d ds => simp [Content.oneByOne]
  | cons c cs ih =>
      cases ds with
      | nil => simp [Content.oneByOne]
      | cons d ds =>
          rw [Content.oneByOne, ih fun heq => h (by rw [List.length_cons, List.length_cons, heq]),
            Bool.and_false]

theorem length_entryValues (es : Entries Value) : (entryValues es).length = es.length + es.length := by
  induction es with
  | nil => rfl
  | cons e es ih =>
      rw [entryValues_cons, List.length_cons, List.length_cons, List.length_cons, ih]
      omega

theorem same_parts (l m : Label) (cs ds : List Content) :
    (Content.parts l cs).same (.parts m ds) =
      (l.comparable m && match l with
        | .collection .set | .collection .frozenSet => cs.length == ds.length && Content.allIn cs ds
        | .map => cs.length == ds.length && Content.entriesIn cs ds
        | _ => Content.oneByOne cs ds) := by
  rw [Content.same.eq_def]

/-- Collections are compared one by one, or as sets. -/
theorem equalObjects_collections {shape shape' : Shape} (has : List.Forall₂ (s.Decides eq) as cs)
    (hbs : List.Forall₂ s.Denotes bs ds) :
    equalObjects eq (.collection shape as) (.collection shape' bs) =
      .ok ((Content.parts (.collection shape) cs).same (.parts (.collection shape') ds)) := by
  have hlists := equalLists_decided has hbs
  have hsets : (if as.length = bs.length then allEqualIn eq bs as else .ok false) =
      .ok (cs.length == ds.length && Content.allIn cs ds) := by
    rw [has.length_eq, hbs.length_eq]
    by_cases hlength : cs.length = ds.length
    · rw [if_pos hlength, allEqualIn_decided has hbs, beq_iff_eq.mpr hlength, Bool.true_and]
    · rw [if_neg hlength, beq_eq_false_iff_ne.mpr hlength, Bool.false_and]
  rw [same_parts]
  cases shape with
  | list =>
      cases shape' with
      | list =>
          show (if as.length = bs.length then equalLists eq as bs else .ok false) = _
          rw [has.length_eq, hbs.length_eq]
          by_cases hlength : cs.length = ds.length
          · rw [if_pos hlength]
            exact hlists
          · rw [if_neg hlength, oneByOne_of_length_ne hlength, Bool.and_false]
      | _ => rfl
  | tuple =>
      cases shape' with
      | tuple => exact hlists
      | _ => rfl
  | set =>
      cases shape' with
      | set => exact hsets
      | frozenSet => exact hsets
      | _ => rfl
  | frozenSet =>
      cases shape' with
      | set => exact hsets
      | frozenSet => exact hsets
      | _ => rfl

theorem forall₂_singleton {α β : Type} {R : α → β → Prop} {a : α} {bs : List β}
    (h : List.Forall₂ R [a] bs) : ∃ b, bs = [b] ∧ R a b := by
  cases h with
  | @cons _ b _ _ hb hrest =>
      cases hrest
      exact ⟨b, rfl, hb⟩

/-- **The comparison of two objects answers what their contents say**, if that of parts does. -/
theorem equalObjects_decided {x y : Object} {l m : Label} (hx : x.label? = some l) (hy : y.label? = some m)
    (hparts : List.Forall₂ s.Denotes (contained x) cs) (has : List.Forall₂ (s.Decides eq) (contained x) cs)
    (hbs : List.Forall₂ s.Denotes (contained y) ds) :
    equalObjects eq x y = .ok ((Content.parts l cs).same (.parts m ds)) := by
  cases Object.labelled hx with
  | collection shape as =>
      cases Object.labelled hy with
      | collection shape' bs => exact equalObjects_collections has hbs
      | _ => rw [same_parts]; cases shape <;> rfl
  | @map es _ =>
      cases Object.labelled hy with
      | @map fs _ =>
          have hlength : es.length = fs.length ↔ cs.length = ds.length := by
            have hcs := has.length_eq
            have hds := hbs.length_eq
            rw [contained, length_entryValues] at hcs hds
            omega
          rw [same_parts, equalObjects]
          by_cases heq : cs.length = ds.length
          · rw [if_pos (hlength.mpr heq), entriesEqualIn_decided has hbs, Label.comparable_self]
            dsimp only
            rw [beq_iff_eq.mpr heq, Bool.true_and, Bool.true_and]
          · rw [if_neg fun h => heq (hlength.mp h), Label.comparable_self]
            dsimp only
            rw [beq_eq_false_iff_ne.mpr heq]
            rfl
      | collection shape bs => rw [same_parts]; cases shape <;> rfl
      | _ => rw [same_parts]; rfl
  | location line column =>
      cases Object.labelled hy with
      | location line' column' =>
          rw [same_parts, Label.comparable_self, Bool.true_and]
          exact equalLists_decided has hbs
      | collection shape bs => rw [same_parts]; cases shape <;> rfl
      | _ => rw [same_parts]; rfl
  | position start finish source =>
      cases Object.labelled hy with
      | position start' finish' source' =>
          rw [same_parts, Label.comparable_self, Bool.true_and]
          exact equalLists_decided has hbs
      | collection shape bs => rw [same_parts]; cases shape <;> rfl
      | _ => rw [same_parts]; rfl
  | matcher kind target =>
      cases Object.labelled hy with
      | matcher kind' target' =>
          obtain ⟨c, rfl, hc⟩ := forall₂_singleton has
          obtain ⟨d, rfl, hd⟩ := forall₂_singleton hbs
          rw [same_parts, equalObjects, hc _ d hd]
          by_cases hkind : kind = kind'
          · rw [if_pos hkind, hkind, Label.comparable_self]
            simp [Content.oneByOne]
          · rw [if_neg hkind]
            simp [Label.comparable, hkind]
      | collection shape bs => rw [same_parts]; cases shape <;> rfl
      | _ => rw [same_parts]; rfl
  | operation cls name =>
      cases Object.labelled hy with
      | operation cls' name' =>
          obtain ⟨c, rfl, hc⟩ := forall₂_singleton hparts
          obtain ⟨d, rfl, hd⟩ := forall₂_singleton hbs
          rw [hc.unique (.scalar rfl), hd.unique (.scalar rfl), same_parts, equalObjects]
          by_cases hname : name = name'
          · simp [hname, Label.comparable, Content.oneByOne, Content.same, Value.equalScalar, Value.toInt?]
          · simp [hname, Label.comparable]
      | collection shape bs => rw [same_parts]; cases shape <;> rfl
      | _ => rw [same_parts]; rfl

end Decided

/-- Enough depth for each of some parts is enough for all. -/
theorem exists_depth {as : List Value} (h : ∀ v c, (v, c) ∈ as.zip cs → ∃ k, s.Decides (s.partUpTo k) v c) :
    ∃ k, ∀ v c, (v, c) ∈ as.zip cs → s.Decides (s.partUpTo k) v c := by
  obtain ⟨k, hk⟩ := exists_enough (P := fun k (p : Value × Content) => s.Decides (s.partUpTo k) p.1 p.2)
    (fun hkl h b d hb => refines_partUpTo hkl _ _ _ (h b d hb)) fun p hp => h p.1 p.2 hp
  exact ⟨k, fun v c hmem => hk (v, c) hmem⟩

/-- What two different values answer answers as parts, too. -/
theorem decides_of_equalUpTo {k : Nat} (hv : s.Denotes v t) (ht : t.Proper)
    (h : ∀ w u, s.Denotes w u → v ≠ w → s.equalUpTo k v w = .ok (t.same u)) :
    s.Decides (s.partUpTo k) v t := by
  intro w u hw
  by_cases hvw : v = w
  · subst hvw
    rw [partUpTo_self, hv.unique hw, (hv.unique hw ▸ ht : u.Proper).same_self]
  · rw [partUpTo, if_neg hvw]
    exact h w u hw hvw

theorem object?_of_scalar (h : v.isLink = false) : s.object? v = none := by
  cases v with
  | object o => cases h
  | _ => rfl

/-- No scalar is equal to an object. -/
theorem equalScalar_object (h : v.isLink = false) (o : ObjectId) :
    v.equalScalar (.object o) = false ∧ (Value.object o).equalScalar v = false := by
  cases v with
  | node n => cases h
  | object p => cases h
  | float x => cases hx : x.toInt? <;> simp [Value.equalScalar, Value.toInt?, hx]
  | _ => simp [Value.equalScalar, Value.toInt?]

theorem equalObjects_wrapper {x : Object} {l : Label} (hx : x.label? = some l)
    (eq : Value → Value → Except Fault Bool) (tracker : ObjectId) (start : Value) (fields : Entries Value) :
    equalObjects eq x (.wrapper tracker start fields) = .ok false := by
  cases Object.labelled hx with
  | collection shape items => cases shape <;> rfl
  | _ => rfl

/-- **Compared with plain data, plain data answers as its contents do.** -/
theorem partUpTo_denotes (hv : s.Denotes v t) (ht : t.Proper) : ∃ k, s.Decides (s.partUpTo k) v t := by
  induction hv with
  | @scalar v hscalar =>
      refine ⟨1, decides_of_equalUpTo (.scalar hscalar) ht fun w u hw hne => ?_⟩
      rw [equalUpTo_scalar (Or.inl (object?_of_scalar hscalar))]
      cases hw with
      | scalar _ => simp [Content.same, hne]
      | wrapper _ => simp [Content.same, hne]
      | object _ => simp [Content.same, (equalScalar_object hscalar _).1]
  | @wrapper o tracker start fields hwrapper =>
      refine ⟨1, decides_of_equalUpTo (.wrapper hwrapper) ht fun w u hw hne => ?_⟩
      cases hw with
      | scalar hscalar =>
          rw [equalUpTo_scalar (Or.inr (object?_of_scalar hscalar))]
          simp [Content.same, hne]
      | @wrapper p _ _ _ hwrapper' =>
          have hop : o ≠ p := fun heq => hne (congrArg Value.object heq)
          rw [equalUpTo_object hop, hwrapper, hwrapper']
          simp [Content.same, equalObjects, Value.equalScalar, Value.toInt?, hop]
      | @object p _ _ _ _ _ =>
          rw [equalUpTo_object fun heq => hne (congrArg Value.object heq), hwrapper]
          simp [Content.same, equalObjects]
  | @object o l cs hlabel hlength hparts ih =>
      have hwhole : s.Denotes (.object o) (.parts l cs) := .object hlabel hlength hparts
      obtain ⟨k, hk⟩ := exists_depth fun v c hmem => ih v c hmem <| by
        cases ht with
        | parts _ hproper => exact hproper c (List.of_mem_zip hmem).2
      refine ⟨k + 1, decides_of_equalUpTo hwhole ht fun w u hw hne => ?_⟩
      cases hw with
      | scalar hscalar =>
          rw [equalUpTo_scalar (Or.inr (object?_of_scalar hscalar)), (equalScalar_object hscalar o).2]
          simp [Content.same]
      | @wrapper p _ _ _ hwrapper =>
          rw [equalUpTo_object fun heq => hne (congrArg Value.object heq), hwrapper,
            equalObjects_wrapper hlabel]
          simp [Content.same]
      | @object p m ds hlabel' hlength' hparts' =>
          rw [equalUpTo_object fun heq => hne (congrArg Value.object heq)]
          refine equalObjects_decided hlabel hlabel' hwhole.parts.2 ?_
            (Denotes.object hlabel' hlength' hparts').parts.2
          exact List.forall₂_iff_zip.mpr ⟨hlength, hk _ _⟩

/-- **Values with the same contents are equal.** -/
theorem samePart_of_denotes (hv : s.Denotes v t) (hw : s.Denotes w t) (ht : t.Proper) :
    s.samePart v w = .ok true := by
  obtain ⟨k, hk⟩ := partUpTo_denotes hv ht
  have hsame := hk w t hw
  rw [ht.same_self] at hsame
  exact samePart_of_partUpTo hsame

end Store
end SyntaxTree
