import SyntaxTree.Node.Outline
import SyntaxTree.Proofs.Duplicates
import SyntaxTree.Proofs.EqualEntries

/-!
# `Proofs.Outlines` — trees as nested maps, and when two of these are equal

The outline of a tree can be read off the store without a bound (`outlineOf`), and what is made of it are new
objects (`Written`). Two trees of one shape that show equal fields at every place are written as equal maps
(`endsEqual_of_matches`). So the maps of a tree and of its clone are equal, as long as values and attributes
are plain data: the clone shows the same types, equal values, and attributes that agree.
-/

namespace SyntaxTree

/-! ## The depth of a tree -/

namespace Subtree

mutual

/-- The number of places on the longest way down a tree. -/
def depth : Subtree → Nat
  | .node _ branches => depthAll branches + 1

/-- The depth of the deepest of some trees. -/
def depthAll : List Subtree → Nat
  | [] => 0
  | t :: ts => max t.depth (depthAll ts)

end

theorem depthAll_le {ts : List Subtree} {k : Nat} : depthAll ts ≤ k ↔ ∀ t ∈ ts, t.depth ≤ k := by
  induction ts with
  | nil => simp [depthAll]
  | cons t ts ih => rw [depthAll, Nat.max_le, ih, List.forall_mem_cons]

theorem depth_le_depthAll {t : Subtree} {ts : List Subtree} (ht : t ∈ ts) : t.depth ≤ depthAll ts :=
  depthAll_le.mp (Nat.le_refl _) t ht

mutual

theorem depth_le_size : (t : Subtree) → t.depth ≤ t.size
  | .node _ branches => by
      rw [depth, size]
      exact Nat.succ_le_succ (depthAll_le_sizeAll branches)

theorem depthAll_le_sizeAll : (ts : List Subtree) → depthAll ts ≤ sizeAll ts
  | [] => Nat.le_refl _
  | t :: ts => by
      rw [depthAll, sizeAll]
      have hfirst := depth_le_size t
      have hrest := depthAll_le_sizeAll ts
      omega

end

end Subtree

namespace Store

variable {s s' a b : Store} {t u : Subtree} {ts us : List Subtree} {n c : NodeId} {v w : Value}

/-! ## Outlines without a bound -/

/-- The type of a node, and its value if it has one. -/
def ownFields (s : Store) (n : NodeId) : Entries Value :=
  if (s.node n).value = .null then [(.text "type", (s.node n).type)]
  else [(.text "type", (s.node n).type), (.text "value", (s.node n).value)]

/-- The fields of a node besides its children. -/
def shownFields (s : Store) (n : NodeId) : Entries Value := (s.ownFields n).putAll (s.attributes n)

mutual

/-- The outline of a tree. -/
def outlineOf (s : Store) : Subtree → Outline
  | .node n branches => .node (s.shownFields n) ((s.node n).nodes.map fun _ => s.outlinesOf branches)

/-- The outlines of some trees. -/
def outlinesOf (s : Store) : List Subtree → List Outline
  | [] => []
  | t :: ts => s.outlineOf t :: s.outlinesOf ts

end

/-- The extra attributes of the nodes stand in maps. -/
def Mapped (s : Store) (ns : List NodeId) : Prop := ∀ n ∈ ns, ∃ es, s.entries? (s.node n).attr = some es

theorem outlineFields_eq (h : ∃ es, s.entries? (s.node n).attr = some es) :
    s.outlineFields n = .ok (s.shownFields n) := by
  obtain ⟨es, hes⟩ := h
  have hextra : s.entriesIn (s.node n).attr = .ok es := by rw [entriesIn, hes]
  rw [outlineFields, hextra, shownFields, ownFields, attributes, hes]
  split <;> rfl

theorem outlineAll_eq {outline : NodeId → Except Fault Outline}
    (h : ∀ t ∈ ts, outline t.root = .ok (s.outlineOf t)) :
    s.outlineAll outline (ts.map fun t => .node t.root) = .ok (s.outlinesOf ts) := by
  induction ts with
  | nil => simp [outlineAll, outlinesOf]
  | cons t ts ih =>
      rw [List.map_cons, outlineAll, actor_node, outlinesOf]
      have hfirst := h t (List.mem_cons_self ..)
      have hrest := ih fun u hu => h u (List.mem_cons_of_mem _ hu)
      simp only [bind, Except.bind, hfirst, hrest]

/-- **A tree that a node shows has an outline**, at any depth that is at least its own. -/
theorem outlineWithin_eq (h : s.Shows t) (hmaps : s.Mapped t.preorder) {fuel : Nat} (hfuel : t.depth ≤ fuel) :
    s.outlineWithin fuel t.root = .ok (s.outlineOf t) := by
  induction h generalizing fuel with
  | @node n branches hchildren _ ih =>
      rw [Subtree.depth] at hfuel
      obtain ⟨fuel, rfl⟩ : ∃ f, fuel = f + 1 := ⟨fuel - 1, by omega⟩
      have hfields := outlineFields_eq (hmaps n (by simp [Subtree.preorder]))
      have hbranches : ∀ b ∈ branches, s.outlineWithin fuel b.root = .ok (s.outlineOf b) := by
        intro b hb
        have hle := Subtree.depth_le_depthAll hb
        exact ih b hb (fun m hm => hmaps m (Subtree.mem_preorder_of_branch hb hm)) (by omega)
      rw [Subtree.root, outlineWithin, bind_ok hfields, outlineOf]
      rw [children] at hchildren
      cases hnodes : (s.node n).nodes with
      | none => rfl
      | some vs =>
          rw [hnodes, Option.getD_some] at hchildren
          dsimp only
          rw [hchildren, bind_ok (outlineAll_eq hbranches)]
          rfl

/-! ## What is written -/

mutual

/-- The value is a map that stands for the outline. -/
def Written (s : Store) : Outline → Value → Prop
  | .node fields none, v => ∃ o, v = .object o ∧ s.object o = .map fields
  | .node fields (some nodes), v => ∃ o p items, v = .object o ∧
      s.object o = .map (fields.put (.text "nodes") (.object p)) ∧
      s.object p = .collection .list items ∧ s.WrittenAll nodes items

/-- The values are maps that stand for the outlines one by one. -/
def WrittenAll (s : Store) : List Outline → List Value → Prop
  | [], vs => vs = []
  | o :: os, vs => ∃ v rest, vs = v :: rest ∧ s.Written o v ∧ s.WrittenAll os rest

end

/-- There are more objects, and nothing else is different. -/
structure Allocates (s s' : Store) : Prop extends Extends s s' where
  nodes : s'.nodes = s.nodes

theorem Allocates.refl (s : Store) : s.Allocates s :=
  ⟨.refl s, rfl⟩

theorem Allocates.trans {s'' : Store} (h : s.Allocates s') (h' : s'.Allocates s'') : s.Allocates s'' :=
  ⟨h.toExtends.trans h'.toExtends, h'.nodes.trans h.nodes⟩

theorem allocates_addObject (s : Store) (x : Object) : s.Allocates (s.addObject x) := ⟨.addObject s x, rfl⟩

theorem Allocates.node_eq (h : s.Allocates s') (n : NodeId) : s'.node n = s.node n := by
  rw [node, node, h.nodes]

mutual

theorem Written.mono (hs : s.Extends s') : (o : Outline) → ∀ {v}, s.Written o v → s'.Written o v
  | .node fields none, v, h => by
      rw [Written] at h ⊢
      obtain ⟨o, rfl, hmap⟩ := h
      exact ⟨o, rfl, object_of_extends hs hmap (fun heq => by cases heq)⟩
  | .node fields (some nodes), v, h => by
      rw [Written] at h ⊢
      obtain ⟨o, p, items, rfl, hmap, hlist, hitems⟩ := h
      exact ⟨o, p, items, rfl, object_of_extends hs hmap (fun heq => by cases heq),
        object_of_extends hs hlist (fun heq => by cases heq), hitems.mono hs nodes⟩

theorem WrittenAll.mono (hs : s.Extends s') : (os : List Outline) → ∀ {vs}, s.WrittenAll os vs →
    s'.WrittenAll os vs
  | [], vs, h => by
      rw [WrittenAll] at h ⊢
      exact h
  | o :: os, vs, h => by
      rw [WrittenAll] at h ⊢
      obtain ⟨v, rest, rfl, hv, hrest⟩ := h
      exact ⟨v, rest, rfl, hv.mono hs o, hrest.mono hs os⟩

end

theorem Written.eq_object {o : Outline} (h : s.Written o v) : ∃ p, v = .object p := by
  cases o with
  | node fields nodes =>
      cases nodes with
      | none =>
          rw [Written] at h
          exact ⟨_, h.choose_spec.1⟩
      | some nodes =>
          rw [Written] at h
          obtain ⟨p, _, _, hp, -⟩ := h
          exact ⟨p, hp⟩

mutual

/-- **Writing an outline makes a map that stands for it**, and changes nothing. -/
theorem writeOutline_ok : (o : Outline) → ∀ s, ∃ v s', writeOutline o s = .ok v s' ∧ s.Allocates s' ∧ s'.Written o v
  | .node fields none, s => by
      refine ⟨.object s.objects.size, _, ?_, allocates_addObject s (.map fields), ?_⟩
      · rw [writeOutline]
        rfl
      · rw [Written]
        exact ⟨_, rfl, object_addObject_self s _⟩
  | .node fields (some nodes), s => by
      obtain ⟨items, s₁, hitems, hs₁, hwritten⟩ := writeOutlines_ok nodes s
      have hlist := allocates_addObject s₁ (.collection .list items)
      let s₂ := s₁.addObject (.collection .list items)
      have hmap := allocates_addObject s₂ (.map (fields.put (.text "nodes") (.object s₁.objects.size)))
      refine ⟨.object s₂.objects.size, _, ?_, (hs₁.trans hlist).trans hmap, ?_⟩
      · rw [writeOutline, Run.bind_of_ok hitems]
        rfl
      · rw [Written]
        refine ⟨_, s₁.objects.size, items, rfl, object_addObject_self s₂ _, ?_, ?_⟩
        · exact object_of_extends hmap.toExtends (object_addObject_self s₁ _) (fun heq => by cases heq)
        · exact hwritten.mono (hlist.trans hmap).toExtends nodes

theorem writeOutlines_ok : (os : List Outline) → ∀ s, ∃ vs s', writeOutlines os s = .ok vs s' ∧ s.Allocates s' ∧
    s'.WrittenAll os vs
  | [], s => by
      refine ⟨[], s, ?_, .refl s, ?_⟩
      · rw [writeOutlines]
        rfl
      · rw [WrittenAll]
  | o :: os, s => by
      obtain ⟨v, s₁, hv, hs₁, hwritten⟩ := writeOutline_ok o s
      obtain ⟨vs, s₂, hvs, hs₂, hwrittens⟩ := writeOutlines_ok os s₁
      refine ⟨v :: vs, s₂, ?_, hs₁.trans hs₂, ?_⟩
      · rw [writeOutlines, Run.bind_of_ok hv, Run.bind_of_ok hvs]
        rfl
      · rw [WrittenAll]
        exact ⟨v, vs, rfl, hwritten.mono hs₂.toExtends o, hwrittens⟩

end

/-- **A tree that a node shows can be written**, if no depth beyond the number of nodes is needed. -/
theorem toMap_ok (h : s.Shows t) (hmaps : s.Mapped t.preorder) (hdepth : t.depth ≤ s.nodes.size + 1) :
    ∃ v s', toMap t.root s = .ok v s' ∧ s.Allocates s' ∧ s'.Written (s.outlineOf t) v := by
  obtain ⟨v, s', hwrite, hs, hwritten⟩ := writeOutline_ok (s.outlineOf t) s
  have houtline : s.outline t.root = .ok (s.outlineOf t) := outlineWithin_eq h hmaps hdepth
  refine ⟨v, s', ?_, hs, hwritten⟩
  rw [toMap, Run.bind_of_ok (Run.check_of_ok houtline), hwrite]

/-! ## Trees that show the same -/

/-- `n` in the store `a` and `c` in the store `b` show the same fields and a list of children or none, where
contents are read in `s`. -/
structure ShownAlike (s a b : Store) (n c : NodeId) : Prop where
  fields : s.MapsAgree s.ValuesAgree (a.shownFields n) (b.shownFields c)
  nodes : (b.node c).nodes = none ↔ (a.node n).nodes = none

mutual

/-- **Trees that show the same are written as equal maps.** -/
theorem endsEqual_of_matches : (t u : Subtree) → ∀ {v w}, t.Matches (s.ShownAlike a b) u →
    s.Written (a.outlineOf t) v → s.Written (b.outlineOf u) w → s.EndsEqual v w
  | .node n ts, .node c us, v, w, h, hv, hw => by
      rw [Subtree.Matches] at h
      obtain ⟨hshown, hbranches⟩ := h
      have hfields : s.MapsAgree s.EndsEqual (a.shownFields n) (b.shownFields c) :=
        hshown.fields.imp fun _ _ hagree => hagree.endsEqual
      rw [outlineOf] at hv hw
      cases hn : (a.node n).nodes with
      | none =>
          rw [hn, Option.map_none, Written] at hv
          rw [hshown.nodes.mpr hn, Option.map_none, Written] at hw
          obtain ⟨o, rfl, ho⟩ := hv
          obtain ⟨p, rfl, hp⟩ := hw
          refine endsEqual_objects ?_
          rw [ho, hp]
          exact hfields.equal
      | some vs =>
          cases hc : (b.node c).nodes with
          | none =>
              rw [hshown.nodes.mp hc] at hn
              cases hn
          | some ws =>
              rw [hn, Option.map_some, Written] at hv
              rw [hc, Option.map_some, Written] at hw
              obtain ⟨o, l, items, rfl, ho, hl, hitems⟩ := hv
              obtain ⟨p, m, items', rfl, hp, hm, hitems'⟩ := hw
              have hlists : s.EndsEqual (.object l) (.object m) := by
                refine endsEqual_objects ?_
                rw [hl, hm]
                exact equalLists_of_endsEqual (endsEqual_of_matchesAll ts us hbranches hitems hitems')
              refine endsEqual_objects ?_
              rw [ho, hp]
              refine (hfields.put (keysAgree_text s "nodes") hlists fun j _ => ?_).equal
              exact Or.inr (Or.inl ⟨_, rfl⟩)

theorem endsEqual_of_matchesAll : (ts us : List Subtree) → ∀ {vs ws},
    Subtree.MatchesAll (s.ShownAlike a b) ts us → s.WrittenAll (a.outlinesOf ts) vs →
      s.WrittenAll (b.outlinesOf us) ws → List.Forall₂ s.EndsEqual vs ws
  | [], [], vs, ws, _, hvs, hws => by
      rw [outlinesOf, WrittenAll] at hvs hws
      rw [hvs, hws]
      exact .nil
  | t :: ts, u :: us, vs, ws, h, hvs, hws => by
      rw [Subtree.MatchesAll] at h
      rw [outlinesOf, WrittenAll] at hvs hws
      obtain ⟨v, vs, rfl, hv, hvs⟩ := hvs
      obtain ⟨w, ws, rfl, hw, hws⟩ := hws
      exact .cons (endsEqual_of_matches t u h.1 hv hw) (endsEqual_of_matchesAll ts us h.2 hvs hws)
  | [], _ :: _, _, _, h, _, _ => by rw [Subtree.MatchesAll] at h; exact h.elim
  | _ :: _, [], _, _, h, _, _ => by rw [Subtree.MatchesAll] at h; exact h.elim

end

/-- More objects do not matter for the extra attributes of a node. -/
theorem attributes_allocates (hs : s.Allocates s') (h : ∃ es, s.entries? (s.node n).attr = some es) :
    s'.attributes n = s.attributes n := by
  obtain ⟨es, hes⟩ := h
  rw [attributes, attributes, hs.node_eq, hes]
  exact congrArg (Option.getD · []) (entries?_mono hes hs.object)

/-- Nor for what it shows. -/
theorem shownFields_allocates (hs : s.Allocates s') (h : ∃ es, s.entries? (s.node n).attr = some es) :
    s'.shownFields n = s.shownFields n := by
  rw [shownFields, shownFields, attributes_allocates hs h, ownFields, ownFields, hs.node_eq]

/-- **One after the other, trees that show the same are written as equal maps.** -/
theorem toMap_equal (ht : s.Shows t) (hu : s.Shows u) (hmaps : s.Mapped t.preorder)
    (hmaps' : s.Mapped u.preorder) (hsize : t.size ≤ s.nodes.size) (hsize' : u.size ≤ s.nodes.size)
    (h : t.Matches (s.ShownAlike s s) u) :
    ∃ v s₁ w s₂, toMap t.root s = .ok v s₁ ∧ toMap u.root s₁ = .ok w s₂ ∧ s₂.equal v w = .ok true := by
  have hdepth {t : Subtree} (hsize : t.size ≤ s.nodes.size) : t.depth ≤ s.nodes.size + 1 :=
    (t.depth_le_size.trans hsize).trans (Nat.le_succ _)
  obtain ⟨v, s₁, hfirst, hs₁, hv⟩ := toMap_ok ht hmaps (hdepth hsize)
  have hu₁ : s₁.Shows u := hu.congr fun m _ => by rw [children, hs₁.node_eq, children]
  have hmaps₁ : s₁.Mapped u.preorder := by
    intro m hm
    obtain ⟨es, hes⟩ := hmaps' m hm
    exact ⟨es, hs₁.node_eq m ▸ entries?_mono hes hs₁.object⟩
  obtain ⟨w, s₂, hsecond, hs₂, hw⟩ := toMap_ok hu₁ hmaps₁ (hs₁.nodes ▸ hdepth hsize')
  have hall := hs₁.trans hs₂
  -- what the second tree shows is read in a store with more objects
  have hmatches : t.Matches (s₂.ShownAlike s s₁) u := by
    refine h.mono fun n _ c hc hshown => ⟨?_, ?_⟩
    · rw [shownFields_allocates hs₁ (hmaps' c hc)]
      exact hshown.fields.mono hall.toExtends.keepsContents fun _ _ hagree =>
        hagree.mono hall.toExtends.keepsContents
    · rw [hs₁.node_eq]
      exact hshown.nodes
  have hequal := endsEqual_of_matches t u hmatches (hv.mono hs₂.toExtends _) hw
  refine ⟨v, s₁, w, s₂, hfirst, hsecond, ?_⟩
  obtain ⟨o, rfl⟩ := hv.eq_object
  obtain ⟨p, rfl⟩ := hw.eq_object
  exact equal_of_endsEqual hequal

/-! ## What a duplicate shows -/

/-- Plain data, with no key of a map equal to another. -/
def Plain (s : Store) (v : Value) : Prop := ∃ t, s.Denotes v t ∧ t.Proper

/-- A copy of plain data has the same contents. -/
theorem Plain.copy (hv : s.Plain v) (hs : s.Extends s') (hcopy : s.CopyOf v s' w) : s'.SameContents v w := by
  obtain ⟨t, hvt, ht⟩ := hv
  exact ⟨t, hs.keepsContents v t hvt, hcopy t hvt, ht⟩

/-- A copy of a map of plain data is a map that agrees with it. -/
theorem Plain.copy_entries {es : Entries Value} (hv : s.Plain v) (hs : s.Extends s') (hcopy : s.Copied v s' w)
    (hes : s.entries? v = some es) : ∃ fs, s'.entries? w = some fs ∧ s'.MapsAgree s'.SameContents es fs := by
  obtain ⟨fs, hfs, hkeyed, hparts⟩ := hcopy.entries es hes
  obtain ⟨o, rfl, ho⟩ := entries?_eq_some.mp hes
  obtain ⟨t, ht, hproper⟩ := hv
  refine ⟨fs, hfs, ?_⟩
  cases ht with
  | scalar hscalar => cases hscalar
  | wrapper hwrapper => rw [ho] at hwrapper; cases hwrapper
  | @object _ l cs hlabel hlength hall =>
      obtain ⟨-, hcontents⟩ := (Denotes.object hlabel hlength hall).parts
      rw [ho] at hlabel hcontents
      cases Object.labelled hlabel with
      | map hkeyed' =>
          cases hproper with
          | parts hkeys hproper =>
              have hleft : List.Forall₂ s'.Denotes (entryValues es) cs := hcontents.imp hs.keepsContents
              exact mapsAgree_of_contents hleft (hparts.denotes hcontents) hkeyed' hkeyed hproper (hkeys rfl)

/-- A value that is null, and only such a one, has a copy that is null. -/
theorem SameContents.null_iff (h : s.SameContents v w) : v = .null ↔ w = .null := by
  obtain ⟨t, hv, hw, -⟩ := h
  have hnull {x : Value} (hx : s.Denotes x t) : x = .null ↔ t = .atom .null := by
    constructor
    · rintro rfl
      exact hx.unique (.scalar rfl)
    · rintro rfl
      exact hx.atom_eq
  exact (hnull hv).trans (hnull hw).symm

/-- Only texts are names of fields. -/
theorem mem_keys_ownFields {k : Key} (hk : k ∈ (s.ownFields n).keys) : k = .text "type" ∨ k = .text "value" := by
  rw [ownFields] at hk
  split at hk
  · exact Or.inl (List.mem_singleton.mp hk)
  · rcases List.mem_cons.mp hk with hk | hk
    · exact Or.inl hk
    · exact Or.inr (List.mem_singleton.mp hk)

theorem keys_ownFields {k : Key} (hk : k ∈ (s.ownFields n).keys) : ∃ x, k = .text x := by
  rcases mem_keys_ownFields hk with hk | hk
  · exact ⟨_, hk⟩
  · exact ⟨_, hk⟩

/-- Equal types and values that agree make fields that agree. -/
theorem ownFields_agree (htype : (s'.node c).type = (s.node n).type)
    (hvalue : s'.SameContents (s.node n).value (s'.node c).value) :
    s'.MapsAgree s'.ValuesAgree (s.ownFields n) (s'.ownFields c) := by
  have hnone : s'.MapsAgree s'.ValuesAgree ([] : Entries Value) [] := ⟨.nil, List.Pairwise.nil⟩
  have htyped := hnone.put (keysAgree_text s' "type") (Or.inl htype.symm) (fun _ hj => by cases hj)
  have hvalued := htyped.put (keysAgree_text s' "value") (Or.inr hvalue) fun _ _ => Or.inr (Or.inl ⟨_, rfl⟩)
  rw [ownFields, ownFields]
  by_cases hnull : (s.node n).value = .null
  · rw [if_pos hnull, if_pos (hvalue.null_iff.mp hnull)]
    exact htyped
  · rw [if_neg hnull, if_neg fun h => hnull (hvalue.null_iff.mpr h)]
    exact hvalued

/-- **A duplicate shows what the original shows**, if the payload is plain data. -/
theorem Duplicate.shownAlike (h : s.Duplicate s' n c) (hs : s.Extends s') (hn : n < s.nodes.size)
    (hvalue : s.Plain (s.node n).value) (hattr : s.Plain (s.node n).attr)
    (hmap : ∃ es, s.entries? (s.node n).attr = some es) :
    s'.ShownAlike s' s' n c ∧ ∃ fs, s'.entries? (s'.node c).attr = some fs := by
  obtain ⟨es, hes⟩ := hmap
  obtain ⟨fs, hfs, hagree⟩ := hattr.copy_entries hs h.attr hes
  have hsame : s'.node n = s.node n := hs.node n hn
  refine ⟨⟨?_, ?_⟩, fs, hfs⟩
  · have hown : s'.MapsAgree s'.ValuesAgree (s'.ownFields n) (s'.ownFields c) := by
      refine ownFields_agree (hsame ▸ h.type) ?_
      rw [hsame]
      exact hvalue.copy hs h.value.contents
    have hextra : s'.MapsAgree s'.ValuesAgree (s'.attributes n) (s'.attributes c) := by
      rw [attributes, attributes, hsame, entries?_mono hes hs.object, hfs]
      exact hagree.imp fun _ _ => Or.inr
    exact hown.putAll hextra fun j hj k _ => Or.inl (keys_ownFields hj)
  · rw [hsame]
    exact h.nodes

end Store
end SyntaxTree
