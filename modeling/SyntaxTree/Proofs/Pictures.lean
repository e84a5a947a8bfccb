import SyntaxTree.Proofs.MapEquality

/-!
# `Proofs.Pictures` — what nested maps say about the nodes

The map that is made of a node holds its fields and its extra attributes, all under names of one kind. It pictures the
tree below the node if type, value and children can be read off it, and those of the children off theirs (`Pictures`).

An extra attribute under the name of a field takes its place, or takes a place that is meant to be empty. Construction
and assignment give such a name to the field itself, but a merge puts it among the attributes. So the maps picture the
tree exactly if no node in it has been given an attribute that says something else than its field (`pictures_iff`), and
wherever no merge brings one of the names they do (`unshadowed_of_unstructured`).

Two maps that picture trees are equal only if the trees have equal types and values and one shape
(`matches_of_endsEqual`).
-/

namespace SyntaxTree

namespace Store

variable {s s' : Store} {n c : NodeId} {t u : Subtree} {v w : Value} {es fs : Entries Value} {o p : ObjectId}

/-! ## Pictures -/

/-- What is shown of the value of a node: null is not. -/
def valueShown (s : Store) (n : NodeId) : Option Value :=
  if (s.node n).value = .null then none else some (s.node n).value

mutual

/-- A map has the type of a node, the value unless it is null, and a list of pictures of the children unless the node
has no list of children. -/
def Pictures (s : Store) : Subtree → Value → Prop
  | .node n branches, v => ∃ o es, v = .object o ∧ s.object o = .map es ∧
      es.find? (.text "type") = some (s.node n).type ∧ es.find? (.text "value") = s.valueShown n ∧
      ((s.node n).nodes = none → es.find? (.text "nodes") = none) ∧
      ((s.node n).nodes ≠ none → ∃ l items, es.find? (.text "nodes") = some (.object l) ∧
        s.object l = .collection .list items ∧ s.PicturesAll branches items)

/-- As many maps picture the trees one by one. -/
def PicturesAll (s : Store) : List Subtree → List Value → Prop
  | [], vs => vs = []
  | t :: ts, vs => ∃ v rest, vs = v :: rest ∧ s.Pictures t v ∧ s.PicturesAll ts rest

end

/-- No extra attribute says something else than a field, or stands where the node has nothing to show. -/
structure Unshadowed (s : Store) (n : NodeId) : Prop where
  type : ∀ v, (s.attributes n).find? (.text "type") = some v → v = (s.node n).type
  value : ∀ v, (s.attributes n).find? (.text "value") = some v → v ≠ .null ∧ v = (s.node n).value
  nodes : (s.node n).nodes = none → (s.attributes n).find? (.text "nodes") = none

theorem or_eq_right_iff {α : Type} {x y : Option α} : x.or y = y ↔ ∀ a, x = some a → y = some a := by
  cases x with
  | none => simp
  | some a => simp [eq_comm]

theorem find?_ownFields (s : Store) (n : NodeId) :
    (s.ownFields n).find? (.text "type") = some (s.node n).type ∧
      (s.ownFields n).find? (.text "value") = s.valueShown n ∧ (s.ownFields n).find? (.text "nodes") = none := by
  rw [ownFields, valueShown]
  split <;> simp [Entries.find?]

/-- **A node without shadows shows its type and its value**, and only such a node does. -/
theorem shownFields_iff (hdistinct : ((s.attributes n).keys.map Key.counted).Nodup) :
    ((s.shownFields n).find? (.text "type") = some (s.node n).type ∧
      (s.shownFields n).find? (.text "value") = s.valueShown n ∧
      ((s.node n).nodes = none → (s.shownFields n).find? (.text "nodes") = none)) ↔ s.Unshadowed n := by
  obtain ⟨htype, hvalue, hnodes⟩ := s.find?_ownFields n
  rw [shownFields, Entries.find?_putAll hdistinct, Entries.find?_putAll hdistinct, Entries.find?_putAll hdistinct,
    htype, hvalue, hnodes, or_eq_right_iff, or_eq_right_iff, Option.or_none]
  have hshown (v : Value) : s.valueShown n = some v ↔ v ≠ .null ∧ v = (s.node n).value := by
    rw [valueShown]
    split
    · next hnull => simp [hnull]
    · next hnull =>
        constructor
        · rintro ⟨rfl⟩
          exact ⟨hnull, rfl⟩
        · rintro ⟨-, rfl⟩
          rfl
  constructor
  · rintro ⟨htype, hvalue, hnodes⟩
    exact ⟨fun v hv => (Option.some.inj (htype v hv)).symm, fun v hv => (hshown v).mp (hvalue v hv), hnodes⟩
  · rintro ⟨htype, hvalue, hnodes⟩
    exact ⟨fun v hv => congrArg some (htype v hv).symm, fun v hv => (hshown v).mpr (hvalue v hv), hnodes⟩

/-- The list of children takes no other place. -/
theorem find?_put_nodes {x : String} (hx : x ≠ "nodes") :
    (es.put (.text "nodes") v).find? (.text x) = es.find? (.text x) :=
  Entries.find?_put_of_ne _ _ fun heq => hx (Key.text.inj heq)

mutual

/-- **What is written of a tree pictures it exactly if no node in it is shadowed.** -/
theorem pictures_iff : (t : Subtree) → ∀ {v}, s.Shows t →
    (∀ m ∈ t.preorder, ((s.attributes m).keys.map Key.counted).Nodup) → s.Written (s.outlineOf t) v →
    (s.Pictures t v ↔ ∀ m ∈ t.preorder, s.Unshadowed m)
  | .node n branches, v, hshows, hdistinct, hwritten => by
      have hnode := shownFields_iff (hdistinct n (by simp [Subtree.preorder]))
      rw [outlineOf] at hwritten
      rw [Pictures, Subtree.preorder, List.forall_mem_cons, ← hnode]
      cases hnodes : (s.node n).nodes with
      | none =>
          rw [hnodes, Option.map_none, Written] at hwritten
          obtain ⟨o, rfl, ho⟩ := hwritten
          obtain rfl := hshows.branches_eq_nil hnodes
          constructor
          · rintro ⟨o', es, ho', hes, htype, hvalue, hbare, -⟩
            cases ho'
            cases ho.symm.trans hes
            exact ⟨⟨htype, hvalue, hbare⟩, fun m hm => by cases hm⟩
          · rintro ⟨⟨htype, hvalue, hbare⟩, -⟩
            exact ⟨o, _, rfl, ho, htype, hvalue, hbare, fun hsome => absurd rfl hsome⟩
      | some vs =>
          rw [hnodes, Option.map_some, Written] at hwritten
          obtain ⟨o, l, items, rfl, ho, hl, hitems⟩ := hwritten
          have hrest := picturesAll_iff branches (fun b hb => hshows.branch hb)
            (fun m hm => hdistinct m (by simp [Subtree.preorder, hm])) hitems
          rw [← hrest]
          constructor
          · rintro ⟨o', es, ho', hes, htype, hvalue, -, hlist⟩
            cases ho'
            cases ho.symm.trans hes
            obtain ⟨l', items', hfound, hl', hall⟩ := hlist (by simp)
            rw [Entries.find?_put_self] at hfound
            cases hfound
            cases hl.symm.trans hl'
            rw [find?_put_nodes (by decide)] at htype hvalue
            exact ⟨⟨htype, hvalue, fun hnone => (by cases hnone)⟩, hall⟩
          · rintro ⟨⟨htype, hvalue, -⟩, hall⟩
            refine ⟨o, _, rfl, ho, ?_, ?_, fun hnone => (by cases hnone), fun _ => ?_⟩
            · rw [find?_put_nodes (by decide), htype]
            · rw [find?_put_nodes (by decide), hvalue]
            · exact ⟨l, items, Entries.find?_put_self _ _ _, hl, hall⟩

theorem picturesAll_iff : (ts : List Subtree) → ∀ {vs}, (∀ t ∈ ts, s.Shows t) →
    (∀ m ∈ Subtree.preorderAll ts, ((s.attributes m).keys.map Key.counted).Nodup) →
    s.WrittenAll (s.outlinesOf ts) vs → (s.PicturesAll ts vs ↔ ∀ m ∈ Subtree.preorderAll ts, s.Unshadowed m)
  | [], vs, _, _, hwritten => by
      rw [outlinesOf, WrittenAll] at hwritten
      rw [PicturesAll, Subtree.preorderAll]
      exact ⟨fun _ m hm => (by cases hm), fun _ => hwritten⟩
  | t :: ts, vs, hshows, hdistinct, hwritten => by
      rw [outlinesOf, WrittenAll] at hwritten
      obtain ⟨v, rest, rfl, hv, hrest⟩ := hwritten
      have hfirst := pictures_iff t (hshows t (List.mem_cons_self ..))
        (fun m hm => hdistinct m (by simp [Subtree.preorderAll, hm])) hv
      have hothers := picturesAll_iff ts (fun u hu => hshows u (List.mem_cons_of_mem _ hu))
        (fun m hm => hdistinct m (by simp [Subtree.preorderAll, hm])) hrest
      rw [PicturesAll, Subtree.preorderAll, List.forall_mem_append, ← hfirst, ← hothers]
      constructor
      · rintro ⟨v', rest', heq, hv', hrest'⟩
        cases heq
        exact ⟨hv', hrest'⟩
      · rintro ⟨hv', hrest'⟩
        exact ⟨v, rest, rfl, hv', hrest'⟩

end

/-! ## Trees with equal maps -/

/-- Two nodes have equal types and equal values, and both have a list of children or neither has. -/
structure SameOwn (s : Store) (n c : NodeId) : Prop where
  type : s.samePart (s.node n).type (s.node c).type = .ok true
  value : s.samePart (s.node n).value (s.node c).value = .ok true
  nodes : (s.node n).nodes = none ↔ (s.node c).nodes = none

theorem regular_ownFields (s : Store) (n : NodeId) : (s.ownFields n).Regular where
  keyed e he := by
    obtain ⟨x, hx⟩ := keys_ownFields (List.mem_map_of_mem he)
    rw [hx]
    rfl
  distinct := by
    rw [ownFields]
    split <;> simp [Entries.keys]

/-- The map that is written of a node without shadows. -/
theorem Written.shown {branches : List Subtree} (h : s.Written (s.outlineOf (.node n branches)) v)
    (hn : s.Unshadowed n) (hattr : (s.attributes n).Regular) :
    ∃ o es, v = .object o ∧ s.object o = .map es ∧ es.Regular ∧
      (∀ k ∈ es.keys, k ∈ (s.attributes n).keys ∨ ∃ x, k = .text x) ∧
      es.find? (.text "type") = some (s.node n).type ∧ es.find? (.text "value") = s.valueShown n ∧
      ((s.node n).nodes = none ∧ es.find? (.text "nodes") = none ∨
        ∃ l items, (s.node n).nodes ≠ none ∧ es.find? (.text "nodes") = some (.object l) ∧
          s.object l = .collection .list items ∧ s.WrittenAll (s.outlinesOf branches) items) := by
  obtain ⟨htype, hvalue, hbare⟩ := (shownFields_iff hattr.distinct).mpr hn
  have hregular : (s.shownFields n).Regular := (regular_ownFields s n).putAll hattr.keyed
  have hkeys : ∀ k ∈ (s.shownFields n).keys, k ∈ (s.attributes n).keys ∨ ∃ x, k = .text x := fun k hk =>
    (Entries.mem_keys_putAll hk).symm.imp_right keys_ownFields
  rw [outlineOf] at h
  cases hnodes : (s.node n).nodes with
  | none =>
      rw [hnodes, Option.map_none, Written] at h
      obtain ⟨o, rfl, ho⟩ := h
      exact ⟨o, _, rfl, ho, hregular, hkeys, htype, hvalue, Or.inl ⟨rfl, hbare hnodes⟩⟩
  | some vs =>
      rw [hnodes, Option.map_some, Written] at h
      obtain ⟨o, l, items, rfl, ho, hl, hitems⟩ := h
      refine ⟨o, _, rfl, ho, hregular.put rfl, fun k hk => ?_, ?_, ?_, Or.inr ⟨l, items, ?_, ?_, hl, hitems⟩⟩
      · rcases mem_keys_put hk with hk | rfl
        · exact hkeys k hk
        · exact Or.inr ⟨_, rfl⟩
      · rw [find?_put_nodes (by decide), htype]
      · rw [find?_put_nodes (by decide), hvalue]
      · exact Option.some_ne_none vs
      · exact Entries.find?_put_self _ _ _

mutual

/-- **Trees whose maps are equal are alike at every place**, where no node is shadowed. -/
theorem matches_of_endsEqual : (t u : Subtree) → ∀ {v w}, s.Shows t → s.Shows u →
    (∀ m ∈ t.preorder, s.Unshadowed m ∧ (s.attributes m).Regular ∧ s.SeparateKeys (s.attributes m)) →
    (∀ m ∈ u.preorder, s.Unshadowed m ∧ (s.attributes m).Regular) →
    s.Written (s.outlineOf t) v → s.Written (s.outlineOf u) w → s.EndsEqual v w → t.Matches s.SameOwn u
  | .node n ts, .node c us, v, w, hts, hus, hclean, hclean', hv, hw, heq => by
      obtain ⟨hn, hregular, hseparate⟩ := hclean n (by simp [Subtree.preorder])
      obtain ⟨hc, hregular'⟩ := hclean' c (by simp [Subtree.preorder])
      obtain ⟨o, es, rfl, ho, hes, hkeys, htype, hvalue, hlist⟩ := hv.shown hn hregular
      obtain ⟨p, fs, rfl, hp, hfs, -, htype', hvalue', hlist'⟩ := hw.shown hc hregular'
      have hfind := heq.find?_text ho hp hes hfs (hseparate.of_texts hregular.keyed hkeys)
      have htypes := hfind "type"
      have hvalues := hfind "value"
      have hnodes := hfind "nodes"
      rw [htype, htype'] at htypes
      rw [hvalue, hvalue'] at hvalues
      have hsametype : s.samePart (s.node n).type (s.node c).type = .ok true := by
        cases htypes with
        | some h => exact endsEqual_samePart h
      have hsamevalue : s.samePart (s.node n).value (s.node c).value = .ok true := by
        rw [valueShown, valueShown] at hvalues
        split at hvalues
        · next hnull =>
            split at hvalues
            · next hnull' => rw [hnull, hnull']; rfl
            · cases hvalues
        · split at hvalues
          · cases hvalues
          · cases hvalues with
            | some h => exact endsEqual_samePart h
      rw [Subtree.Matches]
      rcases hlist with ⟨hnone, hbare⟩ | ⟨l, items, hsome, hfound, hl, hitems⟩
      · rcases hlist' with ⟨hnone', hbare'⟩ | ⟨l', items', hsome', hfound', hl', hitems'⟩
        · rw [hts.branches_eq_nil hnone, hus.branches_eq_nil hnone', Subtree.MatchesAll]
          exact ⟨⟨hsametype, hsamevalue, ⟨fun _ => hnone', fun _ => hnone⟩⟩, trivial⟩
        · rw [hbare, hfound'] at hnodes
          cases hnodes
      · rcases hlist' with ⟨hnone', hbare'⟩ | ⟨l', items', hsome', hfound', hl', hitems'⟩
        · rw [hfound, hbare'] at hnodes
          cases hnodes
        · rw [hfound, hfound'] at hnodes
          refine ⟨⟨hsametype, hsamevalue, ⟨fun h => absurd h hsome, fun h => absurd h hsome'⟩⟩, ?_⟩
          cases hnodes with
          | some hlists =>
              exact matchesAll_of_endsEqual ts us (fun b hb => hts.branch hb) (fun b hb => hus.branch hb)
                (fun m hm => hclean m (by simp [Subtree.preorder, hm]))
                (fun m hm => hclean' m (by simp [Subtree.preorder, hm])) hitems hitems' (hlists.lists hl hl')

theorem matchesAll_of_endsEqual : (ts us : List Subtree) → ∀ {vs ws}, (∀ t ∈ ts, s.Shows t) → (∀ u ∈ us, s.Shows u) →
    (∀ m ∈ Subtree.preorderAll ts, s.Unshadowed m ∧ (s.attributes m).Regular ∧ s.SeparateKeys (s.attributes m)) →
    (∀ m ∈ Subtree.preorderAll us, s.Unshadowed m ∧ (s.attributes m).Regular) → s.WrittenAll (s.outlinesOf ts) vs →
    s.WrittenAll (s.outlinesOf us) ws → List.Forall₂ s.EndsEqual vs ws → Subtree.MatchesAll s.SameOwn ts us
  | [], [], _, _, _, _, _, _, _, _, _ => by
      rw [Subtree.MatchesAll]
      trivial
  | t :: ts, u :: us, vs, ws, hts, hus, hclean, hclean', hvs, hws, heq => by
      rw [outlinesOf, WrittenAll] at hvs hws
      obtain ⟨v, vs, rfl, hv, hvs⟩ := hvs
      obtain ⟨w, ws, rfl, hw, hws⟩ := hws
      cases heq with
      | cons hfirst hrest =>
          rw [Subtree.MatchesAll]
          constructor
          · exact matches_of_endsEqual t u (hts t (List.mem_cons_self ..)) (hus u (List.mem_cons_self ..))
              (fun m hm => hclean m (by simp [Subtree.preorderAll, hm]))
              (fun m hm => hclean' m (by simp [Subtree.preorderAll, hm])) hv hw hfirst
          · exact matchesAll_of_endsEqual ts us (fun b hb => hts b (List.mem_cons_of_mem _ hb))
              (fun b hb => hus b (List.mem_cons_of_mem _ hb))
              (fun m hm => hclean m (by simp [Subtree.preorderAll, hm]))
              (fun m hm => hclean' m (by simp [Subtree.preorderAll, hm])) hvs hws hrest
  | [], u :: us, vs, ws, _, _, _, _, hvs, hws, heq => by
      rw [outlinesOf, WrittenAll] at hvs
      rw [outlinesOf, WrittenAll] at hws
      obtain ⟨w, ws, rfl, -⟩ := hws
      rw [hvs] at heq
      cases heq
  | t :: ts, [], vs, ws, _, _, _, _, hvs, hws, heq => by
      rw [outlinesOf, WrittenAll] at hvs
      rw [outlinesOf, WrittenAll] at hws
      obtain ⟨v, vs, rfl, -⟩ := hvs
      rw [hws] at heq
      cases heq

end

/-! ## In a store with more objects -/

theorem Mapped.allocates {ms : List NodeId} (h : s.Mapped ms) (hs : s.Allocates s') : s'.Mapped ms := fun m hm => by
  obtain ⟨es, hes⟩ := h m hm
  exact ⟨es, hs.node_eq m ▸ entries?_mono hes hs.object⟩

theorem Shows.allocates (h : s.Shows t) (hs : s.Allocates s') : s'.Shows t :=
  h.congr fun m _ => by rw [Store.children, hs.node_eq, Store.children]

theorem unshadowed_allocates (hs : s.Allocates s') (h : ∃ es, s.entries? (s.node n).attr = some es) :
    s'.Unshadowed n ↔ s.Unshadowed n := by
  have hattributes := attributes_allocates hs h
  have hnode := hs.node_eq n
  constructor
  · rintro ⟨htype, hvalue, hnodes⟩
    rw [hattributes, hnode] at htype hvalue hnodes
    exact ⟨htype, hvalue, hnodes⟩
  · rintro ⟨htype, hvalue, hnodes⟩
    rw [← hattributes, ← hnode] at htype hvalue hnodes
    exact ⟨htype, hvalue, hnodes⟩

mutual

theorem outlineOf_allocates (hs : s.Allocates s') : (t : Subtree) → s.Mapped t.preorder →
    s'.outlineOf t = s.outlineOf t
  | .node n branches, hmaps => by
      rw [outlineOf, outlineOf, hs.node_eq, shownFields_allocates hs (hmaps n (by simp [Subtree.preorder])),
        outlinesOf_allocates hs branches fun m hm => hmaps m (by simp [Subtree.preorder, hm])]

theorem outlinesOf_allocates (hs : s.Allocates s') : (ts : List Subtree) → s.Mapped (Subtree.preorderAll ts) →
    s'.outlinesOf ts = s.outlinesOf ts
  | [], _ => rfl
  | t :: ts, hmaps => by
      rw [outlinesOf, outlinesOf, outlineOf_allocates hs t fun m hm => hmaps m (by simp [Subtree.preorderAll, hm]),
        outlinesOf_allocates hs ts fun m hm => hmaps m (by simp [Subtree.preorderAll, hm])]

end

/-- A tree without a way round is no deeper than there are nodes. -/
theorem Shows.depth_le {alive : NodeId → Prop} (h : s.Shows t) (hacyclic : s.Acyclic alive) (ht : alive t.root) :
    t.depth ≤ s.nodes.size := by
  refine Nat.le_trans ?_ (card_below_le s t.root)
  induction h with
  | @node n branches hchildren hbranches ih =>
      have hbranch (b : Subtree) (hb : b ∈ branches) : b.depth < (s.below n).card := by
        have hheld : s.Holds n b.root := (Shows.node hchildren hbranches).holds hb
        exact Nat.lt_of_le_of_lt (ih b hb (hacyclic.alive_of_holds ht hheld)) (card_below_lt hacyclic ht hheld)
      rw [Subtree.depth]
      have hpos := card_below_pos hacyclic ht
      have hall : Subtree.depthAll branches ≤ (s.below n).card - 1 :=
        Subtree.depthAll_le.mpr fun b hb => Nat.le_sub_one_of_lt (hbranch b hb)
      exact (Nat.succ_le_succ hall).trans (Nat.le_of_eq (Nat.succ_pred_eq_of_pos hpos))

/-! ## Where the attributes come from -/

/-- A key under which no field is shown. -/
def Unstructured (key : Key) : Prop := ∀ name ∈ ["type", "value", "nodes"], key ≠ .text name

theorem admits_any : Admits fun _ _ => True := ⟨fun _ => trivial, fun _ _ _ => trivial⟩

/-- Neither construction nor assignment makes an attribute of what has the name of a field. -/
theorem admits_unstructured : Admits fun _ key => Unstructured key where
  given h name hname := by
    have hfield : ∀ name ∈ ["type", "value", "nodes"], name ∈ fieldNames := by decide
    exact h.2 name (hfield name hname)
  assigned cls name h := by
    intro other hother heq
    cases heq
    simp only [List.mem_cons, List.not_mem_nil, or_false] at hother
    rcases hother with rfl | rfl | rfl <;> cases h

variable {allowed : NodeClass → Key → Prop}

theorem Attributed.isMap_attributes (h : s.Attributed allowed) (hn : n < s.nodes.size) :
    (∃ es, s.entries? (s.node n).attr = some es) ∧ s.IsMap (s.attributes n) ∧
      ∀ k ∈ (s.attributes n).keys, allowed (s.node n).cls k := by
  obtain ⟨m, es, hattr, hm, hkeys⟩ := h.attr n hn
  have hes : s.entries? (s.node n).attr = some es := by rw [hattr, entries?, object?, hm]
  rw [attributes, hes]
  exact ⟨⟨es, rfl⟩, h.maps m es hm, hkeys⟩

theorem unshadowed_of_unstructured (h : ∀ k ∈ (s.attributes n).keys, Unstructured k) : s.Unshadowed n := by
  have hnone {name : String} (hname : name ∈ ["type", "value", "nodes"]) :
      (s.attributes n).find? (.text name) = none := by
    refine Entries.find?_eq_none fun k hk hcounted => ?_
    exact h k hk name hname (eq_text_of_counted hcounted)
  refine ⟨fun v hv => ?_, fun v hv => ?_, fun _ => hnone (by decide)⟩
  · rw [hnone (by decide)] at hv
    cases hv
  · rw [hnone (by decide)] at hv
    cases hv

end Store

namespace Event

open Store Relation

variable {s : Store} {n n' : NodeId}

/-- A node without a way round shows a tree of nodes that have maps for their attributes. -/
theorem tree_of_acyclic {allowed : NodeClass → Key → Prop} (h : s.Attributed allowed)
    (hn : s.Acyclic (ReflTransGen s.Holds n)) :
    ∃ t, s.Shows t ∧ t.root = n ∧ (∀ m ∈ t.preorder, m < s.nodes.size) ∧ s.Mapped t.preorder ∧
      t.depth ≤ s.nodes.size + 1 := by
  obtain ⟨t, -, rfl, hshows⟩ := subtree_of_acyclic hn "to_dict" .refl
  have hmade : ∀ m ∈ t.preorder, m < s.nodes.size := fun m hm => hn.exist m (hshows.down hm)
  exact ⟨t, hshows, rfl, hmade, fun m hm => (h.isMap_attributes (hmade m hm)).1,
    (hshows.depth_le hn .refl).trans (Nat.le_succ _)⟩

/-- The map of such a tree is written. -/
theorem toMap_written (h : s.Attributed fun _ _ => True) (hn : s.Acyclic (ReflTransGen s.Holds n)) :
    ∃ t, s.Shows t ∧ t.root = n ∧ (∀ m ∈ t.preorder, m < s.nodes.size) ∧
      ∀ {s₁}, s.Allocates s₁ → ∃ d s₂, (Action.toMap (.node n)).perform s₁ = .ok d s₂ ∧ s₁.Allocates s₂ ∧
        s₂.Shows t ∧ s₂.Written (s₂.outlineOf t) d := by
  obtain ⟨t, hshows, rfl, hmade, hmaps, hdepth⟩ := tree_of_acyclic h hn
  refine ⟨t, hshows, rfl, hmade, fun {s₁} hs₁ => ?_⟩
  obtain ⟨d, s₂, hmap, hs₂, hwritten⟩ := toMap_ok (hshows.allocates hs₁) (hmaps.allocates hs₁) (hs₁.nodes ▸ hdepth)
  refine ⟨d, s₂, hmap, hs₂, hshows.allocates (hs₁.trans hs₂), ?_⟩
  rwa [outlineOf_allocates hs₂ t (hmaps.allocates hs₁)]

/-- **The map of a tree pictures it exactly if no node is shadowed**, and no node is if nothing that was merged had the
name of a field. Two trees that are pictured by equal maps have equal types and values at every place, and one shape. -/
theorem toMap_pictures_iff (h : Reached (fun _ _ => True) s) (hn : s.Acyclic (ReflTransGen s.Holds n)) :
    ∃ t d s₁, s.Shows t ∧ t.root = n ∧ (Action.toMap (.node n)).perform s = .ok d s₁ ∧ s.Allocates s₁ ∧
      (s₁.Pictures t d ↔ ∀ m ∈ t.preorder, s.Unshadowed m) ∧
      (Reached (fun _ key => Unstructured key) s → ∀ m ∈ t.preorder, s.Unshadowed m) ∧
      ∀ n', s.Acyclic (ReflTransGen s.Holds n') → ∃ u d' s₂, s.Shows u ∧ u.root = n' ∧
        (Action.toMap (.node n')).perform s₁ = .ok d' s₂ ∧ s₁.Allocates s₂ ∧
        ((∀ m ∈ t.preorder, s.Unshadowed m ∧ s₂.SeparateKeys (s.attributes m)) → (∀ m ∈ u.preorder, s.Unshadowed m) →
          s₂.equal d d' = .ok true → t.Matches s₂.SameOwn u) := by
  have hattr := reached_attributed admits_any h
  obtain ⟨t, hshows, hroot, hmade, hwrite⟩ := toMap_written hattr hn
  obtain ⟨d, s₁, hmap, hs₁, hshows₁, hwritten⟩ := hwrite (.refl s)
  have hnode {s' : Store} (hs : s.Allocates s') {m : NodeId} (hm : m < s.nodes.size) :
      s'.attributes m = s.attributes m ∧ (s'.Unshadowed m ↔ s.Unshadowed m) ∧ (s.attributes m).Regular := by
    obtain ⟨hmapped, hmap, -⟩ := hattr.isMap_attributes hm
    exact ⟨attributes_allocates hs hmapped, unshadowed_allocates hs hmapped, hmap.toRegular⟩
  refine ⟨t, d, s₁, hshows, hroot, hmap, hs₁, ?_, fun hreached m hm => ?_, fun n' hn' => ?_⟩
  · rw [pictures_iff t hshows₁ (fun m hm => ?_) hwritten]
    · exact forall₂_congr fun m hm => (hnode hs₁ (hmade m hm)).2.1
    · obtain ⟨hsame, -, hregular⟩ := hnode hs₁ (hmade m hm)
      rw [hsame]
      exact hregular.distinct
  · have hkeys := ((reached_attributed admits_unstructured hreached).isMap_attributes (hmade m hm)).2.2
    exact unshadowed_of_unstructured hkeys
  · obtain ⟨u, hshows', hroot', hmade', hwrite'⟩ := toMap_written hattr hn'
    obtain ⟨d', s₂, hmap', hs₂, hshows₂, hwritten'⟩ := hwrite' hs₁
    have hall := hs₁.trans hs₂
    refine ⟨u, d', s₂, hshows', hroot', hmap', hs₂, fun hclean hclean' hequal => ?_⟩
    have hwritten₂ : s₂.Written (s₂.outlineOf t) d := by
      rw [outlineOf_allocates hall t fun m hm => (hattr.isMap_attributes (hmade m hm)).1,
        ← outlineOf_allocates hs₁ t fun m hm => (hattr.isMap_attributes (hmade m hm)).1]
      exact hwritten.mono hs₂.toExtends _
    refine matches_of_endsEqual t u (hshows.allocates hall) hshows₂ (fun m hm => ?_) (fun m hm => ?_) hwritten₂
      hwritten' (endsEqual_of_equal hequal)
    · obtain ⟨hsame, hiff, hregular⟩ := hnode hall (hmade m hm)
      rw [hsame]
      exact ⟨hiff.mpr (hclean m hm).1, hregular, (hclean m hm).2⟩
    · obtain ⟨hsame, hiff, hregular⟩ := hnode hall (hmade' m hm)
      rw [hsame]
      exact ⟨hiff.mpr (hclean' m hm), hregular⟩

theorem reached_empty (allowed : NodeClass → Key → Prop) : Reached allowed .empty := .start rfl fun o es ho => by
  rw [object_of_size_le _ (Nat.zero_le o)] at ho
  cases ho

/-- A node is made of a map, and another one becomes its child. -/
def planting : List Event :=
  [.make (.map [(.text "type", .text "a"), (.text "line", .int 3)]),
   .act (.create .node ⟨.object 0, .null, .null, .null⟩), .act (.create .node ⟨.text "x", .text "b", .null, .null⟩),
   .act (.push (.node 0) (.node 1))]

/-- The store after that. -/
def planted : Store := (performAll planting .empty).2

variable {allowed : NodeClass → Key → Prop} {name : String}

theorem permitted_unplaced (s : Store) (value type : Value) :
    Permitted allowed s (.act (.create .node ⟨value, type, .null, .null⟩)) :=
  .create .node _ fun hcalled => absurd rfl hcalled

/-- Merging one name brings in nothing else. -/
theorem permitted_merge (hallowed : ∀ cls, allowed cls (.text name)) (s : Store) (n : NodeId) :
    Permitted allowed s (.act (.setAttributes (.node n) .null [(.text name, .text "c")])) := by
  have htexts : ∀ k ∈ Entries.keys [(Key.text name, Value.text "c")], k.isText = true := fun k hk =>
    List.mem_singleton.mp hk ▸ rfl
  refine .change (.merge n .null [(.text name, .text "c")] (fun e he => List.mem_singleton.mp he ▸ rfl)
    (.of_texts htexts) fun es hes k hk _ => ?_)
  cases hes
  rw [List.mem_singleton.mp hk]
  exact hallowed _

theorem reached_planted : Reached allowed planted := by
  have hfields : ∀ es, Object.map [(.text "type", .text "a"), (.text "line", .int 3)] = .map es →
      Store.empty.IsMap es := by
    intro es hes
    cases hes
    exact .of_texts (by decide) (by decide)
  have h₁ := (reached_empty allowed).step (.make _ hfields)
  have h₂ := h₁.step (permitted_unplaced _ (.object 0) .null)
  have h₃ := h₂.step (permitted_unplaced _ (.text "x") (.text "b"))
  exact h₃.step (.change (.push 0 (.node 1)))

/-- Then the node is given an attribute by a merge. -/
def merged (name : String) : Store :=
  (performAll (planting ++ [.act (.setAttributes (.node 0) .null [(.text name, .text "c")])]) .empty).2

theorem reached_merged (hallowed : ∀ cls, allowed cls (.text name)) : Reached allowed (merged name) :=
  reached_planted.step (permitted_merge hallowed _ 0)

/-- Two nodes are made alike, and given the same note. -/
def twins : Store :=
  (performAll [.act (.create .node ⟨.text "x", .text "b", .null, .null⟩),
    .act (.create .node ⟨.text "x", .text "b", .null, .null⟩),
    .act (.setAttributes (.node 0) .null [(.text "note", .text "c")]),
    .act (.setAttributes (.node 1) .null [(.text "note", .text "c")])] .empty).2

theorem reached_twins (hallowed : ∀ cls, allowed cls (.text "note")) : Reached allowed twins := by
  have h₁ := (reached_empty allowed).step (permitted_unplaced _ (.text "x") (.text "b"))
  have h₂ := h₁.step (permitted_unplaced _ (.text "x") (.text "b"))
  exact (h₂.step (permitted_merge hallowed _ 0)).step (permitted_merge hallowed _ 1)

/-- The tree that both stores show. -/
theorem shows_planted {s : Store} (h₀ : s.children 0 = [.node 1]) (h₁ : s.children 1 = []) :
    s.Shows (.node 0 [.node 1 []]) := by
  refine .node h₀ fun t ht => ?_
  rw [List.mem_singleton.mp ht]
  exact .node h₁ fun t ht => by cases ht

theorem acyclic_planted {s : Store} (h₀ : s.children 0 = [.node 1]) (h₁ : s.children 1 = [])
    (hsize : s.nodes.size = 2) : s.Acyclic (ReflTransGen s.Holds 0) :=
  (shows_planted h₀ h₁).acyclic fun m hm => by
    rw [hsize]
    have hm : m = 0 ∨ m = 1 := by simpa [Subtree.preorder, Subtree.preorderAll] using hm
    rcases hm with rfl | rfl <;> decide

/-- A name that is none of a field does no harm; and two nodes that are made alike have equal maps, so they match. -/
theorem toMap_pictures_merged : Reached (fun _ _ => True) (merged "note") ∧
    (merged "note").Acyclic (ReflTransGen (merged "note").Holds 0) ∧
      (∃ t d s₁, t.root = 0 ∧ (Action.toMap (.node 0)).perform (merged "note") = .ok d s₁ ∧ s₁.Pictures t d) ∧
      ∃ d d' s₁ s₂, (Action.toMap (.node 0)).perform twins = .ok d s₁ ∧
        (Action.toMap (.node 1)).perform s₁ = .ok d' s₂ ∧ s₂.equal d d' = .ok true ∧
          (Subtree.node 0 []).Matches s₂.SameOwn (.node 1 []) := by
  have hreached : Reached (fun _ _ => True) (merged "note") := reached_merged fun _ => trivial
  have hacyclic := acyclic_planted (s := merged "note") rfl rfl rfl
  have hnote : ∀ _ : NodeClass, Unstructured (.text "note") := fun _ name hname heq => by
    cases heq
    exact absurd hname (by decide)
  refine ⟨hreached, hacyclic, ?_, ?_⟩
  · obtain ⟨t, d, s₁, -, hroot, hmap, -, hiff, hclean, -⟩ := toMap_pictures_iff hreached hacyclic
    exact ⟨t, d, s₁, hroot, hmap, hiff.mpr (hclean (reached_merged hnote))⟩
  · have hbare {n : NodeId} (hn : twins.children n = []) : twins.Shows (.node n []) := .node hn fun t ht => by cases ht
    have hacyclic' {n : NodeId} (hlt : n < 2) (hn : twins.children n = []) : twins.Acyclic (ReflTransGen twins.Holds n) :=
      (hbare hn).acyclic fun m hm => List.mem_singleton.mp hm ▸ hlt
    obtain ⟨t, d, s₁, ht, hroot, hmap, -, -, hclean, hothers⟩ :=
      toMap_pictures_iff (reached_twins fun _ => trivial) (hacyclic' (n := 0) (by decide) rfl)
    obtain ⟨u, d', s₂, hu, hroot', hmap', -, hmatches⟩ := hothers 1 (hacyclic' (by decide) rfl)
    obtain rfl := ht.unique (hbare rfl) hroot
    obtain rfl := hu.unique (hbare rfl) hroot'
    have hmaps : s₂.equal d d' = .ok true := by
      have hfirst : (Action.toMap (.node 0)).perform twins =
          .ok (.object 2) (Run.after ((Action.toMap (.node 0)).perform twins)) := rfl
      cases hfirst.symm.trans hmap
      cases hmap'
      rfl
    refine ⟨d, d', s₁, s₂, hmap, hmap', hmaps, hmatches (fun m hm => ⟨hclean (reached_twins hnote) m hm, ?_⟩)
      (fun m hm => ?_) hmaps⟩
    · -- there is but one key
      obtain rfl := List.mem_singleton.mp hm
      exact fun k hk k' hk' _ _ _ => (List.mem_singleton.mp hk).trans (List.mem_singleton.mp hk').symm
    · obtain rfl := List.mem_singleton.mp hm
      exact unshadowed_of_unstructured fun k hk => List.mem_singleton.mp hk ▸ hnote .node

/-- **A type that is merged takes the place of the type**: the map does not picture the node. -/
theorem toMap_merged_type : ¬ ∀ (s : Store) (n : NodeId), Reached (fun _ _ => True) s →
    s.Acyclic (ReflTransGen s.Holds n) →
      ∃ t d s₁, t.root = n ∧ (Action.toMap (.node n)).perform s = .ok d s₁ ∧ s₁.Pictures t d := by
  intro h
  obtain ⟨⟨n, branches⟩, d, s₁, hroot, hmap, hpictures⟩ := h (merged "type") 0 (reached_merged fun _ => trivial)
    (acyclic_planted rfl rfl rfl)
  have hwritten : (Action.toMap (.node 0)).perform (merged "type") =
      .ok (.object 5) (Run.after ((Action.toMap (.node 0)).perform (merged "type"))) := rfl
  cases hroot
  cases hwritten.symm.trans hmap
  rw [Pictures] at hpictures
  obtain ⟨o, es, ho, hes, htype, -⟩ := hpictures
  cases ho
  cases (rfl : Object.map [(.text "type", .text "c"), (.text "line", .int 3), (.text "nodes", .object 4)] = _).trans hes
  have hsame : some (Value.text "c") = some (.text "a") := htype
  exact absurd hsame (by decide)

end Event
end SyntaxTree
