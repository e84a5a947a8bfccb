import SyntaxTree.Proofs.Remaking
import SyntaxTree.Proofs.Searching

/-!
# `Proofs.Rebuilding` — construction undoes the making of maps

A tree that is made anew from the map of another one shows the same at every place (`rebuild_restores`): types, values
and extra attributes are the same, and parents and indices are as they should be. So its own map is written of the same
outline, and all maps that are written of one outline are equal (`endsEqual_of_written`).

It takes that every key can be told from the names of fields. Construction and assignment let no other key through. But
what is kept out depends on the class, and a class can be changed later: a node can have an attribute with the name of a
computed property from a class that does not reserve it, and this one is lost (`rebuild_converted`).
-/

namespace SyntaxTree

namespace Subtree

variable {R : NodeId → NodeId → Prop}

mutual

theorem Matches.depth_eq : {t u : Subtree} → t.Matches R u → u.depth = t.depth
  | .node n ts, .node c us, h => by
      rw [Matches] at h
      rw [depth, depth, h.2.depthAll_eq]

theorem MatchesAll.depthAll_eq : {ts us : List Subtree} → MatchesAll R ts us → depthAll us = depthAll ts
  | [], [], _ => rfl
  | t :: ts, u :: us, h => by
      rw [MatchesAll] at h
      rw [depthAll, depthAll, h.1.depth_eq, h.2.depthAll_eq]
  | [], _ :: _, h => by rw [MatchesAll] at h; exact h.elim
  | _ :: _, [], h => by rw [MatchesAll] at h; exact h.elim

end

end Subtree

namespace Store

variable {s s' s₀ : Store} {n c p : NodeId} {t u : Subtree} {v : Value} {es : Entries Value}

/-! ## As many objects as levels -/

mutual

/-- Every level of a tree takes an object at least when its map is written. -/
theorem writeOutline_depth : (t : Subtree) → ∀ {s s' : Store} {v : Value}, s₀.Shows t →
    writeOutline (s₀.outlineOf t) s = .ok v s' → s.objects.size + t.depth ≤ s'.objects.size
  | .node n branches, s, s', v, hshows, hrun => by
      rw [outlineOf] at hrun
      rw [Subtree.depth]
      cases hnodes : (s₀.node n).nodes with
      | none =>
          obtain rfl := hshows.branches_eq_nil hnodes
          rw [hnodes, Option.map_none, writeOutline] at hrun
          cases hrun
          exact Nat.le_of_eq (size_addObject s _).symm
      | some l =>
          rw [hnodes, Option.map_some, writeOutline] at hrun
          obtain ⟨items, s₁, hitems, -⟩ := writeOutlines_ok (s₀.outlinesOf branches) s
          have hdepth := writeOutlines_depth branches (fun b hb => hshows.branch hb) hitems
          rw [Run.bind_of_ok hitems] at hrun
          cases hrun
          rw [size_addObject, size_addObject]
          omega

theorem writeOutlines_depth : (ts : List Subtree) → ∀ {s s' : Store} {vs : List Value}, (∀ t ∈ ts, s₀.Shows t) →
    writeOutlines (s₀.outlinesOf ts) s = .ok vs s' → s.objects.size + Subtree.depthAll ts ≤ s'.objects.size
  | [], s, s', vs, _, hrun => by
      rw [outlinesOf, writeOutlines] at hrun
      cases hrun
      exact Nat.le_refl _
  | t :: ts, s, s', vs, hshows, hrun => by
      obtain ⟨ht, hts⟩ := List.forall_mem_cons.mp hshows
      rw [outlinesOf, writeOutlines] at hrun
      obtain ⟨v, s₁, hv, hs₁, -⟩ := writeOutline_ok (s₀.outlineOf t) s
      obtain ⟨rest, s₂, hrest, hs₂, -⟩ := writeOutlines_ok (s₀.outlinesOf ts) s₁
      rw [Run.bind_of_ok hv, Run.bind_of_ok hrest] at hrun
      cases hrun
      have hfirst := writeOutline_depth t ht hv
      have hothers := writeOutlines_depth ts hts hrest
      have hmore := hs₁.objects
      have hmore' := hs₂.objects
      rw [Subtree.depthAll]
      omega

end

/-- A map of a tree is no deeper than there are objects after it is written. -/
theorem toMap_depth (h : s.Shows t) (hmaps : s.Mapped t.preorder) (hdepth : t.depth ≤ s.nodes.size + 1)
    (hrun : toMap t.root s = .ok v s') : t.depth ≤ s'.objects.size := by
  have houtline : s.outline t.root = .ok (s.outlineOf t) := outlineWithin_eq h hmaps hdepth
  rw [toMap, Run.bind_of_ok (Run.check_of_ok houtline)] at hrun
  exact (Nat.le_add_left _ _).trans (writeOutline_depth t h hrun)

/-! ## Links of new trees -/

/-- **The index of a node that is linked well is its position.** -/
theorem LinkedFrom.reads_index {b : NodeId} {i : Nat} (h : s.LinkedFrom b) (hp : b ≤ p)
    (hi : (s.children p)[i]? = some (.node c)) : s.Reads c "index" (.int i) := by
  obtain ⟨hparent, hhint⟩ := h p hp i c hi
  have hmem := List.mem_of_getElem? hi
  -- there is no other position of it, since it has but one hint
  have hscan : s.scanned (s.children p) c = .int i := by
    obtain ⟨place, hplace, hscan⟩ := scanned_of_mem s hmem
    rw [hscan, ← (h p hp place c hplace).2, hhint]
  have hlocate := locate_of_position (siblings_of_mem hparent hmem) hhint hi hscan
  rw [Reads, perform_read, readNode_index, readIndex, Run.recover_of_ok hlocate]
  rfl

/-! ## Maps of one tree -/

/-- The fields have different names, of which none is that of the list of children. -/
structure Clear (s : Store) (es : Entries Value) : Prop where
  isMap : s.IsMap es
  nodes : es.find? (.text "nodes") = none

theorem Clear.put_nodes (h : s.Clear es) (v : Value) :
    es.put (.text "nodes") v = es ++ [(.text "nodes", v)] ∧ Differing s.samePart (es ++ [(.text "nodes", v)]) := by
  have hput : es.put (.text "nodes") v = es ++ [(.text "nodes", v)] := Entries.put_of_find?_eq_none h.nodes
  have hmap : s.IsMap (es.put (.text "nodes") v) := h.isMap.put rfl (keyable_text s "nodes") v
  exact ⟨hput, (hput ▸ hmap).differing⟩

theorem Restorable.clear (h : s₀.Restorable n) (hs : s₀.Lasts s) : s.Clear (s₀.shownFields n) where
  isMap := by
    have htexts : ∀ k ∈ (s₀.ownFields n).keys, k.isText = true := fun k hk => Key.isText_iff.mpr (keys_ownFields hk)
    have hregular : (s₀.shownFields n).Regular := (regular_ownFields s₀ n).putAll h.isMap.keyed
    rw [h.shownFields_eq.1] at hregular ⊢
    exact (h.isMap.mono hs).append_texts (.of_texts htexts (regular_ownFields s₀ n).distinct) htexts hregular.distinct
  nodes := h.shownFields_eq.2

mutual

/-- **All maps that are written of one outline are equal.** -/
theorem endsEqual_of_written : (t : Subtree) → ∀ {v w : Value}, (∀ m ∈ t.preorder, s.Clear (s₀.shownFields m)) →
    s.Written (s₀.outlineOf t) v → s.Written (s₀.outlineOf t) w → s.EndsEqual v w
  | .node n branches, v, w, hfields, hv, hw => by
      have hn := hfields n (Subtree.root_mem_preorder (.node n branches))
      have hown : List.Forall₂ (fun e f : Key × Value => f.1 = e.1 ∧ s.EndsEqual e.2 f.2) (s₀.shownFields n)
          (s₀.shownFields n) := List.forall₂_same.mpr fun e _ => ⟨rfl, .refl s e.2⟩
      rw [outlineOf] at hv hw
      cases hnodes : (s₀.node n).nodes with
      | none =>
          rw [hnodes, Option.map_none, Written] at hv hw
          obtain ⟨o, rfl, ho⟩ := hv
          obtain ⟨p, rfl, hp⟩ := hw
          exact endsEqual_maps ho hp hown hn.isMap.differing
      | some l =>
          rw [hnodes, Option.map_some, Written] at hv hw
          obtain ⟨o, o', vs, rfl, ho, ho', hvs⟩ := hv
          obtain ⟨p, p', ws, rfl, hp, hp', hws⟩ := hw
          obtain ⟨hput, hdiffering⟩ := hn.put_nodes (.object o')
          obtain ⟨hput', -⟩ := hn.put_nodes (.object p')
          have hitems := endsEqual_of_writtenAll branches (fun m hm => hfields m (List.mem_cons_of_mem n hm)) hvs hws
          have hlists : s.EndsEqual (.object o') (.object p') :=
            endsEqual_objects (by rw [ho', hp']; exact equalLists_of_endsEqual hitems)
          rw [hput] at ho
          rw [hput'] at hp
          exact endsEqual_maps ho hp (List.rel_append hown (.cons ⟨rfl, hlists⟩ .nil)) hdiffering

theorem endsEqual_of_writtenAll : (ts : List Subtree) → ∀ {vs ws : List Value},
    (∀ m ∈ Subtree.preorderAll ts, s.Clear (s₀.shownFields m)) →
    s.WrittenAll (s₀.outlinesOf ts) vs → s.WrittenAll (s₀.outlinesOf ts) ws → List.Forall₂ s.EndsEqual vs ws
  | [], vs, ws, _, hvs, hws => by
      rw [outlinesOf, WrittenAll] at hvs hws
      rw [hvs, hws]
      exact .nil
  | t :: ts, vs, ws, hfields, hvs, hws => by
      rw [outlinesOf, WrittenAll] at hvs hws
      obtain ⟨v, vs, rfl, hv, hvs⟩ := hvs
      obtain ⟨w, ws, rfl, hw, hws⟩ := hws
      rw [Subtree.preorderAll] at hfields
      exact .cons (endsEqual_of_written t (fun m hm => hfields m (List.mem_append_left _ hm)) hv hw)
        (endsEqual_of_writtenAll ts (fun m hm => hfields m (List.mem_append_right _ hm)) hvs hws)

end

/-! ## What new trees show -/

theorem Restored.shownFields_eq (h : s₀.Restored s n c) : s.shownFields c = s₀.shownFields n := by
  obtain ⟨m, hattr, hm⟩ := h.attr
  have hattributes : s.attributes c = s₀.attributes n := by
    rw [attributes, hattr, entries?, object?, hm, Option.getD_some]
  rw [shownFields, shownFields, hattributes, ownFields, ownFields, h.type, h.value]

mutual

theorem outlineOf_restored : (t u : Subtree) → t.Matches (s₀.Restored s) u →
    (∀ m ∈ t.preorder, (s₀.node m).nodes ≠ some []) → s.outlineOf u = s₀.outlineOf t
  | .node n ts, .node c us, hmatched, hlists => by
      rw [Subtree.Matches] at hmatched
      obtain ⟨hrestored, hmatched⟩ := hmatched
      have hbranches := outlinesOf_restored ts us hmatched fun m hm => hlists m (List.mem_cons_of_mem n hm)
      have hlist := hlists n (Subtree.root_mem_preorder (.node n ts))
      have hnodes := hrestored.nodes
      rw [outlineOf, outlineOf, hrestored.shownFields_eq, hbranches]
      rw [children] at hnodes
      cases hn : (s₀.node n).nodes with
      | none =>
          rw [hn] at hnodes
          rw [hnodes.mpr rfl]
      | some l =>
          rw [hn] at hnodes hlist
          obtain ⟨l', hc⟩ := Option.ne_none_iff_exists'.mp fun hnone => hlist (congrArg some (hnodes.mp hnone))
          rw [hc]
          rfl

theorem outlinesOf_restored : (ts us : List Subtree) → Subtree.MatchesAll (s₀.Restored s) ts us →
    (∀ m ∈ Subtree.preorderAll ts, (s₀.node m).nodes ≠ some []) → s.outlinesOf us = s₀.outlinesOf ts
  | [], [], _, _ => by rw [outlinesOf, outlinesOf]
  | t :: ts, u :: us, hmatched, hlists => by
      rw [Subtree.MatchesAll] at hmatched
      rw [Subtree.preorderAll] at hlists
      rw [outlinesOf, outlinesOf, outlineOf_restored t u hmatched.1 fun m hm => hlists m (List.mem_append_left _ hm),
        outlinesOf_restored ts us hmatched.2 fun m hm => hlists m (List.mem_append_right _ hm)]
  | [], _ :: _, hmatched, _ => by rw [Subtree.MatchesAll] at hmatched; exact hmatched.elim
  | _ :: _, [], hmatched, _ => by rw [Subtree.MatchesAll] at hmatched; exact hmatched.elim

end

end Store

/-! ## The trees that construction and assignment lead to -/

open Relation Store

namespace Event

variable {s : Store} {n : NodeId} {key : Key}

/-- A key under which a node of the common class is given an extra attribute. Of other classes only the names of fields
are kept out. -/
def Kept (cls : NodeClass) (key : Key) : Prop :=
  (∀ name ∈ fieldNames, key ≠ .text name) ∧ (cls = .node → isReservedKey .node key = false)

theorem Kept.isExtra (h : Kept .node key) : IsExtra .node key := ⟨h.2 rfl, h.1⟩

/-- Construction and assignment let no other key through. -/
theorem admits_kept : Admits Kept where
  given h := ⟨h.2, fun hcls => hcls ▸ h.1⟩
  assigned cls name h := by
    have hmember : ∀ other ∈ fieldNames ++ NodeClass.node.reserved, Member.ofName? other ≠ none := by decide
    refine ⟨fun other hother heq => ?_, fun _ => decide_eq_false fun hreserved => ?_⟩
    · cases heq
      exact hmember name (List.mem_append_left _ hother) h
    · exact hmember name (List.mem_append_right _ hreserved) h

/-- **From its map a tree can be made anew**: new nodes with the same types, values and extra attributes at the same
places, in which parents and indices are as they should be. An empty list of children becomes none; if there was no
such list, the map of the new tree is equal to that of the old one. -/
theorem rebuild_restores (h : Reached Kept s) (hn : s.Acyclic (ReflTransGen s.Holds n))
    (hcls : ∀ m, ReflTransGen s.Holds n m → (s.node m).cls = .node) :
    ∃ t d s₁ u s₂, s.Shows t ∧ t.root = n ∧ (Action.toMap (.node n)).perform s = .ok d s₁ ∧ s.Allocates s₁ ∧
      rebuild d s₁ = .ok u.root s₂ ∧ s₁.Extends s₂ ∧ s₂.Shows u ∧ t.Matches (s.Restored s₂) u ∧
      (∀ m ∈ u.preorder, s.nodes.size ≤ m ∧ ∀ (i : Nat) c, (s₂.children m)[i]? = some (.node c) →
        (s₂.node c).parent = some (.node m) ∧ s₂.Reads c "index" (.int i)) ∧
      ∃ d' s₃, (Action.toMap (.node u.root)).perform s₂ = .ok d' s₃ ∧ s₂.Allocates s₃ ∧
        ((∀ m ∈ t.preorder, (s.node m).nodes ≠ some []) → s₃.equal d' d = .ok true) := by
  have hattr := reached_attributed admits_kept h
  obtain ⟨t, hshows, rfl, hmade, hmaps, hdepth⟩ := tree_of_acyclic hattr hn
  have hrestorable : ∀ m ∈ t.preorder, s.Restorable m := fun m hm => by
    obtain ⟨hmap, hkeys, hkept⟩ := hattr.isMap_attributes (hmade m hm)
    exact ⟨hmap, hkeys, fun k hk => (hcls m (hshows.down hm) ▸ hkept k hk : Kept .node k).isExtra⟩
  obtain ⟨d, s₁, hmap, hs₁, hwritten⟩ := toMap_ok hshows hmaps hdepth
  obtain ⟨u, s₂, hrebuild, hremade⟩ := rebuildWithin_remade t (.of_extends hs₁.toExtends) hshows hrestorable
    ((toMap_depth hshows hmaps hdepth hmap).trans (Nat.le_succ _)) hwritten
  have hsize : s₁.nodes.size = s.nodes.size := congrArg Array.size hs₁.nodes
  refine ⟨t, d, s₁, u, s₂, hshows, rfl, hmap, hs₁, hrebuild, hremade.toExtends, hremade.shows, hremade.matched,
    fun m hm => ⟨hsize ▸ (hremade.made m hm).1, fun i c hc => ?_⟩, ?_⟩
  · have hnew := (hremade.made m hm).1
    exact ⟨(hremade.linked m hnew i c hc).1, hremade.linked.reads_index hnew hc⟩
  · have hmaps' : s₂.Mapped u.preorder := fun c hc => by
      obtain ⟨m, -, hrestored⟩ := exists_of_forall₂ hremade.matched.forall₂.flip hc
      obtain ⟨o, hattr, ho⟩ := hrestored.attr
      exact ⟨_, by rw [hattr, entries?, object?, ho]⟩
    have hdepth' : u.depth ≤ s₂.nodes.size + 1 :=
      hremade.matched.depth_eq ▸ hdepth.trans (Nat.succ_le_succ (hsize ▸ hremade.size))
    obtain ⟨d', s₃, hmap', hs₃, hwritten'⟩ := toMap_ok hremade.shows hmaps' hdepth'
    refine ⟨d', s₃, hmap', hs₃, fun hlists => ?_⟩
    rw [outlineOf_restored t u hremade.matched hlists] at hwritten'
    have hlater := hremade.toExtends.trans hs₃.toExtends
    have hlasts : s.Lasts s₃ := .of_extends (hs₁.toExtends.trans hlater)
    have hequal : s₃.EndsEqual d' d := endsEqual_of_written t (fun m hm => (hrestorable m hm).clear hlasts)
      hwritten' (hwritten.mono hlater _)
    obtain ⟨o, rfl⟩ := hwritten.eq_object
    obtain ⟨o', rfl⟩ := hwritten'.eq_object
    exact equal_of_endsEqual hequal

/-- A node with an extra attribute and its child are made anew. -/
theorem rebuild_planted : Reached Kept planted ∧ planted.Acyclic (ReflTransGen planted.Holds 0) ∧
    (∀ m, ReflTransGen planted.Holds 0 m → (planted.node m).cls = .node) ∧
      ∃ (t u : Subtree) (d d' : Value) (s₁ s₂ s₃ : Store), t.root = 0 ∧
        (Action.toMap (.node 0)).perform planted = .ok d s₁ ∧
        rebuild d s₁ = .ok u.root s₂ ∧ t.Matches (planted.Restored s₂) u ∧
          (Action.toMap (.node u.root)).perform s₂ = .ok d' s₃ ∧ s₃.equal d' d = .ok true := by
  have hshows : planted.Shows (.node 0 [.node 1 []]) := shows_planted rfl rfl
  have hacyclic : planted.Acyclic (ReflTransGen planted.Holds 0) := acyclic_planted rfl rfl rfl
  have hplace {m : NodeId} (hm : m ∈ (Subtree.node 0 [.node 1 []]).preorder) : m = 0 ∨ m = 1 := by
    simpa [Subtree.preorder, Subtree.preorderAll] using hm
  have hcls (m : NodeId) (hm : ReflTransGen planted.Holds 0 m) : (planted.node m).cls = .node := by
    rcases hplace (hshows.mem_of_down hm) with rfl | rfl <;> rfl
  refine ⟨reached_planted, hacyclic, hcls, ?_⟩
  obtain ⟨t, d, s₁, u, s₂, ht, hroot, hmap, -, hrebuild, -, -, hmatched, -, d', s₃, hmap', -, hequal⟩ :=
    rebuild_restores reached_planted hacyclic hcls
  obtain rfl := ht.unique hshows hroot
  refine ⟨_, u, d, d', s₁, s₂, s₃, hroot, hmap, hrebuild, hmatched, hmap', hequal fun m hm => ?_⟩
  rcases hplace hm with rfl | rfl <;> decide

/-- A node of a class that does not reserve `index` is made with an attribute of that name, and becomes a common
node. -/
def converted : Store :=
  (performAll [.make (.map [(.text "index", .int 5)]),
    .act (.create (.extended "CustomNode" (-2) ["prev", "secret"]) ⟨.object 0, .null, .null, .null⟩),
    .act (.assign (.node 0) "__class__" (.cls "Node"))] .empty).2

/-- **An attribute with the name of a computed property is lost**, which a node can have from another class: nothing
like this node is made of its map. -/
theorem rebuild_converted :
    Reached (fun _ key => ∀ name ∈ fieldNames, key ≠ .text name) converted ∧
      converted.Acyclic (ReflTransGen converted.Holds 0) ∧
      (∀ m, ReflTransGen converted.Holds 0 m → (converted.node m).cls = .node) ∧
        ¬ ∃ (t u : Subtree) (d : Value) (s₁ s₂ : Store), t.root = 0 ∧
          (Action.toMap (.node 0)).perform converted = .ok d s₁ ∧ rebuild d s₁ = .ok u.root s₂ ∧
            t.Matches (converted.Restored s₂) u := by
  have hshows : converted.Shows (.node 0 []) := .node rfl fun b hb => by cases hb
  have hplace {m : NodeId} (hm : m ∈ (Subtree.node 0 []).preorder) : m = 0 := List.mem_singleton.mp hm
  refine ⟨?_, hshows.acyclic fun m hm => hplace hm ▸ Nat.zero_lt_one,
    fun m hm => hplace (hshows.mem_of_down hm) ▸ rfl, ?_⟩
  · have hfields : ∀ es, Object.map [(.text "index", .int 5)] = .map es → Store.empty.IsMap es := by
      intro es hes
      cases hes
      exact .of_texts (by decide) (by decide)
    have h₁ := (reached_empty fun _ key => ∀ name ∈ fieldNames, key ≠ .text name).step (.make _ hfields)
    have h₂ := h₁.step (.create (.extended "CustomNode" (-2) ["prev", "secret"]) ⟨.object 0, .null, .null, .null⟩
      fun hcalled => absurd rfl hcalled)
    refine h₂.step (.change (.assign 0 "__class__" (.cls "Node") (by decide) fun _ _ _ _ _ k hk => ?_))
    have hkey : k = .text "index" := List.mem_singleton.mp hk
    rw [hkey]
    decide
  · rintro ⟨⟨n, ts⟩, ⟨c, us⟩, d, s₁, s₂, hroot, hmap, hrebuild, hmatched⟩
    cases hroot
    have hmap' : (Action.toMap (.node 0)).perform converted =
        .ok (.object 2) (Run.after ((Action.toMap (.node 0)).perform converted)) := rfl
    cases hmap'.symm.trans hmap
    have hrebuild' : rebuild (.object 2) (Run.after ((Action.toMap (.node 0)).perform converted)) =
        .ok 1 (Run.after (rebuild (.object 2) (Run.after ((Action.toMap (.node 0)).perform converted)))) := rfl
    cases hrebuild'.symm.trans hrebuild
    -- the attributes of the new node are in a new map, and this is empty
    rw [Subtree.Matches] at hmatched
    obtain ⟨m, hattr, hm⟩ := hmatched.1.attr
    cases hattr
    cases hm

end Event
end SyntaxTree
