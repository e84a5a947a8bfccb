import SyntaxTree.Proofs.Attachment
import SyntaxTree.Proofs.MapEquality
import SyntaxTree.Proofs.Merged
import SyntaxTree.Proofs.Refused

/-!
# `Proofs.FieldOrder` — a node does not depend on the order of its fields

What a map of fields makes of a new node is read off the map by a few lists (`Proofs.Merged`). Each of them is a
filter, so two maps with the same entries give the same up to order; and where the order matters, because a field has
two names, it is enough that the maps agree on the order of these two (`SameOrder`). The stores after merging then
differ in nothing but the order in the map of extra attributes and in the log (`SameButOrder`). Adding the children
and linking the parent does not look there, so it goes the same way in both.
-/

namespace SyntaxTree

open Store

variable {cls : NodeClass} {names : List String} {fs gs : Entries Value} {v w parent type : Value}

/-! ## Maps with the same entries -/

/-- Of some names two maps have the same, and in the same order. -/
def SameOrder (names : List String) (fs gs : Entries Value) : Prop :=
  (fs.keys.filter fun key => decide (key ∈ names.map Key.text)) =
    gs.keys.filter fun key => decide (key ∈ names.map Key.text)

/-- Maps with the same entries and the same order of keys are the same. -/
theorem Entries.eq_of_perm {α : Type} {es fs : Entries α} (h : es.Perm fs) (hkeys : es.keys = fs.keys)
    (hnodup : es.keys.Nodup) : es = fs := by
  refine List.ext_getElem h.length_eq fun i hi hi' => ?_
  have hmem : fs[i] ∈ es := h.mem_iff.mpr (List.getElem_mem hi')
  refine List.inj_on_of_nodup_map hnodup (List.getElem_mem hi) hmem ?_
  have hkey : es.keys[i]? = fs.keys[i]? := by rw [hkeys]
  simpa [Entries.keys, hi, hi'] using hkey

theorem Entries.find?_of_perm {α : Type} {es fs : Entries α} (h : es.Perm fs)
    (hdistinct : (es.keys.map Key.counted).Nodup) (key : Key) : es.find? key = fs.find? key := by
  have hdistinct' : (fs.keys.map Key.counted).Nodup := ((h.map Prod.fst).map Key.counted).nodup_iff.mp hdistinct
  by_cases hkey : ∃ k ∈ es.keys, k.counted = key.counted
  · obtain ⟨k, hk, hcounted⟩ := hkey
    obtain ⟨⟨k', a⟩, hmem, rfl⟩ := List.mem_map.mp hk
    rw [← find?_congr hcounted, ← find?_congr hcounted, find?_of_mem hdistinct hmem,
      find?_of_mem hdistinct' (h.mem_iff.mp hmem)]
  · have hnone (k : Key) (hk : k ∈ es.keys) : k.counted ≠ key.counted := fun heq => hkey ⟨k, hk, heq⟩
    rw [find?_eq_none hnone, find?_eq_none fun k hk => hnone k ((h.map Prod.fst).mem_iff.mpr hk)]

/-- There is no order in a single name. -/
theorem sameOrder_single (h : fs.Perm gs) (name : String) : SameOrder [name] fs gs := by
  have hall (es : Entries Value) :
      ∀ key ∈ es.keys.filter fun key => decide (key ∈ [name].map Key.text), key = .text name := by
    intro key hkey
    simpa using (List.mem_filter.mp hkey).2
  have hperm := (h.map Prod.fst).filter fun key => decide (key ∈ [name].map Key.text)
  unfold SameOrder
  rw [List.eq_replicate_of_mem (hall fs), List.eq_replicate_of_mem (hall gs)]
  exact congrArg (List.replicate · _) hperm.length_eq

/-- **What is given under some names is the same list**, if their order is. -/
theorem named_eq_of_perm (h : fs.Perm gs) (hdistinct : (fs.keys.map Key.counted).Nodup)
    (horder : SameOrder names fs gs) (cls : NodeClass) :
    (fs.filter fun e => isNamed cls names e.1) = gs.filter fun e => isNamed cls names e.1 := by
  have hnames : (fs.filter fun e => decide (e.1 ∈ names.map Key.text)) =
      gs.filter fun e => decide (e.1 ∈ names.map Key.text) := by
    refine Entries.eq_of_perm (h.filter _) ?_ ?_
    · have hkeys (es : Entries Value) : Entries.keys (es.filter fun e => decide (e.1 ∈ names.map Key.text)) =
          es.keys.filter fun key => decide (key ∈ names.map Key.text) := by
        rw [Entries.keys, Entries.keys, List.filter_map]
        rfl
      rw [hkeys, hkeys]
      exact horder
    · exact ((List.filter_sublist.map Prod.fst).nodup hdistinct.of_map)
  simp only [isNamed, ← List.filter_filter, hnames]

theorem lastGiven_eq_of_perm (h : fs.Perm gs) (hdistinct : (fs.keys.map Key.counted).Nodup)
    (horder : SameOrder names fs gs) (cls : NodeClass) (v : Value) :
    lastGiven cls names v fs = lastGiven cls names v gs := by
  rw [lastGiven, lastGiven, named_eq_of_perm h hdistinct horder cls]

theorem parentsGiven_eq_of_perm (h : fs.Perm gs) (hdistinct : (fs.keys.map Key.counted).Nodup) (cls : NodeClass) :
    parentsGiven cls fs = parentsGiven cls gs := by
  rw [parentsGiven_eq, parentsGiven_eq, named_eq_of_perm h hdistinct (sameOrder_single h "parent") cls]

theorem NodeRecord.merged_eq_of_perm (h : fs.Perm gs) (hdistinct : (fs.keys.map Key.counted).Nodup)
    (horder : SameOrder ["value", "val"] fs gs) (r : NodeRecord) (cls : NodeClass) :
    r.merged cls fs = r.merged cls gs := by
  rw [merged, merged, lastGiven_eq_of_perm h hdistinct (sameOrder_single h "type"),
    lastGiven_eq_of_perm h hdistinct horder, parentsGiven_eq_of_perm h hdistinct]

namespace Store

variable {s t u : Store} {o : ObjectId} {n : NodeId}

/-! ## Stores that differ in the order of entries and records -/

/-- Two stores are the same but for the order of the entries in one map, and of the records in the log. -/
structure SameButOrder (o : ObjectId) (t u : Store) : Prop where
  nodes : t.nodes = u.nodes
  objects : t.objects.size = u.objects.size
  object : ∀ p, p ≠ o → t.object p = u.object p
  entries : ∃ es fs, t.object o = .map es ∧ u.object o = .map fs ∧ es.Perm fs ∧ ∀ key, es.find? key = fs.find? key
  log : t.log.toList.Perm u.log.toList
  trustsHints : t.trustsHints = u.trustsHints
  logIsRead : t.logIsRead = u.logIsRead

namespace SameButOrder

theorem node_eq (h : SameButOrder o t u) (m : NodeId) : t.node m = u.node m := by
  rw [node, node, h.nodes]

theorem children_eq (h : SameButOrder o t u) (m : NodeId) : t.children m = u.children m := by
  rw [children, children, h.node_eq]

theorem kindName_eq (h : SameButOrder o t u) (v : Value) : t.kindName v = u.kindName v := by
  cases v with
  | node m => exact congrArg (fun r => r.cls.name) (h.node_eq m)
  | object p =>
      by_cases hp : p = o
      · obtain ⟨es, fs, ht, hu, -⟩ := h.entries
        rw [kindName, kindName, hp, ht, hu]
        rfl
      · rw [kindName, kindName, h.object p hp]
  | _ => rfl

theorem isNode_eq (h : SameButOrder o t u) (v : Value) : t.isNode v = u.isNode v := by
  cases v with
  | object p =>
      have hmarker : t.marker? p = u.marker? p := by
        by_cases hp : p = o
        · obtain ⟨es, fs, ht, hu, -⟩ := h.entries
          rw [marker?, marker?, hp, ht, hu]
        · rw [marker?, marker?, h.object p hp]
      rw [isNode, isNode, hmarker]
  | _ => rfl

theorem items_eq (h : SameButOrder o t u) (hv : v ≠ .object o) : t.items v = u.items v := by
  have hkind : t.qualifiedKindName = u.qualifiedKindName := by
    funext w
    have hplain := h.kindName_eq w
    cases w with
    | pattern _ => rfl
    | _ => exact hplain
  have hobject : t.object? v = u.object? v := by
    cases v with
    | object p => exact congrArg some (h.object p fun heq => hv (heq ▸ rfl))
    | _ => rfl
  unfold items
  rw [hobject, hkind]

theorem requireNode_eq (h : SameButOrder o t u) (action : String) (v : Value) :
    t.requireNode action v = u.requireNode action v := by
  rw [requireNode, requireNode, h.isNode_eq, h.kindName_eq]

theorem requireNodes_eq (h : SameButOrder o t u) (action : String) (vs : List Value) :
    t.requireNodes action vs = u.requireNodes action vs := by
  induction vs with
  | nil => rfl
  | cons v vs ih => rw [requireNodes, requireNodes, h.requireNode_eq, ih]

theorem updateNode (h : SameButOrder o t u) (m : NodeId) (f : NodeRecord → NodeRecord) :
    SameButOrder o (t.updateNode m f) (u.updateNode m f) where
  nodes := congrArg (·.modify m f) h.nodes
  objects := h.objects
  object := h.object
  entries := h.entries
  log := h.log
  trustsHints := h.trustsHints
  logIsRead := h.logIsRead

/-- No field can be set on a map. -/
theorem setFreeField (h : SameButOrder o t u) (p : ObjectId) (name : String) (v : Value) :
    SameButOrder o (t.setFreeField p name v) (u.setFreeField p name v) where
  nodes := h.nodes
  objects := by
    rw [Store.setFreeField, Store.setFreeField, updateObject, updateObject, Array.size_modify, Array.size_modify]
    exact h.objects
  object q hq := by
    rw [Store.setFreeField, Store.setFreeField, object_updateObject, object_updateObject, h.object q hq, h.objects]
  entries := by
    obtain ⟨es, fs, ht, hu, hsame⟩ := h.entries
    refine ⟨es, fs, ?_, ?_, hsame⟩
    · rw [Store.setFreeField, object_updateObject, ht]
      split <;> rfl
    · rw [Store.setFreeField, object_updateObject, hu]
      split <;> rfl
  log := h.log
  trustsHints := h.trustsHints
  logIsRead := h.logIsRead

theorem append (h : SameButOrder o t u) (n : NodeId) (v : Value) : SameButOrder o (t.append n v) (u.append n v) := by
  unfold Store.append
  rw [h.children_eq]
  apply updateNode
  cases v with
  | node c => exact (h.updateNode c _).updateNode c _
  | object p => exact (h.setFreeField p _ _).setFreeField p _ _
  | _ => exact h

end SameButOrder

/-! ## The rest of making a node -/

/-- Adds what is given for the children, unless that is null. -/
def addChildren (n : NodeId) (children : Value) : Run Unit := do
  if children ≠ .null then
    let items ← Run.check fun s => s.items children
    Run.check fun s => s.requireNodes "nodes" items
    pushAll n items

/-- What comes after merging: the children are added and the parent is linked. -/
def finish (n : NodeId) (parent children : Value) : Run Unit := do
  addChildren n children
  if parent ≠ .null then assignParent n parent

theorem mergeFields_eq (n : NodeId) (fields : Entries Value) :
    mergeFields n fields = mergeEach n .null fields >>= addChildren n := rfl

/-- Without a position, a node is made from a map by merging the map and doing the rest. -/
theorem create_eq_finish (hmap : (s.withBlank cls).entries? v = some fs) (type parent : Value) :
    create cls ⟨v, type, parent, .null⟩ s =
      (mergeEach s.nodes.size .null fs >>= finish s.nodes.size parent >>= fun _ => pure s.nodes.size)
        (s.withBlank cls) := by
  have hconstruct : construct s.nodes.size ⟨v, type, parent, .null⟩ (s.withBlank cls) =
      (mergeEach s.nodes.size .null fs >>= finish s.nodes.size parent) (s.withBlank cls) := by
    rw [construct_map _ hmap, mergeFields_eq, bind_assoc]
    rfl
  show (createUnplaced cls ⟨v, type, parent, .null⟩ >>= fun n => pure n) s = _
  rw [bind_pure, createUnplaced_eq]
  exact Run.bind_congr hconstruct

namespace SameButOrder

theorem pushAll (n : NodeId) (vs : List Value) (h : SameButOrder o t u) :
    Run.Agree (SameButOrder o) (pushAll n vs) t u := by
  induction vs generalizing t u with
  | nil => exact .pure () h
  | cons v vs ih =>
      have hpush : Run.Agree (SameButOrder o) (push n v) t u := by
        refine Run.Agree.check_bind (h.requireNode_eq "push" v) h fun _ _ => ?_
        refine Run.Agree.bind (.update (h.append n v)) fun _ t' u' h' => ?_
        exact .read (by rw [h'.children_eq]) h'
      exact hpush.bind fun _ t' u' h' => ih h'

/-- **Children and parent do not look at the order of extra attributes.** -/
theorem finish (h : SameButOrder o t u) (hv : v ≠ .object o) (n : NodeId) (parent : Value) :
    Run.Agree (SameButOrder o) (finish n parent v) t u := by
  have hchildren : Run.Agree (SameButOrder o) (addChildren n v) t u := by
    refine Run.Agree.ite (fun _ => ?_) fun _ => .pure () h
    refine Run.Agree.check_bind (h.items_eq hv) h fun vs _ => ?_
    refine Run.Agree.check_bind (h.requireNodes_eq "nodes" vs) h fun _ _ => ?_
    exact h.pushAll n vs
  refine hchildren.bind fun _ t' u' h' => ?_
  refine Run.Agree.ite (fun hnull => ?_) fun _ => .pure () h'
  rw [assignParent, if_neg hnull]
  exact Run.Agree.check_bind (h'.requireNode_eq "parent" parent) h' fun _ _ => .update (h'.updateNode n _)

end SameButOrder

/-! ## What the rest leaves alone -/

/-- Adding a child changes no field of a node but the links, the hint and the list. -/
theorem field_append {α : Type} (field : NodeRecord → α)
    (hfield : ∀ r parent hint nodes, field { r with parent, hint, nodes } = field r) (t : Store) (n : NodeId) (v : Value)
    (m : NodeId) : field ((t.append n v).node m) = field (t.node m) := by
  have hstep (t' : Store) (c : NodeId) {f : NodeRecord → NodeRecord}
      (hf : ∀ r, ∃ parent hint nodes, f r = { r with parent, hint, nodes }) :
      field ((t'.updateNode c f).node m) = field (t'.node m) := by
    refine field_updateNode field t' c (fun r => ?_) m
    obtain ⟨parent, hint, nodes, heq⟩ := hf r
    rw [heq, hfield]
  unfold append
  rw [setNodes, hstep _ n fun r => ⟨r.parent, r.hint, _, rfl⟩]
  cases v with
  | node c =>
      show field (((t.setParent c _).setHint c _).node m) = _
      rw [setHint, hstep _ c fun r => ⟨r.parent, _, r.nodes, rfl⟩, setParent,
        hstep _ c fun r => ⟨_, r.hint, r.nodes, rfl⟩]
  | _ => rfl

theorem field_appendAll {α : Type} (field : NodeRecord → α)
    (hfield : ∀ r parent hint nodes, field { r with parent, hint, nodes } = field r) (t : Store) (n : NodeId)
    (vs : List Value) (m : NodeId) : field ((t.appendAll n vs).node m) = field (t.node m) := by
  induction vs generalizing t with
  | nil => rfl
  | cons v vs ih => exact (ih (t.append n v)).trans (field_append field hfield t n v m)

theorem addChildren_ends (n : NodeId) (v : Value) (t : Store) : Run.Ends (addChildren n v) t
    (fun _ u => ∃ vs, (if v = .null then .ok [] else t.items v) = .ok vs ∧ u = t.appendAll n vs) fun _ _ => True := by
  refine Run.ends_ite.mpr ⟨fun hgiven => ?_, fun hnull => ?_⟩
  · rw [Run.ends_bind, Run.ends_check]
    cases hitems : t.items v with
    | error e => trivial
    | ok vs =>
        dsimp only
        rw [Run.ends_bind, Run.ends_check]
        cases hnodes : t.requireNodes "nodes" vs with
        | error e => trivial
        | ok _ =>
            dsimp only
            rw [Run.ends_of_ok (pushAll_eq (requireNodes_ok.mp hnodes))]
            exact ⟨vs, if_neg hgiven, rfl⟩
  · exact ⟨[], if_pos (not_not.mp hnull), rfl⟩

/-- The children are all that are given, and type, value and attributes stay what they are. -/
theorem finish_ends (hn : n < t.nodes.size) (hnone : t.children n = []) (parent v : Value) :
    Run.Ends (finish n parent v) t (fun _ u => ∃ vs, (if v = .null then .ok [] else t.items v) = .ok vs ∧
      u.children n = vs ∧ (u.node n).type = (t.node n).type ∧ (u.node n).value = (t.node n).value ∧
      (u.node n).attr = (t.node n).attr) fun _ _ => True := by
  rw [finish, Run.ends_bind]
  refine (addChildren_ends n v t).mono ?_ fun _ _ _ => trivial
  rintro _ u ⟨vs, hvs, rfl⟩
  have hchildren : (t.appendAll n vs).children n = vs := by rw [children_appendAll hn, hnone, List.nil_append]
  have hown {α : Type} (field : NodeRecord → α)
      (hfield : ∀ r parent hint nodes, field { r with parent, hint, nodes } = field r) :
      field ((t.appendAll n vs).node n) = field (t.node n) := field_appendAll field hfield t n vs n
  have htype := hown NodeRecord.type fun _ _ _ _ => rfl
  have hvalue := hown NodeRecord.value fun _ _ _ _ => rfl
  have hattr := hown NodeRecord.attr fun _ _ _ _ => rfl
  refine Run.ends_ite.mpr ⟨fun hnull => ?_, fun _ => ⟨vs, hvs, hchildren, htype, hvalue, hattr⟩⟩
  rw [assignParent, if_neg hnull, Run.ends_bind, Run.ends_check]
  cases (t.appendAll n vs).requireNode "parent" parent with
  | error e => trivial
  | ok _ =>
      have hsize : n < (t.appendAll n vs).nodes.size := by rwa [size_appendAll]
      refine ⟨vs, hvs, ?_, ?_⟩
      · rw [children_setParent, hchildren]
      · rw [node_setParent_self _ _ hsize]
        exact ⟨htype, hvalue, hattr⟩

/-! ## Two maps with the same fields -/

theorem distinct_extrasGiven (hdistinct : (fs.keys.map Key.counted).Nodup) (cls : NodeClass) :
    ((extrasGiven cls fs).keys.map Key.counted).Nodup := by
  have hsub : (extrasGiven cls fs).Sublist fs := List.filter_sublist
  exact ((hsub.map Prod.fst).map Key.counted).nodup hdistinct

/-- The extra attributes are what a map gives, in its order. -/
theorem putEach_extrasGiven (h : s.IsMap fs) (cls : NodeClass) :
    s.putEach [] (extrasGiven cls fs) = extrasGiven cls fs := by
  have hsub : (extrasGiven cls fs).Sublist fs := List.filter_sublist
  have hapart : s.KeysApart ([] ++ extrasGiven cls fs) := h.apart.sublist (hsub.map Prod.fst)
  have happended : (Entries.keys ([] ++ extrasGiven cls fs)).map Key.counted |>.Nodup :=
    distinct_extrasGiven h.distinct cls
  rw [putEach_eq_putAll hapart]
  exact Entries.putAll_eq_append happended

/-- **Merging the same fields in another order gives the same but for the order.** -/
theorem merged_sameButOrder (h : fs.Perm gs) (hfs : s.IsMap fs) (hgs : s.IsMap gs)
    (hvalue : SameOrder ["value", "val"] fs gs) (r : NodeRecord) :
    SameButOrder s.objects.size (s.withMerged r [] [] fs) (s.withMerged r [] [] gs) where
  nodes := by
    rw [withMerged, withMerged, NodeRecord.merged_eq_of_perm h hfs.distinct hvalue]
    rfl
  objects := by simp [withMerged, withNew]
  object p hp := by
    rcases Nat.lt_or_gt_of_ne hp with hlt | hgt
    · rw [withMerged, withMerged, object_withNew_of_lt _ _ _ _ hlt, object_withNew_of_lt _ _ _ _ hlt]
    · have hsize (es : Entries Value) : (s.withMerged r [] [] es).objects.size ≤ p := by
        simp only [withMerged, withNew, Array.size_push]
        exact hgt
      rw [object_of_size_le _ (hsize fs), object_of_size_le _ (hsize gs)]
  entries := by
    have hperm : (extrasGiven r.cls fs).Perm (extrasGiven r.cls gs) := h.filter _
    refine ⟨extrasGiven r.cls fs, extrasGiven r.cls gs, ?_, ?_, hperm, ?_⟩
    · rw [withMerged, object_withNew, putEach_extrasGiven hfs]
    · rw [withMerged, object_withNew, putEach_extrasGiven hgs]
    · exact Entries.find?_of_perm hperm (distinct_extrasGiven hfs.distinct r.cls)
  log := by
    have hperm : (droppedBy r.cls fs).Perm (droppedBy r.cls gs) := (h.filter _).map _
    simpa [withMerged, withNew] using hperm.append_left s.log.toList
  trustsHints := rfl
  logIsRead := rfl

theorem extends_withMerged (s : Store) (r : NodeRecord) (es : Entries Value) (records : List DebugRecord)
    (fields : Entries Value) : s.Extends (s.withMerged r es records fields) :=
  extends_withNew ..

/-- What was there and is no node is called the same later on. -/
theorem kindName_of_extends (hs : s.Extends t) (hmade : ∀ o, v = .object o → o < s.objects.size)
    (hnode : s.isNode v = false) : t.kindName v = s.kindName v := by
  cases v with
  | node m => cases hnode
  | object o => rw [kindName, kindName, hs.object o (hmade o rfl)]
  | _ => rfl

/-- What was there holds the same items later on. -/
theorem items_eq_of_extends (hs : s.Extends t) (hmade : ∀ o, v = .object o → o < s.objects.size) {vs : List Value}
    (h : t.items v = .ok vs) : s.items v = .ok vs := by
  cases v with
  | object o =>
      have hsame := hs.object o (hmade o rfl)
      cases ho : s.object o with
      | collection shape held => simpa [items, object?, hsame, ho] using h
      | map es => simpa [items, object?, hsame, ho] using h
      | _ => simp [items, object?, hsame, ho] at h
  | text _ => exact h
  | bytes _ => exact h
  | _ => cases h

theorem entries?_withBlank (hmap : s.entries? v = some fs) (cls : NodeClass) :
    (s.withBlank cls).entries? v = some fs := by
  cases v with
  | object o =>
      have ho : o < s.objects.size := by
        apply lt_size_of_object
        intro hplain
        rw [entries?, object?, hplain] at hmap
        cases hmap
      rw [(extends_withBlank s cls).keeps.entries o ho, hmap]
  | _ => cases hmap

/-- A map with a parent that is no node is refused for it, whatever else it holds and wherever it stands. -/
theorem create_parent_refused (hmap : s.entries? v = some fs) (hfs : s.IsMap fs)
    (hw : w ∈ parentsGiven cls fs) (hmade : ∀ o, w = .object o → o < s.objects.size) (hnull : w ≠ .null)
    (hnode : s.isNode w = false) (type parent : Value) : ∃ t, s.Extends t ∧
      create cls ⟨v, type, parent, .null⟩ s = .error (.expectedNode "parent" (s.kindName w)) t := by
  obtain ⟨hreserved, hmem⟩ := mem_parentsGiven.mp hw
  obtain ⟨before, after, rfl⟩ := List.append_of_mem hmem
  -- no key comes twice, so no other parent stands before this one
  have hbefore : parentsGiven cls before = [] := by
    rw [List.eq_nil_iff_forall_not_mem]
    intro w' hw'
    have hmem' := (mem_parentsGiven.mp hw').2
    have hdistinct := hfs.distinct
    rw [Entries.keys, List.map_append, List.map_append, List.nodup_append] at hdistinct
    exact hdistinct.2.2 _ (List.mem_map_of_mem (List.mem_map_of_mem hmem')) _
      (List.mem_map_of_mem (List.mem_map_of_mem (List.mem_cons_self ..))) rfl
  have hparents : ∀ w ∈ parentsGiven cls before, w ≠ .null → s.isNode w = true := by
    rw [hbefore]
    exact fun w hw => by cases hw
  have hkeys : s.LastingKeys before := fun k hk =>
    hfs.lasting k (by rw [Entries.keys, List.map_append]; exact List.mem_append_left _ hk)
  have hrefused : mergeEach s.nodes.size .null (before ++ (.text "parent", w) :: after)
      (s.withNew (.blank cls (.object s.objects.size)) [] []) = _ :=
    mergeEach_refused rfl (.nil s) hkeys hparents hreserved hnull hnode .null
  refine ⟨s.withMerged (.blank cls (.object s.objects.size)) [] [] before, extends_withMerged .., ?_⟩
  rw [create_eq_finish (entries?_withBlank hmap cls), withBlank_eq, Run.bind_of_error (Run.bind_of_error hrefused),
    kindName_of_extends (extends_withMerged ..) hmade hnode]

/-- A map whose parents are nodes is merged, and the rest goes on from there. -/
theorem create_merged (hmap : s.entries? v = some fs) (hfs : s.IsMap fs)
    (hparents : ∀ w ∈ parentsGiven cls fs, w ≠ .null → s.isNode w = true) (type parent : Value) :
    create cls ⟨v, type, parent, .null⟩ s =
      (finish s.nodes.size parent (lastGiven cls ["nodes", "children"] .null fs) >>= fun _ => pure s.nodes.size)
        (s.withMerged (.blank cls (.object s.objects.size)) [] [] fs) := by
  have hmerge : mergeEach s.nodes.size .null fs (s.withNew (.blank cls (.object s.objects.size)) [] []) = _ :=
    mergeEach_new rfl (.nil s) hfs.lasting hparents .null
  rw [create_eq_finish (entries?_withBlank hmap cls), withBlank_eq, bind_assoc, Run.bind_of_ok hmerge]
  rfl

/-- **A node does not depend on the order of the fields that it is made from**, if that of two names for one field is
the same: both maps are refused for the same reason, or the new nodes are the same but for the order of their extra
attributes, and so is everything else but for the order of the records in the log. Of two names for one field the one
that comes later decides alone. -/
theorem create_field_order (hv : s.entries? v = some fs) (hw : s.entries? w = some gs) (hperm : fs.Perm gs)
    (hfs : s.IsMap fs) (hgs : s.IsMap gs) (hvalue : SameOrder ["value", "val"] fs gs)
    (hnodes : SameOrder ["nodes", "children"] fs gs) (hmade : ∀ e ∈ fs, ∀ o, e.2 = .object o → o < s.objects.size)
    (cls : NodeClass) (type parent : Value) :
    (∃ e t u, create cls ⟨v, type, parent, .null⟩ s = .error e t ∧ create cls ⟨w, type, parent, .null⟩ s = .error e u ∧
        ∀ m < s.nodes.size, t.node m = u.node m) ∨
      ∃ t u, create cls ⟨v, type, parent, .null⟩ s = .ok s.nodes.size t ∧
        create cls ⟨w, type, parent, .null⟩ s = .ok s.nodes.size u ∧ SameButOrder s.objects.size t u ∧
        (t.node s.nodes.size).attr = .object s.objects.size ∧
        (t.node s.nodes.size).type = lastGiven cls ["type"] .null fs ∧
        (t.node s.nodes.size).value = lastGiven cls ["value", "val"] .null fs ∧
        (if lastGiven cls ["nodes", "children"] .null fs = .null then .ok []
          else s.items (lastGiven cls ["nodes", "children"] .null fs)) = .ok (t.children s.nodes.size) := by
  have hgiven := parentsGiven_eq_of_perm hperm hfs.distinct cls
  by_cases hparents : ∀ x ∈ parentsGiven cls fs, x ≠ .null → s.isNode x = true
  · -- the rest starts from the same children, in stores that differ in the order only
    have hchildren := lastGiven_eq_of_perm hperm hfs.distinct hnodes cls .null
    have hitems : ∀ o, lastGiven cls ["nodes", "children"] .null fs = .object o → o < s.objects.size := by
      intro o ho
      rcases lastGiven_mem cls ["nodes", "children"] .null fs with hnull | ⟨e, he, hvalue⟩
      · rw [ho] at hnull
        cases hnull
      · exact hmade e he o (hvalue.trans ho)
    have hmerged := merged_sameButOrder hperm hfs hgs hvalue (.blank cls (.object s.objects.size))
    have hother : lastGiven cls ["nodes", "children"] .null fs ≠ .object s.objects.size :=
      fun ho => Nat.lt_irrefl _ (hitems _ ho)
    have hrest := hmerged.finish hother s.nodes.size parent
    have hfirst := create_merged hv hfs hparents type parent
    have hsecond := create_merged hw hgs (hgiven ▸ hparents) type parent
    rw [← hchildren] at hsecond
    rcases hrest.cases with ⟨_, t, u, ht, hu, hsame⟩ | ⟨e, t, u, ht, hu, hsame⟩
    · right
      refine ⟨t, u, hfirst.trans (Run.bind_of_ok ht), hsecond.trans (Run.bind_of_ok hu), hsame, ?_⟩
      have hnew : (s.withMerged (.blank cls (.object s.objects.size)) [] [] fs).node s.nodes.size =
          NodeRecord.merged (.blank cls (.object s.objects.size)) cls fs := node_withNew ..
      have hlt : s.nodes.size < (s.withMerged (.blank cls (.object s.objects.size)) [] [] fs).nodes.size := by
        simp [withMerged, withNew]
      have hends := finish_ends hlt (by rw [children, hnew]; rfl) parent (lastGiven cls ["nodes", "children"] .null fs)
      rw [Run.ends_of_ok ht, hnew] at hends
      obtain ⟨vs, hvs, hlist, htype, hvalue', hattr⟩ := hends
      refine ⟨hattr, htype, hvalue', ?_⟩
      rw [hlist]
      by_cases hnull : lastGiven cls ["nodes", "children"] .null fs = .null
      · rwa [if_pos hnull] at hvs ⊢
      · rw [if_neg hnull] at hvs ⊢
        exact items_eq_of_extends (extends_withMerged ..) hitems hvs
    · left
      exact ⟨e, t, u, hfirst.trans (Run.bind_of_error ht), hsecond.trans (Run.bind_of_error hu),
        fun m _ => hsame.node_eq m⟩
  · left
    simp only [not_forall, exists_prop] at hparents
    obtain ⟨x, hx, hnull, hnode⟩ := hparents
    have hnode : s.isNode x = false := Bool.eq_false_iff.mpr hnode
    have hmade' : ∀ o, x = .object o → o < s.objects.size := hmade _ (mem_parentsGiven.mp hx).2
    obtain ⟨t, ht, hfirst⟩ := create_parent_refused hv hfs hx hmade' hnull hnode type parent
    obtain ⟨u, hu, hsecond⟩ := create_parent_refused hw hgs (hgiven ▸ hx) hmade' hnull hnode type parent
    exact ⟨_, t, u, hfirst, hsecond, fun m hm => (ht.node m hm).trans (hu.node m hm).symm⟩

/-- A node, a list that holds it, and two maps with the same fields in different orders. -/
def withTwoOrders : Store :=
  { Store.empty with
    nodes := #[.blank .node (.object 0)]
    objects := #[.map [], .collection .list [.node 0],
      .map [(.text "siblings", .int 1), (.text "value", .int 2), (.text "note", .text "x"), (.text "nodes", .object 1),
        (.text "val", .null), (.text "first", .int 3)],
      .map [(.text "nodes", .object 1), (.text "first", .int 3), (.text "value", .int 2), (.text "siblings", .int 1),
        (.text "val", .null), (.text "note", .text "x")]] }

/-- Both maps make the same node; the null that comes later is its value, and it has the child. -/
theorem create_withTwoOrders : ∃ t u, create .node ⟨.object 2, .null, .null, .null⟩ withTwoOrders = .ok 1 t ∧
    create .node ⟨.object 3, .null, .null, .null⟩ withTwoOrders = .ok 1 u ∧ SameButOrder 4 t u ∧
    (t.node 1).value = .null ∧ t.children 1 = [.node 0] ∧ (t.node 0).hint = .int 0 ∧ t.log ≠ u.log := by
  have hmade : ∀ e ∈ [((.text "siblings" : Key), (.int 1 : Value)), (.text "value", .int 2), (.text "note", .text "x"),
      (.text "nodes", .object 1), (.text "val", .null), (.text "first", .int 3)], ∀ o, e.2 = .object o → o < 4 := by
    intro e he o ho
    simp only [List.mem_cons, List.not_mem_nil, or_false] at he
    rcases he with rfl | rfl | rfl | rfl | rfl | rfl <;> cases ho
    decide
  have horder := create_field_order (s := withTwoOrders) (v := .object 2) (w := .object 3) rfl rfl (by decide)
    (.of_texts (by decide) (by decide)) (.of_texts (by decide) (by decide)) rfl rfl hmade .node .null .null
  rcases horder with ⟨e, t, u, ht, -⟩ | ⟨t, u, ht, hu, hsame, -, -, hvalue, -⟩
  · cases ht
  · refine ⟨t, u, ht, hu, hsame, hvalue, ?_⟩
    cases ht
    cases hu
    exact ⟨rfl, rfl, by decide⟩

end Store
end SyntaxTree
