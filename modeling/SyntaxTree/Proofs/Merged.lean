import SyntaxTree.Proofs.Fields

/-!
# `Proofs.Merged` — what a map of fields makes of a new node

Merging goes through the fields from left to right, and each of them does one of a few things to the new node: it is
dropped with a record, gives the type, the value or the parent, is kept for the children, or becomes an extra
attribute. So the outcome can be read off the map: what is given last under the names of a field (`lastGiven`), the
extra attributes in their order (`extrasGiven`), and a record for each name that is dropped (`droppedBy`). One step
is `mergeField_new`, the run is `mergeEach_new`. Only a parent that is no node is refused, at its place
(`mergeEach_refused`).
-/

namespace SyntaxTree

open Store

variable {cls : NodeClass} {names : List String} {key : Key} {v w : Value} {fields fs gs : Entries Value}

/-! ## What the fields give -/

instance (cls : NodeClass) : DecidablePred (IsExtra cls) := fun key =>
  inferInstanceAs (Decidable (isReservedKey cls key = false ∧ ∀ name ∈ fieldNames, key ≠ .text name))

/-- The key is one of some names, and the class does not reserve it. -/
def isNamed (cls : NodeClass) (names : List String) (key : Key) : Bool :=
  !isReservedKey cls key && decide (key ∈ names.map Key.text)

/-- What is given last under one of some names. -/
def lastGiven (cls : NodeClass) (names : List String) (v : Value) (fields : Entries Value) : Value :=
  ((fields.filter fun e => isNamed cls names e.1).getLast?.map Prod.snd).getD v

/-- The fields that become extra attributes. -/
def extrasGiven (cls : NodeClass) (fields : Entries Value) : Entries Value :=
  fields.filter fun e => decide (IsExtra cls e.1)

/-- The records of the fields that are dropped. -/
def droppedBy (cls : NodeClass) (fields : Entries Value) : List DebugRecord :=
  (fields.filter fun e => isReservedKey cls e.1).map fun e => .droppedField (shownKey e.1)

/-- The parent after some more were given: null gives none. -/
def parentAfter (parent : Option Value) (vs : List Value) : Option Value :=
  vs.foldl (fun parent v => if v = .null then parent else some v) parent

/-- The record of a new node into which fields are merged. -/
def NodeRecord.merged (r : NodeRecord) (cls : NodeClass) (fields : Entries Value) : NodeRecord :=
  { r with
    type := lastGiven cls ["type"] r.type fields
    value := lastGiven cls ["value", "val"] r.value fields
    parent := parentAfter r.parent (parentsGiven cls fields) }

theorem isNamed_text {name : String} (h : isReservedKey cls (.text name) = false) :
    isNamed cls names (.text name) = decide (name ∈ names) := by
  rw [isNamed, h, Bool.not_false, Bool.true_and, decide_eq_decide]
  simp

theorem isNamed_eq_false_of_reserved (h : isReservedKey cls key = true) (names : List String) :
    isNamed cls names key = false := by
  rw [isNamed, h]
  rfl

theorem isNamed_eq_false_of_extra (h : IsExtra cls key) (hnames : ∀ name ∈ names, name ∈ fieldNames) :
    isNamed cls names key = false := by
  rw [isNamed, h.1, Bool.not_false, Bool.true_and, decide_eq_false_iff_not]
  intro hmem
  obtain ⟨name, hname, rfl⟩ := List.mem_map.mp hmem
  exact h.2 name (hnames name hname) rfl

theorem lastGiven_append (cls : NodeClass) (names : List String) (v : Value) (fs gs : Entries Value) :
    lastGiven cls names v (fs ++ gs) = lastGiven cls names (lastGiven cls names v fs) gs := by
  rw [lastGiven, lastGiven, lastGiven, List.filter_append, List.getLast?_append]
  cases (gs.filter fun e => isNamed cls names e.1).getLast? <;> rfl

theorem lastGiven_single (cls : NodeClass) (names : List String) (v : Value) (key : Key) (w : Value) :
    lastGiven cls names v [(key, w)] = if isNamed cls names key then w else v := by
  rw [lastGiven, List.filter_singleton]
  cases isNamed cls names key <;> rfl

/-- What is given last is null, what was there before, or one of the values of the map. -/
theorem lastGiven_mem (cls : NodeClass) (names : List String) (v : Value) (fields : Entries Value) :
    lastGiven cls names v fields = v ∨ ∃ e ∈ fields, e.2 = lastGiven cls names v fields := by
  unfold lastGiven
  cases hlast : (fields.filter fun e => isNamed cls names e.1).getLast? with
  | none => exact Or.inl rfl
  | some e => exact Or.inr ⟨e, (List.mem_filter.mp (List.mem_of_getLast? hlast)).1, rfl⟩

/-- The parents that are given stand under one name. -/
theorem parentsGiven_eq (cls : NodeClass) (fields : Entries Value) :
    parentsGiven cls fields = (fields.filter fun e => isNamed cls ["parent"] e.1).map Prod.snd := by
  rw [parentsGiven, ← List.filterMap_eq_map, List.filterMap_filter]
  apply List.filterMap_congr
  intro e _
  by_cases hkey : e.1 = .text "parent"
  · rw [hkey]
    cases hreserved : isReservedKey cls (.text "parent") <;> simp [isNamed, hreserved]
  · simp [isNamed, hkey]

theorem parentsGiven_append (cls : NodeClass) (fs gs : Entries Value) :
    parentsGiven cls (fs ++ gs) = parentsGiven cls fs ++ parentsGiven cls gs :=
  List.filterMap_append

theorem mem_parentsGiven :
    v ∈ parentsGiven cls fields ↔ isReservedKey cls (.text "parent") = false ∧ (.text "parent", v) ∈ fields := by
  constructor
  · intro hv
    obtain ⟨e, he, hsome⟩ := List.mem_filterMap.mp hv
    split at hsome
    · next hkey =>
        obtain ⟨k, w⟩ := e
        obtain ⟨rfl, hreserved⟩ := hkey
        cases hsome
        exact ⟨Bool.eq_false_iff.mpr hreserved, he⟩
    · cases hsome
  · rintro ⟨hreserved, hmem⟩
    exact List.mem_filterMap.mpr ⟨_, hmem, if_pos ⟨rfl, Bool.eq_false_iff.mp hreserved⟩⟩

theorem NodeRecord.merged_append (r : NodeRecord) (cls : NodeClass) (fs gs : Entries Value) :
    r.merged cls (fs ++ gs) = (r.merged cls fs).merged cls gs := by
  simp only [merged, lastGiven_append, parentsGiven_append, parentAfter, List.foldl_append]

theorem droppedBy_append (cls : NodeClass) (fs gs : Entries Value) :
    droppedBy cls (fs ++ gs) = droppedBy cls fs ++ droppedBy cls gs := by
  simp only [droppedBy, List.filter_append, List.map_append]

theorem extrasGiven_append (cls : NodeClass) (fs gs : Entries Value) :
    extrasGiven cls (fs ++ gs) = extrasGiven cls fs ++ extrasGiven cls gs := List.filter_append ..

namespace Store

variable {s : Store} {r : NodeRecord} {es : Entries Value} {records : List DebugRecord} {children : Value}

/-! ## The new node and its map -/

/-- The store with one more node, its map of extra attributes, and some more records. -/
def withNew (s : Store) (r : NodeRecord) (es : Entries Value) (records : List DebugRecord) : Store :=
  { s with
    nodes := s.nodes.push r
    objects := s.objects.push (.map es)
    log := s.log ++ records }

theorem withBlank_eq (s : Store) (cls : NodeClass) :
    s.withBlank cls = s.withNew (.blank cls (.object s.objects.size)) [] [] := by
  have hlog : s.log ++ ([] : List DebugRecord) = s.log := by simp
  rw [withNew, hlog]
  rfl

theorem node_withNew (s : Store) (r : NodeRecord) (es : Entries Value) (records : List DebugRecord) :
    (s.withNew r es records).node s.nodes.size = r :=
  node_addNode_self s r

theorem node_withNew_of_lt (s : Store) (r : NodeRecord) (es : Entries Value) (records : List DebugRecord) {n : NodeId}
    (hn : n < s.nodes.size) : (s.withNew r es records).node n = s.node n :=
  node_addNode_of_lt s r hn

theorem object_withNew (s : Store) (r : NodeRecord) (es : Entries Value) (records : List DebugRecord) :
    (s.withNew r es records).object s.objects.size = .map es :=
  object_addObject_self s _

theorem object_withNew_of_lt (s : Store) (r : NodeRecord) (es : Entries Value) (records : List DebugRecord)
    {o : ObjectId} (ho : o < s.objects.size) : (s.withNew r es records).object o = s.object o :=
  object_addObject_of_lt s _ ho

theorem extends_withNew (s : Store) (r : NodeRecord) (es : Entries Value) (records : List DebugRecord) :
    s.Extends (s.withNew r es records) where
  size := by simp [withNew]
  node _ hn := node_withNew_of_lt s r es records hn
  objects := by simp [withNew]
  object _ ho := object_withNew_of_lt s r es records ho

theorem updateNode_withNew (s : Store) (r : NodeRecord) (es : Entries Value) (records : List DebugRecord)
    (f : NodeRecord → NodeRecord) :
    (s.withNew r es records).updateNode s.nodes.size f = s.withNew (f r) es records := by
  have hnodes : (s.nodes.push r).modify s.nodes.size f = s.nodes.push (f r) := by
    refine Array.ext (by simp) fun i hi hi' => ?_
    rw [Array.getElem_modify, Array.getElem_push, Array.getElem_push]
    split
    · next heq =>
        subst heq
        rw [dif_neg (Nat.lt_irrefl _), dif_neg (Nat.lt_irrefl _)]
    · next hne =>
        have hlt : i < s.nodes.size := by
          have hle := Nat.le_of_lt_succ (Array.size_push r ▸ (by simpa using hi) : i < s.nodes.size + 1)
          omega
        rw [dif_pos hlt, dif_pos hlt]
  show { s.withNew r es records with nodes := (s.nodes.push r).modify s.nodes.size f } = _
  rw [hnodes]
  rfl

theorem updateObject_withNew (s : Store) (r : NodeRecord) (es es' : Entries Value) (records : List DebugRecord) :
    ((s.withNew r es records).updateObject s.objects.size fun _ => .map es') = s.withNew r es' records := by
  have hobjects : ((s.objects.push (.map es)).modify s.objects.size fun _ => .map es') = s.objects.push (.map es') := by
    refine Array.ext (by simp) fun i hi hi' => ?_
    rw [Array.getElem_modify, Array.getElem_push, Array.getElem_push]
    split
    · next heq =>
        subst heq
        rw [dif_neg (Nat.lt_irrefl _)]
    · next hne =>
        have hlt : i < s.objects.size := by
          have hle : i < s.objects.size + 1 := by simpa using hi
          omega
        rw [dif_pos hlt, dif_pos hlt]
  show { s.withNew r es records with objects := (s.objects.push (.map es)).modify s.objects.size fun _ => .map es' } = _
  rw [hobjects]
  rfl

theorem note_withNew (s : Store) (r : NodeRecord) (es : Entries Value) (records : List DebugRecord) (d : DebugRecord) :
    (s.withNew r es records).note d = s.withNew r es (records ++ [d]) := by
  have hlog : (s.log ++ records).push d = s.log ++ (records ++ [d]) := by
    apply Array.toList_inj.mp
    simp
  show { s.withNew r es records with log := (s.log ++ records).push d } = _
  rw [hlog]
  rfl

/-- The new map passes for a node as little as nothing at all. -/
theorem isNode_withNew (s : Store) (r : NodeRecord) (es : Entries Value) (records : List DebugRecord) (v : Value) :
    (s.withNew r es records).isNode v = s.isNode v := by
  cases v with
  | object o =>
      have hmarker : (s.withNew r es records).marker? o = s.marker? o := by
        rw [marker?, marker?]
        rcases Nat.lt_trichotomy o s.objects.size with hlt | rfl | hgt
        · rw [object_withNew_of_lt s r es records hlt]
        · rw [object_withNew, object_of_size_le s (Nat.le_refl _)]
        · have hout : (s.withNew r es records).objects.size ≤ o := by
            simp only [withNew, Array.size_push]
            exact hgt
          rw [object_of_size_le s (Nat.le_of_lt hgt), object_of_size_le _ hout]
      rw [isNode, isNode, hmarker]
  | _ => rfl

/-! ## Merging -/

/-- A name that the class reserves leaves a record and nothing else. -/
theorem mergeField_reserved (h : isReservedKey r.cls key = true) (children v : Value) :
    mergeField s.nodes.size children key v (s.withNew r es records) =
      .ok children (s.withNew r es (records ++ [.droppedField (shownKey key)])) := by
  unfold mergeField
  rw [Run.get_bind, node_withNew, if_pos h, Run.update_bind, note_withNew]
  rfl

/-- The name of the parent links it, unless it is null. -/
theorem mergeField_parent {t : Store} {n : NodeId} (h : isReservedKey (t.node n).cls (.text "parent") = false)
    (children v : Value) : mergeField n children (.text "parent") v t =
      (if v ≠ .null then assignParent n v >>= fun _ => pure children else pure children) t := by
  unfold mergeField
  rw [Run.get_bind, if_neg (Bool.eq_false_iff.mp h)]
  by_cases hnull : v = .null
  · subst hnull
    rfl
  · show (if v ≠ .null then _ else _ : Run Value) t = _
    rw [if_pos hnull]

/-- The name of a field sets that field, or gives the answer for the children. -/
theorem mergeField_named {name : String} (h : isReservedKey r.cls (.text name) = false) (hname : name ∈ fieldNames)
    (hparent : name = "parent" → v ≠ .null → s.isNode v = true) (children : Value) :
    mergeField s.nodes.size children (.text name) v (s.withNew r es records) =
      .ok (if name ∈ ["nodes", "children"] then v else children)
        (s.withNew { r with
          type := if name ∈ ["type"] then v else r.type
          value := if name ∈ ["value", "val"] then v else r.value
          parent := if name = "parent" ∧ v ≠ .null then some v else r.parent } es records) := by
  have hopened : ¬ isReservedKey ((s.withNew r es records).node s.nodes.size).cls (.text name) = true := by
    rw [node_withNew]
    exact Bool.eq_false_iff.mp h
  simp only [fieldNames, List.mem_cons, List.not_mem_nil, or_false] at hname
  rcases hname with rfl | rfl | rfl | rfl | rfl | rfl
  · unfold mergeField
    rw [Run.get_bind, if_neg hopened]
    exact congrArg (EStateM.Result.ok children) (updateNode_withNew ..)
  · unfold mergeField
    rw [Run.get_bind, if_neg hopened]
    exact congrArg (EStateM.Result.ok children) (updateNode_withNew ..)
  · unfold mergeField
    rw [Run.get_bind, if_neg hopened]
    exact congrArg (EStateM.Result.ok children) (updateNode_withNew ..)
  · unfold mergeField
    rw [Run.get_bind, if_neg hopened]
    rfl
  · unfold mergeField
    rw [Run.get_bind, if_neg hopened]
    rfl
  · rw [mergeField_parent (Bool.eq_false_iff.mpr hopened)]
    by_cases hnull : v = .null
    · subst hnull
      rfl
    · have hcheck : (s.withNew r es records).requireNode "parent" v = .ok () := by
        rw [requireNode, isNode_withNew, hparent rfl hnull, if_pos rfl]
      have hassign : assignParent s.nodes.size v (s.withNew r es records) =
          .ok () (s.withNew { r with parent := some v } es records) := by
        rw [assignParent, if_neg hnull, Run.bind_of_ok (Run.check_of_ok hcheck)]
        exact congrArg (EStateM.Result.ok ()) (updateNode_withNew ..)
      rw [if_pos hnull, Run.bind_of_ok hassign]
      simp [hnull]

/-- **One field is merged**: what it gives is added to what was given before. -/
theorem mergeField_new (hattr : r.attr = .object s.objects.size) (hes : s.LastingKeys es) (hkey : s.Keyable key.value)
    (hparent : ∀ w ∈ parentsGiven r.cls [(key, v)], w ≠ .null → s.isNode w = true) (children : Value) :
    mergeField s.nodes.size children key v (s.withNew r es records) =
      .ok (lastGiven r.cls ["nodes", "children"] children [(key, v)])
        (s.withNew (r.merged r.cls [(key, v)]) (s.putEach es (extrasGiven r.cls [(key, v)]))
          (records ++ droppedBy r.cls [(key, v)])) := by
  cases hreserved : isReservedKey r.cls key with
  | true =>
      have hextra : ¬ IsExtra r.cls key := fun h => by rw [h.1] at hreserved; cases hreserved
      have hnamed (names : List String) := isNamed_eq_false_of_reserved hreserved names
      rw [mergeField_reserved hreserved]
      simp [lastGiven_single, hnamed, NodeRecord.merged, parentsGiven, hreserved, parentAfter, extrasGiven, hextra,
        droppedBy]
  | false =>
      by_cases hextra : IsExtra r.cls key
      · have hnamed (names : List String) (hnames : ∀ name ∈ names, name ∈ fieldNames) :=
          isNamed_eq_false_of_extra hextra hnames
        have hnotParent : key ≠ .text "parent" := hextra.2 "parent" (by decide)
        have hextra' : IsExtra ((s.withNew r es records).node s.nodes.size).cls key := by rwa [node_withNew]
        have hlasts : s.Lasts (s.withNew r es records) := .of_extends (extends_withNew s r es records)
        rw [mergeField_extra hextra' (by rw [node_withNew, hattr]) (object_withNew ..), updateObject_withNew,
          hlasts.comparedAlike.keyAs_eq hes hkey]
        simp [lastGiven_single, hnamed ["type"] (by decide), hnamed ["value", "val"] (by decide),
          hnamed ["nodes", "children"] (by decide), NodeRecord.merged, parentsGiven, hnotParent, parentAfter,
          extrasGiven, hextra, droppedBy, hreserved]
      · obtain ⟨name, hname, rfl⟩ : ∃ name ∈ fieldNames, key = .text name := by
          by_contra hnone
          exact hextra ⟨hreserved, fun name hname heq => hnone ⟨name, hname, heq⟩⟩
        have hgiven : name = "parent" → v ≠ .null → s.isNode v = true := by
          rintro rfl
          exact hparent v (mem_parentsGiven.mpr ⟨hreserved, List.mem_singleton_self _⟩)
        have hafter : parentAfter r.parent (parentsGiven r.cls [(.text name, v)]) =
            if name = "parent" ∧ v ≠ .null then some v else r.parent := by
          by_cases hname : name = "parent"
          · subst hname
            by_cases hnull : v = .null <;> simp [parentsGiven, hreserved, parentAfter, hnull]
          · simp [parentsGiven, hname, parentAfter]
        rw [mergeField_named hreserved hname hgiven, NodeRecord.merged, hafter]
        simp [lastGiven_single, isNamed_text hreserved, extrasGiven, hextra, droppedBy, hreserved]

theorem Keyable.extrasGiven (h : s.Keyable key.value) (cls : NodeClass) (v : Value) :
    s.LastingKeys (extrasGiven cls [(key, v)]) :=
  LastingKeys.filter (fun k hk => by rwa [List.mem_singleton.mp hk]) _

/-- The store after some fields have been merged into a new node. -/
def withMerged (s : Store) (r : NodeRecord) (es : Entries Value) (records : List DebugRecord) (fields : Entries Value) :
    Store :=
  s.withNew (r.merged r.cls fields) (s.putEach es (extrasGiven r.cls fields)) (records ++ droppedBy r.cls fields)

/-- **A map of fields is merged** if its parents are nodes: the new node has what is given last of each. -/
theorem mergeEach_new (hattr : r.attr = .object s.objects.size) (hes : s.LastingKeys es) (hkeys : s.LastingKeys fields)
    (hparents : ∀ w ∈ parentsGiven r.cls fields, w ≠ .null → s.isNode w = true) (children : Value) :
    mergeEach s.nodes.size children fields (s.withNew r es records) =
      .ok (lastGiven r.cls ["nodes", "children"] children fields) (s.withMerged r es records fields) := by
  induction fields generalizing r es records children with
  | nil =>
      rw [withMerged, droppedBy, List.filter_nil, List.map_nil, List.append_nil]
      rfl
  | cons e rest ih =>
      obtain ⟨key, v⟩ := e
      have hsplit : (key, v) :: rest = [(key, v)] ++ rest := rfl
      rw [hsplit, parentsGiven_append] at hparents
      obtain ⟨hkey, hkeys⟩ := List.forall_mem_cons.mp hkeys
      have hfirst : mergeField s.nodes.size children key v (s.withNew r es records) = _ :=
        mergeField_new hattr hes hkey (fun w hw => hparents w (List.mem_append_left _ hw)) children
      show (mergeField s.nodes.size children key v >>= fun children => mergeEach s.nodes.size children rest) _ = _
      rw [Run.bind_of_ok hfirst, ih (r := r.merged r.cls [(key, v)]) hattr (hes.putEach (hkey.extrasGiven _ _)) hkeys
        (fun w hw => hparents w (List.mem_append_right _ hw))]
      rw [withMerged, withMerged, hsplit, lastGiven_append, NodeRecord.merged_append, extrasGiven_append,
        putEach_append, droppedBy_append, List.append_assoc]
      rfl

/-- A parent that is no node is refused, and changes nothing. -/
theorem mergeField_refused (hreserved : isReservedKey r.cls (.text "parent") = false) (hnull : v ≠ .null)
    (hnode : s.isNode v = false) (children : Value) :
    mergeField s.nodes.size children (.text "parent") v (s.withNew r es records) =
      .error (.expectedNode "parent" ((s.withNew r es records).kindName v)) (s.withNew r es records) := by
  have hcheck : (s.withNew r es records).requireNode "parent" v =
      .error (.expectedNode "parent" ((s.withNew r es records).kindName v)) := by
    rw [requireNode, isNode_withNew, hnode, if_neg Bool.false_ne_true]
  have hassign : assignParent s.nodes.size v (s.withNew r es records) =
      .error (.expectedNode "parent" ((s.withNew r es records).kindName v)) (s.withNew r es records) := by
    rw [assignParent, if_neg hnull]
    exact Run.bind_of_error (Run.check_of_error hcheck)
  rw [mergeField_parent (by rwa [node_withNew]), if_pos hnull]
  exact Run.bind_of_error hassign

/-- **A parent that is no node is refused**, once everything before it has been merged. -/
theorem mergeEach_refused {before after : Entries Value} (hattr : r.attr = .object s.objects.size)
    (hes : s.LastingKeys es) (hkeys : s.LastingKeys before)
    (hbefore : ∀ w ∈ parentsGiven r.cls before, w ≠ .null → s.isNode w = true)
    (hreserved : isReservedKey r.cls (.text "parent") = false) (hnull : v ≠ .null) (hnode : s.isNode v = false)
    (children : Value) :
    mergeEach s.nodes.size children (before ++ (.text "parent", v) :: after) (s.withNew r es records) =
      .error (.expectedNode "parent" ((s.withMerged r es records before).kindName v))
        (s.withMerged r es records before) := by
  rw [mergeEach_append, Run.bind_of_ok (mergeEach_new hattr hes hkeys hbefore children)]
  show (mergeField s.nodes.size _ (.text "parent") v >>= fun children => mergeEach s.nodes.size children after) _ = _
  exact Run.bind_of_error (mergeField_refused (r := r.merged r.cls before) hreserved hnull hnode _)

/-- Fields that are merged without a fault leave what they give. -/
theorem mergeEach_ends (hattr : r.attr = .object s.objects.size) (hes : s.LastingKeys es)
    (hkeys : s.LastingKeys fields) (children : Value) :
    Run.Ends (mergeEach s.nodes.size children fields) (s.withNew r es records)
      (fun answer t => answer = lastGiven r.cls ["nodes", "children"] children fields ∧
        t = s.withMerged r es records fields) fun _ _ => True := by
  induction fields generalizing r es records children with
  | nil => exact Run.ends_of_ok (mergeEach_new hattr hes hkeys (fun w hw => by cases hw) children) |>.mpr ⟨rfl, rfl⟩
  | cons e rest ih =>
      obtain ⟨key, v⟩ := e
      have hsplit : (key, v) :: rest = [(key, v)] ++ rest := rfl
      obtain ⟨hkey, hkeys⟩ := List.forall_mem_cons.mp hkeys
      show Run.Ends (mergeField s.nodes.size children key v >>= fun children => mergeEach s.nodes.size children rest) _ _ _
      rw [Run.ends_bind]
      by_cases hfirst : ∀ w ∈ parentsGiven r.cls [(key, v)], w ≠ .null → s.isNode w = true
      · rw [Run.ends_of_ok (mergeField_new hattr hes hkey hfirst children)]
        refine (ih (r := r.merged r.cls [(key, v)]) hattr (hes.putEach (hkey.extrasGiven _ _)) hkeys _).mono ?_
          fun _ _ _ => trivial
        rintro answer t ⟨hanswer, ht⟩
        rw [hsplit, lastGiven_append, withMerged, NodeRecord.merged_append, extrasGiven_append, putEach_append,
          droppedBy_append, ← List.append_assoc]
        exact ⟨hanswer, ht⟩
      · simp only [not_forall] at hfirst
        obtain ⟨w, hw, hnull, hnode⟩ := hfirst
        obtain ⟨hreserved, hmem⟩ := mem_parentsGiven.mp hw
        cases List.mem_singleton.mp hmem
        rw [Run.ends_of_error (mergeField_refused hreserved hnull (Bool.eq_false_iff.mpr hnode) children)]
        trivial

end Store
end SyntaxTree
