import SyntaxTree.Proofs.Acceptance

/-!
# `Proofs.OwnNames` — what is read under a name

A name that the class of nodes does not have is looked up among the extra attributes, and so is one by which they are
asked. What the class has comes first: whatever stands under such a name among the extra attributes, it is not what is
read. Only where the reading of a computed property fails does it come to the extra attributes after all
(`ownReading`), and there nothing stands under such a name, because no way in accepts one.
-/

namespace SyntaxTree
namespace Store

variable {s t u : Store} {n : NodeId} {m : ObjectId} {cls : NodeClass} {es es' items : Entries Value} {v : Value}
  {k name : String} {given : Construction} {member : Member}

/-! ## Names that the class does not have -/

theorem itemAt_map (hm : s.object m = .map es) (k : String) : s.itemAt (.object m) (.text k) =
    match es.find? (.text k) with
    | some w => .ok w
    | none => .error (.missingKey (displayScalar (.text k))) := by
  unfold itemAt
  rw [object?, hm]
  rfl

/-- An extra attribute is what stands under its name. -/
theorem Holding.extra_eq (h : Holding n cls es s) (hname : isReservedName k = false) : s.extra n k =
    match es.find? (.text k) with
    | some w => .ok w
    | none => .error (.missingAttribute cls.name k) := by
  obtain ⟨m, hattr, hm⟩ := h.map
  rw [extra, if_neg (Bool.eq_false_iff.mp hname), hattr, itemAt_map hm, h.cls_eq]
  cases es.find? (.text k) <;> rfl

/-- **A name that the class does not have is read from the map**, and is missing if nothing stands under it. -/
theorem Holding.read_foreign (h : Holding n cls es s) (hname : isReservedName k = false)
    (hforeign : Member.ofName? k = none ∨ Member.ofName? k = some .classOnly) : readNode n k s =
      match es.find? (.text k) with
      | some w => .ok w s
      | none => .error (.missingAttribute cls.name k) s := by
  have hread : readNode n k s = Run.check (fun s => s.extra n k) s := by
    rcases hforeign with hnone | honly
    · rw [readNode, hnone]
    · rw [readNode, honly]
      rfl
  rw [hread, Run.check, h.extra_eq hname]
  cases es.find? (.text k) <;> rfl

theorem requireHashable_text (s : Store) (k : String) : s.requireHashable (.text k) = .ok () := by
  rw [requireHashable, requireHashableWithin]
  rfl

/-- By asking for it the same is found, or else what is given instead. -/
theorem Holding.getAttributes_eq (h : Holding n cls es s) (k : String) (fallback : Value) :
    s.getAttributes n (.text k) fallback = .ok ((es.find? (.text k)).getD fallback) := by
  obtain ⟨m, hattr, hm⟩ := h.map
  have hentries : s.entries? (s.node n).attr = some es := by rw [hattr, entries?, object?, hm]
  rw [getAttributes, if_neg (fun heq => by cases heq), hentries]
  simp only [requireHashable_text, bind, Except.bind]
  rfl

/-! ## Names that the class has -/

/-- What the class does itself to read a name. -/
def ownReading (n : NodeId) (name : String) : Member → Run Value
  | .siblings => do
    let s ← get
    match (s.node n).parent with
    | none => return .null
    | some (.node p) => listValue (s.node p).nodes
    | some p => Run.check fun s => s.foreignSiblings n p
  | .index => locate n
  | .prev => do
    let siblings ← Run.check fun s => s.siblings n
    if !siblings.isPresent (← get) then return .null
    let index ← readIndex n
    if hasBefore index then Run.check fun s => siblings.itemAt s (moved index (-1))
    else return .null
  | .next => do
    let height := (← get).nodes.size
    let siblings ← Run.check fun s => s.siblings n
    if !siblings.isPresent (← get) then return .null
    let index ← readIndex n
    let s ← get
    if index.equalsInt (s.node n).cls.detached then return .null
    if hintIsBelow (← Run.check siblings.count) (moved index 1) then
      Run.check fun s => siblings.itemAt s (moved index 1)
    else
      match (s.node n).parent with
      | none => return .null
      | some (.node p) => nextWithin height p
      | some p => Run.check fun s => s.freeField p "next"
  | .scope => Run.check fun s => s.scope n
  | member => readMember n name member

/-- A step up from a node goes on from its parent. -/
theorem keepsMaps_climb {climb : NodeId → Run Value} (hclimb : ∀ p, Run.Preserves s.KeepsMaps (climb p)) (n : NodeId) :
    Run.Preserves s.KeepsMaps (do
      let siblings ← Run.check fun s => s.siblings n
      if !siblings.isPresent (← get) then return .null
      let index ← readIndex n
      let s ← get
      if index.equalsInt (s.node n).cls.detached then return .null
      if hintIsBelow (← Run.check siblings.count) (moved index 1) then
        Run.check fun s => siblings.itemAt s (moved index 1)
      else
        match (s.node n).parent with
        | none => return .null
        | some (.node p) => climb p
        | some p => Run.check fun s => s.freeField p "next") := by
  refine (Run.Preserves.check _).bind fun siblings => Run.Preserves.get.bind fun t => .ite (fun _ => .pure _) fun _ => ?_
  refine (keepsMaps_readIndex n).bind fun index => Run.Preserves.get.bind fun t => .ite (fun _ => .pure _) fun _ => ?_
  refine (Run.Preserves.check _).bind fun count => .ite (fun _ => .check _) fun _ => ?_
  split
  · exact .pure _
  · exact hclimb _
  · exact .check _

theorem keepsMaps_nextWithin (fuel : Nat) (n : NodeId) : Run.Preserves s.KeepsMaps (nextWithin fuel n) := by
  induction fuel generalizing n with
  | zero => exact .throw _
  | succ fuel ih => exact .recover (keepsMaps_climb ih n) (.check _)

/-- What the class does to read a computed name leaves the maps alone. -/
theorem keepsMaps_ownReading (hcomputed : name ∈ computedNames) (hmember : Member.ofName? name = some member) :
    Run.Preserves s.KeepsMaps (ownReading n name member) := by
  simp only [computedNames, List.mem_cons, List.not_mem_nil, or_false] at hcomputed
  rcases hcomputed with rfl | rfl | rfl | rfl | rfl | rfl | rfl
  · cases hmember
    refine Run.Preserves.get.bind fun t => ?_
    split
    · exact .pure _
    · cases (t.node _).nodes with
      | none => exact .pure _
      | some items => exact .allocate fun u hu => hu.trans (keepsMaps_addObject u fun es heq => by cases heq)
    · exact .check _
  · cases hmember
    exact keepsMaps_locate n
  · cases hmember
    refine (Run.Preserves.check _).bind fun siblings => Run.Preserves.get.bind fun t => .ite (fun _ => .pure _) fun _ => ?_
    exact (keepsMaps_readIndex n).bind fun index => .ite (fun _ => .check _) fun _ => .pure _
  · cases hmember
    exact Run.Preserves.get.bind fun t => keepsMaps_climb (keepsMaps_nextWithin _) n
  · cases hmember
    exact .read _
  · cases hmember
    exact .read _
  · cases hmember
    exact .check _

theorem readMember_eq (n : NodeId) (name : String) (hcomputed : name ∈ computedNames)
    (hmember : Member.ofName? name = some member) (s : Store) : readMember n name member s =
      Run.recover (ownReading n name member) (Run.check fun s => s.extra n name) s := by
  simp only [computedNames, List.mem_cons, List.not_mem_nil, or_false] at hcomputed
  rcases hcomputed with rfl | rfl | rfl | rfl | rfl | rfl | rfl
  · cases hmember
    rfl
  · cases hmember
    rfl
  · cases hmember
    rfl
  · cases hmember
    rfl
  · cases hmember
    rfl
  · cases hmember
    rfl
  · cases hmember
    rfl

/-- **A computed property that fails is missing**: it is asked for among the extra attributes, where nothing has its
name. -/
theorem Holding.read_computed (h : Holding n cls es s) (hnone : es.find? (.text name) = none)
    (hcomputed : name ∈ computedNames) (hmember : Member.ofName? name = some member) : readNode n name s =
      Run.recover (ownReading n name member) (throw (.missingAttribute cls.name name)) s := by
  have hread : readNode n name s = readMember n name member s := by rw [readNode, hmember]
  have hkept := keepsMaps_ownReading (n := n) hcomputed hmember s (.refl s)
  rw [hread, readMember_eq n name hcomputed hmember, Run.recover, Run.recover]
  cases hrun : ownReading n name member s with
  | ok v s' => rfl
  | error e s' =>
      rw [Run.ends_of_error hrun] at hkept
      have hname : isReservedName name = false := by
        simp only [computedNames, List.mem_cons, List.not_mem_nil, or_false] at hcomputed
        rcases hcomputed with rfl | rfl | rfl | rfl | rfl | rfl | rfl <;> decide
      have hmissing : s'.extra n name = .error (.missingAttribute cls.name name) := by
        rw [(h.keepsMaps hkept).extra_eq hname, hnone]
      show (if e.isAttribute then Run.check (fun s => s.extra n name) s' else .error e s') = _
      rw [Run.check_of_error hmissing]
      rfl

/-! ## What stands under the names of members -/

/-- A search through the objects does not notice a change of what it passes over. -/
theorem findIdx?_updateObject (s : Store) (m : ObjectId) (o : Object) {p : Object → Bool} (h : p o = p (s.object m)) :
    (s.updateObject m fun _ => o).objects.findIdx? p = s.objects.findIdx? p := by
  have hmap : (s.objects.modify m fun _ => o).map p = s.objects.map p := by
    refine Array.ext (by simp) fun i hi hi' => ?_
    rw [Array.getElem_map, Array.getElem_map, Array.getElem_modify]
    split
    · next heq =>
        subst heq
        rw [Array.size_map] at hi'
        rw [h, object, Array.getD_eq_getD_getElem?, Array.getElem?_eq_getElem hi', Option.getD_some]
    · rfl
  have hids {objects : Array Object} : objects.findIdx? p = (objects.map p).findIdx? id := by
    rw [Array.findIdx?_map]
    rfl
  rw [updateObject, hids, hmap, ← hids]

/-- **What is read under the name of a member does not depend on what stands under it among the extra attributes.** -/
theorem outcome_readMember (hm : s.object m = .map es)
    (hmember : member ∉ [.siblings, .index, .prev, .next, .scope, .classOnly]) (n : NodeId) (name : String)
    (es' : Entries Value) :
    Run.outcome (readMember n name member (s.updateObject m fun _ => .map es')) =
      Run.outcome (readMember n name member s) := by
  have hsize : (s.updateObject m fun _ => .map es').objects.size = s.objects.size := by
    rw [updateObject, Array.size_modify]
  have hallocate (o : Object) : Run.outcome (Run.allocate o (s.updateObject m fun _ => .map es')) =
      Run.outcome (Run.allocate o s) := congrArg (fun k => Except.ok (Value.object k)) hsize
  have hlist (nodes : Option (List Value)) : Run.outcome (listValue nodes (s.updateObject m fun _ => .map es')) =
      Run.outcome (listValue nodes s) := by
    cases nodes with
    | none => rfl
    | some items => exact hallocate _
  have htuple (items : List Value) : Run.outcome (Run.allocateTuple items (s.updateObject m fun _ => .map es')) =
      Run.outcome (Run.allocateTuple items s) := by
    have hempty : (s.updateObject m fun _ => .map es').emptyTuple? = s.emptyTuple? :=
      findIdx?_updateObject s m _ (by rw [hm])
    unfold Run.allocateTuple
    rw [hempty]
    split
    · rfl
    · exact hallocate _
  cases member with
  | nodes => exact hlist _
  | children => exact hlist _
  | link =>
      show Run.outcome ((if s.parentValue n = .null then pure .null else Run.allocate _ : Run Value) _) =
        Run.outcome ((if s.parentValue n = .null then pure .null else Run.allocate _ : Run Value) s)
      split
      · rfl
      · exact hallocate _
  | reserved => exact hallocate _
  | fields => exact htuple _
  | operation =>
      unfold readMember
      dsimp only
      split
      · have htaken : (s.updateObject m fun _ => .map es').classOperation? name = s.classOperation? name :=
          findIdx?_updateObject s m _ (by rw [hm])
        rw [classOperation, classOperation, htaken]
        split
        · rfl
        · exact hallocate _
      · exact hallocate _
  | siblings => simp at hmember
  | index => simp at hmember
  | prev => simp at hmember
  | next => simp at hmember
  | scope => simp at hmember
  | classOnly => simp at hmember
  | _ => rfl

/-! ## The whole -/

/-- A name that the class keeps out is kept out of what is merged. -/
theorem not_mem_keys_accepted (hreserved : isReservedKey cls (.text name) = true) (es : Entries Value) :
    .text name ∉ (accepted cls es).keys := by
  intro hmem
  obtain ⟨e, he, hkey⟩ := List.mem_map.mp hmem
  have hfree := (List.mem_filter.mp he).2
  rw [hkey, hreserved] at hfree
  cases hfree

theorem ofName?_computed (hcomputed : name ∈ computedNames) :
    ∃ member, Member.ofName? name = some member ∧ member ≠ .classOnly := by
  simp only [computedNames, List.mem_cons, List.not_mem_nil, or_false] at hcomputed
  rcases hcomputed with rfl | rfl | rfl | rfl | rfl | rfl | rfl <;> exact ⟨_, rfl, by decide⟩

/-- **No way in accepts the name of a computed property.** -/
theorem Writes.not_computed (hreserved : isReservedKey cls (.text name) = true) (hcomputed : name ∈ computedNames)
    (h : Writes n cls s items t) : .text name ∉ items.keys := by
  have happend {es fs : Entries Value} (hes : .text name ∉ es.keys) (hfs : .text name ∉ fs.keys) :
      .text name ∉ Entries.keys (es ++ fs) := by
    rw [Entries.keys, List.map_append]
    exact fun hmem => (List.mem_append.mp hmem).elim hes hfs
  induction h with
  | nil => exact List.not_mem_nil
  | @merge _ _ items es named _ _ _ _ _ _ ih =>
      exact happend ih (happend (not_mem_keys_accepted hreserved es) (not_mem_keys_accepted hreserved named))
  | @assign _ _ items name' v _ _ _ _ ih =>
      apply happend ih
      intro hmem
      obtain ⟨member, hmember, -⟩ := ofName?_computed hcomputed
      by_cases hown : (Member.ofName? name').isNone
      · rw [assigned, if_pos hown] at hmem
        cases List.mem_singleton.mp hmem
        rw [hmember] at hown
        cases hown
      · rw [assigned, if_neg hown] at hmem
        cases hmem
  | other _ _ ih => exact ih

/-- A member that is none of the computed properties has another name. -/
theorem not_mem_of_not_computed (hmember : Member.ofName? name = some member) (hclass : member ≠ .classOnly)
    (hcomputed : name ∉ computedNames) :
    member ∉ [.siblings, .index, .prev, .next, .scope, .classOnly] := by
  intro hmem
  apply hcomputed
  by_cases hoperation : member = .operation
  · subst hoperation
    simp at hmem
  · have hnames := mem_names_of_ofName? hmember hoperation hclass
    simp only [List.mem_cons, List.not_mem_nil, or_false] at hmem
    rcases hmem with rfl | rfl | rfl | rfl | rfl | rfl
    · have hname : name = "siblings" := by simpa [Member.names] using hnames
      rw [hname]
      decide
    · have hname : name = "index" := by simpa [Member.names] using hnames
      rw [hname]
      decide
    · have hname : name = "prev" := by simpa [Member.names] using hnames
      rw [hname]
      decide
    · have hname : name = "next" := by simpa [Member.names] using hnames
      rw [hname]
      decide
    · have hname : name = "scope" := by simpa [Member.names] using hnames
      rw [hname]
      decide
    · exact absurd rfl hclass

/-- **The extra attributes are one consistent store.** The map of a node is all that was accepted, by its construction,
by merging and by assigning, in the order in which it came; no name of a computed property is among it. A name that the
class does not have is read from the map in every way, and is missing exactly if it was never accepted. Under a name that
the class has, nothing of the map is read: a computed property that fails is missing, and of every other name it does
not matter what the map holds. -/
theorem attributes_consistent (hcls : ∀ name ∈ computedNames, name ∈ cls.reserved)
    (hgiven : ∀ fields, s.entries? given.value = some fields → s.IsMap fields)
    (hcreate : createUnplaced cls given s = .ok n t) (hwrites : Writes n cls t items u) :
    ∃ m es, (u.node n).attr = .object m ∧ u.object m = .map es ∧
      es = u.putEach [] (given.extras s cls ++ items) ∧
      (∀ name ∈ computedNames, .text name ∉ (given.extras s cls ++ items).keys) ∧
      (∀ k, isReservedName k = false → (Member.ofName? k = none ∨ Member.ofName? k = some .classOnly) →
        (es.find? (.text k) = none ↔ .text k ∉ (given.extras s cls ++ items).keys) ∧
        readNode n k u = (match es.find? (.text k) with
          | some v => .ok v u
          | none => .error (.missingAttribute cls.name k) u) ∧
        ∀ fallback, u.getAttributes n (.text k) fallback = .ok ((es.find? (.text k)).getD fallback)) ∧
      ∀ name member, Member.ofName? name = some member → member ≠ .classOnly →
        (name ∈ computedNames → readNode n name u =
          Run.recover (ownReading n name member) (throw (.missingAttribute cls.name name)) u) ∧
        (name ∉ computedNames → ∀ es', Run.outcome (readNode n name (u.updateObject m fun _ => .map es')) =
          Run.outcome (readNode n name u)) := by
  have hcreated := gathered_createUnplaced (fun fields hfields => (hgiven fields hfields).lasting) cls
  rw [Run.ends_of_ok hcreate] at hcreated
  have hholding := (hcreated.2.writes hwrites).holding
  have hfind (k : String) : (u.putEach [] (given.extras s cls ++ items)).find? (.text k) = none ↔
      .text k ∉ (given.extras s cls ++ items).keys := by
    rw [find?_putEach_eq_none]
    exact and_iff_right rfl
  have hcomputed : ∀ name ∈ computedNames, .text name ∉ (given.extras s cls ++ items).keys := by
    intro name hname hmem
    have hreserved : isReservedKey cls (.text name) = true := decide_eq_true (hcls name hname)
    rw [Entries.keys, List.map_append, List.mem_append] at hmem
    rcases hmem with hmem | hmem
    · rw [Construction.extras] at hmem
      cases hmap : s.entries? given.value with
      | none =>
          rw [hmap] at hmem
          cases hmem
      | some fields =>
          rw [hmap] at hmem
          obtain ⟨e, he, hkey⟩ := List.mem_map.mp hmem
          have hextra := of_decide_eq_true (List.mem_filter.mp he).2
          rw [hkey, IsExtra, hreserved] at hextra
          cases hextra.1
    · exact hwrites.not_computed hreserved hname hmem
  obtain ⟨m, hattr, hm⟩ := hholding.map
  refine ⟨m, _, hattr, hm, rfl, hcomputed, fun k hk hforeign => ⟨hfind k, ?_, ?_⟩,
    fun name member hmember hclass => ⟨?_, ?_⟩⟩
  · exact hholding.read_foreign hk hforeign
  · exact hholding.getAttributes_eq k
  · intro hname
    exact hholding.read_computed ((hfind name).mpr (hcomputed name hname)) hname hmember
  · intro hname es'
    rw [readNode, hmember]
    exact outcome_readMember hm (not_mem_of_not_computed hmember hclass hname) n name es'

/-- A map of fields for a node, and a map to merge; each names a computed property, and the second a field. Each has a
pair for a key, which is not the same object but equal to the other one. -/
def withFieldMaps : Store :=
  { Store.empty with
    objects := #[.map [(.text "note", .text "a"), (.text "siblings", .int 1), (.text "value", .int 2),
        (.other (.object 2), .text "x")],
      .map [(.text "type", .text "t"), (.text "index", .int 3), (.text "note", .text "b"),
        (.other (.object 3), .text "y")],
      .collection .tuple [.int 1, .int 2], .collection .tuple [.int 1, .int 2]] }

/-- What is merged overwrites the note in its place, and so it does what stands under the pair. Nothing gets in under the
names of computed properties; a type among the extra attributes is found by asking for it, and is not the type of the
node. -/
theorem attributes_withFieldMaps : ∃ t u, createUnplaced .node ⟨.object 0, .null, .null, .null⟩ withFieldMaps = .ok 0 t ∧
    (do setAttributes 0 (.object 1) [(.text "prev", .null)]; assignNode 0 "title" (.int 5)) t = .ok () u ∧
    (∃ m, (u.node 0).attr = .object m ∧
      u.object m = .map [(.text "note", .text "b"), (.other (.object 2), .text "y"), (.text "type", .text "t"),
        (.text "title", .int 5)]) ∧
    readNode 0 "note" u = .ok (.text "b") u ∧
    readNode 0 "missing" u = .error (.missingAttribute "Node" "missing") u ∧
    u.getAttributes 0 (.text "type") .null = .ok (.text "t") ∧ readNode 0 "type" u = .ok .null u := by
  obtain ⟨t, ht⟩ : ∃ t, createUnplaced .node ⟨.object 0, .null, .null, .null⟩ withFieldMaps = .ok 0 t := ⟨_, rfl⟩
  obtain ⟨t', ht'⟩ : ∃ t', setAttributes 0 (.object 1) [(.text "prev", .null)] t = .ok () t' := by
    cases ht
    exact ⟨_, rfl⟩
  obtain ⟨u, hu⟩ : ∃ u, assignNode 0 "title" (.int 5) t' = .ok () u := by
    cases ht
    cases ht'
    exact ⟨_, rfl⟩
  have hput {s : Store} {es : Entries Value} {o : ObjectId} (h : s.IsMap es)
      (ho : s.object o = .collection .tuple [.int 1, .int 2]) (v : Value) :
      s.IsMap (es.put (s.keyAs es (.other (.object o))) v) := by
    refine h.put rfl (.object (lt_size_of_object (ho ▸ fun heq => by cases heq)) (by rw [ho]; rfl) fun p hp => ?_) v
    rw [ho] at hp
    rcases List.mem_pair.mp hp with rfl | rfl
    · exact .other fun _ heq => by cases heq
    · exact .other fun _ heq => by cases heq
  have hnamed : withFieldMaps.IsMap [(.text "note", .text "a"), (.text "siblings", .int 1), (.text "value", .int 2)] :=
    .of_texts (by decide) (by decide)
  have hfields : withFieldMaps.IsMap [(.text "note", .text "a"), (.text "siblings", .int 1), (.text "value", .int 2),
      (.other (.object 2), .text "x")] := hput hnamed rfl (.text "x")
  have hmapping : t.mappingEntries (.object 1) = .ok [(.text "type", .text "t"), (.text "index", .int 3),
      (.text "note", .text "b"), (.other (.object 3), .text "y")] := by
    cases ht
    rfl
  have hmerging : t.IsMap [(.text "type", .text "t"), (.text "index", .int 3), (.text "note", .text "b"),
      (.other (.object 3), .text "y")] := by
    have hthird : t.object 3 = .collection .tuple [.int 1, .int 2] := by
      cases ht
      rfl
    have htexts : t.IsMap [(.text "type", .text "t"), (.text "index", .int 3), (.text "note", .text "b")] :=
      .of_texts (by decide) (by decide)
    have hall := hput htexts hthird (.text "y")
    cases ht
    exact hall
  have hmerged : Writes 0 .node t _ t' := Writes.nil.merge hmapping hmerging (by decide) ht'
  have hwrites := hmerged.assign (by decide) (by decide) hu
  obtain ⟨m, es, hattr, hm, rfl, -, hforeign, -⟩ := attributes_consistent (by decide)
    (fun _ heq => by cases heq; exact hfields) ht hwrites
  refine ⟨t, u, ht, (Run.bind_of_ok ht').trans hu, ⟨m, hattr, ?_⟩, ?_, ?_, ?_, ?_⟩
  · rw [hm]
    cases ht
    cases ht'
    cases hu
    rfl
  · cases ht
    cases ht'
    cases hu
    exact (hforeign "note" (by decide) (by decide)).2.1
  · cases ht
    cases ht'
    cases hu
    exact (hforeign "missing" (by decide) (by decide)).2.1
  · cases ht
    cases ht'
    cases hu
    rfl
  · cases ht
    cases ht'
    cases hu
    rfl

end Store
end SyntaxTree
