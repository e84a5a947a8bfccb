import SyntaxTree.Proofs.Removal
import SyntaxTree.Proofs.Showing
import SyntaxTree.Proofs.Successor

/-!
# `Proofs.Positions` — the index is a position, whatever the store holds

What is said of the index elsewhere assumes that parents are nodes, or that siblings are distinct. Here nothing is
known of the store but what one reading comes across: the parent of the node, which may be an object from elsewhere,
what that has for children (`HasNodes`), and an integer hint. There are two ways to an answer, and they need not agree,
for the node may stand in the list many times: a hint that is a position of the node is the answer as it is, and every
other hint is forgotten for the first position that a scan finds (`readIndex_of_hint`, `readIndex_of_miss`). Either
answer is a position (`readIndex_under`, where the parent is a node), and the next reading finds it for a hint
(`readIndex_sound`). A reading leaves everything but the one hint and the debug log (`Rehinted`).

Two things can come in between. A record that somebody reads has to show the node, and what a parent from elsewhere has
for children may be no sequence at all (`index_not_sound`).
-/

namespace SyntaxTree

/-- The value is a position of the node in the list. One below zero is none, though it could be counted from the end. -/
def Value.PositionOf (v : Value) (n : NodeId) (vs : List Value) : Prop :=
  ∃ i : Nat, v.integer? = some (i : Int) ∧ vs[i]? = some (.node n)

theorem Value.positionOf_iff {v : Value} {i : Int} (hi : v.integer? = some i) (n : NodeId) (vs : List Value) :
    v.PositionOf n vs ↔ (decide (0 ≤ i) && vs[i.toNat]? == some (.node n)) = true := by
  rw [Bool.and_eq_true, decide_eq_true_eq, beq_iff_eq]
  constructor
  · rintro ⟨k, hk, hfound⟩
    cases hi.symm.trans hk
    exact ⟨Int.natCast_nonneg k, hfound⟩
  · rintro ⟨hnonneg, hfound⟩
    refine ⟨i.toNat, ?_, hfound⟩
    rw [hi, Int.toNat_of_nonneg hnonneg]

namespace Store

variable {s s' t : Store} {n : NodeId} {p v : Value} {vs : List Value} {row : Option (List Value)}

/-! ## What a parent has for children -/

/-- The value is a list, a tuple, a text or a byte string, and holds these items. -/
inductive IsSequence (s : Store) : Value → List Value → Prop
  | list {o : ObjectId} {items : List Value} : s.object o = .collection .list items → IsSequence s (.object o) items
  | tuple {o : ObjectId} {items : List Value} : s.object o = .collection .tuple items → IsSequence s (.object o) items
  | text (t : String) : IsSequence s (.text t) (t.toList.map fun c => .text (String.singleton c))
  | bytes (bs : List UInt8) : IsSequence s (.bytes bs) (bs.map fun b => .int b.toNat)

/-- A sequence is gone through and asked by position for the same items. -/
theorem IsSequence.inRow (h : s.IsSequence v vs) : (Siblings.other v).InRow s vs := by
  have hitems : s.items v = .ok vs := by
    cases h with
    | list ho => simp [items, object?, ho]
    | tuple ho => simp [items, object?, ho]
    | text t => rfl
    | bytes bs => rfl
  refine ⟨by simp, hitems, ?_, s.kindName v, fun position => ?_⟩
  · show s.lengthOf v = _
    rw [lengthOf, hitems]
  · show s.itemAt v position = _
    cases h with
    | list ho => simp [itemAt, object?, ho, hitems]
    | tuple ho => simp [itemAt, object?, ho, hitems]
    | text t => rfl
    | bytes bs => rfl

/-- What a parent has for children: nothing, or a row of values. A parent from elsewhere may have any sequence in the
place of a list. -/
inductive HasNodes (s : Store) : Value → Option (List Value) → Prop
  | node (p : NodeId) {row : Option (List Value)} : (s.node p).nodes = row → HasNodes s (.node p) row
  | nothing {p : Value} : s.freeField? p "nodes" = some .null → HasNodes s p none
  | sequence {p v : Value} {vs : List Value} : s.freeField? p "nodes" = some v → s.IsSequence v vs →
      HasNodes s p (some vs)

/-- A parent has one thing or another for children. -/
theorem HasNodes.unique {row' : Option (List Value)} (h : s.HasNodes p row) (h' : s.HasNodes p row') : row = row' := by
  have hnothing {vs : List Value} : ¬ s.IsSequence .null vs := fun hnull => by cases hnull
  cases h with
  | node q hq =>
      cases h' with
      | node _ hq' => exact hq.symm.trans hq'
      | nothing hnull => cases hnull
      | sequence hfield _ => cases hfield
  | nothing hnull =>
      cases h' with
      | node _ _ => cases hnull
      | nothing _ => rfl
      | sequence hfield hseq =>
          cases hnull.symm.trans hfield
          exact absurd hseq hnothing
  | sequence hfield hseq =>
      cases h' with
      | node _ _ => cases hfield
      | nothing hnull =>
          cases hnull.symm.trans hfield
          exact absurd hseq hnothing
      | sequence hfield' hseq' =>
          cases hfield.symm.trans hfield'
          have hsame := hseq.inRow.items.symm.trans hseq'.inRow.items
          rw [Except.ok.inj hsame]

/-- Hints and records have no part in what parents have for children. -/
theorem Reread.hasNodes (h : s.Reread s') (hp : s.HasNodes p row) : s'.HasNodes p row := by
  have hobjects : s'.objects = s.objects := h.congr Store.objects fun _ => rfl
  have hobject (o : ObjectId) : s'.object o = s.object o := by rw [object, object, hobjects]
  have hfield (v : Value) (name : String) : s'.freeField? v name = s.freeField? v name :=
    h.resembles.freeField?_eq v name
  cases hp with
  | node q hq => exact .node q ((h.nodes_eq q).trans hq)
  | nothing hnull => exact .nothing ((hfield p "nodes").trans hnull)
  | sequence hv hseq =>
      refine .sequence ((hfield p "nodes").trans hv) ?_
      cases hseq with
      | list ho => exact .list ((hobject _).trans ho)
      | tuple ho => exact .tuple ((hobject _).trans ho)
      | text t => exact .text t
      | bytes bs => exact .bytes bs

theorem siblings_of_nothing (hparent : (s.node n).parent = some p) (hp : s.HasNodes p none) :
    s.siblings n = .ok .absent := by
  cases hp with
  | node q hq => rw [siblings_of_parent s hparent, hq]; rfl
  | nothing hnull =>
      cases p with
      | node q => cases hnull
      | _ => simp [siblings, hparent, foreignSiblings, hnull, bind, Except.bind]

theorem siblings_of_row (hparent : (s.node n).parent = some p) (hp : s.HasNodes p (some vs)) :
    ∃ siblings, s.siblings n = .ok siblings ∧ siblings.InRow s vs := by
  cases hp with
  | node q hq =>
      refine ⟨.nodes vs, ?_, Siblings.inRow_nodes s vs⟩
      rw [siblings_of_parent s hparent, hq]
      rfl
  | @sequence _ v _ hfield hseq =>
      refine ⟨.other v, ?_, hseq.inRow⟩
      have hsome : v ≠ .null := by
        rintro rfl
        cases hseq
      have hforeign : s.foreignSiblings n p = .ok v := by rw [foreignSiblings, hfield]
      cases p with
      | node q => cases hfield
      | _ => simp [siblings, hparent, hforeign, bind, Except.bind]

/-! ## One hint -/

/-- `s'` differs from `s` in the hint of a node and in the debug log only. -/
structure Rehinted (s s' : Store) (n : NodeId) : Prop where
  others : ∀ m, m ≠ n → s'.node m = s.node m
  self : ∃ hint, s'.node n = { s.node n with hint }
  size : s'.nodes.size = s.nodes.size
  rest : s' = { s with nodes := s'.nodes, log := s'.log }

theorem Rehinted.refl (s : Store) (n : NodeId) : s.Rehinted s n := ⟨fun _ _ => rfl, ⟨_, rfl⟩, rfl, rfl⟩

theorem Rehinted.note (h : s.Rehinted t n) (r : DebugRecord) : s.Rehinted (t.note r) n :=
  ⟨h.others, h.self, h.size, by rw [h.rest]; rfl⟩

theorem Rehinted.setHint (h : s.Rehinted t n) (hint : Value) : s.Rehinted (t.setHint n hint) n where
  others m hm := by rw [node_setHint_of_ne t hint hm, h.others m hm]
  self := by
    obtain ⟨hint', hself⟩ := h.self
    by_cases hn : n < t.nodes.size
    · exact ⟨hint, by rw [node_setHint_self t hint hn, hself]⟩
    · have hout : (t.setHint n hint).nodes.size ≤ n := by
        rw [Store.setHint, size_updateNode]
        exact Nat.le_of_not_lt hn
      exact ⟨hint', by rw [node_of_size_le _ hout, ← hself, node_of_size_le t (Nat.le_of_not_lt hn)]⟩
  size := by rw [Store.setHint, size_updateNode, h.size]
  rest := by
    rw [h.rest]
    rfl

/-- What is asked of a record without its hint has the same answer before and after. -/
theorem Rehinted.congr {α : Type} (h : s.Rehinted t n) (f : NodeRecord → α)
    (hf : ∀ (r : NodeRecord) (hint : Value), f { r with hint } = f r) (m : NodeId) : f (t.node m) = f (s.node m) := by
  by_cases hm : m = n
  · obtain ⟨hint, hself⟩ := h.self
    rw [hm, hself, hf]
  · rw [h.others m hm]

theorem Rehinted.nodes_eq (h : s.Rehinted t n) (m : NodeId) : (t.node m).nodes = (s.node m).nodes :=
  h.congr NodeRecord.nodes (fun _ _ => rfl) m

theorem Rehinted.showsAlike (h : s.Rehinted t n) : s.ShowsAlike t := by
  have hobjects : t.objects = s.objects := by rw [h.rest]
  exact ⟨h.size, hobjects, h.congr NodeRecord.type fun _ _ => rfl, h.congr NodeRecord.value fun _ _ => rfl⟩

theorem Rehinted.loggable (h : s.Rehinted t n) (hs : s.Loggable) : t.Loggable :=
  hs.transfer h.showsAlike (by rw [h.rest])

/-! ## One reading -/

/-- Without siblings the answer is the value of the class. -/
theorem readIndex_of_absent (hsiblings : s.siblings n = .ok .absent) : readIndex n s = .ok (s.detached n) s :=
  Run.recover_of_ok (locate_of_absent hsiblings)

section Reading

variable (htrust : s.trustsHints = true) (hparent : (s.node n).parent = some p) (hp : s.HasNodes p (some vs))
include htrust hparent hp

/-- **A hint that is a position of the node is its index**, and the store stays as it is. -/
theorem readIndex_of_hint (hstands : (s.node n).hint.PositionOf n vs) : readIndex n s = .ok (s.node n).hint s := by
  obtain ⟨siblings, hsiblings, hrow⟩ := siblings_of_row hparent hp
  obtain ⟨k, hk, -⟩ := id hstands
  apply Run.recover_of_ok
  rw [locate_of_row htrust hsiblings hrow hk, if_pos ((Value.positionOf_iff hk n vs).mp hstands)]

/-- **Every other hint is forgotten for what a scan finds**, and a record says so. -/
theorem readIndex_of_miss {shown : String} (hhint : ∃ i, (s.node n).hint.integer? = some i)
    (hmissed : ¬ (s.node n).hint.PositionOf n vs) (hshown : shownInRecord (.node n) s = .ok shown s) :
    readIndex n s = .ok (s.scanned vs n) ((s.note (.cacheMiss shown)).setHint n (s.scanned vs n)) := by
  obtain ⟨siblings, hsiblings, hrow⟩ := siblings_of_row hparent hp
  obtain ⟨i, hi⟩ := hhint
  apply Run.recover_of_ok
  rw [locate_of_row htrust hsiblings hrow hi, if_neg fun h => hmissed ((Value.positionOf_iff hi n vs).mpr h)]
  exact rescan_of_row hrow hshown

end Reading

/-- A scan of the list of the parent finds a position of the node or none. -/
theorem scanned_cases (s : Store) (l : List Value) (n : NodeId) :
    (∃ i : Nat, s.scanned l n = .int i ∧ l[i]? = some (.node n)) ∨ .node n ∉ l ∧ s.scanned l n = s.detached n := by
  by_cases hmem : Value.node n ∈ l
  · obtain ⟨i, hi, hscan⟩ := scanned_of_mem s hmem
    exact .inl ⟨i, hscan, hi⟩
  · exact .inr ⟨hmem, scanned_of_not_mem s hmem⟩

/-- **The index of a node below a node `q` is a position of it in the list of `q`**, or the value of its class if it is
not there, whatever the hint is and whatever else the store holds. -/
theorem readIndex_under {q : NodeId} (hlog : s.logIsRead = true → ∃ text, s.display (.node n) = .ok text)
    (hparent : (s.node n).parent = some (.node q)) (hhint : ∃ i : Int, (s.node n).hint = .int i) :
    ∃ v t, readIndex n s = .ok v t ∧ s.Rehinted t n ∧
      ((∃ i : Nat, v = .int i ∧ (s.children q)[i]? = some (.node n)) ∨
        .node n ∉ s.children q ∧ v = s.detached n) := by
  obtain ⟨i, hi⟩ := hhint
  cases hnodes : (s.node q).nodes with
  | none =>
      have hnone : Value.node n ∉ s.children q := by
        rw [children, hnodes]
        exact List.not_mem_nil
      have hrun := readIndex_of_absent (siblings_of_nothing hparent (.node q hnodes))
      exact ⟨s.detached n, s, hrun, .refl s n, .inr ⟨hnone, rfl⟩⟩
  | some vs =>
      have hlist : s.children q = vs := by
        rw [children, hnodes]
        rfl
      have hrow : s.HasNodes (.node q) (some vs) := .node q hnodes
      rw [hlist]
      by_cases htrust : s.trustsHints
      · by_cases hstands : (s.node n).hint.PositionOf n vs
        · -- the hint is trusted
          have hrun := readIndex_of_hint htrust hparent hrow hstands
          obtain ⟨k, hk, hfound⟩ := hstands
          rw [hi] at hk hrun
          cases Option.some.inj hk
          exact ⟨.int k, s, hrun, .refl s n, .inl ⟨k, rfl, hfound⟩⟩
        · obtain ⟨shown, hshown⟩ := shownInRecord_ok hlog
          have hrun := readIndex_of_miss htrust hparent hrow ⟨i, by rw [hi]; rfl⟩ hstands hshown
          exact ⟨s.scanned vs n, _, hrun, ((Rehinted.refl s n).note _).setHint _, scanned_cases s vs n⟩
      · have hscan : s.scanIndex n = .ok (s.scanned vs n) := by
          rw [scanIndex, siblings_of_parent s hparent, hnodes]
          rfl
        exact ⟨s.scanned vs n, s, Run.recover_of_ok (locate_of_untrusted htrust hscan), .refl s n, scanned_cases s vs n⟩

/-! ## The index -/

/-- The node is among no siblings: it has no parent, or its parent has no children, or not this one. -/
def Unplaced (s : Store) (n : NodeId) : Prop :=
  (s.node n).parent = none ∨
    ∃ p, (s.node n).parent = some p ∧ (s.HasNodes p none ∨ ∃ vs, s.HasNodes p (some vs) ∧ .node n ∉ vs)

/-- The parent of the node has children, and the hint is not a position of the node among them. -/
def Misses (s : Store) (n : NodeId) : Prop :=
  ∃ p vs, (s.node n).parent = some p ∧ s.HasNodes p (some vs) ∧ ¬ (s.node n).hint.PositionOf n vs

/-- What reading the index of a node answers and leaves behind. -/
structure IndexRead (s : Store) (n : NodeId) (v : Value) (s' : Store) : Prop where
  /-- The value of the class stands for "not there" and for nothing else. -/
  detached_iff : v = s.detached n ↔ s.Unplaced n
  position : ¬ s.Unplaced n →
    ∃ p vs, (s.node n).parent = some p ∧ s.HasNodes p (some vs) ∧ v.PositionOf n vs
  frame : s.Rehinted s' n
  missed : s.Misses n → ∃ shown, shownInRecord (.node n) s = .ok shown s ∧ s'.log = s.log.push (.cacheMiss shown)
  held : ¬ s.Misses n → s' = s

/-- Reading the index answers what it should; and read once more, with nothing in between, it answers the same and
leaves the store as it was, but for the debug log. -/
def IndexSound (s : Store) (n : NodeId) : Prop :=
  ∃ v s', (Action.read (.node n) "index").perform s = .ok v s' ∧ s.IndexRead n v s' ∧
    ∃ s'', (Action.read (.node n) "index").perform s' = .ok v s'' ∧ s'' = { s' with log := s''.log }

/-- A reading that leaves the store as it is has the same answer the next time. -/
theorem indexSound_of_still (hrun : readIndex n s = .ok v s) (hread : s.IndexRead n v s) : s.IndexSound n :=
  ⟨v, s, hrun, hread, s, hrun, rfl⟩

theorem indexSound_of_absent (hsiblings : s.siblings n = .ok .absent)
    (hunplaced : s.Unplaced n) (hmisses : ¬ s.Misses n) : s.IndexSound n := by
  apply indexSound_of_still (readIndex_of_absent hsiblings)
  exact ⟨⟨fun _ => hunplaced, fun _ => rfl⟩, fun h => absurd hunplaced h, .refl s n, fun h => absurd h hmisses,
    fun _ => rfl⟩

section Row

variable (hparent : (s.node n).parent = some p) (hp : s.HasNodes p (some vs))
include hparent hp

/-- With a row of siblings there is one thing to know. -/
theorem unplaced_iff : s.Unplaced n ↔ .node n ∉ vs := by
  constructor
  · rintro (hnone | ⟨q, hq, hrow⟩)
    · cases hnone.symm.trans hparent
    · cases hq.symm.trans hparent
      rcases hrow with hnothing | ⟨ws, hws, hnot⟩
      · cases hnothing.unique hp
      · cases hws.unique hp
        exact hnot
  · intro hnot
    exact Or.inr ⟨p, hparent, Or.inr ⟨vs, hp, hnot⟩⟩

theorem misses_iff : s.Misses n ↔ ¬ (s.node n).hint.PositionOf n vs := by
  constructor
  · rintro ⟨q, ws, hq, hws, hmissed⟩
    cases hq.symm.trans hparent
    cases hws.unique hp
    exact hmissed
  · intro hmissed
    exact ⟨p, vs, hparent, hp, hmissed⟩

/-- A position and the value of the class are told apart by their sign. -/
theorem indexRead_of_position (hsentinel : (s.node n).cls.detached < 0) (hv : v.PositionOf n vs)
    (hframe : s.Rehinted s' n)
    (hmissed : s.Misses n → ∃ shown, shownInRecord (.node n) s = .ok shown s ∧ s'.log = s.log.push (.cacheMiss shown))
    (hheld : ¬ s.Misses n → s' = s) : s.IndexRead n v s' := by
  have hmem : Value.node n ∈ vs := by
    obtain ⟨i, -, hi⟩ := hv
    exact List.mem_of_getElem? hi
  have hne : v ≠ s.detached n := by
    rintro rfl
    obtain ⟨i, hi, -⟩ := hv
    have hsame : (s.node n).cls.detached = (i : Int) := Option.some.inj hi
    omega
  have hplaced : ¬ s.Unplaced n := fun h => (unplaced_iff hparent hp).mp h hmem
  exact ⟨⟨fun h => absurd h hne, fun h => absurd h hplaced⟩, fun _ => ⟨p, vs, hparent, hp, hv⟩, hframe, hmissed, hheld⟩

end Row

/-! ## Reading after a miss -/

/-- Of two hints that are set one after the other the second one stays. -/
@[simp] theorem setHint_setHint (s : Store) (n : NodeId) (hint hint' : Value) :
    (s.setHint n hint).setHint n hint' = s.setHint n hint' :=
  updateNode_twice s n _ _

section Missed

variable (htrust : s.trustsHints = true) (hparent : (s.node n).parent = some p) (hp : s.HasNodes p (some vs))
  (hlog : s.logIsRead = true → ∃ text, s.display (.node n) = .ok text)
include htrust hparent hp hlog

/-- **What a scan found is found again.** A position is a hint that holds from then on. The value of the class never
holds, and so the siblings are gone through once more, in vain, and the hint is set to what it is. -/
theorem readIndex_again {shown : String} (hs' : s' = (s.note (.cacheMiss shown)).setHint n (s.scanned vs n)) :
    ∃ s'', readIndex n s' = .ok (s.scanned vs n) s'' ∧ s'' = { s' with log := s''.log } := by
  have hlt : n < s.nodes.size := lt_size_of_parent hparent
  have hreread : s.Reread s' := by
    obtain ⟨i, hi⟩ := scanned_int s vs n
    rw [hs', hi]
    exact reread_setHint s _ n i
  have hself : s'.node n = { s.node n with hint := s.scanned vs n } := by
    rw [hs', node_setHint_self _ _ (show n < (s.note (.cacheMiss shown)).nodes.size from hlt)]
    rfl
  have htrust' : s'.trustsHints = true := hreread.trusts.trans htrust
  have hparent' : (s'.node n).parent = some p := by rw [hself, hparent]
  have hp' : s'.HasNodes p (some vs) := hreread.hasNodes hp
  rcases scanned_cases s vs n with ⟨i, hi, hfound⟩ | ⟨hnot, hdetached⟩
  · have hstands : (s'.node n).hint.PositionOf n vs := by
      rw [hself]
      exact ⟨i, by rw [hi]; rfl, hfound⟩
    have hrun := readIndex_of_hint htrust' hparent' hp' hstands
    refine ⟨s', ?_, rfl⟩
    rw [hrun, hself]
  · have hmissed' : ¬ (s'.node n).hint.PositionOf n vs := by
      rintro ⟨i, -, hi⟩
      exact hnot (List.mem_of_getElem? hi)
    have hhint' : ∃ i, (s'.node n).hint.integer? = some i := by
      rw [hself, hdetached]
      exact ⟨(s.node n).cls.detached, rfl⟩
    obtain ⟨shown', hshown'⟩ : ∃ shown', shownInRecord (.node n) s' = .ok shown' s' := by
      apply shownInRecord_ok
      intro hread
      obtain ⟨text, htext⟩ := hlog (hreread.resembles.logIsRead ▸ hread)
      exact ⟨text, (hreread.resembles.display_eq (.node n)).trans htext⟩
    have hscan : s'.scanned vs n = s.scanned vs n := hreread.resembles.scanned_eq vs n
    have hrun := readIndex_of_miss htrust' hparent' hp' hhint' hmissed' hshown'
    have hstill : (s'.note (.cacheMiss shown')).setHint n (s.scanned vs n) = s'.note (.cacheMiss shown') := by
      rw [hs']
      exact setHint_setHint ((s.note (.cacheMiss shown)).note (.cacheMiss shown')) n _ _
    rw [hscan, hstill] at hrun
    exact ⟨_, hrun, rfl⟩

/-- A miss is recorded, and what the scan finds is the answer from then on. -/
theorem indexSound_of_miss (hhint : ∃ i, (s.node n).hint.integer? = some i) (hsentinel : (s.node n).cls.detached < 0)
    (hmissed : ¬ (s.node n).hint.PositionOf n vs) : s.IndexSound n := by
  obtain ⟨shown, hshown⟩ := shownInRecord_ok hlog
  have hrun := readIndex_of_miss htrust hparent hp hhint hmissed hshown
  refine ⟨_, _, hrun, ?_, readIndex_again htrust hparent hp hlog rfl⟩
  have hmisses : s.Misses n := (misses_iff hparent hp).mpr hmissed
  have hframe : s.Rehinted ((s.note (.cacheMiss shown)).setHint n (s.scanned vs n)) n :=
    ((Rehinted.refl s n).note _).setHint _
  rcases scanned_cases s vs n with ⟨i, hi, hfound⟩ | ⟨hnot, hdetached⟩
  · apply indexRead_of_position hparent hp hsentinel ⟨i, by rw [hi]; rfl, hfound⟩ hframe
    · exact fun _ => ⟨shown, hshown, rfl⟩
    · exact fun h => absurd hmisses h
  · have hunplaced : s.Unplaced n := (unplaced_iff hparent hp).mpr hnot
    exact ⟨⟨fun _ => hunplaced, fun _ => hdetached⟩, fun h => absurd hunplaced h, hframe,
      fun _ => ⟨shown, hshown, rfl⟩, fun h => absurd hmisses h⟩

end Missed

/-- **The index is sound in every store.** Whatever lists hold, wherever parents lead and whichever integer the hint is:
the index of a node is the value of its class if and only if the node is among no siblings, and otherwise a position at
which it stands. Reading it leaves everything but the hint of the node; a record is written if and only if there are
siblings and the hint was not a position of the node. Read once more, the index is the same.

What a parent from elsewhere has for children has to be a sequence, and a record that is written for somebody who reads
it has to show the node. -/
theorem readIndex_sound (htrust : s.trustsHints = true) (hhint : ∃ i, (s.node n).hint.integer? = some i)
    (hsentinel : (s.node n).cls.detached < 0) (hparent : ∀ p, (s.node n).parent = some p → ∃ row, s.HasNodes p row)
    (hlog : s.Misses n → s.logIsRead = true → ∃ text, s.display (.node n) = .ok text) : s.IndexSound n := by
  cases hp : (s.node n).parent with
  | none =>
      have hsiblings : s.siblings n = .ok .absent := by rw [siblings, hp]
      apply indexSound_of_absent hsiblings (Or.inl hp)
      rintro ⟨p, vs, hparent, -⟩
      cases hp.symm.trans hparent
  | some p =>
      obtain ⟨row, hrow⟩ := hparent p hp
      cases row with
      | none =>
          apply indexSound_of_absent (siblings_of_nothing hp hrow) (Or.inr ⟨p, hp, Or.inl hrow⟩)
          rintro ⟨q, vs, hq, hvs, -⟩
          cases hp.symm.trans hq
          cases hrow.unique hvs
      | some vs =>
          by_cases hstands : (s.node n).hint.PositionOf n vs
          · have hholds : ¬ s.Misses n := fun h => (misses_iff hp hrow).mp h hstands
            apply indexSound_of_still (readIndex_of_hint htrust hp hrow hstands)
            apply indexRead_of_position hp hrow hsentinel hstands (.refl s n)
            · exact fun h => absurd h hholds
            · exact fun _ => rfl
          · have hmisses : s.Misses n := (misses_iff hp hrow).mpr hstands
            exact indexSound_of_miss htrust hp hrow (hlog hmisses) hhint hsentinel hstands

/-! ## A node that stands twice in a list -/

/-- A node with one child that it has twice, and a hint that would count from the end. -/
def withBackwardHint : Store :=
  (Action.performAll
    [.create .node .empty, .create .node .empty, .push (.node 0) (.node 1), .push (.node 0) (.node 1),
      .assign (.node 1) "index" (.int (-1))] .empty).2

/-- The hint is not trusted, and the index is the first of the two positions. -/
theorem readIndex_withBackwardHint : withBackwardHint.trustsHints = true ∧
    (withBackwardHint.node 1).hint = .int (-1) ∧ (withBackwardHint.node 1).cls.detached < 0 ∧
    (withBackwardHint.node 1).parent = some (.node 0) ∧
    withBackwardHint.HasNodes (.node 0) (some [.node 1, .node 1]) ∧ withBackwardHint.Misses 1 ∧
    withBackwardHint.logIsRead = false ∧ withBackwardHint.IndexSound 1 ∧ withBackwardHint.Reads 1 "index" (.int 0) := by
  have hnodes : withBackwardHint.HasNodes (.node 0) (some [.node 1, .node 1]) := .node 0 rfl
  have hmisses : withBackwardHint.Misses 1 := by
    refine ⟨.node 0, _, rfl, hnodes, ?_⟩
    rintro ⟨i, hi, -⟩
    have hminus : (-1 : Int) = i := Option.some.inj hi
    omega
  refine ⟨rfl, rfl, by decide, rfl, hnodes, hmisses, rfl, ?_, rfl⟩
  apply readIndex_sound rfl ⟨-1, rfl⟩ (by decide)
  · rintro p hp
    cases hp
    exact ⟨_, hnodes⟩
  · intro _ hread
    cases hread

/-- A node whose parent is an object from elsewhere with a set in the place of its children. -/
def belowSet : Store :=
  (Action.performAll [.create .node .empty, .assign (.node 0) "parent" (.object 1), .assign (.node 0) "index" (.int 0)]
    { Store.empty with objects :=
      #[.collection .set [.text "a"], .foreign "ForeignNode" (.bool true) [(.text "nodes", .object 0)]] }).2

/-- **Neither condition can go.** The record of a miss cannot be written about a node that shows itself, if somebody
reads it; and a set is not asked for what stands at a position, though the node is not in it. -/
theorem index_not_sound :
    (¬ ∀ (s : Store) (n : NodeId), s.trustsHints = true → (∃ i, (s.node n).hint.integer? = some i) →
      (s.node n).cls.detached < 0 → (∀ p, (s.node n).parent = some p → ∃ row, s.HasNodes p row) → s.IndexSound n) ∧
    ¬ ∀ (s : Store) (n : NodeId), s.trustsHints = true → (∃ i, (s.node n).hint.integer? = some i) →
      (s.node n).cls.detached < 0 →
      (s.Misses n → s.logIsRead = true → ∃ text, s.display (.node n) = .ok text) → s.IndexSound n := by
  constructor
  · intro hsound
    obtain ⟨v, s', hrun, -⟩ := hsound withEndlessRecord 2 rfl ⟨7, rfl⟩ (by decide) fun p hp => by
      cases hp
      exact ⟨_, .node 0 rfl⟩
    have hendless : Run.outcome ((Action.read (.node 2) "index").perform withEndlessRecord) = .error .endless := rfl
    rw [hrun] at hendless
    cases hendless
  · intro hsound
    obtain ⟨v, s', hrun, -⟩ := hsound belowSet 0 rfl ⟨0, rfl⟩ (by decide) fun _ hread => by cases hread
    have hfault : Run.outcome ((Action.read (.node 0) "index").perform belowSet) =
        .error (.notSubscriptable "set") := rfl
    rw [hrun] at hfault
    cases hfault

end Store
end SyntaxTree
