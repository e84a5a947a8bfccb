import SyntaxTree.Proofs.Run
import SyntaxTree.Proofs.Resemblance

/-!
# `Proofs.Index` — reading an index is scanning

The index of a node is read through a hint that may be stale, and reading it may write the hint anew.
`plainIndex` is the same question asked of the lists alone: the first position of the node among its
siblings, or the value of its class for "not there". A hint that holds is a position of the node; so on
a list without repetitions the hint and the scan cannot give different answers.

`Reread` is all that the reading leaves behind: other hints and a longer debug log.
-/

namespace SyntaxTree

/-- The hint is an integer, and the parent a node if there is one. -/
structure NodeRecord.Proper (r : NodeRecord) : Prop where
  hint_int : ∃ i : Int, r.hint = .int i
  parent_node : ∀ p, r.parent = some p → ∃ m, p = .node m

theorem NodeRecord.proper_iff (r : NodeRecord) :
    r.Proper ↔ (r.hint matches .int _) ∧ (r.parent matches none | some (.node _)) := by
  constructor
  · rintro ⟨⟨i, hi⟩, hparent⟩
    refine ⟨by rw [hi], ?_⟩
    cases hp : r.parent with
    | none => rfl
    | some p =>
        obtain ⟨m, rfl⟩ := hparent p hp
        rfl
  · rintro ⟨hhint, hparent⟩
    refine ⟨?_, fun p hp => ?_⟩
    · cases hi : r.hint with
      | int i => exact ⟨i, rfl⟩
      | _ => rw [hi] at hhint; cases hhint
    · rw [hp] at hparent
      cases p with
      | node m => exact ⟨m, rfl⟩
      | _ => cases hparent

instance (r : NodeRecord) : Decidable r.Proper := decidable_of_iff' _ r.proper_iff

/-- The integer that a value is; the truth values are one and zero. -/
def Value.integer? : Value → Option Int
  | .int i => some i
  | .bool b => some (if b then 1 else 0)
  | _ => none

/-- The siblings stand in a row: they are gone through, counted, and asked by position for the same values. -/
structure Siblings.InRow (siblings : Siblings) (s : Store) (vs : List Value) : Prop where
  present : siblings ≠ .absent
  items : siblings.items s = .ok vs
  count : siblings.count s = .ok vs.length
  itemAt : ∃ sequence, ∀ position, siblings.itemAt s position = s.listItem sequence vs position

/-- A list of children is a row. -/
theorem Siblings.inRow_nodes (s : Store) (l : List Value) : (Siblings.nodes l).InRow s l :=
  ⟨by simp, rfl, rfl, "list", fun _ => rfl⟩

namespace Store

/-- What holds of the nodes that there are and of a blank record holds of all. -/
theorem forall_node {s : Store} {P : NodeRecord → Prop} (h : ∀ n < s.nodes.size, P (s.node n))
    (hblank : P default) (n : NodeId) : P (s.node n) := by
  by_cases hn : n < s.nodes.size
  · exact h n hn
  · rw [node_of_size_le s (Nat.le_of_not_lt hn)]
    exact hblank

theorem proper_updateNode {s : Store} (hs : ∀ m, (s.node m).Proper) (n : NodeId)
    {f : NodeRecord → NodeRecord} (hf : ∀ r, r.Proper → (f r).Proper) (m : NodeId) :
    ((s.updateNode n f).node m).Proper := by
  rw [node_updateNode]
  split
  · exact hf _ (hs m)
  · exact hs m

theorem proper_addNode {s : Store} (hs : ∀ m, (s.node m).Proper) {r : NodeRecord} (hr : r.Proper)
    (m : NodeId) : ((s.addNode r).node m).Proper := by
  rcases Nat.lt_trichotomy m s.nodes.size with hlt | rfl | hgt
  · rw [node_addNode_of_lt s r hlt]
    exact hs m
  · rw [node_addNode_self]
    exact hr
  · have hout : (s.addNode r).nodes.size ≤ m := by
      rw [size_addNode]
      exact hgt
    rw [node_of_size_le _ hout]
    exact ⟨⟨_, rfl⟩, fun p hp => by cases hp⟩

/-! ## Stores in which indices can be read -/

/-- A debug record can be written about every node, if somebody reads the records. -/
def Loggable (s : Store) : Prop :=
  s.logIsRead = true → ∀ n, ∃ shown, s.display (.node n) = .ok shown

/-- Every index can be read. -/
structure Regular (s : Store) : Prop where
  proper : ∀ n, (s.node n).Proper
  loggable : s.Loggable

/-- `s'` differs from `s` in hints and in the debug log only. -/
structure Reread (s s' : Store) : Prop where
  unhinted : s'.unhinted = s.unhinted
  hint_int : ∀ n, (∃ i : Int, (s.node n).hint = .int i) → ∃ i : Int, (s'.node n).hint = .int i
  trusts : s'.trustsHints = s.trustsHints

theorem Reread.refl (s : Store) : s.Reread s := ⟨rfl, fun _ h => h, rfl⟩

theorem Reread.trans {s s' s'' : Store} (h : s.Reread s') (h' : s'.Reread s'') : s.Reread s'' :=
  ⟨h'.unhinted.trans h.unhinted, fun n hn => h'.hint_int n (h.hint_int n hn), h'.trusts.trans h.trusts⟩

theorem Reread.resembles {s s' : Store} (h : s.Reread s') : s'.Resembles s := resembles_of_unhinted h.unhinted

/-- A question that does not ask for hints has the same answer before and after. -/
theorem Reread.congr {α : Type} {s s' : Store} (h : s.Reread s') (f : Store → α)
    (hf : ∀ s : Store, f s.unhinted = f s) : f s' = f s := by
  rw [← hf s', h.unhinted, hf s]

theorem Reread.nodes_eq {s s' : Store} (h : s.Reread s') (n : NodeId) :
    (s'.node n).nodes = (s.node n).nodes :=
  h.congr (fun s => (s.node n).nodes) fun s => by rw [node_unhinted]; rfl

theorem Reread.proper {s s' : Store} (h : s.Reread s') (n : NodeId) (hn : (s.node n).Proper) :
    (s'.node n).Proper := by
  have hparent : (s'.node n).parent = (s.node n).parent :=
    h.resembles.parent n
  exact ⟨h.hint_int n hn.hint_int, fun p hp => hn.parent_node p (hparent ▸ hp)⟩

theorem Reread.regular {s s' : Store} (h : s.Reread s') (hs : s.Regular) : s'.Regular where
  proper n := h.proper n (hs.proper n)
  loggable hread n := by
    have hlog : s'.logIsRead = s.logIsRead := h.resembles.logIsRead
    obtain ⟨shown, hshown⟩ := hs.loggable (hlog ▸ hread) n
    have hsame : s'.display (.node n) = s.display (.node n) :=
      h.resembles.display_eq (.node n)
    exact ⟨shown, hsame.trans hshown⟩

theorem reread_note (s : Store) (r : DebugRecord) : s.Reread (s.note r) := ⟨rfl, fun _ h => h, rfl⟩

theorem reread_hint (s : Store) (n : NodeId) (i : Int) : s.Reread (s.setHint n (.int i)) where
  unhinted := by
    have hnodes : (s.nodes.modify n fun r => { r with hint := .int i }).map NodeRecord.unhinted =
        s.nodes.map NodeRecord.unhinted := by
      apply Array.ext
      · simp
      · intro m hm hm'
        by_cases h : n = m <;> simp [Array.getElem_modify, h, NodeRecord.unhinted]
    show ({ s with nodes := (s.nodes.modify n fun r => { r with hint := .int i }).map _,
                   log := #[], trustsHints := false } : Store) = _
    rw [hnodes]
    rfl
  hint_int m hm := by
    rw [setHint, node_updateNode]
    split
    · exact ⟨i, rfl⟩
    · exact hm
  trusts := rfl

/-- Noting a record and setting a hint to an integer is all that a scan does. -/
theorem reread_setHint (s : Store) (r : DebugRecord) (n : NodeId) (i : Int) :
    s.Reread ((s.note r).setHint n (.int i)) :=
  (reread_note s r).trans (reread_hint _ n i)

/-! ## The plain index -/

/-- The children of the parent of a node, none at all without a parent. -/
def siblingList (s : Store) (n : NodeId) : List Value :=
  match (s.node n).parent with
  | some (.node p) => s.children p
  | _ => []

/-- The index of a node, read off the lists alone. -/
def plainIndex (s : Store) (n : NodeId) : Value := s.scanned (s.siblingList n) n

theorem Resembles.siblingList_eq {s t : Store} (h : s.Resembles t) (n : NodeId) :
    s.siblingList n = t.siblingList n := by
  simp only [siblingList, h.parent, h.children]

theorem Resembles.plainIndex_eq {s t : Store} (h : s.Resembles t) (n : NodeId) :
    s.plainIndex n = t.plainIndex n := by
  simp only [plainIndex, h.siblingList_eq, h.scanned_eq]

theorem siblingList_of_parent {s : Store} {n p : NodeId} (h : (s.node n).parent = some (.node p)) :
    s.siblingList n = s.children p := by
  rw [siblingList, h]

/-- A position of a node in a list without repetitions is the one that a scan finds. -/
theorem scanned_of_getElem? (s : Store) {l : List Value} {n : NodeId} {i : Nat} (hnodup : l.Nodup)
    (h : l[i]? = some (.node n)) : s.scanned l n = .int i := by
  obtain ⟨hlt, hi⟩ := List.getElem?_eq_some_iff.mp h
  have hpos : position? l n = some i := by
    unfold position?
    rw [List.idxOf?_eq_some_iff]
    refine ⟨hlt, hi, fun j hj hfound => ?_⟩
    have hsame : l[j]? = l[i]? := by rw [h, List.getElem?_eq_getElem (Nat.lt_trans hj hlt), hfound]
    exact Nat.ne_of_lt hj ((List.getElem?_inj (Nat.lt_trans hj hlt) hnodup).mp hsame)
  rw [scanned, hpos]
  rfl

theorem scanned_of_not_mem (s : Store) {l : List Value} {n : NodeId} (h : Value.node n ∉ l) :
    s.scanned l n = s.detached n := by
  have hpos : position? l n = none := by
    unfold position?
    rw [List.idxOf?_eq_none_iff]
    exact h
  rw [scanned, hpos]
  rfl

/-- What a scan finds is an integer. -/
theorem scanned_int (s : Store) (l : List Value) (n : NodeId) : ∃ i : Int, s.scanned l n = .int i := by
  unfold scanned
  cases position? l n with
  | none => exact ⟨_, rfl⟩
  | some i => exact ⟨i, rfl⟩

/-! ## Reading the index -/

/-- Without a list of siblings there is nothing to look through; with one, it is the plain list. -/
theorem siblings_eq {s : Store} (hs : s.Regular) (n : NodeId) :
    (s.siblings n = .ok .absent ∧ s.siblingList n = []) ∨
      s.siblings n = .ok (.nodes (s.siblingList n)) := by
  cases hp : (s.node n).parent with
  | none => exact Or.inl ⟨by simp [siblings, hp], by simp [siblingList, hp]⟩
  | some p =>
      obtain ⟨m, rfl⟩ := (hs.proper n).parent_node p hp
      rw [siblings_of_parent s hp, siblingList_of_parent hp, children]
      cases (s.node m).nodes with
      | none => exact Or.inl ⟨rfl, rfl⟩
      | some l => exact Or.inr rfl

/-- The siblings of a child are the children of its parent. -/
theorem siblings_of_mem {s : Store} {n p : NodeId} (hparent : (s.node n).parent = some (.node p))
    (hmem : .node n ∈ s.children p) : s.siblings n = .ok (.nodes (s.children p)) := by
  rw [siblings_of_parent s hparent, children]
  rw [children] at hmem
  cases hnodes : (s.node p).nodes with
  | none => rw [hnodes] at hmem; cases hmem
  | some l => rfl

theorem hintIsNonneg_of_integer (s : Store) {hint : Value} {i : Int} (hi : hint.integer? = some i) :
    s.hintIsNonneg hint = .ok (decide (0 ≤ i)) := by
  cases hint with
  | int j => cases hi; rfl
  | bool b => cases hi; rfl
  | _ => cases hi

theorem hintIsBelow_of_integer {hint : Value} {i : Int} (hi : hint.integer? = some i) (count : Nat) :
    hintIsBelow count hint = decide (i < count) := by
  cases hint with
  | int j => cases hi; rfl
  | bool b => cases hi; rfl
  | _ => cases hi

/-- An integer that is a position of a list is asked for what stands there. -/
theorem listItem_of_integer (s : Store) (sequence : String) {l : List Value} {position : Value} {k : Nat}
    (hk : position.integer? = some (k : Int)) (hlt : k < l.length) : s.listItem sequence l position = .ok l[k] := by
  have hplace : s.placeOf sequence l.length (.indexOutOfRange sequence) position = .ok k := by
    cases position with
    | int j =>
        cases hk
        simp only [placeOf, Value.toInt?, Option.getD_some, placeOf?_of_lt hlt]
    | bool b =>
        simp only [Value.integer?, Option.some.injEq] at hk
        simp only [placeOf, Value.toInt?, Option.getD_some, hk, placeOf?_of_lt hlt]
    | _ => cases hk
  simp [listItem, hplace, hlt, bind, Except.bind]

/-- A hint below zero or past the end does not hold; any other holds if this very node stands there. -/
theorem hintHolds_of_integer {s : Store} {siblings : Siblings} {vs : List Value} {hint : Value} {i : Int}
    (hrow : siblings.InRow s vs) (hi : hint.integer? = some i) (n : NodeId) :
    s.hintHolds siblings n hint = .ok (decide (0 ≤ i) && vs[i.toNat]? == some (.node n)) := by
  unfold hintHolds
  rw [hintIsNonneg_of_integer s hi]
  by_cases h : 0 ≤ i
  · obtain ⟨k, rfl⟩ := Int.eq_ofNat_of_zero_le h
    rw [hrow.count]
    by_cases hlt : k < vs.length
    · obtain ⟨sequence, hitem⟩ := hrow.itemAt
      simp [bind, Except.bind, hintIsBelow_of_integer hi, hlt, hitem, listItem_of_integer s sequence hi hlt]
    · simp [bind, Except.bind, hintIsBelow_of_integer hi, hlt]
  · simp [bind, Except.bind, h]

/-- A record can be written if nobody reads it or the value can be shown. -/
theorem shownInRecord_ok {s : Store} {v : Value} (hshown : s.logIsRead = true → ∃ shown, s.display v = .ok shown) :
    ∃ shown, shownInRecord v s = .ok shown s := by
  unfold shownInRecord
  cases hd : s.display v with
  | ok shown => exact ⟨shown, rfl⟩
  | error e =>
      by_cases hread : s.logIsRead
      · obtain ⟨shown, hok⟩ := hshown hread
        cases hd.symm.trans hok
      · exact ⟨"...", by simp [hread]⟩

theorem shownInRecord_node {s : Store} (hs : s.Loggable) (n : NodeId) :
    ∃ shown, shownInRecord (.node n) s = .ok shown s :=
  shownInRecord_ok fun hread => hs hread n

/-- A scan finds the first position in the row, notes a miss and renews the hint. -/
theorem rescan_of_row {s : Store} {n : NodeId} {siblings : Siblings} {vs : List Value} {shown : String}
    (hrow : siblings.InRow s vs) (hshown : shownInRecord (.node n) s = .ok shown s) :
    rescan n siblings s = .ok (s.scanned vs n) ((s.note (.cacheMiss shown)).setHint n (s.scanned vs n)) := by
  have hitems : siblings.items (s.note (.cacheMiss shown)) = .ok vs := hrow.items
  rw [rescan, Run.bind_of_ok hshown, Run.update_bind, Run.bind_of_ok (Run.check_of_ok hitems)]
  rfl

theorem rescan_eq {s : Store} {n : NodeId}
    (hshown : s.logIsRead = true → ∃ shown, s.display (.node n) = .ok shown) (l : List Value) :
    ∃ r, rescan n (.nodes l) s = .ok (s.scanned l n) ((s.note r).setHint n (s.scanned l n)) := by
  obtain ⟨shown, hrecord⟩ := shownInRecord_ok hshown
  exact ⟨.cacheMiss shown, rescan_of_row (Siblings.inRow_nodes s l) hrecord⟩

/-- Whether the hint of a node is trusted, and this very node stands there. -/
def hintStands (s : Store) (n : NodeId) : Bool :=
  s.trustsHints && match (s.node n).hint with
    | .int i => decide (0 ≤ i) && (s.siblingList n)[i.toNat]? == some (.node n)
    | _ => false

/-- The index of a node: its hint if that stands, and otherwise the plain index. -/
def heldIndex (s : Store) (n : NodeId) : Value :=
  if s.hintStands n then (s.node n).hint else s.plainIndex n

/-- A hint that stands is a position of the node. -/
theorem hint_of_stands {s : Store} {n : NodeId} (h : s.hintStands n = true) :
    ∃ i : Nat, (s.node n).hint = .int i ∧ (s.siblingList n)[i]? = some (.node n) := by
  unfold hintStands at h
  cases hhint : (s.node n).hint with
  | int i =>
      simp only [hhint, Bool.and_eq_true, decide_eq_true_eq, beq_iff_eq] at h
      obtain ⟨-, hi, hfound⟩ := h
      exact ⟨i.toNat, by rw [Int.toNat_of_nonneg hi], hfound⟩
  | _ => simp [hhint] at h

/-- The index is a position of the node or the plain index. -/
theorem heldIndex_cases (s : Store) (n : NodeId) :
    (∃ i : Nat, s.heldIndex n = .int i ∧ (s.siblingList n)[i]? = some (.node n)) ∨
      s.heldIndex n = s.plainIndex n := by
  unfold heldIndex
  split
  · next h => exact Or.inl (hint_of_stands h)
  · exact Or.inr rfl

/-- Without repetitions there is one position at most. -/
theorem heldIndex_of_nodup {s : Store} {n : NodeId} (hnodup : (s.siblingList n).Nodup) :
    s.heldIndex n = s.plainIndex n := by
  rcases heldIndex_cases s n with ⟨i, hheld, hi⟩ | hplain
  · rw [hheld, plainIndex, scanned_of_getElem? s hnodup hi]
  · exact hplain

/-- Among siblings in a row an integer hint decides. -/
theorem locate_of_row {s : Store} {n : NodeId} {siblings : Siblings} {vs : List Value} {i : Int}
    (htrust : s.trustsHints = true) (hsiblings : s.siblings n = .ok siblings) (hrow : siblings.InRow s vs)
    (hi : (s.node n).hint.integer? = some i) :
    locate n s = if decide (0 ≤ i) && vs[i.toNat]? == some (.node n) then .ok (s.node n).hint s
      else rescan n siblings s := by
  simp only [locate, Run.get_bind, htrust, Bool.not_true, Bool.false_eq_true, if_false]
  rw [Run.bind_of_ok (Run.check_of_ok hsiblings)]
  cases siblings with
  | absent => exact absurd rfl hrow.present
  | _ =>
      dsimp only
      rw [Run.bind_of_ok (Run.check_of_ok (hintHolds_of_integer hrow hi n))]
      split <;> rfl

theorem locate_of_siblings {s : Store} {n : NodeId} {vs : List Value} {i : Int} (htrust : s.trustsHints = true)
    (hsiblings : s.siblings n = .ok (.nodes vs)) (hi : (s.node n).hint = .int i) :
    locate n s = if decide (0 ≤ i) && vs[i.toNat]? == some (.node n) then .ok (.int i) s
      else rescan n (.nodes vs) s := by
  have hinteger : (s.node n).hint.integer? = some i := by
    rw [hi]
    rfl
  rw [locate_of_row htrust hsiblings (Siblings.inRow_nodes s vs) hinteger, hi]

/-- Where hints are not trusted every index comes from a scan. -/
theorem locate_of_untrusted {s : Store} {n : NodeId} {v : Value} (htrust : ¬ s.trustsHints)
    (hscan : s.scanIndex n = .ok v) : locate n s = .ok v s := by
  simp only [locate, Run.get_bind, htrust, Bool.not_false, if_true]
  exact Run.check_of_ok hscan

/-- A hint that is a position of the node is its index; where hints are not trusted a scan has to find the same one. -/
theorem locate_of_position {s : Store} {n : NodeId} {vs : List Value} {i : Nat}
    (hsiblings : s.siblings n = .ok (.nodes vs)) (hhint : (s.node n).hint = .int i) (hi : vs[i]? = some (.node n))
    (hscan : s.scanned vs n = .int i) : locate n s = .ok (.int i) s := by
  by_cases htrust : s.trustsHints
  · rw [locate_of_siblings htrust hsiblings hhint, Int.toNat_natCast, hi]
    simp
  · apply locate_of_untrusted htrust
    rw [scanIndex, hsiblings]
    exact congrArg Except.ok hscan

/-- Without siblings there is nothing to trust and nothing to go through. -/
theorem locate_of_absent {s : Store} {n : NodeId} (hsiblings : s.siblings n = .ok .absent) :
    locate n s = .ok (s.detached n) s := by
  by_cases htrust : s.trustsHints
  · simp only [locate, Run.get_bind, htrust, Bool.not_true, Bool.false_eq_true, if_false]
    rw [Run.bind_of_ok (Run.check_of_ok hsiblings)]
    rfl
  · apply locate_of_untrusted htrust
    rw [scanIndex, hsiblings]
    rfl

/-- A node without siblings stands nowhere, whatever its hint is. -/
theorem hintStands_of_nil {s : Store} {n : NodeId} (hnil : s.siblingList n = []) : s.hintStands n = false := by
  unfold hintStands
  rw [hnil]
  cases (s.node n).hint <;> simp

/-- **The index is the hint if that stands, and otherwise the plain index.** What it leaves behind is the
    store as it was, or one record and one hint more. -/
theorem locate_eq {s : Store} (hs : s.Regular) (n : NodeId) :
    locate n s = .ok (s.heldIndex n) s ∨
      s.hintStands n = false ∧
        ∃ r, locate n s = .ok (s.plainIndex n) ((s.note r).setHint n (s.plainIndex n)) := by
  have hdetached (hnil : s.siblingList n = []) : s.plainIndex n = s.detached n := by
    rw [plainIndex, hnil]
    rfl
  have hfallen (h : s.hintStands n = false) : s.heldIndex n = s.plainIndex n := by
    rw [heldIndex, h]
    rfl
  rcases siblings_eq hs n with ⟨habs, hnil⟩ | hnodes
  · left
    rw [locate_of_absent habs, hfallen (hintStands_of_nil hnil), hdetached hnil]
  · by_cases htrust : s.trustsHints
    · -- with siblings the hint decides
      obtain ⟨i, hi⟩ := (hs.proper n).hint_int
      have hstands : s.hintStands n =
          (decide (0 ≤ i) && (s.siblingList n)[i.toNat]? == some (.node n)) := by
        simp only [hintStands, htrust, hi, Bool.true_and]
      have hrun : locate n s =
          if s.hintStands n then .ok (s.node n).hint s else rescan n (.nodes (s.siblingList n)) s := by
        rw [hstands, hi]
        exact locate_of_siblings htrust hnodes hi
      cases hholds : s.hintStands n with
      | true =>
          left
          rw [hrun, heldIndex, hholds]
          rfl
      | false =>
          obtain ⟨r, hr⟩ := rescan_eq (fun hread => hs.loggable hread n) (s.siblingList n)
          refine Or.inr ⟨rfl, r, ?_⟩
          rw [hrun, hholds, if_neg Bool.false_ne_true, hr]
          rfl
    · left
      apply locate_of_untrusted htrust
      rw [hfallen (by simp [hintStands, htrust]), scanIndex, hnodes]
      rfl

/-- Renewing a hint does not change what the index of any node is. -/
theorem heldIndex_renewed {s : Store} {n : NodeId} (h : s.hintStands n = false) (r : DebugRecord)
    (m : NodeId) : ((s.note r).setHint n (s.plainIndex n)).heldIndex m = s.heldIndex m := by
  obtain ⟨i, hi⟩ := scanned_int s (s.siblingList n) n
  have hreread : s.Reread ((s.note r).setHint n (s.plainIndex n)) := by
    rw [plainIndex, hi]
    exact reread_setHint s r n i
  generalize hs' : (s.note r).setHint n (s.plainIndex n) = s' at hreread ⊢
  have hplain : s'.plainIndex m = s.plainIndex m :=
    hreread.resembles.plainIndex_eq m
  have hlist : s'.siblingList m = s.siblingList m :=
    hreread.resembles.siblingList_eq m
  by_cases hm : m = n ∧ n < s.nodes.size
  · -- the new hint is the plain index, which is the index whether it stands or not
    obtain ⟨rfl, hlt⟩ := hm
    have hhint : (s'.node m).hint = s.plainIndex m := by
      rw [← hs', node_setHint_self _ _ (show m < (s.note r).nodes.size from hlt)]
    have hheld : s.heldIndex m = s.plainIndex m := by
      rw [heldIndex, h]
      rfl
    rw [hheld, heldIndex, hhint, hplain, ite_self]
  · have hnode : s'.node m = s.node m := by
      rw [← hs']
      by_cases hmn : m = n
      · have hout : (s.note r).nodes.size ≤ m := Nat.le_of_not_lt fun hlt => hm ⟨hmn, hmn ▸ hlt⟩
        rw [node_of_size_le _ (by rw [setHint, size_updateNode]; exact hout), node_of_size_le s hout]
      · exact node_setHint_of_ne _ _ hmn
    rw [heldIndex, heldIndex, hintStands, hintStands, hnode, hlist, hplain, hreread.trusts]

/-- **Reading an index leaves hints and debug records, and all indices as they were.** -/
theorem readIndex_held {s : Store} (hs : s.Regular) (n : NodeId) :
    ∃ s', readIndex n s = .ok (s.heldIndex n) s' ∧ s.Reread s' ∧
      ∀ m, s'.heldIndex m = s.heldIndex m := by
  rcases locate_eq hs n with hrun | ⟨hfallen, r, hrun⟩
  · exact ⟨s, Run.recover_of_ok hrun, .refl s, fun _ => rfl⟩
  · obtain ⟨i, hi⟩ := scanned_int s (s.siblingList n) n
    refine ⟨_, ?_, ?_, heldIndex_renewed hfallen r⟩
    · rw [heldIndex, hfallen]
      exact Run.recover_of_ok hrun
    · rw [plainIndex, hi]
      exact reread_setHint s r n i

/-- **Reading an index is scanning**, as far as the answer goes, if the siblings are distinct. -/
theorem readIndex_eq {s : Store} (hs : s.Regular) {n : NodeId} (hnodup : (s.siblingList n).Nodup) :
    ∃ s', readIndex n s = .ok (s.plainIndex n) s' ∧ s.Reread s' := by
  obtain ⟨s', hrun, hreread, -⟩ := readIndex_held hs n
  exact ⟨s', heldIndex_of_nodup hnodup ▸ hrun, hreread⟩

end Store
end SyntaxTree
