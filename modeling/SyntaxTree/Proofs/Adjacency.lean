import SyntaxTree.Proofs.Grafting
import SyntaxTree.Proofs.Successor

/-!
# `Proofs.Adjacency` — how a step back and a step on fit together

`prev` stays among the siblings, `next` climbs where there is no sibling to the right. So a step on from
`m` leads to `n` if the sibling before `n` is a node whose last children lead to `m`: the climb goes up
the chain of last children, and takes its one step to the right at the top of it (`next_iff_prev`).

`NextTo` is what the lists say of the two ends of that one step.
-/

namespace SyntaxTree
namespace Store

open Relation

variable {s t : Store} {alive : NodeId → Prop} {m n a p c : NodeId}

/-- `n` comes right after `a` in the list of a living node. -/
def NextTo (s : Store) (alive : NodeId → Prop) (a n : NodeId) : Prop :=
  ∃ p i, alive p ∧ (s.children p)[i]? = some (.node a) ∧ (s.children p)[i + 1]? = some (.node n)

/-- `c` is what reading the last child of `p` answers. -/
def EndsWith (s : Store) (p c : NodeId) : Prop := s.Reads p "last" (.node c)

/-- The chain of last children that begins with `a` passes `m`. -/
def LastDown (s : Store) (a m : NodeId) : Prop := ReflTransGen s.EndsWith a m

theorem endsWith_iff : s.EndsWith p c ↔
    ∃ i, (s.children p)[i]? = some (.node c) ∧ (s.children p)[i + 1]? = none := by
  rw [EndsWith, reads_last, last, List.getLast?_eq_getElem?]
  constructor
  · intro h
    cases hlast : (s.children p)[(s.children p).length - 1]? with
    | none => rw [hlast] at h; cases h
    | some v =>
        rw [hlast] at h
        cases h
        exact ⟨_, hlast, List.getElem?_eq_none (by omega)⟩
  · rintro ⟨i, hi, hnone⟩
    obtain ⟨hlt, -⟩ := List.getElem?_eq_some_iff.mp hi
    have hge := List.getElem?_eq_none_iff.mp hnone
    obtain rfl : i = (s.children p).length - 1 := by omega
    rw [hi]
    rfl

theorem EndsWith.holds (h : s.EndsWith p c) : s.Holds p c := by
  obtain ⟨i, hi, -⟩ := endsWith_iff.mp h
  exact List.mem_of_getElem? hi

theorem LastDown.down (h : s.LastDown a m) : ReflTransGen s.Holds a m :=
  ReflTransGen.mono (fun _ _ => EndsWith.holds) _ _ h

/-! ## The step back -/

/-- Without a holder there is no node before this one. -/
theorem plainPrev_of_top (h : s.Forest alive) (hsentinel : (s.node n).cls.detached < 0) (hn : alive n)
    (htop : ∀ p, alive p → ¬ s.Holds p n) : s.plainPrev n = .ok .null := by
  have hmem : Value.node n ∉ s.siblingList n := by
    unfold siblingList
    split
    · next p hp => exact htop p (h.above n p hn hp)
    · exact List.not_mem_nil
  have hindex : s.plainIndex n = .int (s.node n).cls.detached := scanned_of_not_mem s hmem
  have hbefore : hasBefore (.int (s.node n).cls.detached) = false := by
    simp [hasBefore, Value.toInt?]
    omega
  rw [plainPrev, hindex, hbefore]
  simp

theorem plainIndex_of_child (h : s.Forest alive) {i : Nat} (hp : alive p)
    (hi : (s.children p)[i]? = some (.node c)) : s.plainIndex c = .int i := by
  rw [plainIndex, h.siblingList_of_holds hp (List.mem_of_getElem? hi)]
  exact scanned_of_getElem? s (h.children_nodup hp) hi

/-- From a child the step back leads to its left neighbour. -/
theorem plainPrev_of_child (h : s.Forest alive) {i : Nat} (hp : alive p)
    (hi : (s.children p)[i]? = some (.node c)) :
    s.plainPrev c = if i = 0 then .ok .null else .ok (((s.children p)[i - 1]?).getD .null) := by
  have hc : s.Holds p c := List.mem_of_getElem? hi
  have hempty : (s.children p).isEmpty = false := by
    rw [List.isEmpty_eq_false_iff]
    exact List.ne_nil_of_mem hc
  rw [plainPrev, h.siblingList_of_holds hp hc, plainIndex_of_child h hp hi, hempty]
  cases i with
  | zero => rfl
  | succ i =>
      obtain ⟨hlt, -⟩ := List.getElem?_eq_some_iff.mp hi
      have hleft : i < (s.children p).length := by omega
      have hplace := placeOf?_of_lt hleft
      have hmoved : moved (.int ((i + 1 : Nat) : Int)) (-1) = .int i :=
        congrArg Value.int (show ((i + 1 : Nat) : Int) + -1 = i by omega)
      have hbefore : hasBefore (.int ((i + 1 : Nat) : Int)) = true := by
        simp only [hasBefore, Value.toInt?, Option.any_some, decide_eq_true_eq]
        omega
      rw [hbefore, hmoved]
      simp [listItem, placeOf_int, hplace, bind, Except.bind, List.getElem?_eq_getElem hleft]

/-- **The step back from `n` leads to `a` if `n` comes right after `a`.** -/
theorem plainPrev_iff (h : s.Forest alive) (hsentinel : (s.node n).cls.detached < 0) (hn : alive n) :
    s.plainPrev n = .ok (.node a) ↔ s.NextTo alive a n := by
  constructor
  · intro hprev
    by_cases hup : ∃ p, alive p ∧ s.Holds p n
    · obtain ⟨p, hp, hc⟩ := hup
      obtain ⟨i, hi⟩ := List.mem_iff_getElem?.mp hc
      rw [plainPrev_of_child h hp hi] at hprev
      cases i with
      | zero => cases hprev
      | succ i =>
          obtain ⟨hlt, -⟩ := List.getElem?_eq_some_iff.mp hi
          have hleft : (s.children p)[i]? = some (s.children p)[i] :=
            List.getElem?_eq_getElem (by omega)
          simp only [Nat.succ_ne_zero, if_false, Nat.add_sub_cancel, hleft, Option.getD_some] at hprev
          exact ⟨p, i, hp, by rw [hleft, Except.ok.inj hprev], hi⟩
    · rw [plainPrev_of_top h hsentinel hn fun p hp hc => hup ⟨p, hp, hc⟩] at hprev
      cases hprev
  · rintro ⟨p, i, hp, ha, hi⟩
    rw [plainPrev_of_child h hp hi, if_neg (Nat.succ_ne_zero i), Nat.add_sub_cancel, ha]
    rfl

/-! ## The step on -/

/-- What a climb finds comes right after the top of a chain of last children that leads to where the climb
    began. The induction is on the height of the climb. -/
theorem nextTo_of_plainNextWithin (h : s.Forest alive)
    (hsentinel : ∀ n, alive n → (s.node n).cls.detached < 0) {fuel : Nat} (hm : alive m)
    (hnext : s.plainNextWithin fuel m = .ok (.node n)) : ∃ a, s.NextTo alive a n ∧ s.LastDown a m := by
  induction fuel generalizing m with
  | zero => cases hnext
  | succ fuel ih =>
      by_cases hup : ∃ p, alive p ∧ s.Holds p m
      · obtain ⟨p, hp, hc⟩ := hup
        obtain ⟨i, hi⟩ := List.mem_iff_getElem?.mp hc
        rw [plainNextWithin_of_child h hp hi (hsentinel m hm)] at hnext
        cases hright : (s.children p)[i + 1]? with
        | some v =>
            rw [hright] at hnext
            cases hnext
            exact ⟨m, ⟨p, i, hp, hi, hright⟩, .refl⟩
        | none =>
            -- `m` is the last child, and the climb goes on from its holder
            rw [hright] at hnext
            obtain ⟨a, ha, hchain⟩ := ih hp hnext
            exact ⟨a, ha, hchain.tail (endsWith_iff.mpr ⟨i, hi, hright⟩)⟩
      · rw [plainNextWithin_of_top h hm fun p hp hc => hup ⟨p, hp, hc⟩] at hnext
        cases hnext

/-- The climb from the end of a chain of last children finds what comes right after the top of the chain.
    The induction goes down the chain; the height of the climb is bounded by what is not below the node
    where it begins. -/
theorem plainNextWithin_of_nextTo (h : s.Forest alive)
    (hsentinel : ∀ n, alive n → (s.node n).cls.detached < 0) (hnext : s.NextTo alive a n)
    (hchain : s.LastDown a m) {fuel : Nat} (hfuel : s.nodes.size < fuel + (s.below m).card) :
    s.plainNextWithin fuel m = .ok (.node n) := by
  obtain ⟨p, i, hp, ha, hn⟩ := hnext
  have halive : alive a := h.alive_of_holds hp (List.mem_of_getElem? ha)
  induction hchain generalizing fuel with
  | refl =>
      have hle := card_below_le s a
      obtain ⟨k, rfl⟩ : ∃ k, fuel = k + 1 := ⟨fuel - 1, by omega⟩
      rw [plainNextWithin_of_child h hp ha (hsentinel a halive), hn]
  | @tail q c hdown hc ih =>
      have hq : alive q := h.alive_of_below halive (LastDown.down hdown)
      have hlt := card_below_lt h.toAcyclic hq hc.holds
      have hle := card_below_le s c
      obtain ⟨j, hj, hlast⟩ := endsWith_iff.mp hc
      obtain ⟨k, rfl⟩ : ∃ k, fuel = k + 1 := ⟨fuel - 1, by omega⟩
      rw [plainNextWithin_of_child h hq hj (hsentinel c (h.alive_of_holds hq hc.holds)), hlast]
      exact ih (by omega)

/-- **The step on from `m` leads to `n` if `n` comes right after a node whose last children lead to
    `m`.** -/
theorem plainNext_iff (h : s.Forest alive) (hsentinel : ∀ n, alive n → (s.node n).cls.detached < 0)
    (hm : alive m) :
    s.plainNext m = .ok (.node n) ↔ ∃ a, s.NextTo alive a n ∧ s.LastDown a m :=
  ⟨nextTo_of_plainNextWithin h hsentinel hm, fun ⟨_, ha, hchain⟩ =>
    plainNextWithin_of_nextTo h hsentinel ha hchain (Nat.lt_add_right _ (Nat.lt_succ_self _))⟩

/-- Of two siblings, one is at the end of a chain of last children that begins with the node before the
    other only if it is that node itself: a longer chain would lead through their holder. -/
theorem lastDown_sibling (h : s.Forest alive) (hnext : s.NextTo alive a n) (hchain : s.LastDown a m)
    (hp : alive p) (hm : s.Holds p m) (hn : s.Holds p n) : a = m := by
  obtain ⟨q, i, hq, ha, hi⟩ := hnext
  have haq : s.Holds q a := List.mem_of_getElem? ha
  obtain rfl : q = p := h.holder_unique hq hp (List.mem_of_getElem? hi) hn
  rcases hchain.cases_tail with heq | ⟨r, har, hrm⟩
  · exact heq.symm
  · have hr : alive r := h.alive_of_below (h.alive_of_holds hq haq) (LastDown.down har)
    obtain rfl : r = q := h.holder_unique hr hq hrm.holds hm
    exact absurd (TransGen.head' haq (LastDown.down har)) (h.acyclic r hr)

/-! ## Readings -/

theorem reads_prev (hs : s.Regular) (htidy : s.Tidy alive) (hn : alive n) {v : Value} :
    s.Reads n "prev" v ↔ s.plainPrev n = .ok v := by
  obtain ⟨s', hrun, -⟩ := prev_eq hs htidy hn
  exact reads_iff hrun

theorem reads_next (hs : s.Regular) (htidy : s.Tidy alive) (hn : alive n) {v : Value} :
    s.Reads n "next" v ↔ s.plainNext n = .ok v := by
  obtain ⟨s', hrun, -⟩ := next_eq hs htidy hn
  exact reads_iff hrun

/-- The neighbours that can be asked for. -/
def neighbours : List String := ["prev", "next", "last"]

/-- Asking for a neighbour changes hints and debug records only. -/
theorem reread_neighbour (hs : s.Regular) (htidy : s.Tidy alive) (hn : alive n) {name : String}
    (hname : name ∈ neighbours) :
    s.Reread (Run.after ((Action.read (.node n) name).perform s)) := by
  simp only [neighbours, List.mem_cons, List.not_mem_nil, or_false] at hname
  rw [perform_read]
  rcases hname with rfl | rfl | rfl
  · obtain ⟨s', hrun, hreread⟩ := prev_eq hs htidy hn
    rw [readNode_prev, hrun, Run.after_ended]
    exact hreread
  · obtain ⟨s', hrun, hreread⟩ := next_eq hs htidy hn
    rw [readNode_next, hrun, Run.after_ended]
    exact hreread
  · exact .refl s

/-- What a neighbour is does not depend on hints. -/
theorem Reread.reads_iff (h : s.Reread t) (hs : s.Regular) (htidy : s.Tidy alive) (hn : alive n)
    {name : String} (hname : name ∈ neighbours) {v : Value} : t.Reads n name v ↔ s.Reads n name v := by
  simp only [neighbours, List.mem_cons, List.not_mem_nil, or_false] at hname
  rcases hname with rfl | rfl | rfl
  · rw [reads_prev (h.regular hs) (h.tidy htidy) hn, reads_prev hs htidy hn,
      h.resembles.plainPrev_eq n]
  · rw [reads_next (h.regular hs) (h.tidy htidy) hn, reads_next hs htidy hn,
      h.resembles.plainNext_eq n]
  · rw [reads_last, reads_last, h.resembles.last_eq n]

/-- **A step back and a step on fit together.** For living nodes of a forest, the node after `m` is `n`
    exactly if the node before `n` begins a chain of last children that passes `m`. So a step back is
    undone by a step on, and a step on is undone by a step back exactly if it stayed among siblings. Asking
    for a neighbour does not change what the neighbours of any node are. -/
theorem next_iff_prev (hs : s.Regular) (h : s.Forest alive)
    (hsentinel : ∀ n, alive n → (s.node n).cls.detached < 0) (hm : alive m) (hn : alive n) :
    (s.Reads m "next" (.node n) ↔
      ∃ a, s.Reads n "prev" (.node a) ∧ ReflTransGen (fun p c => s.Reads p "last" (.node c)) a m) ∧
    (s.Reads n "prev" (.node m) → s.Reads m "next" (.node n)) ∧
    (s.Reads m "next" (.node n) →
      (s.Reads n "prev" (.node m) ↔ ∃ p, alive p ∧ s.Holds p m ∧ s.Holds p n)) ∧
    ∀ name ∈ neighbours, ∀ other ∈ neighbours, ∀ v,
      (Run.after ((Action.read (.node m) name).perform s)).Reads n other v ↔ s.Reads n other v := by
  have hprev {a : NodeId} : s.Reads n "prev" (.node a) ↔ s.NextTo alive a n :=
    (reads_prev hs h.tidy hn).trans (plainPrev_iff h (hsentinel n hn) hn)
  have hnext : s.Reads m "next" (.node n) ↔ ∃ a, s.NextTo alive a n ∧ s.LastDown a m :=
    (reads_next hs h.tidy hm).trans (plainNext_iff h hsentinel hm)
  refine ⟨?_, fun hback => ?_, fun hon => ⟨fun hback => ?_, ?_⟩, fun name hname other hother v => ?_⟩
  · simp only [hprev]
    exact hnext
  · exact hnext.mpr ⟨m, hprev.mp hback, .refl⟩
  · obtain ⟨p, i, hp, hi, hi'⟩ := hprev.mp hback
    exact ⟨p, hp, List.mem_of_getElem? hi, List.mem_of_getElem? hi'⟩
  · rintro ⟨p, hp, hpm, hpn⟩
    obtain ⟨a, ha, hchain⟩ := hnext.mp hon
    obtain rfl := lastDown_sibling h ha hchain hp hpm hpn
    exact hprev.mpr ha
  · exact (reread_neighbour hs h.tidy hm hname).reads_iff hs h.tidy hn hother

/-- The first child of the first node has a child of its own, with a stale hint. -/
def withGrandchild : Store :=
  threeNodes .node [.create .node .empty, .push (.node 1) (.node 3), .assign (.node 3) "index" (.int 7)]
    .empty

theorem parent_withGrandchild (n : NodeId) : (withGrandchild.node n).parent = none ∨
    (withGrandchild.node n).parent = some (.node 0) ∨ (withGrandchild.node n).parent = some (.node 1) :=
  forall_node (s := withGrandchild)
    (P := fun r => r.parent = none ∨ r.parent = some (.node 0) ∨ r.parent = some (.node 1))
    (show ∀ n < 4, _ from by decide) (Or.inl rfl) n

/-- Links lead from earlier to later nodes. -/
theorem holds_withGrandchild {v : Value} (hv : v ∈ withGrandchild.children p) :
    ∃ c, v = .node c ∧ p < c ∧ c < 4 ∧ (withGrandchild.node c).parent = some (.node p) := by
  match p with
  | 0 =>
      rcases List.mem_pair.mp (show v ∈ [Value.node 1, .node 2] from hv) with rfl | rfl
      · exact ⟨1, rfl, by decide, by decide, rfl⟩
      · exact ⟨2, rfl, by decide, by decide, rfl⟩
  | 1 =>
      obtain rfl := List.mem_singleton.mp (show v ∈ [Value.node 3] from hv)
      exact ⟨3, rfl, by decide, by decide, rfl⟩
  | 2 => cases hv
  | 3 => cases hv
  | p + 4 =>
      rw [children, node_of_size_le withGrandchild (Nat.le_add_left 4 p)] at hv
      cases hv

theorem forest_withGrandchild : withGrandchild.Forest (· < 4) := by
  refine .of_lists (fun _ hn => hn) (fun p v _ hv => ?_) (fun p hp => ?_) (fun p c _ hc => ?_)
    (fun n _ hcycle => ?_) (fun n p hn hp => ?_)
  · obtain ⟨c, hvc, -, hc, -⟩ := holds_withGrandchild hv
    exact ⟨c, hvc, hc⟩
  · exact (show ∀ p < 4, (withGrandchild.children p).Nodup by decide) p hp
  · obtain ⟨d, hd, -, -, hparent⟩ := holds_withGrandchild hc
    cases hd
    exact hparent
  · have hlt : ∀ {m}, TransGen withGrandchild.Holds n m → n < m := by
      intro m hm
      induction hm with
      | single hc =>
          obtain ⟨d, hd, hlt, -⟩ := holds_withGrandchild hc
          cases hd
          exact hlt
      | tail _ hc ih =>
          obtain ⟨d, hd, hlt, -⟩ := holds_withGrandchild hc
          cases hd
          exact Nat.lt_trans ih hlt
    exact Nat.lt_irrefl n (hlt hcycle)
  · rcases parent_withGrandchild n with hnone | hsome | hsome
    · rw [hnone] at hp; cases hp
    · rw [hsome] at hp; cases hp; decide
    · rw [hsome] at hp; cases hp; decide

/-- The step on from the grandchild climbs once and leads to the second child, and the step back from there
to the first child, whose last child the grandchild is. -/
theorem next_withGrandchild :
    withGrandchild.Regular ∧ withGrandchild.Forest (· < 4) ∧
      (∀ n, n < 4 → (withGrandchild.node n).cls.detached < 0) ∧
      (withGrandchild.Reads 3 "next" (.node 2) ↔ ∃ a, withGrandchild.Reads 2 "prev" (.node a) ∧
        ReflTransGen (fun p c => withGrandchild.Reads p "last" (.node c)) a 3) ∧
      withGrandchild.Reads 3 "next" (.node 2) ∧ withGrandchild.Reads 2 "prev" (.node 1) := by
  have hregular : withGrandchild.Regular :=
    ⟨forall_node (show ∀ n < 4, (withGrandchild.node n).Proper by decide) (by decide),
      fun hread => by cases hread⟩
  have hsentinel : ∀ n, n < 4 → (withGrandchild.node n).cls.detached < 0 := by decide
  have hfit := next_iff_prev hregular forest_withGrandchild hsentinel (m := 3) (n := 2) (by decide)
    (by decide)
  exact ⟨hregular, forest_withGrandchild, hsentinel, hfit.1, rfl, rfl⟩

/-- **Neither condition can go.** In a forest with integer hints the step on may lead to a node from which no
    step back is possible, where a debug record that is read has to show a node without end; and the
    step back may lead to a node from which none leads on, where the class of that node takes a position
    for "not there". -/
theorem next_without_prev :
    (¬ ∀ (s : Store) (alive : NodeId → Prop) (m n : NodeId), s.Forest alive →
      (∀ n, ∃ i : Int, (s.node n).hint = .int i) → (∀ n, (s.node n).cls.detached < 0) → alive m →
      alive n → s.Reads m "next" (.node n) → ∃ a, s.Reads n "prev" (.node a)) ∧
    ¬ ∀ (s : Store) (alive : NodeId → Prop) (m n : NodeId), s.Forest alive → s.Regular → alive m →
      alive n → s.Reads n "prev" (.node m) → s.Reads m "next" (.node n) := by
  constructor
  · intro hback
    obtain ⟨a, ha⟩ := hback withEndlessRecord _ 1 2
      (.of_three (l := [1, 2]) ⟨rfl, rfl, rfl⟩ ⟨rfl, rfl, rfl⟩ rfl (by decide))
      (hint_int_of_three rfl ⟨rfl, rfl, rfl⟩)
      (forall_node_of_three (·.cls.detached < 0) rfl (by decide) (by decide)) (by decide) (by decide) rfl
    -- the record about the stale hint of the second child cannot be written
    have hendless : Run.outcome ((Action.read (.node 2) "prev").perform withEndlessRecord) =
        .error .endless := rfl
    rw [Reads, hendless] at ha
    cases ha
  · intro hon
    have hparent : withOddSentinel.OneParent := ⟨rfl, rfl, rfl⟩
    have hregular : withOddSentinel.Regular :=
      ⟨fun n => ⟨hint_int_of_three rfl ⟨rfl, rfl, rfl⟩ n, fun p hp => ⟨0, hparent.parent rfl n p hp⟩⟩,
        fun hread => by cases hread⟩
    have hnext := hon withOddSentinel _ 1 2
      (.of_three (l := [1, 2]) ⟨rfl, rfl, rfl⟩ hparent rfl (by decide)) hregular (by decide) (by decide) rfl
    have hnull : Run.outcome ((Action.read (.node 1) "next").perform withOddSentinel) =
        .ok .null := rfl
    rw [Reads, hnull] at hnext
    cases hnext

end Store
end SyntaxTree
