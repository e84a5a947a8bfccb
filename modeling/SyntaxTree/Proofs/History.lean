import SyntaxTree.Proofs.Calls
import SyntaxTree.Proofs.Neighbours

/-!
# `Proofs.History` — the index by hints refines the index by scanning

A history is what happens to a store: actions of the library, searches with a predicate, and what the
program around it does, which makes objects and lets go of others. In the naive store no hint is ever
trusted, and every index comes from a scan. Run in both stores, a history gives the same answers and ends
in stores that differ in hints and in the debug log only.

Each event takes twins to twins (`agree_event`), and so does a history, by induction on its length. What is
asked of the stores on the way is that no list holds a node twice; where the debug log is read, every node
must have a text besides, since the record of a stale hint shows the node. One of the stores on the way is
that in which a position is called with a new node (`halfway`).
-/

namespace SyntaxTree

open Store

/-- What happens to a store. -/
inductive Event
  | act (a : Action)
  /-- Asks whether a tree is empty, with a predicate. -/
  | search (n : NodeId) (predicate : Store → NodeId → Except Fault Bool)
  /-- The program around makes an object. -/
  | make (o : Object)
  /-- The program around uses nothing but some values and what they lead to. -/
  | collect (inUse : List Value)

namespace Event

/-- What an event does. -/
def perform : Event → Run Value
  | act a => a.perform
  | search n predicate => truth fun s => Emptiness.empty <$> s.emptiness (predicate s) n
  | make o => Run.allocate o
  | collect inUse => do
    Run.update fun s => s.collect inUse
    return .null

/-- The answers of the events of a history, and the store after it. A fault ends none but its own event. -/
def performAll : List Event → Store → List (Except Fault Value) × Store
  | [], s => ([], s)
  | e :: rest, s =>
    let result := e.perform s
    let (answers, last) := performAll rest (Run.after result)
    (Run.outcome result :: answers, last)

theorem performAll_cons (e : Event) (rest : List Event) (s : Store) :
    performAll (e :: rest) s = (Run.outcome (e.perform s) :: (performAll rest (Run.after (e.perform s))).1,
      (performAll rest (Run.after (e.perform s))).2) := rfl

/-- `ok` holds of every event of a history and the store it meets. -/
def Along (ok : Store → Event → Prop) : List Event → Store → Prop
  | [], _ => True
  | e :: rest, s => ok s e ∧ Along ok rest (Run.after (e.perform s))

/-- The computed properties. -/
def properties : List String := ["index", "prev", "next", "siblings", "first", "last", "scope"]

/-- The events of which the histories consist: everything that is done to nodes, except that hints are
neither read as such nor set to anything but integers. A predicate does not look at hints. -/
inductive Covered : Event → Prop
  | create (cls : NodeClass) (given : Construction) : Covered (act (.create cls given))
  | push (n : NodeId) (child : Value) : Covered (act (.push (.node n) child))
  | unshift (n : NodeId) (child : Value) : Covered (act (.unshift (.node n) child))
  | pop (n : NodeId) : Covered (act (.pop (.node n)))
  | shift (n : NodeId) : Covered (act (.shift (.node n)))
  | remove (n : NodeId) (child : Value) : Covered (act (.remove (.node n) child))
  | clone (n : NodeId) : Covered (act (.clone (.node n)))
  | assignParent (n : NodeId) (v : Value) : Covered (act (.assign (.node n) "parent" v))
  | assignIndex (n : NodeId) (i : Int) : Covered (act (.assign (.node n) "index" (.int i)))
  | read (n : NodeId) (name : String) : name ∈ properties → Covered (act (.read (.node n) name))
  | getAttributes (n : NodeId) (name fallback : Value) :
      Covered (act (.getAttributes (.node n) name fallback))
  | setAttributes (n : NodeId) (mapping : Value) (named : Entries Value) :
      Covered (act (.setAttributes (.node n) mapping named))
  | find (n : NodeId) (matcher : Value) : Covered (act (.find (.node n) matcher))
  | isType (n : NodeId) (matcher : Value) : Covered (act (.isType (.node n) matcher))
  | hasType (n : NodeId) (matcher : Value) : Covered (act (.hasType (.node n) matcher))
  | isInside (n : NodeId) (matcher : Value) : Covered (act (.isInside (.node n) matcher))
  | isEmpty (n : NodeId) : Covered (act (.isEmpty (.node n)))
  | toMap (n : NodeId) : Covered (act (.toMap (.node n)))
  | search (n : NodeId) (predicate : Store → NodeId → Except Fault Bool) :
      (∀ u : Store, predicate u.unhinted = predicate u) → Covered (search n predicate)
  | make (o : Object) : Covered (make o)
  | collect (inUse : List Value) : Covered (collect inUse)

/-- The store in the middle of an event: when a node is made, that in which its position is called. -/
def halfway : Event → Store → Store
  | act (.create cls given), s => Run.after (createUnplaced cls given s)
  | _, s => s

/-- A history of events that are covered, in which no list ever holds a node twice. -/
def Legal : List Event → Store → Prop :=
  Along fun s e => s.Distinct ∧ (e.halfway s).Distinct ∧ Covered e

/-- A history in which every debug record can be written. -/
def Recorded : List Event → Store → Prop := Along fun s e => s.Loggable ∧ (e.halfway s).Loggable

/-! ## One event -/

section Agree

open Run

variable {s t : Store}

/-- All computed properties but the list of siblings are read alike in related stores. -/
theorem agree_property {rel : Store → Store → Prop} (hrel : Congruence rel) (h : rel s t) (hfit : s.Fit)
    (n : NodeId) {name : String} (hname : name ∈ properties)
    (hsiblings : name = "siblings" → Agree rel (readSiblings n) s t) : Agree rel (readNode n name) s t := by
  simp only [properties, List.mem_cons, List.not_mem_nil, or_false] at hname
  rcases hname with rfl | rfl | rfl | rfl | rfl | rfl | rfl
  · rw [readNode_index]
    exact hrel.readIndex h hfit n
  · rw [readNode_prev]
    exact hrel.prev h hfit n
  · rw [readNode_next]
    exact hrel.next h hfit n
  · rw [readNode_siblings]
    exact hsiblings rfl
  · rw [readNode_first]
    exact .read ((hrel.resembles h).first_eq n) h
  · rw [readNode_last]
    exact .read ((hrel.resembles h).last_eq n) h
  · rw [readNode_scope]
    exact hrel.scope h n

/-- **Every event takes twins to twins**, and gives the same answer in both. -/
theorem agree_event (h : Twins s t) (hfit : s.Fit) {e : Event} (hhalfway : (e.halfway s).Fit)
    (he : Covered e) : Agree Twins e.perform s t := by
  have hclose : Close s s t := ⟨h, .refl s⟩
  cases he with
  -- what makes and changes nodes
  | create cls given => exact Agree.map (agree_create h hfit.nodesOnly cls given hhalfway)
  | push n child => exact Agree.map (agree_of_close (agree_push hfit.nodesOnly hclose n child))
  | unshift n child => exact Agree.map (agree_of_close (agree_unshift hfit.nodesOnly hclose n child))
  | pop n => exact Twins.congruence.pop h n
  | shift n => exact Twins.congruence.shift h n
  | remove n child => exact agree_remove h hfit n child
  | clone n => exact Agree.map (agree_clone h n)
  | assignParent n v => exact agree_unit (agree_of_close (agree_assignParent hfit.nodesOnly hclose n v))
  | assignIndex n i => exact agree_unit (.update (Twins.congruence.setHint h n i))
  | setAttributes n mapping named => exact agree_unit (agree_setAttributes h n mapping named)
  -- what is asked about nodes
  | read n name hname => exact agree_property Twins.congruence h hfit n hname fun _ => agree_readSiblings h n
  | getAttributes n name fallback => exact agree_question h fun h => h.getAttributes_eq n _ _
  | find n matcher => exact agree_question h fun h => h.find_eq n matcher
  | isType n matcher => exact agree_truth h fun h => h.isType_eq n matcher
  | hasType n matcher => exact agree_truth h fun h => h.hasType_eq n matcher
  | isInside n matcher => exact agree_truth h fun h => h.isInside_eq n matcher
  | isEmpty n => exact agree_truth h fun h => h.isEmpty_eq n
  | toMap n => exact agree_toMap h n
  | search n predicate hpredicate =>
      have hsame : predicate s = predicate t := by rw [← hpredicate s, h.same, hpredicate t]
      exact Agree.map (.check (by rw [hsame, h.resembles.emptiness_eq]) h)
  -- what the program around does
  | make o => exact agree_allocate h o
  | collect inUse => exact Agree.bind (.update (h.collect inUse)) fun _ _ _ h' => .pure Value.null h'

end Agree

/-! ## A history -/

theorem Along.and {ok ok' : Store → Event → Prop} {events : List Event} {s : Store}
    (h : Along ok events s) (h' : Along ok' events s) : Along (fun s e => ok s e ∧ ok' s e) events s := by
  induction events generalizing s with
  | nil => trivial
  | cons e rest ih => exact ⟨⟨h.1, h'.1⟩, ih h.2 h'.2⟩

/-- What holds all along a history holds along each beginning of it. -/
theorem Along.take {ok : Store → Event → Prop} {events : List Event} {s : Store} (h : Along ok events s)
    (k : Nat) : Along ok (events.take k) s := by
  induction events generalizing s k with
  | nil =>
      rw [List.take_nil]
      trivial
  | cons e rest ih =>
      cases k with
      | zero => trivial
      | succ k => exact ⟨h.1, ih h.2 k⟩

/-- If every event gives the same answer in related stores and leaves related stores behind, then so does a
history of such events. -/
theorem performAll_agree {rel : Store → Store → Prop} {ok : Store → Event → Prop}
    (hevent : ∀ {s t : Store} {e : Event}, rel s t → ok s e → Run.Agree rel e.perform s t)
    {events : List Event} {s t : Store} (h : rel s t) (hok : Along ok events s) :
    (performAll events s).1 = (performAll events t).1 ∧
      rel (performAll events s).2 (performAll events t).2 := by
  induction events generalizing s t with
  | nil => exact ⟨rfl, h⟩
  | cons e rest ih =>
      obtain ⟨hanswer, hrel⟩ := hevent h hok.1
      obtain ⟨hanswers, hlast⟩ := ih hrel hok.2
      rw [performAll_cons, performAll_cons, hanswer, hanswers]
      exact ⟨rfl, hlast⟩

/-- The answers to twins are the same all along, and twins are left behind. -/
theorem performAll_twins {s t : Store} (h : Twins s t) {events : List Event} (hlegal : Legal events s)
    (hrecorded : Recorded events s) :
    (performAll events s).1 = (performAll events t).1 ∧
      Twins (performAll events s).2 (performAll events t).2 := by
  refine performAll_agree (fun h hok => ?_) h (hlegal.and hrecorded)
  obtain ⟨⟨hdistinct, hdistinct', hcovered⟩, hloggable, hloggable'⟩ := hok
  exact agree_event h ⟨hdistinct, hloggable⟩ ⟨hdistinct', hloggable'⟩ hcovered

/-- The same store, in which every index comes from a scan. -/
def naive (s : Store) : Store := { s with trustsHints := false }

/-- **The index by hints refines the index by scanning.** From any store of nodes with integers for hints
    and nodes for parents, a legal history gives the same answers and the same faults whether hints are
    trusted or not, and the stores after it are the same but for hints and the debug log. -/
theorem hints_refine_scans {s : Store} (hproper : ∀ n, (s.node n).Proper) (htrusts : s.trustsHints = true)
    {events : List Event} (hlegal : Legal events s) (hrecorded : Recorded events s) :
    (performAll events s).1 = (performAll events (naive s)).1 ∧
      (performAll events s).2.unhinted = (performAll events (naive s)).2.unhinted := by
  have htwins : Twins s (naive s) := ⟨rfl, hproper, hproper, htrusts, rfl⟩
  obtain ⟨hanswers, hlast⟩ := performAll_twins htwins hlegal hrecorded
  exact ⟨hanswers, hlast.same⟩

/-- A node gets a child with some value, and another child before it, so that the hint of the first is out
of date. -/
def unshifted (v : Value) : List Event :=
  [.act (.create .node .empty), .act (.create .node ⟨v, .null, .null, .null⟩), .act (.create .node .empty),
   .act (.push (.node 0) (.node 1)), .act (.unshift (.node 0) (.node 2))]

/-- The second child takes a wrong hint as well, and is taken away again. -/
def reordered : List Event :=
  unshifted .null ++
    [.act (.assign (.node 2) "index" (.int 1)), .act (.read (.node 1) "index"),
     .act (.remove (.node 0) (.node 2)), .act (.read (.node 2) "next")]

theorem legal_reordered : Legal reordered .empty := by
  refine ⟨⟨.of_bounded (by decide), .of_bounded (by decide), .create _ _⟩, ?_⟩
  refine ⟨⟨.of_bounded (by decide), .of_bounded (by decide), .create _ _⟩, ?_⟩
  refine ⟨⟨.of_bounded (by decide), .of_bounded (by decide), .create _ _⟩, ?_⟩
  refine ⟨⟨.of_bounded (by decide), .of_bounded (by decide), .push _ _⟩, ?_⟩
  refine ⟨⟨.of_bounded (by decide), .of_bounded (by decide), .unshift _ _⟩, ?_⟩
  refine ⟨⟨.of_bounded (by decide), .of_bounded (by decide), .assignIndex _ _⟩, ?_⟩
  refine ⟨⟨.of_bounded (by decide), .of_bounded (by decide), .read _ _ (by decide)⟩, ?_⟩
  refine ⟨⟨.of_bounded (by decide), .of_bounded (by decide), .remove _ _⟩, ?_⟩
  exact ⟨⟨.of_bounded (by decide), .of_bounded (by decide), .read _ _ (by decide)⟩, trivial⟩

theorem recorded_reordered : Recorded reordered .empty := by
  have hunread {s : Store} (h : s.logIsRead = false) : s.Loggable := fun hread => by
    rw [h] at hread
    cases hread
  exact ⟨⟨hunread rfl, hunread rfl⟩, ⟨hunread rfl, hunread rfl⟩, ⟨hunread rfl, hunread rfl⟩,
    ⟨hunread rfl, hunread rfl⟩, ⟨hunread rfl, hunread rfl⟩, ⟨hunread rfl, hunread rfl⟩,
    ⟨hunread rfl, hunread rfl⟩, ⟨hunread rfl, hunread rfl⟩, ⟨hunread rfl, hunread rfl⟩, trivial⟩

theorem reordered_by_scans : Legal reordered .empty ∧ Recorded reordered .empty ∧
    (performAll reordered .empty).1 = (performAll reordered (naive .empty)).1 ∧
      (performAll reordered .empty).2.unhinted = (performAll reordered (naive .empty)).2.unhinted := by
  have hproper (n : NodeId) : (Store.empty.node n).Proper := ⟨⟨_, rfl⟩, fun p hp => by cases hp⟩
  refine ⟨legal_reordered, recorded_reordered, ?_⟩
  exact hints_refine_scans hproper rfl legal_reordered recorded_reordered

/-- The debug log is read, and there is a tracker that is its own source. -/
def withTracker : Store :=
  { Store.empty with objects := #[.tracker (.object 0) (.int 1) (.int 1)], logIsRead := true }

/-- The hint that is out of date is that of a node with the tracker for its value. -/
def unshowable : List Event := unshifted (.object 0) ++ [.act (.read (.node 1) "index")]

/-- Where a record cannot be written, reading an index by its hint is a fault that a scan has not. -/
theorem unshowable_not_scanned : withTracker.nodes = #[] ∧ Legal unshowable withTracker ∧
    (performAll unshowable withTracker).1[5]? = some (.error .endless) ∧
      (performAll unshowable (naive withTracker)).1[5]? = some (.ok (.int 1)) := by
  refine ⟨rfl, ?_, by rfl, by rfl⟩
  refine ⟨⟨.of_bounded (by decide), .of_bounded (by decide), .create _ _⟩, ?_⟩
  refine ⟨⟨.of_bounded (by decide), .of_bounded (by decide), .create _ _⟩, ?_⟩
  refine ⟨⟨.of_bounded (by decide), .of_bounded (by decide), .create _ _⟩, ?_⟩
  refine ⟨⟨.of_bounded (by decide), .of_bounded (by decide), .push _ _⟩, ?_⟩
  refine ⟨⟨.of_bounded (by decide), .of_bounded (by decide), .unshift _ _⟩, ?_⟩
  exact ⟨⟨.of_bounded (by decide), .of_bounded (by decide), .read _ _ (by decide)⟩, trivial⟩

end Event

end SyntaxTree
