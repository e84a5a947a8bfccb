import SyntaxTree.Proofs.ConfinedCalls
import SyntaxTree.Proofs.History

/-!
# `Proofs.Programs` — programs that work outside of a fence

A program takes one step after the other: it asks for an operation, changes a container in place, or lets go
of things. What it may handle can depend on the store that it meets (`Store.Step`). If that is always outside
of a fence, the fence stands after each step (`Fence.stands_step`), and so after the whole run, however long
it goes on (`Fence.stands_run`).
-/

namespace SyntaxTree

open Store Run Relation

/-! ## Programs -/

/-- The values that an event is given: what it is asked of, and its arguments. -/
inductive Event.Given : Event → List Value → Prop
  | create (cls : NodeClass) (given : Construction) :
      Given (.act (.create cls given)) [given.value, given.type, given.parent, given.position]
  | push (n : NodeId) (child : Value) : Given (.act (.push (.node n) child)) [.node n, child]
  | unshift (n : NodeId) (child : Value) : Given (.act (.unshift (.node n) child)) [.node n, child]
  | pop (n : NodeId) : Given (.act (.pop (.node n))) [.node n]
  | shift (n : NodeId) : Given (.act (.shift (.node n))) [.node n]
  | remove (n : NodeId) (child : Value) : Given (.act (.remove (.node n) child)) [.node n, child]
  | clone (n : NodeId) : Given (.act (.clone (.node n))) [.node n]
  | toMap (n : NodeId) : Given (.act (.toMap (.node n))) [.node n]
  | read (target : Value) (name : String) : Given (.act (.read target name)) [target]
  | readClone (n : NodeId) (name : String) : Given (.act (.readClone (.node n) name)) [.node n]
  | assign (target : Value) (name : String) (value : Value) : Given (.act (.assign target name value)) [target, value]
  | getAttributes (n : NodeId) (name fallback : Value) :
      Given (.act (.getAttributes (.node n) name fallback)) [.node n, name, fallback]
  | setAttributes (n : NodeId) (mapping : Value) (named : Entries Value) :
      Given (.act (.setAttributes (.node n) mapping named)) (.node n :: mapping :: entryValues named)
  | find (n : NodeId) (matcher : Value) : Given (.act (.find (.node n) matcher)) [.node n, matcher]
  | isType (n : NodeId) (matcher : Value) : Given (.act (.isType (.node n) matcher)) [.node n, matcher]
  | hasType (n : NodeId) (matcher : Value) : Given (.act (.hasType (.node n) matcher)) [.node n, matcher]
  | isInside (n : NodeId) (matcher : Value) : Given (.act (.isInside (.node n) matcher)) [.node n, matcher]
  | isEmpty (n : NodeId) : Given (.act (.isEmpty (.node n))) [.node n]
  | isNode (v : Value) : Given (.act (.isNode v)) [v]
  | display (v : Value) : Given (.act (.display v)) [v]
  | same (v w : Value) : Given (.act (.same v w)) [v, w]
  | equal (v w : Value) : Given (.act (.equal v w)) [v, w]
  | call (target argument : Value) : Given (.act (.call target argument)) [target, argument]
  | newTracker (source : Value) : Given (.act (.newTracker source)) [source]
  | matchesType (matcher type : Value) : Given (.act (.matchesType matcher type)) [matcher, type]
  | appendItem (target item : Value) : Given (.act (.appendItem target item)) [target, item]
  | putEntry (target key item : Value) : Given (.act (.putEntry target key item)) [target, key, item]
  | search (n : NodeId) (predicate : Store → NodeId → Except Fault Bool) : Given (.search n predicate) [.node n]
  | make (x : Object) : Given (.make x) (contained x)

/-- The objects are containers of one kind, which can change. -/
def Object.Refills : Object → Object → Prop
  | .collection .list _, .collection .list _ => True
  | .collection .set _, .collection .set _ => True
  | .map _, .map _ => True
  | _, _ => False

/-- What a program does in one step with values that are free: an event, or any change in place of a list, a
set or a map. What it lets go of is the parent of no node that is spared. -/
inductive Store.Step (free : Store → Value → Prop) (spared : NodeId → Prop) (s : Store) : Store → Prop
  | event {e : Event} {vs : List Value} : e.Given vs → (∀ v ∈ vs, free s v) →
      Step free spared s (Run.after (e.perform s))
  | refill {o : ObjectId} {x : Object} : free s (.object o) → (s.object o).Refills x →
      (∀ v ∈ contained x, free s v) → Step free spared s (s.updateObject o fun _ => x)
  | collect {inUse : List Value} : (∀ n, spared n → ∀ p, (s.node n).parent = some p → p ∈ s.reachable inUse) →
      Step free spared s (s.collect inUse)

namespace Fence

variable {F : Fence} {s u : Store}

/-- **An event that is given values from outside leaves the fence standing.** -/
theorem confined_event {e : Event} {vs : List Value} (he : e.Given vs) (hvs : ∀ v ∈ vs, F.Outside v) :
    Preserves F.Stands e.perform := by
  cases he with
  -- what makes and changes nodes
  | create cls given =>
      simp only [List.forall_mem_cons] at hvs
      exact .map (confined_create cls ⟨hvs.1, hvs.2.1, hvs.2.2.1⟩ hvs.2.2.2.1)
  | push n child =>
      simp only [List.forall_mem_cons] at hvs
      exact .map (confined_push hvs.1 hvs.2.1)
  | unshift n child =>
      simp only [List.forall_mem_cons] at hvs
      exact .map (confined_unshift hvs.1 hvs.2.1)
  | pop n => exact confined_pop (hvs _ (List.mem_singleton_self _))
  | shift n => exact confined_shift (hvs _ (List.mem_singleton_self _))
  | remove n child =>
      simp only [List.forall_mem_cons] at hvs
      exact confined_remove hvs.1 hvs.2.1
  | clone n => exact .map (yields_clone (hvs _ (List.mem_singleton_self _))).preserves
  | assign target name value =>
      simp only [List.forall_mem_cons] at hvs
      exact confined_unit (confined_assignAttribute hvs.1 name hvs.2.1)
  | setAttributes n mapping named =>
      simp only [List.forall_mem_cons] at hvs
      exact confined_unit (confined_setAttributes hvs.1 hvs.2.1 hvs.2.2)
  -- what is asked about nodes
  | read target name => exact confined_readAttribute (hvs _ (List.mem_singleton_self _)) name
  | readClone n name =>
      refine Yields.bind_preserves (.map (yields_clone (hvs _ (List.mem_singleton_self _)))) fun c hc => ?_
      exact confined_readAttribute hc name
  | toMap n => exact confined_toMap (hvs _ (List.mem_singleton_self _))
  | getAttributes n name fallback => exact .check _
  | find n matcher => exact .check _
  | display v => exact .map (.check _)
  | same v w => exact .pure _
  | isType n matcher => exact confined_truth _
  | hasType n matcher => exact confined_truth _
  | isInside n matcher => exact confined_truth _
  | isEmpty n => exact confined_truth _
  | isNode v => exact confined_truth _
  | equal v w => exact confined_truth _
  | search n predicate => exact confined_truth _
  | matchesType matcher type => exact confined_truth _
  -- calls
  | call target argument =>
      simp only [List.forall_mem_cons] at hvs
      refine confined_call hvs.1 (fun v hv => ?_) fun w hw => by cases hw
      rw [List.mem_singleton.mp hv]
      exact hvs.2.1
  | newTracker source => exact confined_newTracker (hvs _ (List.mem_singleton_self _))
  -- what the program around does
  | make x => exact confined_allocate hvs
  | appendItem target item =>
      simp only [List.forall_mem_cons] at hvs
      exact confined_unit (confined_appendItem hvs.1 hvs.2.1)
  | putEntry target key item =>
      simp only [List.forall_mem_cons] at hvs
      exact confined_unit (confined_putEntry hvs.1 hvs.2.1 hvs.2.2.1)

/-- What can be refilled is of no fixed kind. -/
theorem isFixed_of_refills {x y : Object} (h : x.Refills y) : x.isFixed = false := by
  unfold Object.Refills at h
  split at h
  · rfl
  · rfl
  · rfl
  · exact h.elim

/-- **Each step of a program that handles values from outside leaves the fence standing**, if it lets go of
no parent of a node that is enclosed. -/
theorem stands_step {free : Store → Value → Prop} {spared : NodeId → Prop}
    (hfree : ∀ u, F.Stands u → ∀ v, free u v → F.Outside v) (hspared : ∀ m, F.encloses (.node m) → spared m)
    (h : F.Stands s) (hstep : s.Step free spared u) : F.Stands u := by
  cases hstep with
  | event he hvs => exact Run.after_of_preserves (confined_event he fun v hv => hfree s h v (hvs v hv)) h
  | refill ho hx hvs => exact h.refill (hfree s h _ ho) (isFixed_of_refills hx) fun v hv => hfree s h v (hvs v hv)
  | collect hkept => exact h.collect fun m hm => hkept m (hspared m hm)

/-- And so does the whole program. -/
theorem stands_run {free : Store → Value → Prop} {spared : NodeId → Prop}
    (hfree : ∀ u, F.Stands u → ∀ v, free u v → F.Outside v) (hspared : ∀ m, F.encloses (.node m) → spared m)
    (h : F.Stands s) (hrun : ReflTransGen (Store.Step free spared) s u) : F.Stands u := by
  induction hrun with
  | refl => exact h
  | tail _ hstep ih => exact stands_step hfree hspared ih hstep

end Fence
end SyntaxTree
