import SyntaxTree.Fault
import SyntaxTree.Store.Kind

/-!
# `Store.Run` — operations that change a store and may fail

A run ends with a value or a fault, and in either case with a store: what was done before a fault
stays done.
-/

namespace SyntaxTree

/-- An operation on a store. -/
abbrev Run := EStateM Fault Store

namespace Run

/-- Reads from the store. -/
def read {α : Type} (f : Store → α) : Run α := fun s => .ok (f s) s

/-- Reads from the store what may not be there. -/
def check {α : Type} (f : Store → Except Fault α) : Run α := fun s =>
  match f s with
  | .ok a => .ok a s
  | .error e => .error e s

/-- Changes the store. -/
def update (f : Store → Store) : Run Unit := fun s => .ok () (f s)

/-- Makes an object. -/
def allocate (o : Object) : Run Value := fun s => .ok (.object s.objects.size) (s.addObject o)

/-- Makes a tuple. There is only one without items. -/
def allocateTuple (items : List Value) : Run Value := fun s =>
  match s.emptyTuple?, items with
  | some o, [] => .ok (.object o) s
  | _, items => allocate (.collection .tuple items) s

/-- Makes a node. -/
def allocateNode (r : NodeRecord) : Run NodeId := fun s => .ok s.nodes.size (s.addNode r)

/-- Makes something that is not a number. A place in the store is set aside for its mark, so that no
other thing has the same one. -/
def allocateNaN : Run Value := fun s =>
  .ok (.float (.nan s.objects.size)) (s.addObject .plain)

/-- Goes on after a fault of attribute access, if there was one. -/
def recover {α : Type} (run : Run α) (otherwise : Run α) : Run α := fun s =>
  match run s with
  | .ok a s' => .ok a s'
  | .error e s' => if e.isAttribute then otherwise s' else .error e s'

theorem recover_of_ok {α : Type} {run otherwise : Run α} {s s' : Store} {a : α}
    (h : run s = .ok a s') : recover run otherwise s = .ok a s' := by
  simp [recover, h]

/-- The outcome of a run without the store. -/
def outcome {α : Type} : EStateM.Result Fault Store α → Except Fault α
  | .ok a _ => .ok a
  | .error e _ => .error e

/-- The store after a run, whether it failed or not. -/
def after {α : Type} : EStateM.Result Fault Store α → Store
  | .ok _ s => s
  | .error _ s => s

end Run

end SyntaxTree
