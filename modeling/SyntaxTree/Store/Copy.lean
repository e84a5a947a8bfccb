import SyntaxTree.Store.Run

/-!
# `Store.Copy` — copies of whole contents

A deep copy of a value gives a new identity to everything changeable that the value leads to, and lets
the new things link to each other as the old ones do. Copying follows the links and remembers which
things have a copy already, so sharing and cycles inside the value are kept.

A node, list, map or record gets its place first and its contents afterwards, so that what it holds can
link back to it. A tuple or set is made of contents that are ready: whoever comes back to it while they
are being copied does not find it, and so a set that holds itself has one copy for each way around.

Scalars, wrappers, and tuples that hold nothing else are not copied: no change could tell them from a
copy. A node inside the value is copied with its descendants, but every copied node keeps the parent
that the node it is copied from has.
-/

namespace SyntaxTree.Store

/-- A store, and the copies in it that were made so far, the latest first. -/
structure Copying where
  store : Store
  copies : List (Value × Value)

namespace Copying

/-- A step of copying. -/
abbrev Step := StateM Copying

/-- Remembers the copy of a thing. -/
def remember (v copy : Value) : Step Unit :=
  modify fun c => { c with copies := (v, copy) :: c.copies }

/-- Changes the store. -/
def update (f : Store → Store) : Step Unit := modify fun c => { c with store := f c.store }

/-- The copy of a thing, if it has one. -/
def copyOf? (v : Value) : Step (Option Value) := do return (← get).copies.lookup v

/-- Makes an object. -/
def addObject (x : Object) : Step ObjectId := do
  let o := (← get).store.objects.size
  update fun s => s.addObject x
  return o

/-- Makes a node. -/
def addNode (r : NodeRecord) : Step NodeId := do
  let n := (← get).store.nodes.size
  update fun s => s.addNode r
  return n

/-- Copies values one by one. -/
def all (copy : Value → Step Value) : List Value → Step (List Value)
  | [] => return []
  | v :: vs => do
    let w ← copy v
    let ws ← all copy vs
    return w :: ws

/-- Copies the keys and values of a map one by one. -/
def entries (copy : Value → Step Value) : Entries Value → Step (Entries Value)
  | [] => return []
  | (k, v) :: es => do
    let w ← copy v
    let key ← copy k.value
    let rest ← entries copy es
    return (.ofValue key, w) :: rest

/-- An object with copies of its contents. -/
def contents (copy : Value → Step Value) : Object → Step Object
  | .collection shape items => do return .collection shape (← all copy items)
  | .map es => do return .map (← entries copy es)
  | .location line column => do
    let line ← copy line
    let column ← copy column
    return .location line column
  | .position start finish source => do
    let start ← copy start
    let finish ← copy finish
    let source ← copy source
    return .position start finish source
  | .matcher kind target => do return .matcher kind (← copy target)
  | .tracker source line column => do
    let source ← copy source
    let line ← copy line
    let column ← copy column
    return .tracker source line column
  | .method owner name => do return .method (← copy owner) name
  | .foreign cls marker fields => do return .foreign cls marker (← entries copy fields)
  | other => return other

/-- A node with copies of its contents. -/
def nodeContents (copy : Value → Step Value) (r : NodeRecord) : Step NodeRecord := do
  let type ← copy r.type
  let value ← copy r.value
  let nodes ← match r.nodes with
    | none => pure none
    | some children => some <$> all copy children
  let attr ← copy r.attr
  let hint ← copy r.hint
  return { r with type, value, nodes, attr, hint }

/-- Whether an object is shared by all copies of what holds it. -/
def isShared : Object → Bool
  | .wrapper .. => true
  | .method (.cls _) _ => true
  | _ => false

/-- Whether an object is made of contents that are ready. -/
def isMadeLast : Object → Bool
  | .collection .list _ => false
  | .collection .. | .method .. => true
  | _ => false

/-- A tuple that is its own copy: nothing in it was copied. -/
def isOwnCopy : Object → Object → Bool
  | .collection .tuple items, .collection .tuple copies => items = copies
  | _, _ => false

/-- Copies an object that has no copy yet. -/
def ofObject (copy : Value → Step Value) (o : ObjectId) (x : Object) : Step Value := do
  if isShared x then return .object o
  else if isMadeLast x then
    let made ← contents copy x
    match x, ← copyOf? (.object o) with
    | .collection .tuple _, some earlier => return earlier
    | _, _ =>
      if isOwnCopy x made then return .object o
      else
        let p ← addObject made
        remember (.object o) (.object p)
        return .object p
  else
    let p ← addObject x
    remember (.object o) (.object p)
    let made ← contents copy x
    update fun s => s.updateObject p fun _ => made
    return .object p

/-- Copies a node that has no copy yet. -/
def ofNode (copy : Value → Step Value) (n : NodeId) (r : NodeRecord) : Step Value := do
  let m ← addNode r
  remember (.node n) (.node m)
  let made ← nodeContents copy r
  update fun s => s.updateNode m fun _ => made
  return .node m

/-- Copies a value, down to a depth. -/
def within : Nat → Value → Step Value
  | 0, v => return v
  | fuel + 1, v => do
    match ← copyOf? v with
    | some w => return w
    | none =>
      let s := (← get).store
      match v with
      | .node n => ofNode (within fuel) n (s.node n)
      | .object o => ofObject (within fuel) o (s.object o)
      | scalar => return scalar

end Copying

/-- More than the depth of any way through a store on which nothing stands twice, except that tuples and
sets may be passed once more after each other thing. -/
def copyDepth (s : Store) : Nat := (s.nodes.size + s.objects.size + 2) * (s.objects.size + 2)

/-- A deep copy of a value. -/
def copy (v : Value) : Run Value := fun s =>
  let (w, done) := (Copying.within s.copyDepth v).run ⟨s, []⟩
  .ok w done.store

/-- A text is its own copy. -/
@[simp] theorem copy_text (t : String) (s : Store) : copy (.text t) s = .ok (.text t) s := by
  have h : s.copyDepth = s.copyDepth - 1 + 1 := by
    have : 0 < s.copyDepth := Nat.mul_pos (by omega) (by omega)
    omega
  unfold copy
  rw [h]
  rfl

end SyntaxTree.Store
