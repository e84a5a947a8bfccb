import SyntaxTree.Store.Run

/-!
# `Store.Equality` — equality of contents

Scalars are equal as numbers or as the same scalar; nodes, trackers and objects from elsewhere are equal
only to themselves; collections, maps and immutable records are equal if they are of one kind and their
parts are. Where parts are compared, a thing equals itself whatever it holds, so what is not a number
equals itself inside a list although not on its own. Lists of different lengths differ at once, while
tuples are compared item by item up to the end of the shorter one.

Contents may be nested in themselves. A comparison that comes back to a pair of objects which it is
already comparing has no end.
-/

namespace SyntaxTree.Store

/-- Compares lists of parts one by one; the first difference decides. -/
def equalLists (eq : Value → Value → Except Fault Bool) : List Value → List Value → Except Fault Bool
  | a :: as, b :: bs => do
    if ← eq a b then equalLists eq as bs else .ok false
  | [], [] => .ok true
  | _, _ => .ok false

/-- Whether some member of a list is equal to `a`. -/
def hasEqual (eq : Value → Value → Except Fault Bool) (a : Value) : List Value → Except Fault Bool
  | [] => .ok false
  | b :: bs => do
    if ← eq a b then .ok true else hasEqual eq a bs

/-- Whether all of a list have an equal in `bs`. -/
def allEqualIn (eq : Value → Value → Except Fault Bool) (bs : List Value) :
    List Value → Except Fault Bool
  | [] => .ok true
  | a :: as => do
    if ← hasEqual eq a bs then allEqualIn eq bs as else .ok false

/-- The value under the first key of a map that is equal to `k`. -/
def valueUnder (eq : Value → Value → Except Fault Bool) (k : Value) : Entries Value → Except Fault (Option Value)
  | [] => .ok none
  | (key, b) :: rest => do
    if ← eq k key.value then .ok (some b) else valueUnder eq k rest

/-- Whether every entry has an equal one under its key in `es`. -/
def entriesEqualIn (eq : Value → Value → Except Fault Bool) (es : Entries Value) :
    Entries Value → Except Fault Bool
  | [] => .ok true
  | (k, a) :: rest => do
    match ← valueUnder eq k.value es with
    | none => .ok false
    | some b => if ← eq a b then entriesEqualIn eq es rest else .ok false

/-- Equality of two different objects, given equality of their parts. -/
def equalObjects (eq : Value → Value → Except Fault Bool) : Object → Object → Except Fault Bool
  | .collection .list as, .collection .list bs =>
    if as.length = bs.length then equalLists eq as bs else .ok false
  | .collection .tuple as, .collection .tuple bs => equalLists eq as bs
  | .collection .set as, .collection .set bs | .collection .set as, .collection .frozenSet bs
  | .collection .frozenSet as, .collection .set bs
  | .collection .frozenSet as, .collection .frozenSet bs =>
    if as.length = bs.length then allEqualIn eq bs as else .ok false
  | .map es, .map fs => if es.length = fs.length then entriesEqualIn eq fs es else .ok false
  | .location l c, .location l' c' => equalLists eq [l, c] [l', c']
  | .position a b c, .position a' b' c' => equalLists eq [a, b, c] [a', b', c']
  | .matcher k a, .matcher l b => if k = l then eq a b else .ok false
  | .method a n, .method b m => .ok (a = b && n = m)
  | _, _ => .ok false

/-- Equality of values inside of a comparison of the pairs `pending`, down to a depth. -/
def equalWithin (s : Store) : Nat → List (Value × Value) → Value → Value → Except Fault Bool
  | 0, _, _, _ => .error .endless
  | fuel + 1, pending, a, b =>
    match s.object? a, s.object? b with
    | some x, some y =>
      if a = b then .ok true
      else if (a, b) ∈ pending then .error .endless
      else
        let parts := equalWithin s fuel ((a, b) :: pending)
        equalObjects (fun c d => if c = d then .ok true else parts c d) x y
    | _, _ => .ok (a.equalScalar b)

/-- Equality of values. No pair of objects is pending twice, which bounds the depth. -/
def equal (s : Store) (a b : Value) : Except Fault Bool :=
  equalWithin s (s.objects.size * s.objects.size + 1) [] a b

/-- Any value compared with a text: only the same text is equal. -/
theorem equal_text (s : Store) (v : Value) (t : String) : s.equal v (.text t) = .ok (v == .text t) := by
  cases v <;> simp [equal, equalWithin, object?, Value.equalScalar_text]

/-! ## Membership by equality -/

/-- Whether two parts of a collection count as one. -/
def samePart (s : Store) (a b : Value) : Except Fault Bool :=
  if a = b then .ok true else s.equal a b

/-- The members of a set, without repetition: of equal ones the first is kept. -/
def distinct (s : Store) : List Value → List Value → Except Fault (List Value)
  | kept, [] => .ok kept
  | kept, v :: vs => do
    if ← hasEqual s.samePart v kept then distinct s kept vs else distinct s (kept ++ [v]) vs

/-! ## Keys of maps -/

/-- Whether a key is equal to another one. What cannot be compared is different. -/
def sameKey (s : Store) (key k : Key) : Bool := s.samePart key.value k.value matches .ok true

/-- The key of a map that a key counts as: an object counts as the first key that it is equal to. Other
keys are told apart by what they count as in any map. -/
def keyAs (s : Store) (es : Entries Value) (key : Key) : Key :=
  match key with
  | .other (.object _) => (es.keys.find? (s.sameKey key)).getD key
  | key => key

@[simp] theorem keyAs_text (s : Store) (es : Entries Value) (x : String) :
    s.keyAs es (.text x) = .text x := rfl

/-- A key counts as one of the keys that are there, or as itself. -/
theorem keyAs_mem_or (s : Store) (es : Entries Value) (key : Key) :
    s.keyAs es key ∈ es.keys ∨ s.keyAs es key = key := by
  unfold keyAs
  split
  · next o =>
      cases hfound : es.keys.find? (s.sameKey (.other (.object o))) with
      | some k => exact Or.inl (List.mem_of_find?_eq_some hfound)
      | none => exact Or.inr rfl
  · exact Or.inr rfl

/-- Puts entries into a map one after the other. -/
def putEach (s : Store) (es new : Entries Value) : Entries Value :=
  new.foldl (fun es e => es.put (s.keyAs es e.1) e.2) es

@[simp] theorem putEach_nil (s : Store) (es : Entries Value) : s.putEach es [] = es := rfl

@[simp] theorem putEach_cons (s : Store) (es rest : Entries Value) (e : Key × Value) :
    s.putEach es (e :: rest) = s.putEach (es.put (s.keyAs es e.1) e.2) rest := rfl

/-! ## What can be a key -/

/-- Refuses what cannot be a key or a member of a set: collections and maps that may change, and
immutable things that hold one. -/
def requireHashableWithin (s : Store) : Nat → Value → Except Fault Unit
  | 0, _ => .ok ()
  | fuel + 1, v =>
    match s.object? v with
    | some (.collection .list _) | some (.collection .set _) | some (.map _) =>
      .error (.unhashable (s.kindName v))
    | some (.collection .tuple items) => items.forM (requireHashableWithin s fuel)
    | some (.location l c) => [l, c].forM (requireHashableWithin s fuel)
    | some (.position a b c) => [a, b, c].forM (requireHashableWithin s fuel)
    | some (.matcher _ target) => requireHashableWithin s fuel target
    | _ => .ok ()

/-- Refuses what cannot be a key or a member of a set. -/
def requireHashable (s : Store) (v : Value) : Except Fault Unit :=
  requireHashableWithin s (s.objects.size + 1) v

end SyntaxTree.Store
