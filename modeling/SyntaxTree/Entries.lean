import SyntaxTree.Value

/-!
# `Entries` — maps in insertion order

The maps that hold a node's attributes and the fields it is built from. A key is a text, an integer or
null, or any other value by its identity; every number that equals an integer counts as that integer.
Putting a new key appends it; putting a key again keeps the key and its place, and replaces its value.
The view is `find?`; `keys` shows the order.
-/

namespace SyntaxTree

/-- A key of a map. -/
inductive Key
  | null
  | int (i : Int)
  | text (s : String)
  | other (v : Value)
deriving DecidableEq, Repr, Inhabited

namespace Key

/-- The key that a value is. -/
def ofValue : Value → Key
  | .null => .null
  | .int i => .int i
  | .text s => .text s
  | v => .other v

/-- The value of a key, when a map is read as a list. -/
def value : Key → Value
  | .null => .null
  | .int i => .int i
  | .text s => .text s
  | .other v => v

/-- What a key counts as: keys that count as the same are one key of a map. -/
def counted : Key → Key
  | .other v => v.toInt?.elim (.other v) .int
  | k => k

@[simp] theorem counted_text (s : String) : counted (.text s) = .text s := rfl

@[simp] theorem counted_int (i : Int) : counted (.int i) = .int i := rfl

@[simp] theorem counted_null : counted .null = .null := rfl

/-- Counting once more changes nothing. -/
@[simp] theorem counted_counted (k : Key) : k.counted.counted = k.counted := by
  cases k with
  | other v =>
    cases h : v.toInt? with
    | none => simp [counted, h]
    | some i => simp [counted, h]
  | _ => rfl

end Key

/-- A map from keys to `α`, in insertion order. -/
abbrev Entries (α : Type) := List (Key × α)

namespace Entries

variable {α : Type}

/-- The value under a key. -/
def find? : Entries α → Key → Option α
  | [], _ => none
  | (k, a) :: rest, key => if k.counted = key.counted then some a else find? rest key

/-- Puts a value under a key: in the key's place if it has one, at the end otherwise. -/
def put : Entries α → Key → α → Entries α
  | [], key, b => [(key, b)]
  | (k, a) :: rest, key, b =>
    if k.counted = key.counted then (k, b) :: rest else (k, a) :: put rest key b

/-- Puts all of `new`, from left to right. -/
def putAll (old new : Entries α) : Entries α := new.foldl (fun es e => put es e.1 e.2) old

/-- The keys in order. -/
def keys (es : Entries α) : List Key := es.map Prod.fst

/-- The values in order. -/
def values (es : Entries α) : List α := es.map Prod.snd

/-- The map of the pairs, of which a later one wins. -/
def ofPairs (pairs : List (Key × α)) : Entries α := putAll [] pairs

@[simp] theorem find?_nil (k : Key) : find? ([] : Entries α) k = none := rfl

@[simp] theorem find?_put_self (es : Entries α) (k : Key) (a : α) : find? (put es k a) k = some a := by
  induction es with
  | nil => simp [put, find?]
  | cons e rest ih =>
    obtain ⟨key, b⟩ := e
    by_cases h : key.counted = k.counted <;> simp [put, find?, h, ih]

theorem find?_put_of_ne (es : Entries α) {k key : Key} (a : α) (h : key.counted ≠ k.counted) :
    find? (put es k a) key = find? es key := by
  induction es with
  | nil => simp [put, find?, Ne.symm h]
  | cons e rest ih =>
    obtain ⟨head, b⟩ := e
    by_cases hk : head.counted = k.counted
    · have hne : head.counted ≠ key.counted := fun hc => h (hc.symm.trans hk)
      simp [put, find?, hk, Ne.symm h]
    · simp only [put, hk, if_false, find?, ih]

/-- A key keeps its place: putting changes the keys only by a new one at the end. -/
theorem keys_put (es : Entries α) (k : Key) (a : α) :
    keys (put es k a) = if (find? es k).isSome then keys es else keys es ++ [k] := by
  induction es with
  | nil => simp [put, keys]
  | cons e rest ih =>
    obtain ⟨key, b⟩ := e
    by_cases h : key.counted = k.counted
    · simp [put, keys, find?, h]
    · simp only [keys] at ih ⊢
      simp only [put, h, if_false, List.map_cons, ih, find?]
      by_cases hfound : (find? rest k).isSome <;> simp [hfound]

@[simp] theorem putAll_nil (es : Entries α) : putAll es [] = es := rfl

@[simp] theorem putAll_cons (es rest : Entries α) (e : Key × α) :
    putAll es (e :: rest) = putAll (put es e.1 e.2) rest := rfl

end Entries

end SyntaxTree
