import SyntaxTree.Store.Run

/-!
# `Store.Reach` — what leads to what

`closure` collects everything that links lead to from some roots. It keeps a list of what is still to
be looked at; each step either drops something that was seen before or replaces something new by its
links, so the number of all links bounds the number of steps.

The links of a node are its children and whatever its fields hold; the link to its parent is none of
them, and so a node keeps its children alive and not its parent.
-/

namespace SyntaxTree.Store

/-- The links among some values. -/
def linksOf (vs : List Value) : List Value := vs.filter Value.isLink

/-- What a node holds on to. -/
def nodeLinks (r : NodeRecord) : List Value :=
  linksOf (r.nodes.getD [] ++ [r.type, r.value, r.attr, r.hint])

/-- What an object holds on to. -/
def objectLinks : Object → List Value
  | .collection _ items => linksOf items
  | .map es => linksOf (es.keys.map Key.value ++ es.values)
  | .location line column => linksOf [line, column]
  | .position start finish source => linksOf [start, finish, source]
  | .matcher _ target => linksOf [target]
  | .tracker source line column => linksOf [source, line, column]
  | .wrapper tracker start fields => linksOf (.object tracker :: start :: fields.values)
  | .method owner _ => linksOf [owner]
  | .foreign _ _ fields => linksOf fields.values
  | .plain => []

/-- What a value holds on to. -/
def links (s : Store) : Value → List Value
  | .node n => nodeLinks (s.node n)
  | .object o => objectLinks (s.object o)
  | _ => []

/-- What some roots lead to, in any number of steps. -/
inductive Reaches (next : Value → List Value) (roots : List Value) : Value → Prop
  | root {v : Value} : v ∈ roots → Reaches next roots v
  | step {v w : Value} : Reaches next roots v → w ∈ next v → Reaches next roots w

/-- Adds to `seen` what the values `todo` lead to. -/
def closure (next : Value → List Value) : Nat → List Value → List Value → List Value
  | 0, _, seen => seen
  | _ + 1, [], seen => seen
  | fuel + 1, v :: todo, seen =>
    if v ∈ seen then closure next fuel todo seen
    else closure next fuel (next v ++ todo) (v :: seen)

/-- The number of all links in a store. -/
def linkCount (s : Store) : Nat :=
  s.nodes.foldl (fun n r => n + (nodeLinks r).length) 0 +
    s.objects.foldl (fun n o => n + (objectLinks o).length) 0

/-- Everything that some values hold on to, themselves included. -/
def reachable (s : Store) (roots : List Value) : List Value :=
  closure s.links (roots.length + s.linkCount + 1) (linksOf roots) []

/-- The closure holds nothing that the links do not lead to. -/
theorem reaches_of_mem_closure {next : Value → List Value} {roots : List Value} {fuel : Nat}
    {todo seen : List Value} (htodo : ∀ v ∈ todo, Reaches next roots v)
    (hseen : ∀ v ∈ seen, Reaches next roots v) {v : Value} (h : v ∈ closure next fuel todo seen) :
    Reaches next roots v := by
  induction fuel generalizing todo seen with
  | zero => exact hseen v h
  | succ fuel ih =>
    cases todo with
    | nil => exact hseen v h
    | cons w todo =>
      have hw : Reaches next roots w := htodo w (List.mem_cons_self ..)
      have hrest : ∀ u ∈ todo, Reaches next roots u := fun u hu => htodo u (List.mem_cons_of_mem _ hu)
      unfold closure at h
      split at h
      · exact ih hrest hseen h
      · refine ih (fun u hu => ?_) (fun u hu => ?_) h
        · rcases List.mem_append.mp hu with hu | hu
          · exact hw.step hu
          · exact hrest u hu
        · rcases List.mem_cons.mp hu with rfl | hu
          · exact hw
          · exact hseen u hu

end SyntaxTree.Store
