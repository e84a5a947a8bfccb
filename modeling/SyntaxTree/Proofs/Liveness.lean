import Mathlib.Algebra.GroupWithZero.Nat
import Mathlib.Algebra.Order.BigOperators.Group.Finset
import SyntaxTree.Store.Collect

/-!
# `Proofs.Liveness` — what is in use keeps what it holds

The closure of some roots is computed by a search of limited length. It is complete: the roots are in it,
and so is whatever something in it links to. That holds as long as the search is not cut short, and the
number of all links in the store is a bound for it. Each step drops one value from those that are still to
be looked at; only a value that was not seen before adds others in its place, no more than it has links,
and it does so once.
-/

namespace SyntaxTree
namespace Store

/-! ## The search -/

/-- The number of links of some values together. -/
def weight (next : Value → List Value) (vs : List Value) : Nat := (vs.map fun v => (next v).length).sum

theorem weight_cons (next : Value → List Value) (v : Value) (vs : List Value) :
    weight next (v :: vs) = (next v).length + weight next vs := by
  rw [weight, List.map_cons, List.sum_cons]
  rfl

/-- What was seen is closed under links, up to what is still to be looked at. -/
def ClosedUpTo (next : Value → List Value) (todo seen : List Value) : Prop :=
  ∀ v ∈ seen, ∀ w ∈ next v, w ∈ seen ∨ w ∈ todo

/-- What was seen before need not be looked at again. -/
theorem ClosedUpTo.drop {next : Value → List Value} {v : Value} {todo seen : List Value}
    (h : ClosedUpTo next (v :: todo) seen) (hv : v ∈ seen) : ClosedUpTo next todo seen := by
  intro u hu w hw
  rcases h u hu w hw with hw | hw
  · exact Or.inl hw
  · rcases List.mem_cons.mp hw with rfl | hw
    · exact Or.inl hv
    · exact Or.inr hw

/-- The links of what is new take its place. -/
theorem ClosedUpTo.visit {next : Value → List Value} {v : Value} {todo seen : List Value}
    (h : ClosedUpTo next (v :: todo) seen) : ClosedUpTo next (next v ++ todo) (v :: seen) := by
  intro u hu w hw
  rcases List.mem_cons.mp hu with rfl | hu
  · exact Or.inr (List.mem_append_left _ hw)
  · rcases h u hu w hw with hw | hw
    · exact Or.inl (List.mem_cons_of_mem _ hw)
    · rcases List.mem_cons.mp hw with rfl | hw
      · exact Or.inl (List.mem_cons_self ..)
      · exact Or.inr (List.mem_append_right _ hw)

/-- **A search that is not cut short is complete.** Each step takes one from the values that are still to be
    looked at, or adds the links of a new value to them and to what was seen. -/
theorem closure_closed {next : Value → List Value} {budget : Nat}
    (hbudget : ∀ seen : List Value, seen.Nodup → weight next seen ≤ budget) {fuel : Nat}
    {todo seen : List Value} (hnodup : seen.Nodup)
    (hfuel : todo.length + budget < fuel + weight next seen) (hclosed : ClosedUpTo next todo seen) :
    (∀ v ∈ todo ++ seen, v ∈ closure next fuel todo seen) ∧
      ∀ v ∈ closure next fuel todo seen, ∀ w ∈ next v, w ∈ closure next fuel todo seen := by
  induction fuel generalizing todo seen with
  | zero =>
      have hle := hbudget seen hnodup
      omega
  | succ fuel ih =>
      cases todo with
      | nil =>
          rw [closure, List.nil_append]
          refine ⟨fun v hv => hv, fun v hv w hw => ?_⟩
          exact (hclosed v hv w hw).resolve_right List.not_mem_nil
      | cons v todo =>
          rw [List.length_cons] at hfuel
          rw [closure]
          by_cases hv : v ∈ seen
          · rw [if_pos hv]
            obtain ⟨hin, hlinks⟩ := ih hnodup (by omega) (hclosed.drop hv)
            refine ⟨fun u hu => hin u ?_, hlinks⟩
            rcases List.mem_cons.mp hu with rfl | hu
            · exact List.mem_append_right _ hv
            · exact hu
          · rw [if_neg hv]
            have hfuel' : (next v ++ todo).length + budget < fuel + weight next (v :: seen) := by
              rw [List.length_append, weight_cons]
              omega
            obtain ⟨hin, hlinks⟩ := ih (List.nodup_cons.mpr ⟨hv, hnodup⟩) hfuel' hclosed.visit
            refine ⟨fun u hu => hin u ?_, hlinks⟩
            rcases List.mem_cons.mp hu with rfl | hu
            · exact List.mem_append_right _ (List.mem_cons_self ..)
            · rcases List.mem_append.mp hu with hu | hu
              · exact List.mem_append_left _ (List.mem_append_right _ hu)
              · exact List.mem_append_right _ (List.mem_cons_of_mem _ hu)

/-! ## All links of a store -/

variable {s : Store}

/-- All nodes and objects of a store as values. -/
def things (s : Store) : List Value :=
  (List.range s.nodes.size).map .node ++ (List.range s.objects.size).map .object

theorem nodup_things (s : Store) : s.things.Nodup := by
  refine List.Nodup.append ?_ ?_ ?_
  · exact List.nodup_range.map fun a b h => Value.node.inj h
  · exact List.nodup_range.map fun a b h => Value.object.inj h
  · intro v hv hv'
    obtain ⟨n, -, rfl⟩ := List.mem_map.mp hv
    obtain ⟨o, -, heq⟩ := List.mem_map.mp hv'
    cases heq

/-- What has not been made has no links. -/
theorem mem_things_of_links {v : Value} (h : (s.links v).length ≠ 0) : v ∈ s.things := by
  cases v with
  | node n =>
      by_cases hn : n < s.nodes.size
      · exact List.mem_append_left _ (List.mem_map.mpr ⟨n, List.mem_range.mpr hn, rfl⟩)
      · rw [links, node_of_size_le s (Nat.le_of_not_lt hn)] at h
        exact absurd rfl h
  | object o =>
      by_cases ho : o < s.objects.size
      · exact List.mem_append_right _ (List.mem_map.mpr ⟨o, List.mem_range.mpr ho, rfl⟩)
      · rw [links, object_of_size_le s (Nat.le_of_not_lt ho)] at h
        exact absurd rfl h
  | _ => exact absurd rfl h

theorem foldl_add_eq_sum {α : Type} (f : α → Nat) (xs : Array α) :
    xs.foldl (fun n x => n + f x) 0 = (xs.toList.map f).sum := by
  rw [← Array.foldl_toList, List.sum_eq_foldl, List.foldl_map]

theorem weight_things (s : Store) : weight s.links s.things = s.linkCount := by
  have hnodes : (List.range s.nodes.size).map (fun n => (s.links (.node n)).length) =
      s.nodes.toList.map fun r => (nodeLinks r).length := by
    apply List.ext_getElem
    · simp
    · intro n hn hn'
      have hlt : n < s.nodes.size := by simpa using hn
      simp [links, node, Array.getD_eq_getD_getElem?, hlt]
  have hobjects : (List.range s.objects.size).map (fun o => (s.links (.object o)).length) =
      s.objects.toList.map fun o => (objectLinks o).length := by
    apply List.ext_getElem
    · simp
    · intro o ho ho'
      have hlt : o < s.objects.size := by simpa using ho
      simp [links, object, Array.getD_eq_getD_getElem?, hlt]
  rw [weight, things, List.map_append, List.sum_append, List.map_map, List.map_map, linkCount,
    foldl_add_eq_sum, foldl_add_eq_sum, ← hnodes, ← hobjects]
  rfl

/-- Different values have no more links together than there are in the store. -/
theorem weight_le_linkCount {seen : List Value} (h : seen.Nodup) : weight s.links seen ≤ s.linkCount := by
  have hsum {vs : List Value} (hvs : vs.Nodup) :
      weight s.links vs = ∑ v ∈ vs.toFinset, (s.links v).length := (List.sum_toFinset _ hvs).symm
  rw [← weight_things s, hsum h, hsum (nodup_things s)]
  refine Finset.sum_le_sum_of_ne_zero fun v _ hv => ?_
  exact List.mem_toFinset.mpr (mem_things_of_links hv)

/-! ## What some roots keep alive -/

/-- **What is computed as reachable is what the roots lead to**, in any number of steps. -/
theorem mem_reachable_iff (s : Store) (roots : List Value) (v : Value) :
    v ∈ s.reachable roots ↔ Reaches s.links (linksOf roots) v := by
  constructor
  · exact reaches_of_mem_closure (fun _ h => .root h) fun _ h => by cases h
  · intro h
    have hlength : (linksOf roots).length ≤ roots.length := List.length_filter_le ..
    have hfuel : (linksOf roots).length + s.linkCount <
        roots.length + s.linkCount + 1 + weight s.links [] := by
      rw [weight, List.map_nil, List.sum_nil]
      omega
    obtain ⟨hroots, hlinks⟩ := closure_closed (fun _ => weight_le_linkCount) List.nodup_nil hfuel
      fun v hv => by cases hv
    rw [List.append_nil] at hroots
    induction h with
    | root hv => exact hroots _ hv
    | step _ hw ih => exact hlinks _ ih _ hw

/-- The children of what is reachable are reachable. -/
theorem child_reachable {roots : List Value} {p c : NodeId} (hp : Value.node p ∈ s.reachable roots)
    (hc : Value.node c ∈ s.children p) : Value.node c ∈ s.reachable roots := by
  have hlink : Value.node c ∈ s.links (.node p) :=
    List.mem_filter.mpr ⟨List.mem_append_left _ hc, rfl⟩
  rw [mem_reachable_iff] at hp ⊢
  exact hp.step hlink

end Store
end SyntaxTree
