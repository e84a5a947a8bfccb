import SyntaxTree.Proofs.Drawing

/-!
# `Proofs.ReadingOrder` — the tree of a pattern in document order

A reader loses no character and moves none: gone through in document order, the leaves of the tree are the
characters of the pattern, each with its type and its place, also where groups are left open or the root was closed
(`build_keeps_order`). Every character becomes the last leaf of what is drawn, because the top of the stack is the
end of the rightmost path (`Reading.step`). Groups that are still open at the end are closed without any change of
the store, and then the tree is one part below the root.
-/

namespace SyntaxTree
namespace Brace

open Store

variable {s s' : Store} {read cs : List Char} {c : Char} {start : Cursor} {f : Frame} {below frames : List Frame}
  {reader reader' : Reader} {root : NodeId}

/-! ## The leaves of what is drawn -/

/-- A leaf, the character it stands for, and the place where that begins. -/
abbrev Token := NodeId × Char × Cursor

namespace Part

mutual

/-- The leaves of a part in document order. -/
def tokens : Part → List Token
  | leaf n c start => [(n, c, start)]
  | group _ parts => tokensAll parts

/-- The leaves of some parts in document order. -/
def tokensAll : List Part → List Token
  | [] => []
  | p :: ps => p.tokens ++ tokensAll ps

end

theorem tokensAll_append (ps qs : List Part) : tokensAll (ps ++ qs) = tokensAll ps ++ tokensAll qs := by
  induction ps with
  | nil => rfl
  | cons p ps ih => rw [List.cons_append, tokensAll, ih, tokensAll, List.append_assoc]

theorem tokensAll_eq_flatMap (ps : List Part) : tokensAll ps = ps.flatMap tokens := by
  induction ps with
  | nil => rfl
  | cons p ps ih => rw [tokensAll, ih, List.flatMap_cons]

end Part

/-- The leaves below open groups, from the outermost to the innermost. -/
def tokensOf : List Frame → List Token
  | [] => []
  | f :: below => tokensOf below ++ Part.tokensAll f.parts

/-- A leaf on top is the last one. -/
theorem tokensOf_add (f : Frame) (below : List Frame) (n : NodeId) (c : Char) (start : Cursor) :
    tokensOf (f.add (.leaf n c start) :: below) = tokensOf (f :: below) ++ [(n, c, start)] := by
  simp [tokensOf, Frame.add, Part.tokensAll_append, Part.tokensAll, Part.tokens]

/-- Closing a group moves no leaf. -/
theorem tokensOf_close (f g : Frame) (below : List Frame) :
    tokensOf (g.add (.group f.group f.parts) :: below) = tokensOf (f :: g :: below) := by
  simp [tokensOf, Frame.add, Part.tokensAll_append, Part.tokensAll, Part.tokens]

/-- Characters, each with the place where it begins. -/
def placed (start : Cursor) : List Char → List (Char × Cursor)
  | [] => []
  | c :: cs => (c, start) :: placed (start.step c) cs

theorem placed_append (start : Cursor) (cs ds : List Char) :
    placed start (cs ++ ds) = placed start cs ++ placed (start.walk cs) ds := by
  induction cs generalizing start with
  | nil => rfl
  | cons c cs ih => simp [placed, ih]

theorem length_placed (start : Cursor) (cs : List Char) : (placed start cs).length = cs.length := by
  induction cs generalizing start with
  | nil => rfl
  | cons c cs ih => simp [placed, ih]

theorem getElem?_placed {i : Nat} (h : cs[i]? = some c) : (placed start cs)[i]? = some (c, start.walk (cs.take i)) := by
  induction cs generalizing start i with
  | nil => cases h
  | cons d cs ih =>
      cases i with
      | zero =>
          obtain rfl : d = c := Option.some.inj h
          rfl
      | succ i => exact ih h

theorem map_fst_placed (start : Cursor) (cs : List Char) : (placed start cs).map Prod.fst = cs := by
  induction cs generalizing start with
  | nil => rfl
  | cons c cs ih => rw [placed, List.map_cons, ih]

/-! ## Reading -/

/-- **What the reader has drawn**: the leaves are the characters that were read, in order, and the tracker stands behind
them. The stack is the rightmost path, unless the root was closed. -/
structure Reading (s : Store) (root : NodeId) (read : List Char) (reader : Reader) (frames : List Frame) : Prop where
  follows : Follows s reader.tracker (Cursor.start.walk read) frames
  stack : reader.stack = frames.map Frame.group ∨ reader.stack = [] ∧ frames.length = 1
  root : frames.getLast?.map Frame.group = some root
  tokens : (tokensOf frames).map Prod.snd = placed .start read

theorem getLast?_add (f : Frame) (q : Part) (below : List Frame) :
    (f.add q :: below).getLast?.map Frame.group = (f :: below).getLast?.map Frame.group := by
  cases below with
  | nil => rfl
  | cons g below => rw [List.getLast?_cons_cons, List.getLast?_cons_cons]

/-- One character more is one leaf more, at the end. -/
theorem tokens_step (h : Reading s root read reader frames) {frames' : List Frame} {n : NodeId}
    (heq : tokensOf frames' = tokensOf frames ++ [(n, c, Cursor.start.walk read)]) :
    (tokensOf frames').map Prod.snd = placed .start (read ++ [c]) := by
  rw [heq, List.map_append, h.tokens, placed_append]
  rfl

/-- **Every character becomes the last leaf of the tree.** -/
theorem Reading.step (h : Reading s root read reader frames) (hstep : Brace.step reader c s = .ok reader' s') :
    ∃ frames', Reading s' root (read ++ [c]) reader' frames' := by
  obtain ⟨stack, t⟩ := reader
  have hwalk : Cursor.start.walk (read ++ [c]) = (Cursor.start.walk read).step c := Cursor.walk_append ..
  rcases h.stack with hstack | ⟨hstack, -⟩
  · obtain rfl : stack = frames.map Frame.group := hstack
    cases frames with
    | nil => exact absurd h.root (by simp)
    | cons f below =>
        by_cases hopen : c = opening
        · subst hopen
          obtain ⟨g, n, u, hrun, hfollows⟩ := h.follows.step_opening
          obtain ⟨rfl, rfl⟩ := EStateM.Result.ok.inj (hstep.symm.trans hrun)
          refine ⟨⟨g, [.leaf n opening (Cursor.start.walk read)]⟩ :: f :: below, hwalk ▸ hfollows, .inl rfl, ?_, ?_⟩
          · rw [List.getLast?_cons_cons]
            exact h.root
          · exact tokens_step h rfl
        · obtain ⟨n, u, hrun, hfollows⟩ := h.follows.step_other hopen
          obtain ⟨rfl, rfl⟩ := EStateM.Result.ok.inj (hstep.symm.trans hrun)
          rw [← hwalk] at hfollows
          let grown := f.add (.leaf n c (Cursor.start.walk read))
          have htokens := tokens_step h (tokensOf_add f below n c (Cursor.start.walk read))
          by_cases hclose : c = closing
          · cases below with
            | nil =>
                refine ⟨[grown], hfollows, .inr ⟨?_, rfl⟩, ?_, htokens⟩
                · rw [if_pos hclose]
                  rfl
                · exact (getLast?_add f _ []).trans h.root
            | cons g below =>
                refine ⟨g.add (.group grown.group grown.parts) :: below, ⟨hfollows.draws.close_group, hfollows.stands⟩,
                  .inl ?_, ?_, ?_⟩
                · rw [if_pos hclose]
                  rfl
                · rw [getLast?_add, ← h.root, List.getLast?_cons_cons]
                · rw [tokensOf_close]
                  exact htokens
          · refine ⟨grown :: below, hfollows, .inl ?_, (getLast?_add f _ below).trans h.root, htokens⟩
            rw [if_neg hclose]
            rfl
  · obtain rfl : stack = [] := hstack
    obtain ⟨u, hfails⟩ := step_nil h.follows.stands c
    cases hstep.symm.trans hfails

/-- A run of the reader goes on from character to character. -/
theorem Reading.run (h : Reading s root read reader frames) (hrun : readAll reader cs s = .ok reader' s') :
    ∃ frames', Reading s' root (read ++ cs) reader' frames' := by
  induction cs generalizing s read reader frames with
  | nil =>
      obtain ⟨rfl, rfl⟩ := EStateM.Result.ok.inj hrun
      exact ⟨frames, by rwa [List.append_nil]⟩
  | cons c cs ih =>
      have hsplit : (Brace.step reader c >>= fun reader => readAll reader cs) s = .ok reader' s' := hrun
      cases hstep : Brace.step reader c s with
      | ok next t =>
          rw [Run.bind_of_ok hstep] at hsplit
          obtain ⟨frames', hread⟩ := h.step hstep
          obtain ⟨frames'', hend⟩ := ih hread hsplit
          exact ⟨frames'', by rwa [List.append_assoc] at hend⟩
      | error e t =>
          rw [Run.bind_of_error hstep] at hsplit
          cases hsplit

/-! ## The tree in the end -/

/-- What is open at the end may as well be closed: then there is only the root. -/
theorem Draws.close_all (h : Draws s frames) (hroot : frames.getLast?.map Frame.group = some root) :
    ∃ parts, Draws s [⟨root, parts⟩] ∧ Part.tokensAll parts = tokensOf frames := by
  cases frames with
  | nil => cases hroot
  | cons f below =>
      induction below generalizing f with
      | nil =>
          obtain rfl : f.group = root := Option.some.inj hroot
          exact ⟨f.parts, h, rfl⟩
      | cons g below ih =>
          rw [List.getLast?_cons_cons] at hroot
          obtain ⟨parts, hdraws, htokens⟩ := ih _ h.close_group ((getLast?_add g _ below).trans hroot)
          exact ⟨parts, hdraws, htokens.trans (tokensOf_close f g below)⟩

theorem Drawn.leafAt {parent : NodeId} {q : Part} (h : Drawn s parent q) :
    ∀ token ∈ q.tokens, LeafAt s token.1 token.2.1 token.2.2 := by
  induction h with
  | leaf hleaf _ =>
      intro token htoken
      rw [Part.tokens] at htoken
      obtain rfl := List.mem_singleton.mp htoken
      exact hleaf
  | group _ _ _ _ ih =>
      intro token htoken
      rw [Part.tokens, Part.tokensAll_eq_flatMap] at htoken
      obtain ⟨q, hq, hmem⟩ := List.mem_flatMap.mp htoken
      exact ih q hq token hmem

/-- No character makes a leaf of the type of a group. -/
theorem tokenType_ne (c : Char) : tokenType c ≠ "brace" := by
  unfold tokenType
  split_ifs <;> decide

theorem filter_nodesAll {parts : List Part} (test : NodeId → Bool)
    (h : ∀ q ∈ parts, q.nodes.filter test = q.tokens.map Prod.fst) :
    (Subtree.preorderAll (Part.subtrees parts)).filter test = (Part.tokensAll parts).map Prod.fst := by
  induction parts with
  | nil => rfl
  | cons q parts ih =>
      have hq := h q (List.mem_cons_self ..)
      rw [Part.subtrees, Subtree.preorderAll, Part.tokensAll, List.filter_append, List.map_append,
        ih fun r hr => h r (List.mem_cons_of_mem _ hr), ← hq, Part.nodes]

/-- The leaves are what is left of a part without its groups. -/
theorem Drawn.filter_nodes {parent : NodeId} {q : Part} (h : Drawn s parent q) :
    q.nodes.filter (fun n => (s.node n).type ≠ .text "brace") = q.tokens.map Prod.fst := by
  induction h with
  | @leaf parent n c start hleaf _ =>
      have hkept : (s.node n).type ≠ .text "brace" := by
        rw [hleaf.type]
        exact fun heq => tokenType_ne c (Value.text.inj heq)
      rw [Part.nodes_leaf, Part.tokens, List.filter_cons_of_pos (by simpa using hkept)]
      rfl
  | @group parent n parts hgroup _ _ _ ih =>
      rw [Part.nodes, Part.subtree, Subtree.preorder, List.filter_cons_of_neg (by simp [hgroup.type]), Part.tokens]
      exact filter_nodesAll _ ih

/-- The nodes of a tree other than its top and the groups, in document order. -/
def leavesIn (s : Store) (t : Subtree) : List NodeId :=
  t.preorder.filter fun n => n ≠ t.root ∧ (s.node n).type ≠ .text "brace"

/-- The value of a node as a text. -/
def textOf (s : Store) (n : NodeId) : String :=
  match (s.node n).value with
  | .text x => x
  | _ => ""

/-- A finished tree shows the root with its parts. -/
theorem Draws.shows {parts : List Part} (h : Draws s [⟨root, parts⟩]) :
    s.Shows (.node root (Part.subtrees parts)) := by
  refine .node (h.stacked.1.children.trans ?_) fun u hu => ?_
  · simp [Part.subtrees_eq_map, Part.root_subtree]
  · obtain ⟨q, hq, rfl⟩ := List.mem_map.mp (Part.subtrees_eq_map parts ▸ hu)
    exact (h.stacked.1.parts q hq).shows

/-- The leaves of a finished tree are those of its parts. -/
theorem Draws.leavesIn_eq {parts : List Part} (h : Draws s [⟨root, parts⟩]) :
    leavesIn s (.node root (Part.subtrees parts)) = (Part.tokensAll parts).map Prod.fst := by
  rw [leavesIn, Subtree.preorder, List.filter_cons_of_neg (by simp [Subtree.root])]
  refine filter_nodesAll _ fun q hq => ?_
  rw [← (h.stacked.1.parts q hq).filter_nodes]
  refine List.filter_congr fun m hm => ?_
  -- a finished part does not lead back to the root
  have hne : m ≠ root := fun heq => (h.apart _ (List.mem_singleton_self _) q hq m hm).2 (by simp [heq])
  simp [Subtree.root, hne]

theorem build_reads {pattern : String} (h : build pattern s = .ok root s') :
    ∃ reader frames, Reading s' root pattern.toList reader frames := by
  obtain ⟨s₁, hfollows, hbegin⟩ := begin_eq s
  rw [build, hbegin] at h
  cases hrun : readAll ⟨[s.nodes.size], s.objects.size⟩ pattern.toList s₁ with
  | error e t =>
      rw [Run.bind_of_error hrun] at h
      cases h
  | ok reader t =>
      rw [Run.bind_of_ok hrun] at h
      obtain ⟨rfl, rfl⟩ := EStateM.Result.ok.inj h
      have hstart : Reading s₁ s.nodes.size [] ⟨[s.nodes.size], s.objects.size⟩ [⟨s.nodes.size, []⟩] :=
        ⟨hfollows, .inl rfl, rfl, rfl⟩
      obtain ⟨frames, hread⟩ := hstart.run hrun
      exact ⟨reader, frames, hread⟩

theorem locate_ofList (cs : List Char) : Cursor.locate (String.ofList cs) = Cursor.start.walk cs := by
  rw [Cursor.locate, Cursor.advance, String.toList_ofList, Cursor.advanceChars_eq_walk]

/-- A new tracker that consumes the first characters of a pattern. -/
def track (pattern : String) (count : Nat) : Run ObjectId := do
  let tracker ← startTracker (.text sourceName)
  advance tracker (.text (String.ofList (pattern.toList.take count)))
  return tracker

theorem track_stands (s : Store) (pattern : String) (count : Nat) :
    ∃ s', track pattern count s = .ok s.objects.size s' ∧ s'.StandsAt s.objects.size (.text sourceName)
      (Cursor.locate (String.ofList (pattern.toList.take count))) := by
  obtain ⟨s₁, hstarted, -, ht⟩ := startTracker_ok s (.text sourceName)
  refine ⟨_, ?_, standsAt_standAt ht.lt_size (.text sourceName) _⟩
  rw [track, Run.bind_of_ok hstarted, Run.bind_of_ok (advance_text ht _)]
  rfl

/-- **Building loses no character and moves none.** In document order, the nodes of the tree of a pattern other than
its root and its groups are leaves, one for each character, with the type of that character, and with the span from
the place before it to the place behind it: where a new tracker stands after what is before, and after the character
too. -/
theorem build_keeps_order {pattern : String} (h : build pattern s = .ok root s') :
    ∃ t, s'.Shows t ∧ t.root = root ∧ (leavesIn s' t).length = pattern.toList.length ∧
      (∀ (i : Nat) (c : Char), pattern.toList[i]? = some c → ∃ n, (leavesIn s' t)[i]? = some n ∧
        (s'.node n).type = .text (tokenType c) ∧ (s'.node n).value = .text (String.singleton c) ∧
        (s'.node n).nodes = none ∧
        s'.Spans n (Cursor.locate (String.ofList (pattern.toList.take i)))
          (Cursor.locate (String.ofList (pattern.toList.take (i + 1)))) (.text "<pattern>")) ∧
      (∀ i u, ∃ u', track pattern i u = .ok u.objects.size u' ∧ u'.StandsAt u.objects.size (.text "<pattern>")
        (Cursor.locate (String.ofList (pattern.toList.take i)))) ∧
      String.join ((leavesIn s' t).map (textOf s')) = pattern := by
  obtain ⟨reader, frames, hread⟩ := build_reads h
  obtain ⟨parts, hdraws, htokens⟩ := hread.follows.draws.close_all hread.root
  have hleaves := hdraws.leavesIn_eq
  have hplaced : (Part.tokensAll parts).map Prod.snd = placed .start pattern.toList := htokens ▸ hread.tokens
  have hleafAt : ∀ token ∈ Part.tokensAll parts, LeafAt s' token.1 token.2.1 token.2.2 := fun token htoken => by
    rw [Part.tokensAll_eq_flatMap] at htoken
    obtain ⟨q, hq, hmem⟩ := List.mem_flatMap.mp htoken
    exact (hdraws.stacked.1.parts q hq).leafAt token hmem
  refine ⟨.node root (Part.subtrees parts), hdraws.shows, rfl, ?_, fun i c hc => ?_,
    fun i u => track_stands u pattern i, ?_⟩
  · rw [hleaves, List.length_map, ← length_placed .start pattern.toList, ← hplaced, List.length_map]
  · have hi : (placed .start pattern.toList)[i]? = some (c, Cursor.start.walk (pattern.toList.take i)) :=
      getElem?_placed hc
    rw [← hplaced, List.getElem?_map, Option.map_eq_some_iff] at hi
    obtain ⟨⟨n, _, _⟩, htoken, heq⟩ := hi
    cases heq
    have hleaf := hleafAt _ (List.mem_of_getElem? htoken)
    have hnext : pattern.toList.take (i + 1) = pattern.toList.take i ++ [c] := by
      rw [List.take_add_one, hc]
      rfl
    refine ⟨n, ?_, hleaf.type, hleaf.value, hleaf.nodes, ?_⟩
    · rw [hleaves, List.getElem?_map, htoken]
      rfl
    · rw [locate_ofList, locate_ofList, hnext, Cursor.walk_append]
      exact hleaf.spans
  · have htexts : (leavesIn s' (.node root (Part.subtrees parts))).map (textOf s') =
        pattern.toList.map String.singleton := by
      rw [hleaves, ← map_fst_placed .start pattern.toList, ← hplaced, List.map_map, List.map_map, List.map_map]
      refine List.map_congr_left fun token htoken => ?_
      show textOf s' token.1 = String.singleton token.2.1
      rw [textOf, (hleafAt token htoken).value]
    rw [htexts, join_singletons, String.ofList_toList]

/-- A pattern whose group is left open, with a comma and a line feed. -/
theorem build_keeps_order_unclosed :
    ∃ root s' t, build "\x7b,\nb" .empty = .ok root s' ∧ s'.Shows t ∧ t.root = root ∧ (leavesIn s' t).length = 4 ∧
      (∃ n, (leavesIn s' t)[2]? = some n ∧ (s'.node n).type = .text "text" ∧
        s'.Spans n ⟨1, 3⟩ ⟨2, 1⟩ (.text "<pattern>")) ∧
      (∃ u, track "\x7b,\nb" 3 .empty = .ok 0 u ∧ u.StandsAt 0 (.text "<pattern>") ⟨2, 1⟩) ∧
      String.join ((leavesIn s' t).map (textOf s')) = "\x7b,\nb" := by
  have houtcome : Run.outcome (build "\x7b,\nb" .empty) = .ok 0 := by decide +kernel
  cases hrun : build "\x7b,\nb" .empty with
  | error e s' =>
      rw [hrun] at houtcome
      cases houtcome
  | ok root s' =>
      obtain ⟨t, hshows, hroot, hlength, hleaf, htrack, hjoin⟩ := build_keeps_order hrun
      obtain ⟨n, hn, htype, -, -, hspans⟩ := hleaf 2 '\n' rfl
      exact ⟨root, s', t, rfl, hshows, hroot, hlength, ⟨n, hn, htype, hspans⟩, htrack 3 .empty, hjoin⟩

end Brace
end SyntaxTree
