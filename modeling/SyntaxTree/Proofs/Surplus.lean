import SyntaxTree.Proofs.ReadingOrder

/-!
# `Proofs.Surplus` — which patterns have a tree

The stack of a reader is as high as the braces say: it holds the root, and one group more for each brace that opened
and one less for each that closed (`Level`). A character goes well as long as something is on the stack
(`Level.step`). The root can be taken off like a group, so a brace that closes nothing does no harm by itself: it is
a leaf of the root, and the stack is empty behind it. It is the next character that has nowhere to go.

So a pattern has a tree if and only if every prefix that something follows is covered: it closes no more than it
opened (`build_ok_iff_covered`).
-/

namespace SyntaxTree
namespace Brace

open Store

variable {s s' : Store} {cs : List Char} {c : Char} {reader : Reader} {frames : List Frame} {root : NodeId}

/-! ## Counting braces -/

/-- Every prefix that something follows closes no more groups than it opened. -/
def Covered (cs : List Char) : Prop :=
  ∀ i < cs.length, (cs.take i).count closing ≤ (cs.take i).count opening

instance (cs : List Char) : Decidable (Covered cs) :=
  inferInstanceAs (Decidable (∀ i < cs.length, (cs.take i).count closing ≤ (cs.take i).count opening))

/-- One character more makes what was there a prefix that something follows. -/
theorem covered_concat : Covered (cs ++ [c]) ↔ Covered cs ∧ cs.count closing ≤ cs.count opening := by
  refine ⟨fun h => ⟨fun i hi => ?_, ?_⟩, fun ⟨hcs, hcount⟩ i hi => ?_⟩
  · have hprefix := h i (by simp; omega)
    rwa [List.take_append_of_le_length (Nat.le_of_lt hi)] at hprefix
  · have hprefix := h cs.length (by simp)
    rwa [List.take_left] at hprefix
  · rw [List.length_append, List.length_singleton] at hi
    rw [List.take_append_of_le_length (Nat.lt_succ_iff.mp hi)]
    rcases Nat.lt_succ_iff_lt_or_eq.mp hi with hlt | rfl
    · exact hcs i hlt
    · rwa [List.take_length]

theorem Covered.of_append {ds : List Char} (h : Covered (cs ++ ds)) : Covered cs := fun i hi => by
  have hprefix := h i (by rw [List.length_append]; omega)
  rwa [List.take_append_of_le_length (Nat.le_of_lt hi)] at hprefix

/-- What goes before a character of a covered pattern closes no more than it opened. -/
theorem Covered.count_le {pre post : List Char} (h : Covered (pre ++ c :: post)) :
    pre.count closing ≤ pre.count opening := by
  have hprefix := h pre.length (by simp)
  rwa [List.take_left] at hprefix

/-- Nothing goes after a brace that closes nothing. -/
theorem Covered.surplus_last {pre post : List Char} (h : Covered (pre ++ closing :: post))
    (hcount : pre.count opening ≤ pre.count closing) : post = [] := by
  cases post with
  | nil => rfl
  | cons d post =>
      have hcovered : Covered ((pre ++ [closing]) ++ d :: post) := by rwa [List.append_assoc]
      have hnext : (pre ++ [closing]).count closing ≤ (pre ++ [closing]).count opening := hcovered.count_le
      have hother : closing ≠ opening := by decide
      simp only [List.count_append, List.count_singleton, beq_iff_eq, if_neg hother, ↓reduceIte] at hnext
      omega

/-! ## The height of the stack -/

/-- The root, a group for each brace that opened, and none for each that closed. -/
def Level (read : List Char) (reader : Reader) : Prop :=
  reader.stack.length + read.count closing = read.count opening + 1

theorem Level.stack_eq_nil_iff (h : Level cs reader) :
    reader.stack = [] ↔ cs.count opening < cs.count closing := by
  rw [Level] at h
  rw [← List.length_eq_zero_iff]
  omega

theorem Level.stack_ne_nil (h : Level cs reader) (hcount : cs.count closing ≤ cs.count opening) : reader.stack ≠ [] :=
  fun heq => Nat.not_lt.mpr hcount (h.stack_eq_nil_iff.mp heq)

/-- The stack moves with the count of the braces. -/
theorem level_concat (h : Level cs reader) {reader' : Reader}
    (hheight : reader'.stack.length + (if c = closing then 1 else 0) =
      reader.stack.length + if c = opening then 1 else 0) : Level (cs ++ [c]) reader' := by
  rw [Level] at h ⊢
  simp only [List.count_append, List.count_singleton, beq_iff_eq]
  omega

/-- **One step.** While something is on the stack, a character can be read and moves the stack as it should. -/
theorem Level.step (hlevel : Level cs reader) (h : Reading s root cs reader frames) (hne : reader.stack ≠ []) :
    ∃ reader' s', Brace.step reader c s = .ok reader' s' ∧ Level (cs ++ [c]) reader' := by
  obtain ⟨stack, tracker⟩ := reader
  obtain rfl : stack = frames.map Frame.group := h.stack.resolve_right fun hclosed => hne hclosed.1
  cases frames with
  | nil => exact absurd rfl hne
  | cons f below =>
      by_cases hopen : c = opening
      · subst hopen
        obtain ⟨g, n, s', hstep, -⟩ := h.follows.step_opening
        have hother : opening ≠ closing := by decide
        exact ⟨_, s', hstep, level_concat hlevel (by rw [if_neg hother, if_pos rfl, List.length_cons])⟩
      · obtain ⟨n, s', hstep, -⟩ := h.follows.step_other hopen
        refine ⟨_, s', hstep, level_concat hlevel ?_⟩
        rw [if_neg hopen]
        by_cases hclose : c = closing
        · rw [if_pos hclose, if_pos hclose]
          rfl
        · rw [if_neg hclose, if_neg hclose]

/-- Begins with a new tracker and a new root, and reads some characters. -/
def readFirst (cs : List Char) : Run Reader := do
  let tracker ← startTracker (.text sourceName)
  let root ← newGroup "root"
  readAll ⟨[root], tracker⟩ cs

theorem readFirst_append (cs ds : List Char) :
    readFirst (cs ++ ds) = readFirst cs >>= fun reader => readAll reader ds := by
  simp only [readFirst, readAll_append, bind_assoc]

/-- Building a tree is reading all of the pattern. -/
theorem build_of_ok {pattern : String} (h : readFirst pattern.toList s = .ok reader s') :
    build pattern s = .ok s.nodes.size s' := by
  obtain ⟨t, -, hbegin⟩ := begin_eq s
  rw [readFirst, hbegin] at h
  rw [build, hbegin, Run.bind_of_ok h]
  rfl

theorem build_of_error {pattern : String} {e : Fault} (h : readFirst pattern.toList s = .error e s') :
    build pattern s = .error e s' := by
  obtain ⟨t, -, hbegin⟩ := begin_eq s
  rw [readFirst, hbegin] at h
  rw [build, hbegin]
  exact Run.bind_of_error h

/-- What a reader has reached that began with a new root. -/
structure Reached (s : Store) (read : List Char) (reader : Reader) (s' : Store) (frames : List Frame) : Prop where
  run : readFirst read s = .ok reader s'
  reading : Reading s' s.nodes.size read reader frames
  level : Level read reader

/-- **A run.** A pattern that is covered can be read. -/
theorem exists_reached (s : Store) (h : Covered cs) : ∃ reader s' frames, Reached s cs reader s' frames := by
  induction cs using List.reverseRecOn with
  | nil =>
      obtain ⟨s', hfollows, hbegin⟩ := begin_eq s
      exact ⟨⟨[s.nodes.size], s.objects.size⟩, s', _, hbegin _, ⟨hfollows, .inl rfl, rfl, rfl⟩, rfl⟩
  | append_singleton cs c ih =>
      obtain ⟨hcs, hcount⟩ := covered_concat.mp h
      obtain ⟨reader, t, frames, hreached⟩ := ih hcs
      obtain ⟨reader', s', hstep, hlevel⟩ :=
        hreached.level.step (c := c) hreached.reading (hreached.level.stack_ne_nil hcount)
      obtain ⟨frames', hreading⟩ := hreached.reading.step hstep
      refine ⟨reader', s', frames', ?_, hreading, hlevel⟩
      rw [readFirst_append, Run.bind_of_ok hreached.run]
      exact Run.bind_of_ok hstep

/-! ## Where a reader stops -/

/-- The reader goes through a prefix and fails at the character behind it, and building fails with it. -/
def StopsAt (s : Store) (pattern : String) (pre : List Char) (c : Char) (e : Fault) : Prop :=
  ∃ reader t s', readFirst pre s = .ok reader t ∧ step reader c t = .error e s' ∧ build pattern s = .error e s'

variable {t : Store}

/-- Once the root was taken off, the next character fails. -/
theorem Reached.stops {pattern : String} {post : List Char} (h : Reached s cs reader t frames)
    (hsplit : pattern.toList = cs ++ c :: post) (hcount : cs.count opening < cs.count closing) :
    StopsAt s pattern cs c (if c = closing then .popFromEmpty else .indexOutOfRange "list") := by
  obtain ⟨stack, tracker⟩ := reader
  obtain rfl : stack = [] := h.level.stack_eq_nil_iff.mpr hcount
  obtain ⟨s', hfails⟩ := step_nil h.reading.follows.stands c
  refine ⟨⟨[], tracker⟩, t, s', h.run, hfails, build_of_error ?_⟩
  rw [hsplit, readFirst_append, Run.bind_of_ok h.run]
  exact Run.bind_of_error hfails

/-- A pattern that is not covered has a first prefix that closes one group too many, and something follows it. -/
theorem exists_first_surplus (h : ¬ Covered cs) :
    ∃ pre c post, cs = pre ++ c :: post ∧ Covered pre ∧ pre.count opening < pre.count closing := by
  induction cs using List.reverseRecOn with
  | nil => exact absurd (fun i hi => absurd hi (Nat.not_lt_zero i)) h
  | append_singleton cs c ih =>
      by_cases hcs : Covered cs
      · exact ⟨cs, c, [], rfl, hcs, Nat.lt_of_not_le fun hcount => h (covered_concat.mpr ⟨hcs, hcount⟩)⟩
      · obtain ⟨pre, d, post, rfl, hpre, hcount⟩ := ih hcs
        exact ⟨pre, d, post ++ [c], by rw [List.append_assoc, List.cons_append], hpre, hcount⟩

/-- A brace that closes the root is its last leaf. -/
theorem Reached.last_leaf (h : Reached s cs reader t frames) (hcount : cs.count opening = cs.count closing)
    {reader' : Reader} (hstep : Brace.step reader closing t = .ok reader' s') :
    ∃ others last, s'.children s.nodes.size = others ++ [.node last] ∧
      (s'.node last).type = .text "brace.close" ∧ (s'.node last).value = .text (String.singleton closing) ∧
      s'.children last = [] ∧ s'.parentOf (.node last) = .ok (.node s.nodes.size) := by
  obtain ⟨stack, tracker⟩ := reader
  have hheight : stack.length = 1 := by
    have hlevel : stack.length + cs.count closing = cs.count opening + 1 := h.level
    omega
  have hstack : stack = frames.map Frame.group := by
    refine h.reading.stack.resolve_right fun hclosed => ?_
    obtain rfl : stack = [] := hclosed.1
    cases hheight
  subst hstack
  obtain ⟨f, rfl⟩ : ∃ f, frames = [f] := List.length_eq_one_iff.mp (by rwa [List.length_map] at hheight)
  have hroot : f.group = s.nodes.size := Option.some.inj h.reading.root
  obtain ⟨n, u, hrun, hfollows⟩ := h.reading.follows.step_other (c := closing) (by decide)
  obtain ⟨-, rfl⟩ := EStateM.Result.ok.inj (hstep.symm.trans hrun)
  have hopen := hfollows.draws.stacked.1
  refine ⟨f.parts.map fun p => .node p.node, n, ?_, ?_⟩
  · rw [← hroot]
    refine hopen.children.trans ?_
    simp [Frame.add, Part.node]
  · cases hopen.parts (.leaf n closing (Cursor.start.walk cs)) (List.mem_append_right _ (List.mem_singleton_self _)) with
    | leaf hleaf hparent =>
        refine ⟨hleaf.type, hleaf.value, by rw [children, hleaf.nodes]; rfl, ?_⟩
        rw [← hroot, parentOf, parentValue, hparent]
        rfl

/-- A pattern that is not covered fails at the first character that the closed root has no place for. -/
theorem stops_of_not_covered (s : Store) {pattern : String} (h : ¬ Covered pattern.toList) :
    ∃ pre c post e, pattern.toList = pre ++ c :: post ∧ Covered pre ∧ pre.count closing = pre.count opening + 1 ∧
      StopsAt s pattern pre c e ∧ e.category = .index ∧
      e.message = if c = closing then "pop from empty list" else "list index out of range" := by
  obtain ⟨pre, c, post, hsplit, hpre, hcount⟩ := exists_first_surplus h
  obtain ⟨reader, t, frames, hreached⟩ := exists_reached s hpre
  have hlevel : reader.stack.length + pre.count closing = pre.count opening + 1 := hreached.level
  refine ⟨pre, c, post, _, hsplit, hpre, by omega, hreached.stops hsplit hcount, ?_⟩
  by_cases hclose : c = closing
  · simp only [if_pos hclose]
    exact ⟨rfl, rfl⟩
  · simp only [if_neg hclose]
    exact ⟨rfl, rfl⟩

theorem covered_of_build {pattern : String} (h : build pattern s = .ok root s') : Covered pattern.toList := by
  by_contra hnot
  obtain ⟨pre, c, post, e, -, -, -, ⟨reader, t, u, -, -, hfails⟩, -⟩ := stops_of_not_covered s hnot
  cases h.symm.trans hfails

/-- **Which patterns have a tree.** Those of which every proper prefix closes no more groups than it opened. A brace
that closes nothing is accepted at the very end only, where it is the last leaf of the root. Any other pattern fails,
at the first character behind a prefix that closes one group more than it opened. -/
theorem build_ok_iff_covered (s : Store) (pattern : String) :
    ((∃ root s' t, build pattern s = .ok root s' ∧ s'.Shows t ∧ t.root = root) ↔ Covered pattern.toList) ∧
    (∀ root s' pre post, build pattern s = .ok root s' → pattern.toList = pre ++ closing :: post →
      pre.count opening ≤ pre.count closing →
      post = [] ∧ ∃ others last, s'.children root = others ++ [.node last] ∧
        (s'.node last).type = .text "brace.close" ∧ (s'.node last).value = .text (String.singleton closing) ∧
        s'.children last = [] ∧ s'.parentOf (.node last) = .ok (.node root)) ∧
    (¬ Covered pattern.toList →
      ∃ pre c post e, pattern.toList = pre ++ c :: post ∧ Covered pre ∧
        pre.count closing = pre.count opening + 1 ∧ StopsAt s pattern pre c e ∧ e.category = .index ∧
        e.message = if c = closing then "pop from empty list" else "list index out of range") := by
  refine ⟨⟨fun ⟨root, s', t, h, _⟩ => covered_of_build h, fun h => ?_⟩, fun root s' pre post h hsplit hcount => ?_,
    stops_of_not_covered s⟩
  · obtain ⟨reader, s', frames, hreached⟩ := exists_reached s h
    have hbuild := build_of_ok hreached.run
    obtain ⟨parts, hdraws, -⟩ := hreached.reading.follows.draws.close_all hreached.reading.root
    exact ⟨s.nodes.size, s', _, hbuild, hdraws.shows, rfl⟩
  · have hall : Covered (pre ++ closing :: post) := hsplit ▸ covered_of_build h
    obtain rfl : post = [] := hall.surplus_last hcount
    obtain ⟨reader, t, frames, hreached⟩ := exists_reached s hall.of_append
    obtain ⟨reader', u, hstep, -⟩ :=
      hreached.level.step hreached.reading (hreached.level.stack_ne_nil hall.count_le)
    have hrun : readFirst pattern.toList s = .ok reader' u := by
      rw [hsplit, readFirst_append, Run.bind_of_ok hreached.run]
      exact Run.bind_of_ok hstep
    obtain ⟨rfl, rfl⟩ := EStateM.Result.ok.inj (h.symm.trans (build_of_ok hrun))
    exact ⟨rfl, hreached.last_leaf (Nat.le_antisymm hcount hall.count_le) hstep⟩

/-- One brace too many is accepted at the end, and not before. -/
example : Covered "a\x7b,\x7d\x7d".toList ∧ ¬ Covered "a\x7b,\x7d\x7db".toList := by decide

end Brace
end SyntaxTree
