import SyntaxTree.Proofs.Chunks
import SyntaxTree.Proofs.Divergence
import SyntaxTree.Proofs.Making
import SyntaxTree.Proofs.Outlines
import SyntaxTree.Proofs.Neighbours

/-!
# `Proofs.Spans` — what a wrapper stamps

A tracker stands at a place, a wrapper begins at a place, and a node spans two of them; all three are read off
the objects in a store. Each operation has one lemma that says what it does to them: consuming a chunk moves the
tracker and nothing else (`advance_moves`), taking a wrapper makes it begin where the tracker stands
(`capture_begins`), and applying it stamps the node with where it begins and where the tracker stands by then
(`call_spans`).

Put together, the span that is stamped after some chunks are those of the text that was read, however it was cut
(`readSpan_spans`); and by `Cursor.placeAfter_inj` the span tells which part of the text that is.

A node whose extra attributes were replaced by something else has nothing to put the position in
(`readSpan_without_attributes`).
-/

namespace SyntaxTree

open Store

namespace Store

variable {s s' : Store} {t w : ObjectId} {n : NodeId} {source : Value} {c d : Cursor}

/-! ## Places in a store -/

/-- An object is a place. -/
def Located (s : Store) (a : ObjectId) (c : Cursor) : Prop := s.object a = .location (.int c.line) (.int c.column)

/-- A wrapper of a tracker begins at a place. -/
def BeginsAt (s : Store) (t w : ObjectId) (c : Cursor) : Prop :=
  ∃ a fields, s.object w = .wrapper t (.object a) fields ∧ s.Located a c

/-- The position of a node spans two places in a source. -/
def Spans (s : Store) (n : NodeId) (c d : Cursor) (source : Value) : Prop :=
  ∃ o a b, s.Reads n "position" (.object o) ∧ s.object o = .position (.object a) (.object b) source ∧
    s.Located a c ∧ s.Located b d

/-- The extra attributes of a node are a map. -/
def HasAttributes (s : Store) (n : NodeId) : Prop := ∃ m es, (s.node n).attr = .object m ∧ s.object m = .map es

theorem Located.unique {a : ObjectId} (h : s.Located a c) (h' : s.Located a d) : c = d := by
  have hsame := h.symm.trans h'
  simp only [Object.location.injEq, Value.int.injEq] at hsame
  exact Cursor.eq_of_line_of_column hsame.1 hsame.2

/-- A node spans one pair of places. -/
theorem Spans.unique {c' d' : Cursor} {source' : Value} (h : s.Spans n c d source) (h' : s.Spans n c' d' source') :
    c = c' ∧ d = d' ∧ source = source' := by
  obtain ⟨o, a, b, hread, ho, ha, hb⟩ := h
  obtain ⟨o', a', b', hread', ho', ha', hb'⟩ := h'
  cases hread.symm.trans hread'
  cases ho.symm.trans ho'
  exact ⟨ha.unique ha', hb.unique hb', rfl⟩

/-! ## What stays -/

/-- Places and the beginnings of the wrappers of a tracker are what they were. -/
structure Steady (t : ObjectId) (s s' : Store) : Prop where
  wrapper : ∀ w start fields, s.object w = .wrapper t start fields →
    ∃ fields', s'.object w = .wrapper t start fields'
  location : ∀ a line column, s.object a = .location line column → s'.object a = .location line column

theorem Steady.refl (t : ObjectId) (s : Store) : Steady t s s := ⟨fun _ _ fields h => ⟨fields, h⟩, fun _ _ _ h => h⟩

theorem Steady.trans {s'' : Store} (h : Steady t s s') (h' : Steady t s' s'') : Steady t s s'' where
  wrapper w start fields hw := by
    obtain ⟨fields', hw'⟩ := h.wrapper w start fields hw
    exact h'.wrapper w start fields' hw'
  location a line column ha := h'.location a line column (h.location a line column ha)

theorem Extends.steady (h : s.Extends s') (t : ObjectId) : Steady t s s' where
  wrapper _ _ fields hw := ⟨fields, object_of_extends h hw (fun heq => by cases heq)⟩
  location _ _ _ ha := object_of_extends h ha (fun heq => by cases heq)

/-- Where wrappers and places are among what is kept, other things are no matter. -/
theorem steady_of_kept (kept : Object → Prop) (h : ∀ o, kept (s.object o) → s'.object o = s.object o)
    (hwrapper : ∀ start fields, kept (.wrapper t start fields))
    (hlocation : ∀ line column, kept (.location line column)) : Steady t s s' where
  wrapper w start fields hw := ⟨fields, (h w (hw ▸ hwrapper start fields)).trans hw⟩
  location a line column ha := (h a (ha ▸ hlocation line column)).trans ha

theorem Located.mono {a : ObjectId} (h : s.Located a c) (hs : Steady t s s') : s'.Located a c := hs.location _ _ _ h

theorem BeginsAt.mono (h : s.BeginsAt t w c) (hs : Steady t s s') : s'.BeginsAt t w c := by
  obtain ⟨a, fields, hw, ha⟩ := h
  obtain ⟨fields', hw'⟩ := hs.wrapper w _ fields hw
  exact ⟨a, fields', hw', ha.mono hs⟩

/-! ## What another place of a tracker leaves alone -/

/-- Where one tracker stands is no matter to the wrappers of any. -/
theorem Moved.steady {u : ObjectId} (h : Moved u s s') (hu : s.StandsAt u source c) : Steady t s s' := by
  have hother : ∀ o, s.object o ≠ s.object u → s'.object o = s.object o :=
    fun o ho => h.object o fun heq => ho (heq ▸ rfl)
  rw [hu] at hother
  exact steady_of_kept (· ≠ _) hother (fun _ _ heq => by cases heq) fun _ _ heq => by cases heq

theorem Moved.hasAttributes (h : Moved t s s') (ht : s.StandsAt t source c) (hn : s.HasAttributes n) :
    s'.HasAttributes n := by
  obtain ⟨m, es, hattr, hm⟩ := hn
  have hne : m ≠ t := by
    rintro rfl
    cases hm.symm.trans ht
  exact ⟨m, es, by rw [h.node_eq, hattr], (h.object m hne).trans hm⟩

/-! ## Making a tracker -/

/-- A new tracker stands at the start of a text. -/
theorem startTracker_ok (s : Store) (source : Value) :
    ∃ s', startTracker source s = .ok s.objects.size s' ∧ s.Allocates s' ∧
      s'.StandsAt s.objects.size source Cursor.start :=
  ⟨_, rfl, allocates_addObject s _, object_addObject_self s _⟩

/-! ## Taking a wrapper -/

/-- **A wrapper begins where the tracker stands when it is taken.** -/
theorem capture_ok (h : s.StandsAt t source c) :
    ∃ w s', capture t s = .ok (.object w) s' ∧ s.Allocates s' ∧ s'.BeginsAt t w c := by
  let s₁ := s.addObject (.location (.int c.line) (.int c.column))
  let s₂ := s₁.addObject (.wrapper t (.object s.objects.size) [])
  have hplace : s₁.Located s.objects.size c := object_addObject_self s _
  have hadded : s₁.Allocates s₂ := allocates_addObject s₁ _
  refine ⟨s₁.objects.size, s₂, ?_, (allocates_addObject s _).trans hadded, s.objects.size, [],
    object_addObject_self s₁ _, hplace.mono (hadded.toExtends.steady t)⟩
  rw [capture, Run.read_bind, standing_eq h]
  rfl

theorem capture_begins (h : s.StandsAt t source c) :
    ∃ w s', (Action.capture (.object t)).perform s = .ok (.object w) s' ∧ s.Allocates s' ∧ s'.BeginsAt t w c := by
  obtain ⟨w, s', hcapture, hadded, hw⟩ := capture_ok h
  refine ⟨w, s', ?_, hadded, hw⟩
  rw [Action.perform, onObject_of_fits (by rw [h])]
  exact hcapture

/-! ## Applying a wrapper -/

/-- Where extra attributes are a map, one can be set, and read from then on. What is no map is what it was. -/
theorem assignExtra_position (hn : s.HasAttributes n) (v : Value) :
    ∃ s', assignExtra n (.text "position") v s = .ok () s' ∧ s'.Reads n "position" v ∧
      ∀ o, (∀ es, s.object o ≠ .map es) → s'.object o = s.object o := by
  obtain ⟨m, es, hattr, hm⟩ := hn
  generalize hs' : (s.updateObject m fun _ => .map (es.put (.text "position") v)) = s'
  have hput : s.setExtra n (.text "position") v = .ok s' := by
    rw [setExtra, hattr, ← hs']
    simp only [putItem, hm, keyAs_text]
  have hm' : s'.object m = .map (es.put (.text "position") v) := by
    rw [← hs', object_updateObject_self s _ (lt_size_of_object (hm ▸ fun heq => (by cases heq)))]
  have hattr' : (s'.node n).attr = .object m := by rw [← hs', node_updateObject, hattr]
  have hitem : s'.itemAt (.object m) (.text "position") = .ok v := by simp [itemAt, object?, hm', Key.ofValue]
  have hextra : s'.extra n "position" = .ok v := by
    rw [extra, if_neg (by decide), hattr', hitem]
  refine ⟨s', ?_, ?_, fun o ho => ?_⟩
  · rw [assignExtra, Run.bind_of_ok (Run.check_of_ok hput)]
    rfl
  · rw [Reads, perform_read]
    show Run.outcome (Run.check (fun s => s.extra n "position") s') = _
    rw [Run.check_of_ok hextra]
    rfl
  · have hne : o ≠ m := by
      rintro rfl
      exact ho es hm
    rw [← hs', object_updateObject_of_ne s _ hne]

/-- Where they are none, the store is what it was. -/
theorem assignExtra_fails (hn : ¬ s.HasAttributes n) (v : Value) :
    ∃ e, assignExtra n (.text "position") v s = .error e s := by
  have hfault : ∃ e, s.setExtra n (.text "position") v = .error e := by
    cases hattr : (s.node n).attr with
    | object m =>
        cases hm : s.object m with
        | map es => exact absurd ⟨m, es, hattr, hm⟩ hn
        | collection shape items =>
            cases shape <;> simp [setExtra, hattr, putItem, hm, placeOf, Key.value, bind, Except.bind]
        | _ => simp [setExtra, hattr, putItem, hm]
    | _ => simp [setExtra, hattr, putItem]
  obtain ⟨e, he⟩ := hfault
  exact ⟨e, Run.bind_of_error (Run.check_of_error he)⟩

/-- The store with a span, on the way to a node. -/
def withSpan (s : Store) (start source : Value) (d : Cursor) : Store :=
  (s.addObject (.location (.int d.line) (.int d.column))).addObject (.position start (.object s.objects.size) source)

theorem allocates_withSpan (s : Store) (start source : Value) (d : Cursor) : s.Allocates (s.withSpan start source d) :=
  (allocates_addObject s _).trans (allocates_addObject _ _)

/-- It ends at the given place. -/
theorem located_withSpan (s : Store) (start source : Value) (d : Cursor) :
    (s.withSpan start source d).Located s.objects.size d :=
  object_of_extends (allocates_addObject _ _).toExtends (object_addObject_self s _) fun heq => by cases heq

theorem position_withSpan (s : Store) (start source : Value) (d : Cursor) :
    (s.withSpan start source d).object (s.objects.size + 1) = .position start (.object s.objects.size) source := by
  rw [← size_addObject s (.location (.int d.line) (.int d.column))]
  exact object_addObject_self _ _

theorem stamp_eq (h : s.StandsAt t source d) (start : Value) (n : NodeId) :
    stamp t start (.node n) s =
      (assignExtra n (.text "position") (.object (s.objects.size + 1)) >>= fun _ => pure (.node n))
        (s.withSpan start source d) := by
  rw [stamp, Run.read_bind, standing_eq h, ← size_addObject s (.location (.int d.line) (.int d.column))]
  rfl

theorem Allocates.hasAttributes (h : s.Allocates s') (hn : s.HasAttributes n) : s'.HasAttributes n := by
  obtain ⟨m, es, hattr, hm⟩ := hn
  exact ⟨m, es, by rw [h.node_eq, hattr], object_of_extends h.toExtends hm (fun heq => by cases heq)⟩

theorem StandsAt.mono (h : s.StandsAt t source c) (hs : s.Extends s') : s'.StandsAt t source c :=
  object_of_extends hs h (fun heq => by cases heq)

/-- Applying a wrapper stamps a node with the span that was made, if it has extra attributes. -/
theorem call_stamps {start : Value} {fields : Entries Value} (ht : s.StandsAt t source d)
    (hw : s.object w = .wrapper t start fields) (hn : (s.withSpan start source d).HasAttributes n) :
    ∃ s', (Action.call (.object w) (.node n)).perform s = .ok (.node n) s' ∧
      (∀ a c, start = .object a → s.Located a c → s'.Spans n c d source) ∧ s'.StandsAt t source d ∧ Steady t s s' := by
  have hadded : s.Allocates (s.withSpan start source d) := allocates_withSpan s start source d
  obtain ⟨s', hassign, hread, hkept⟩ := assignExtra_position hn (.object (s.objects.size + 1))
  have hsteady : Steady t (s.withSpan start source d) s' :=
    steady_of_kept (fun x => ∀ es, x ≠ .map es) hkept (fun _ _ _ heq => by cases heq)
      fun _ _ _ heq => by cases heq
  have hstands := ht.mono hadded.toExtends
  have hspan := position_withSpan s start source d
  refine ⟨s', ?_, ?_, ?_, (hadded.toExtends.steady t).trans hsteady⟩
  · rw [Action.perform, call_wrapper hw, stamp_eq ht, Run.bind_of_ok hassign]
    rfl
  · rintro a c rfl ha
    refine ⟨_, a, s.objects.size, hread, ?_, ?_, (located_withSpan s _ source d).mono hsteady⟩
    · exact (hkept _ (hspan ▸ fun es heq => by cases heq)).trans hspan
    · exact (ha.mono (hadded.toExtends.steady t)).mono hsteady
  · exact (hkept t (hstands.symm ▸ fun es heq => by cases heq)).trans hstands

/-- A node without a map of extra attributes is not stamped, and nothing else happens. -/
theorem call_fails {start : Value} {fields : Entries Value} (ht : s.StandsAt t source d)
    (hw : s.object w = .wrapper t start fields) (hn : ¬ (s.withSpan start source d).HasAttributes n) :
    ∃ e s', (Action.call (.object w) (.node n)).perform s = .error e s' ∧ s'.StandsAt t source d ∧ Steady t s s' := by
  have hadded : s.Allocates (s.withSpan start source d) := allocates_withSpan s start source d
  obtain ⟨e, he⟩ := assignExtra_fails hn (.object (s.objects.size + 1))
  refine ⟨e, s.withSpan start source d, ?_, ht.mono hadded.toExtends, hadded.toExtends.steady t⟩
  rw [Action.perform, call_wrapper hw, stamp_eq ht, Run.bind_of_error he]

/-- **A node that has extra attributes gets the span from where the wrapper begins to where the tracker stands.** -/
theorem call_spans (ht : s.StandsAt t source d) (hw : s.BeginsAt t w c) (hn : s.HasAttributes n) :
    ∃ s', (Action.call (.object w) (.node n)).perform s = .ok (.node n) s' ∧ s'.Spans n c d source := by
  obtain ⟨a, fields, hobject, ha⟩ := hw
  obtain ⟨s', hrun, hspans, -⟩ := call_stamps ht hobject ((allocates_withSpan s _ _ _).hasAttributes hn)
  exact ⟨s', hrun, hspans a c rfl ha⟩

/-! ## Reading a part of a text -/

/-- Reads a text from its start, and stamps a target with the part after some chunks. -/
def readSpan (source : Value) (before inside : List String) (target : Value) : Run Value := do
  let t ← (Action.newTracker source).perform
  consume t before
  let w ← (Action.capture t).perform
  consume t inside
  (Action.call w target).perform

/-- The place behind a text that is read from its start. -/
def placeBehind (text : String) : Cursor := Cursor.placeAfter text.toList

theorem start_advance (text : String) : Cursor.start.advance text = placeBehind text :=
  Cursor.start_advanceChars text.toList

theorem placeBehind_advance (text more : String) : (placeBehind text).advance more = placeBehind (text ++ more) := by
  rw [← start_advance, ← Cursor.advance_append, start_advance]

/-- Two parts of one text between the same places are the same part. -/
theorem placeBehind_inj {a b rest a' b' rest' : String} (htext : a ++ b ++ rest = a' ++ b' ++ rest')
    (hstart : placeBehind a = placeBehind a') (hend : placeBehind (a ++ b) = placeBehind (a' ++ b')) :
    a = a' ∧ b = b' := by
  have hchars : a.toList ++ b.toList ++ rest.toList = a'.toList ++ b'.toList ++ rest'.toList := by
    have hsame := congrArg String.toList htext
    simpa only [String.toList_append] using hsame
  have hfirst : a.toList = a'.toList := by
    have hprefix {a b rest : List Char} : a <+: a ++ b ++ rest := ⟨b ++ rest, (List.append_assoc ..).symm⟩
    exact Cursor.placeAfter_inj hprefix (by rw [hchars]; exact hprefix) hstart
  have hboth : (a ++ b).toList = (a' ++ b').toList := by
    have hprefix {a b : String} {rest : List Char} : (a ++ b).toList <+: a.toList ++ b.toList ++ rest :=
      ⟨rest, by rw [String.toList_append]⟩
    exact Cursor.placeAfter_inj hprefix (by rw [hchars]; exact hprefix) hend
  rw [String.toList_append, String.toList_append, hfirst] at hboth
  exact ⟨String.toList_inj.mp hfirst, String.toList_inj.mp (List.append_cancel_left hboth)⟩

/-- **The span that is stamped addresses the text that was read.** Whatever chunks the text was cut into, the
position of the node goes from the place behind what came before to the place behind the part. Places grow along
the prefixes of a text, and so the two tell which part of it that is. -/
theorem readSpan_spans (hn : s.HasAttributes n) (source : Value) (before inside : List String) :
    (∃ s', readSpan source before inside (.node n) s = .ok (.node n) s' ∧
      s'.Spans n (placeBehind (String.join before)) (placeBehind (String.join before ++ String.join inside)) source) ∧
    (∀ (text : List Char) (i j : Nat), i ≤ text.length → j ≤ text.length →
      (Cursor.placeAfter (text.take i) < Cursor.placeAfter (text.take j) ↔ i < j) ∧
      (Cursor.placeAfter (text.take i) = Cursor.placeAfter (text.take j) ↔ i = j)) ∧
    ∀ a b rest a' b' rest' : String, a ++ b ++ rest = a' ++ b' ++ rest' → placeBehind a = placeBehind a' →
      placeBehind (a ++ b) = placeBehind (a' ++ b') → a = a' ∧ b = b' := by
  refine ⟨?_, fun text i j hi hj => ?_, fun a b rest a' b' rest' => placeBehind_inj⟩
  · -- a tracker is made, a wrapper is taken behind some chunks, and it is applied behind some more
    obtain ⟨s₁, hstarted, hadded₁, h₁⟩ := startTracker_ok s source
    have hn₁ : s₁.HasAttributes n := hadded₁.hasAttributes hn
    obtain ⟨s₂, hbefore, h₂, hmoved₂⟩ := consume_moves h₁ before
    have hn₂ : s₂.HasAttributes n := hmoved₂.hasAttributes h₁ hn₁
    obtain ⟨w, s₃, hcapture, hadded, hw₃⟩ := capture_begins h₂
    have h₃ := h₂.mono hadded.toExtends
    obtain ⟨s₄, hinside, h₄, hmoved₄⟩ := consume_moves h₃ inside
    have hn₄ : s₄.HasAttributes n := hmoved₄.hasAttributes h₃ (hadded.hasAttributes hn₂)
    obtain ⟨s₅, hcall, hspans⟩ := call_spans h₄ (hw₃.mono (hmoved₄.steady h₃)) hn₄
    rw [start_advance] at hspans
    rw [placeBehind_advance] at hspans
    refine ⟨s₅, ?_, hspans⟩
    have hnew : (Action.newTracker source).perform s = .ok (.object s.objects.size) s₁ := by
      rw [Action.perform, newTracker, map_eq_pure_bind]
      exact Run.bind_of_ok hstarted
    rw [readSpan, Run.bind_of_ok hnew, Run.bind_of_ok hbefore, Run.bind_of_ok hcapture, Run.bind_of_ok hinside, hcall]
  · refine ⟨Cursor.placeAfter_lt_iff hi hj, fun hsame => ?_, fun hij => by rw [hij]⟩
    have hprefix := Cursor.placeAfter_inj (text.take_prefix i) (text.take_prefix j) hsame
    have hlength := congrArg List.length hprefix
    rwa [List.length_take, List.length_take, Nat.min_eq_left hi, Nat.min_eq_left hj] at hlength

/-- A node that was made, and nothing else. -/
def withNode : Store := (Action.performAll [.create .node .empty] .empty).2

/-- A part that goes over the end of a line and begins behind another one. -/
theorem readSpan_withNode :
    ∃ s', readSpan (.text "a.txt") ["one\n", "", "tw"] ["o\n", "th"] (.node 0) withNode = .ok (.node 0) s' ∧
      s'.Spans 0 ⟨2, 3⟩ ⟨3, 3⟩ (.text "a.txt") := by
  have hn : withNode.HasAttributes 0 := ⟨0, [], rfl, rfl⟩
  have hbefore : placeBehind (String.join ["one\n", "", "tw"]) = ⟨2, 3⟩ := by decide
  have hinside : placeBehind (String.join ["one\n", "", "tw"] ++ String.join ["o\n", "th"]) = ⟨3, 3⟩ := by decide
  have hspans := (readSpan_spans hn (.text "a.txt") ["one\n", "", "tw"] ["o\n", "th"]).1
  rwa [hbefore, hinside] at hspans

/-- **The condition is needed**: a node with a number in the place of its attributes is not stamped. -/
theorem readSpan_without_attributes :
    ¬ ∃ s', readSpan (.text "a.txt") ["one\n"] ["two"] (.node 0) withNumber = .ok (.node 0) s' ∧
      s'.Spans 0 (placeBehind "one\n") (placeBehind "one\ntwo") (.text "a.txt") := by
  rintro ⟨s', hrun, -⟩
  have hfault : Run.outcome (readSpan (.text "a.txt") ["one\n"] ["two"] (.node 0) withNumber) =
      .error (.noItemAssignment "int") := rfl
  rw [hrun] at hfault
  cases hfault

end Store
end SyntaxTree
