import Mathlib.Data.List.DropRight
import Mathlib.Order.Defs.PartialOrder
import SyntaxTree.Cursor

/-!
# `Proofs.Places` — places in a text

Moving past a chunk counts its line feeds and what follows the last of them; so a chunk that ends with a line
feed, or consists of nothing else, takes another way through the computation than one without. None of this is
seen from outside: moving past a chunk is moving past its characters, one after the other
(`advanceChars_eq_walk`), and it does not matter how a text is cut (`advanceChars_append`).

Places are ordered by line and then by column. Each character moves ahead (`lt_step`), so different prefixes of
a text end at different places, the longer ones further on (`placeAfter_lt_iff`). `placeAfter` says what that
place is in terms of the text alone.
-/

namespace SyntaxTree.Cursor

variable {c d : Cursor} {cs ds es : List Char}

/-! ## The order of places -/

theorem eq_of_line_of_column (hline : c.line = d.line) (hcolumn : c.column = d.column) : c = d := by
  cases c
  cases d
  cases hline
  cases hcolumn
  rfl

/-- The line counts first, and then the column. -/
instance : PartialOrder Cursor where
  le c d := c.line < d.line ∨ c.line = d.line ∧ c.column ≤ d.column
  lt c d := c.line < d.line ∨ c.line = d.line ∧ c.column < d.column
  le_refl c := Or.inr ⟨rfl, Int.le_refl _⟩
  le_trans c d e hcd hde := by omega
  lt_iff_le_not_ge c d := by omega
  le_antisymm c d hcd hdc := eq_of_line_of_column (by omega) (by omega)

theorem lt_iff : c < d ↔ c.line < d.line ∨ c.line = d.line ∧ c.column < d.column := Iff.rfl

/-- A character moves ahead. -/
theorem lt_step (c : Cursor) (ch : Char) : c < c.step ch := by
  unfold step
  split
  · exact lt_iff.mpr (Or.inl (Int.lt_add_one_iff.mpr (Int.le_refl _)))
  · exact lt_iff.mpr (Or.inr ⟨rfl, Int.lt_add_one_iff.mpr (Int.le_refl _)⟩)

/-! ## Character by character -/

theorem walk_append (c : Cursor) (cs ds : List Char) : c.walk (cs ++ ds) = (c.walk cs).walk ds :=
  List.foldl_append

theorem le_walk (c : Cursor) (cs : List Char) : c ≤ c.walk cs := by
  induction cs generalizing c with
  | nil => exact le_refl c
  | cons ch cs ih => exact (lt_step c ch).le.trans (ih (c.step ch))

theorem lt_walk (c : Cursor) (h : cs ≠ []) : c < c.walk cs := by
  cases cs with
  | nil => exact absurd rfl h
  | cons ch cs => exact (lt_step c ch).trans_le (le_walk (c.step ch) cs)

/-! ## Chunk by chunk -/

theorem lineFeeds_cons (ch : Char) (cs : List Char) :
    lineFeeds (ch :: cs) = lineFeeds cs + if ch = '\n' then 1 else 0 := by
  simp [lineFeeds, List.count_cons]

theorem lineFeeds_eq_zero : lineFeeds cs = 0 ↔ '\n' ∉ cs := List.count_eq_zero

theorem ne_lineFeed (h : '\n' ∉ cs) : ∀ ch ∈ cs, (ch != '\n') = true := by
  intro ch hch
  rw [bne_iff_ne]
  exact fun heq => h (heq ▸ hch)

/-- Without a line feed the last line is all there is. -/
theorem lastLine_of_not_mem (h : '\n' ∉ cs) : lastLine cs = cs :=
  List.rtakeWhile_eq_self_iff.mpr (ne_lineFeed h)

/-- The last line begins behind the last line feed. -/
theorem lastLine_append (h : '\n' ∉ cs) (ds : List Char) : lastLine (ds ++ '\n' :: cs) = cs := by
  have hreverse : (ds ++ '\n' :: cs).reverse = cs.reverse ++ '\n' :: ds.reverse := by simp
  have hall : ∀ ch ∈ cs.reverse, (ch != '\n') = true := ne_lineFeed (by rwa [List.mem_reverse])
  rw [lastLine, hreverse, List.takeWhile_append_of_pos hall, List.takeWhile_cons_of_neg (by simp),
    List.append_nil, List.reverse_reverse]

/-- A text with a line feed has a last one. -/
theorem exists_last_lineFeed (h : '\n' ∈ cs) : ∃ ds es, cs = ds ++ '\n' :: es ∧ '\n' ∉ es := by
  induction cs with
  | nil => cases h
  | cons ch cs ih =>
      by_cases hrest : '\n' ∈ cs
      · obtain ⟨ds, es, rfl, hes⟩ := ih hrest
        exact ⟨ch :: ds, es, rfl, hes⟩
      · obtain rfl : '\n' = ch := (List.mem_cons.mp h).resolve_right hrest
        exact ⟨[], cs, rfl, hrest⟩

/-- What comes before a text with a line feed does not matter to its last line. -/
theorem lastLine_cons (ch : Char) (h : '\n' ∈ cs) : lastLine (ch :: cs) = lastLine cs := by
  obtain ⟨ds, es, rfl, hes⟩ := exists_last_lineFeed h
  rw [← List.cons_append, lastLine_append hes, lastLine_append hes]

/-- Moving past a chunk moves past its first character and then past the others. -/
theorem advanceChars_cons (c : Cursor) (ch : Char) (cs : List Char) :
    c.advanceChars (ch :: cs) = (c.step ch).advanceChars cs := by
  unfold advanceChars step
  rw [lineFeeds_cons]
  by_cases hcs : '\n' ∈ cs
  · -- the last line is that of the rest, whatever the first character is
    have hfeeds : lineFeeds cs ≠ 0 := fun h => lineFeeds_eq_zero.mp h hcs
    rw [if_neg (by omega), if_neg hfeeds, lastLine_cons ch hcs]
    split
    · simp only [Cursor.mk.injEq, and_true]
      omega
    · simp
  · have hfeeds : lineFeeds cs = 0 := lineFeeds_eq_zero.mpr hcs
    rw [hfeeds, if_pos rfl]
    by_cases hch : ch = '\n'
    · subst hch
      have hlast : lastLine ('\n' :: cs) = cs := lastLine_append hcs []
      simp [hlast]
    · simp only [hch, if_false, if_true, List.length_cons, Cursor.mk.injEq, true_and]
      omega

/-- **Moving past a chunk is moving past its characters.** -/
theorem advanceChars_eq_walk (c : Cursor) (cs : List Char) : c.advanceChars cs = c.walk cs := by
  induction cs generalizing c with
  | nil => exact advanceChars_nil c
  | cons ch cs ih => rw [advanceChars_cons, ih, walk_cons]

/-- How a text is cut does not matter. -/
theorem advanceChars_append (c : Cursor) (cs ds : List Char) :
    c.advanceChars (cs ++ ds) = (c.advanceChars cs).advanceChars ds := by
  simp only [advanceChars_eq_walk, walk_append]

theorem advance_append (c : Cursor) (text more : String) :
    c.advance (text ++ more) = (c.advance text).advance more := by
  rw [advance, String.toList_append, advanceChars_append]
  rfl

theorem le_advance (c : Cursor) (text : String) : c ≤ c.advance text := by
  rw [advance, advanceChars_eq_walk]
  exact le_walk c _

/-- Only the empty text leaves a place as it is. -/
theorem advance_eq_self {text : String} : c.advance text = c ↔ text = "" := by
  constructor
  · intro h
    rw [advance, advanceChars_eq_walk] at h
    refine String.toList_eq_nil_iff.mp (Classical.byContradiction fun hne => ?_)
    exact (lt_walk c hne).ne h.symm
  · rintro rfl
    exact advanceChars_nil c

/-! ## Places of prefixes -/

/-- The place behind a text: one line more than it has line feeds, and one column more than there are characters
behind the last of them, or at all if it has none. -/
def placeAfter (cs : List Char) : Cursor := ⟨1 + cs.count '\n', 1 + (cs.rtakeWhile (· != '\n')).length⟩

/-- **It is the place that is reached from the start of the text.** -/
theorem start_advanceChars (cs : List Char) : start.advanceChars cs = placeAfter cs := by
  unfold advanceChars placeAfter
  by_cases hcs : '\n' ∈ cs
  · rw [if_neg fun h => lineFeeds_eq_zero.mp h hcs]
    rfl
  · have hlast : cs.rtakeWhile (· != '\n') = cs := lastLine_of_not_mem hcs
    rw [if_pos (lineFeeds_eq_zero.mpr hcs), hlast, List.count_eq_zero.mpr hcs]
    rfl

theorem placeAfter_append (cs ds : List Char) : placeAfter (cs ++ ds) = (placeAfter cs).advanceChars ds := by
  rw [← start_advanceChars, ← start_advanceChars, advanceChars_append]

/-- **Places grow along the prefixes of a text**, and so different prefixes end at different places. -/
theorem placeAfter_lt_iff {i j : Nat} (hi : i ≤ cs.length) (hj : j ≤ cs.length) :
    placeAfter (cs.take i) < placeAfter (cs.take j) ↔ i < j := by
  have hgrows {i j : Nat} (hij : i < j) (hj : j ≤ cs.length) :
      placeAfter (cs.take i) < placeAfter (cs.take j) := by
    obtain ⟨k, rfl⟩ := Nat.exists_eq_add_of_lt hij
    have hsplit : cs.take (i + k + 1) = cs.take i ++ (cs.drop i).take (k + 1) := by
      rw [Nat.add_assoc, List.take_add]
    have hne : (cs.drop i).take (k + 1) ≠ [] := by
      rw [← List.length_pos_iff, List.length_take, List.length_drop]
      omega
    rw [hsplit, placeAfter_append, advanceChars_eq_walk]
    exact lt_walk _ hne
  refine ⟨fun h => ?_, fun h => hgrows h hj⟩
  rcases Nat.lt_trichotomy i j with hlt | rfl | hgt
  · exact hlt
  · exact absurd h (lt_irrefl _)
  · exact absurd (h.trans (hgrows hgt hi)) (lt_irrefl _)

/-- A prefix of a text is told by the place where it ends. -/
theorem placeAfter_inj (h : cs <+: es) (h' : ds <+: es) (hsame : placeAfter cs = placeAfter ds) : cs = ds := by
  rw [List.prefix_iff_eq_take.mp h, List.prefix_iff_eq_take.mp h'] at hsame ⊢
  rcases Nat.lt_trichotomy cs.length ds.length with hlt | heq | hgt
  · exact absurd hsame ((placeAfter_lt_iff h.length_le h'.length_le).mpr hlt).ne
  · rw [heq]
  · exact absurd hsame.symm ((placeAfter_lt_iff h'.length_le h.length_le).mpr hgt).ne

end SyntaxTree.Cursor
