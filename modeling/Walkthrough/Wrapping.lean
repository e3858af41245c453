import Walkthrough.Screen

/-!
# Wrapping

A line of glyphs that is too long for a row is broken into several, before a word if
it can be. The blanks where a line is broken are dropped, and all others are kept. A
word that is longer than a row is broken where the row ends. A line of blanks alone
is set apart by an empty line above it.
-/

namespace Walkthrough

/-- The cells that glyphs take together. -/
def Glyph.totalWidth (glyphs : List Glyph) : Nat := glyphs.foldl (fun n g => n + g.width) 0

/-- A line that is being wrapped. -/
structure Wrapping where
  /-- The rows that are finished. -/
  rows : List (List Glyph) := []
  /-- The words that stand on the current row. -/
  line : List Glyph := []
  /-- The blanks after them. -/
  blanks : List Glyph := []
  /-- The last word, which may still grow. -/
  word : List Glyph := []
  /-- Whether a blank ends a word. -/
  inWord : Bool := false

namespace Wrapping

/-- The blanks without those that go into some room. -/
def dropBlanks (room : Nat) : List Glyph → List Glyph
  | [] => []
  | g :: others => if g.width ≤ room then dropBlanks (room - g.width) others else g :: others

/-- The last word put on the current row. -/
def endWord (w : Wrapping) : Wrapping :=
  { w with line := w.line ++ w.blanks ++ w.word, blanks := [], word := [] }

/-- The current row finished, without the blanks at its end. -/
def endRow (width : Nat) (w : Wrapping) : Wrapping :=
  { w with
    rows := w.rows ++ [w.line]
    line := []
    blanks := dropBlanks (width - Glyph.totalWidth w.line) w.blanks }

/-- One more glyph after the last word. -/
def add (g : Glyph) (w : Wrapping) : Wrapping :=
  if g.isBlank then { w with blanks := w.blanks ++ [g], inWord := false }
  else { w with word := w.word ++ [g], inWord := true }

/-- The cells from the start of the current row to the end of the last word. -/
def used (w : Wrapping) : Nat :=
  Glyph.totalWidth w.line + Glyph.totalWidth w.blanks + Glyph.totalWidth w.word

/-- Whether the last word is complete before a glyph: at a blank, or where it fills a row
of its own. -/
def endsWord (width : Nat) (g : Glyph) (w : Wrapping) : Bool :=
  (w.inWord && g.isBlank) || (w.line.isEmpty && width < w.used + g.width)

/-- Whether the current row is complete before a glyph. -/
def endsRow (width : Nat) (g : Glyph) (w : Wrapping) : Bool :=
  width ≤ Glyph.totalWidth w.line || (0 < g.width && width ≤ w.used)

/-- The line with one more glyph. One that fits into no row is left out, and so is a
blank at the start of a row that was just begun. -/
def step (width : Nat) (w : Wrapping) (g : Glyph) : Wrapping :=
  if width < g.width then w
  else
    let w := if w.endsWord width g then w.endWord else w
    if w.endsRow width g then
      let w := w.endRow width
      if g.isBlank && w.blanks.isEmpty then w else w.add g
    else w.add g

/-- What is left of a line at its end. -/
def lastRows (w : Wrapping) : List (List Glyph) :=
  let row := w.line ++ w.blanks ++ w.word
  if row.isEmpty then []
  else if w.line.isEmpty && w.word.isEmpty then [[], row]
  else [row]

/-- The rows of a line at its end. An empty line is an empty row. -/
def finish (w : Wrapping) : List (List Glyph) :=
  match w.rows ++ w.lastRows with
  | [] => [[]]
  | row :: others => row :: others

/-- A line is at least one row. -/
theorem finish_ne_nil (w : Wrapping) : w.finish ≠ [] := by
  unfold finish
  split <;> exact List.cons_ne_nil _ _

end Wrapping

/-- The rows of a line that is wrapped at a width. -/
def Row.wrapped (style : Style) (width : Nat) (spans : List Span) : List Row :=
  let wrapping := (spans.flatMap Span.glyphs).foldl (Wrapping.step width) {}
  wrapping.finish.map (Row.ofGlyphs style)

end Walkthrough
