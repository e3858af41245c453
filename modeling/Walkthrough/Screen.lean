import Walkthrough.Text.Runs
import Walkthrough.Text.Width

/-!
# Character screens

A screen is a list of rows of styled cells. Lines of styled text are set glyph by
glyph: they are cut at the width of the row and filled up with blank cells.
-/

namespace Walkthrough

/-- A colour. -/
inductive Color where
  | black
  | rgb (red green blue : UInt8)
  deriving DecidableEq, Repr

/-- A colour in hexadecimal notation. -/
def Color.text : Color → String
  | black => "black"
  | rgb red green blue => "#" ++ String.join ([red, green, blue].map byte)
where
  /-- A byte in two hexadecimal digits. -/
  byte (n : UInt8) : String :=
    String.ofList [Nat.digitChar (n.toNat / 16), Nat.digitChar (n.toNat % 16)]

/-- How a cell is drawn. A colour that is not set is that of the terminal. -/
structure Style where
  /-- The colour of the character. -/
  foreground : Option Color := none
  /-- The colour behind it. -/
  background : Option Color := none
  /-- Whether the character is bold. -/
  bold : Bool := false
  deriving DecidableEq, Repr

namespace Style

/-- The style without any setting. -/
def plain : Style := {}

/-- A colour for the character. -/
def colored (color : Color) : Style := { foreground := some color }

/-- The style with a colour behind the character. -/
def on (style : Style) (color : Color) : Style := { style with background := some color }

/-- The style in bold. -/
def inBold (style : Style) : Style := { style with bold := true }

end Style

/-- One cell of a screen. -/
structure Cell where
  /-- What it shows. -/
  text : String
  /-- How it is drawn. -/
  style : Style
  /-- The number of cells that it spans, from this one on. -/
  width : Nat := 1
  deriving DecidableEq, Repr

/-- One row of a screen. -/
abbrev Row := List Cell

/-- The rows of a screen, from the top. -/
abbrev Screen := List Row

/-- A piece of text in one style. -/
structure Span where
  /-- The text. -/
  text : String
  /-- How it is drawn. -/
  style : Style
  deriving DecidableEq, Repr

/-- What is seen as one character. -/
structure Glyph where
  /-- The characters that spell it. -/
  chars : List Char
  /-- How it is drawn. -/
  style : Style
  deriving DecidableEq, Repr

/-- The glyphs of a piece of text. A line feed is none. -/
def Span.glyphs (span : Span) : List Glyph :=
  ((Text.clusters span.text.toList).filter (· != ['\n'])).map fun chars => ⟨chars, span.style⟩

namespace Glyph

/-- The cells that a glyph takes. -/
def width (g : Glyph) : Nat := Text.clusterWidth g.chars

/-- Whether a glyph separates words. A no-break space does not. -/
def isBlank (g : Glyph) : Bool :=
  g.chars == ['\u200b'] || (g.chars != ['\u00a0'] && g.chars.all Text.isBlank)

/-- The glyphs up to the first that does not fit into a width. -/
def cut (width : Nat) : List Glyph → List Glyph
  | [] => []
  | g :: others => if width < g.width then [] else g :: cut (width - g.width) others

end Glyph

namespace Row

/-- Blank cells in a style. -/
def blanks (style : Style) (width : Nat) : Row := List.replicate width { text := " ", style }

/-- The cells of a glyph. The first one holds it, and the others are blank. -/
def ofGlyph (style : Style) (g : Glyph) : Row :=
  match g.width with
  | 0 => []
  | further + 1 => ⟨String.ofList g.chars, g.style, further + 1⟩ :: blanks style further

/-- The cells of glyphs one after another. -/
def ofGlyphs (style : Style) (glyphs : List Glyph) : Row := glyphs.flatMap (ofGlyph style)

/-- The cells of a line of text that fit into a width. Glyphs that fit into no row of
this width are left out. -/
def ofSpans (style : Style) (width : Nat) (spans : List Span) : Row :=
  let glyphs := (spans.flatMap Span.glyphs).filter fun g => g.width ≤ width
  ofGlyphs style (Glyph.cut width glyphs)

/-- A row cut at a width or filled up to it with blank cells in a style. -/
def fit (style : Style) (width : Nat) (row : Row) : Row :=
  row.take width ++ blanks style (width - row.length)

/-- A line of text from the left end of a row. -/
def left (style : Style) (width : Nat) (spans : List Span) : Row :=
  fit style width (ofSpans style width spans)

/-- A line of text up to the right end of a row. -/
def right (style : Style) (width : Nat) (spans : List Span) : Row :=
  let row := ofSpans style width spans
  blanks style (width - row.length) ++ row.take width

/-- The text of a row without the blanks at its end. -/
def text (row : Row) : String :=
  let chars := row.flatMap fun cell => cell.text.toList
  String.ofList (chars.reverse.dropWhile Text.isBlank).reverse

/-- The runs of equally styled cells of a row. -/
def runs (row : Row) : List (String × Style) :=
  (Text.runsBy Cell.style row).map fun (style, cells) => (String.join (cells.map Cell.text), style)

/-- A row has the width it is fitted to. -/
theorem length_fit (style : Style) (width : Nat) (row : Row) :
    (fit style width row).length = width := by
  simp only [fit, blanks, List.length_append, List.length_take, List.length_replicate]
  omega

end Row

namespace Screen

/-- Screens of the same height side by side. -/
def beside (left right : Screen) : Screen := List.zipWith (· ++ ·) left right

/-- Rows inside a border with a title. Those below the border are dropped. -/
def framed (border : Style) (title : String) (width height : Nat) (rows : List Row) : Screen :=
  let cell (text : String) : Cell := { text, style := border }
  let edge (left right : String) (name : String) : Row :=
    let middle := name.toList.map (cell ∘ String.singleton) ++
      List.replicate (width - 2 - name.length) (cell "─")
    (cell left :: middle.take (width - 2) ++ [cell right]).take width
  let inside (row : Row) : Row :=
    (cell "│" :: Row.fit .plain (width - 2) row ++ [cell "│"]).take width
  let body := rows.take (height - 2)
  let filled := body ++ List.replicate (height - 2 - body.length) []
  ([edge "┌" "┐" title] ++ filled.map inside ++ [edge "└" "┘" ""]).take height

/-- Lines inside a border with a title. Those that do not fit are cut. -/
def bordered (border : Style) (title : String) (width height : Nat) (lines : List (List Span)) :
    Screen :=
  framed border title width height (lines.map (Row.ofSpans .plain (width - 2)))

end Screen

end Walkthrough
