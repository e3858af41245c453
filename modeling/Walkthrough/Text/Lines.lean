/-!
# Lines and padding

A text is cut at its line breaks. The pieces before a break are whole lines; the
piece after the last break is a line only if it holds a character.
-/

namespace Walkthrough.Text

/-- A line without one carriage return at its end. -/
def withoutReturn (line : List Char) : List Char :=
  if line.getLast? = some '\r' then line.dropLast else line

/-- The lines of a text. A carriage return before a line break belongs to the
break, and a break at the end of the text starts no further line. -/
def lines (text : List Char) : List (List Char) :=
  let parts := text.splitOn '\n'
  let last := parts.getLast?.getD []
  parts.dropLast.map withoutReturn ++ (if last = [] then [] else [last])

/-- A text with spaces before it up to a width. -/
def padLeft (width : Nat) (text : String) : String :=
  "".pushn ' ' (width - text.length) ++ text

/-- A text with spaces after it up to a width. -/
def padRight (width : Nat) (text : String) : String :=
  text.pushn ' ' (width - text.length)

end Walkthrough.Text
