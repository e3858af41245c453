import Walkthrough.Text.CharClass
import Walkthrough.Text.Lines
import Walkthrough.Theme

/-!
# The source pane

The program with its current line marked. The current line stays in one row of
the pane as long as the text allows it, so the text scrolls beneath it. Words
are coloured by what they look like, and everything after `#` is a comment.
-/

namespace Walkthrough.Pane

/-- Whether a word consists of digits and points. -/
def isNumeric (word : List Char) : Bool :=
  !word.isEmpty && word.all fun c => c.isDigit || c == '.'

/-- The words that stand for the structure of a program. -/
def structureWords : List String := ["for", "in", "if", "elif", "else", "def", "return"]

/-- The words that stand for values. -/
def valueWords : List String := ["True", "False", "None"]

/-- The style of a word, which may be called. -/
def wordStyle (word : List Char) (isCalled : Bool) : Style :=
  let text := String.ofList word
  if text ∈ structureWords then (Style.colored Theme.keyword).inBold
  else if text ∈ valueWords ∨ isNumeric word then .colored Theme.number
  else if isCalled then .colored Theme.call
  else Theme.plain

/-- The span of a word, if it has a character. -/
def wordSpan (word : List Char) (isCalled : Bool) : List Span :=
  if word = [] then [] else [⟨String.ofList word, wordStyle word isCalled⟩]

/-- Whether a character goes on with a word. Points do so inside numbers only. -/
def continuesWord (word : List Char) (c : Char) : Bool :=
  Text.isAlphanumeric c || c == '_' || (c == '.' && isNumeric word)

/-- The style of a character outside words. -/
def markStyle (c : Char) : Style :=
  if c = '(' ∨ c = ')' then .colored Theme.accent else Theme.plain

/-- The coloured text of a line after the beginning of a word. -/
def colorFrom (word : List Char) : List Char → List Span
  | [] => wordSpan word false
  | c :: rest =>
    if c = '#' then wordSpan word false ++ [⟨String.ofList (c :: rest), Theme.faint⟩]
    else if continuesWord word c then colorFrom (word ++ [c]) rest
    else wordSpan word (c == '(') ++ ⟨String.singleton c, markStyle c⟩ :: colorFrom [] rest

/-- The coloured text of a line. -/
def colorLine (line : List Char) : List Span := colorFrom [] line

/-- The part of the program that is shown. -/
structure SourceView where
  /-- The number of lines above the pane. -/
  offset : Nat := 0
  /-- The row in which the current line is kept. -/
  targetRow : Option Nat := none
  deriving DecidableEq, Repr

namespace SourceView

/-- The rows for lines in a pane of a height; one at least is assumed. -/
def rows (height : Nat) : Nat := max 1 (height - 2)

/-- The row that is aimed at in a pane of a height. At first it is the middle one. -/
def row (view : SourceView) (height : Nat) : Nat :=
  min (view.targetRow.getD (rows height / 2)) (rows height - 1)

/-- The lines above the pane when a current line, counted from one, is shown in its
row, without leaving rows empty at the end. -/
def offsetFor (total height targetRow line : Nat) : Nat :=
  if rows height < total then min (line - 1 - targetRow) (total - rows height) else 0

/-- The view of a program with so many lines in a pane of a height. It moves only if
the current line is one of the program. -/
def follow (view : SourceView) (total height : Nat) (current : Option Nat) : SourceView :=
  let targetRow := view.row height
  match current with
  | some line =>
    if 1 ≤ line ∧ line ≤ total then ⟨offsetFor total height targetRow line, some targetRow⟩
    else ⟨view.offset, some targetRow⟩
  | none => ⟨view.offset, some targetRow⟩

end SourceView

/-- A line with its number, from one, and the mark of the current line. -/
def sourceLine (current : Option Nat) (line : List Char) (number : Nat) : List Span :=
  let gutter := Text.padLeft 3 (toString number)
  if current = some number then
    ⟨gutter ++ " ▶ ", Theme.current⟩ ::
      (colorLine line).map fun span => ⟨span.text, span.style.on Theme.currentBackground⟩
  else ⟨gutter ++ "   ", Theme.faint⟩ :: colorLine line

/-- The source pane in a view that follows the current line. -/
def drawSource (view : SourceView) (width height : Nat) (lines : List (List Char))
    (current : Option Nat) (focused : Bool) : Screen :=
  let numbered := (lines.zipIdx 1).drop view.offset |>.take (SourceView.rows height)
  Screen.bordered (Theme.borderStyle focused) " Source Code " width height
    (numbered.map fun (line, number) => sourceLine current line number)

end Walkthrough.Pane
