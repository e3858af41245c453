import Walkthrough.Theme

/-!
# The status bar

One row: the position in the replay and a message on the left, the keys and the
state of the replay on the right.
-/

namespace Walkthrough.Pane

/-- The nearest whole number of cells to a percentage of a length. -/
def share (percent length : Nat) : Nat := (percent * length + 50) / 100

/-- The style of the bar. -/
def barStyle : Style := Style.plain.on Theme.currentBackground

/-- Text on the bar in a colour. -/
def onBar (color : Color) (text : String) : Span :=
  ⟨text, (Style.colored color).on Theme.currentBackground⟩

/-- Black text on a colour. -/
def onColor (color : Color) (text : String) : Span := ⟨text, (Style.colored .black).on color⟩

/-- A badge on a colour. -/
def badge (color : Color) (text : String) : Span :=
  ⟨text, ((Style.colored .black).on color).inBold⟩

/-- The position in the replay, counted from one, and a message. -/
def positionSpans (message : String) (current total : Nat) : List Span :=
  let shown := if total = 0 then 0 else current + 1
  [badge Theme.accent s!" Step {shown}/{total} ", onBar Theme.comment " | ",
    onBar Theme.foreground s!" {message} "]

/-- A key with what it does. -/
def keySpans (key action : String) : List Span :=
  [onColor Theme.comment key, onBar Theme.foreground action]

/-- The line between two keys. -/
def divider : List Span := [onBar Theme.comment "│", onBar Theme.foreground " "]

/-- The state of the replay, if there is something to tell. -/
def stateSpans (current total : Nat) (playing : Bool) : List Span :=
  let shown (color : Color) (text : String) : List Span :=
    [onBar Theme.comment "│", badge color text]
  if playing then shown Theme.highlight " ▶ PLAYING "
  else if total ≤ current + 1 then shown Theme.alert " END "
  else if current = 0 then shown Theme.output " START "
  else []

/-- The keys and the state of the replay. -/
def helpSpans (current total : Nat) (playing : Bool) : List Span :=
  keySpans " ←/→ " " step " ++ divider ++ keySpans " ⎵ " " play " ++ divider ++
    keySpans " ↵ / ⌫ " " end/start " ++ divider ++ keySpans "q" " quit " ++
    stateSpans current total playing

/-- The row of the status bar that holds its text. -/
def statusRow (width : Nat) (message : String) (current total : Nat) (playing : Bool) : Row :=
  let left := share 50 width
  Row.left barStyle left (positionSpans message current total) ++
    Row.right barStyle (width - left) (helpSpans current total playing)

/-- The status bar. Rows below the first are empty. -/
def drawStatus (width height : Nat) (message : String) (current total : Nat) (playing : Bool) :
    Screen :=
  (statusRow width message current total playing ::
    List.replicate (height - 1) (Row.blanks barStyle width)).take height

end Walkthrough.Pane
