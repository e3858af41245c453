import Walkthrough.Screen

/-!
# The colours of the replay
-/

namespace Walkthrough.Theme

/-- Ordinary text. -/
def foreground : Color := .rgb 205 214 244

/-- Comments, labels and what is less important. -/
def comment : Color := .rgb 108 112 134

/-- The step counter and parentheses. -/
def accent : Color := .rgb 137 180 250

/-- What changed since the stage before. -/
def highlight : Color := .rgb 250 179 135

/-- Behind what changed. -/
def changedBackground : Color := .rgb 88 70 40

/-- Printed expressions. -/
def output : Color := .rgb 166 227 161

/-- The end of the replay. -/
def alert : Color := .rgb 243 139 168

/-- Loops, choices and reserved words. -/
def keyword : Color := .rgb 203 166 247

/-- Numbers and values. -/
def number : Color := .rgb 250 179 135

/-- Calls and definitions. -/
def call : Color := .rgb 249 226 175

/-- Returned values. -/
def returned : Color := .rgb 245 194 231

/-- The border of the pane with the focus. -/
def focusedBorder : Color := .rgb 249 226 175

/-- The border of the other panes. -/
def border : Color := .rgb 69 71 90

/-- Behind the current line. -/
def currentBackground : Color := .rgb 49 50 68

/-- The style of ordinary text. -/
def plain : Style := .colored foreground

/-- The style of comments and labels. -/
def faint : Style := .colored comment

/-- The style of what changed. -/
def changed : Style := ((Style.colored highlight).on changedBackground).inBold

/-- The style of the mark of the current line. -/
def current : Style := (Style.colored highlight).inBold

/-- The style of the border of a pane. -/
def borderStyle (focused : Bool) : Style :=
  if focused then (Style.colored focusedBorder).inBold else .colored border

end Walkthrough.Theme
