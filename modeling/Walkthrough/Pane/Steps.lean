import Walkthrough.Step
import Walkthrough.Text.Lines
import Walkthrough.Theme

/-!
# The steps pane

The steps of the run, indented by their nesting, with the current one marked. The
pane scrolls just as far as it takes to show the current step.
-/

namespace Walkthrough.Pane

/-- The rows for lines in a bordered pane of a height. -/
def innerHeight (height : Nat) : Nat := height - 2

/-- The offset nearest to the present one at which a selected line is among so many
shown lines; one shown line at least is assumed. -/
def followOffset (offset selected shown : Nat) : Nat :=
  if selected < offset then selected
  else if offset + max 1 shown ≤ selected then selected + 1 - max 1 shown
  else offset

/-- The colour of a kind of steps. -/
def kindColor : Step → Color
  | .assigned .. => Theme.foreground
  | .pass .. => Theme.keyword
  | .branch .. => Theme.keyword
  | .print .. => Theme.output
  | .call .. => Theme.call
  | .define .. => Theme.call
  | .giveBack .. => Theme.returned
  | .endCall .. => Theme.returned

/-- The line of a step, counted from zero. -/
def stepLine (current : Nat) (step : Step) (index : Nat) : List Span :=
  let number := Text.padLeft 4 (toString (index + 1))
  let indent : Span := ⟨"".pushn ' ' (2 * step.depth), .plain⟩
  let style := Style.colored (kindColor step)
  if index = current then
    [⟨number ++ " ▶ ", Theme.current⟩, indent,
      ⟨step.text, (style.on Theme.currentBackground).inBold⟩]
  else [⟨number ++ "   ", Theme.faint⟩, indent, ⟨step.text, style⟩]

/-- The steps pane with so many steps above it. -/
def drawSteps (scroll width height : Nat) (steps : List Step) (current : Nat) (focused : Bool) :
    Screen :=
  let shown := (steps.zipIdx.drop scroll).take (innerHeight height)
  Screen.bordered (Theme.borderStyle focused) s!" Steps ({steps.length}) " width height
    (shown.map fun (step, index) => stepLine current step index)

end Walkthrough.Pane
