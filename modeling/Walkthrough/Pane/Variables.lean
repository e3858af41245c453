import Walkthrough.Text.Lines
import Walkthrough.Pane.Steps

/-!
# The variables pane

The bindings at the current step, with the one that the step changed marked.
-/

namespace Walkthrough.Pane

/-- The scroll position of the bindings, no further than to show the last one. -/
def clampScroll (scroll total shown : Nat) : Nat := min scroll (total - shown)

/-- The width of the longest name. -/
def nameWidth (bindings : List (String × String)) : Nat :=
  (bindings.map fun binding => binding.1.length).foldl max 0

/-- The line of a binding. -/
def bindingLine (width : Nat) (changed : Option String) (name text : String) : List Span :=
  [⟨Text.padRight width name, Theme.plain⟩, ⟨" = ", Theme.faint⟩,
    ⟨text, if changed = some name then Theme.changed else .colored Theme.number⟩]

/-- The variables pane with so many bindings above it. -/
def drawVariables (scroll width height : Nat) (bindings : List (String × String))
    (changed : Option String) (focused : Bool) : Screen :=
  let lines :=
    if bindings.isEmpty then [[⟨"(no variables yet)", Theme.faint⟩]]
    else
      ((bindings.drop scroll).take (innerHeight height)).map fun (name, text) =>
        bindingLine (nameWidth bindings) changed name text
  Screen.bordered (Theme.borderStyle focused) " Variables " width height lines

end Walkthrough.Pane
