import Walkthrough.Step
import Walkthrough.Text.Lines
import Walkthrough.Theme
import Walkthrough.Wrapping

/-!
# The expression pane

The current step with its parts on lines of their own, which are wrapped if they are
too long. Changed characters and changed parts of a loop counter are marked.
-/

namespace Walkthrough.Pane

/-- A label before a part of a step. -/
def label (text : String) : Span := ⟨Text.padRight 8 text, Theme.faint⟩

/-- A part of a step with its label. -/
def labelled (name text : String) (style : Style) : List Span := [label name, ⟨text, style⟩]

/-- An expression with its changed characters marked, after a label. -/
def markedLine (name expr : String) (highlight : Highlight) : List Span :=
  label name :: (Highlight.segments expr highlight).map fun (run, marked) =>
    ⟨run, if marked then Theme.changed else Theme.plain⟩

/-- The parts of a loop counter, each on its line. -/
def counterLines (counter : Counter) (highlight : List CounterField) : List (List Span) :=
  CounterField.all.map fun field =>
    labelled field.name (counter.fieldText field)
      (if highlight.contains field then Theme.changed else Theme.plain)

/-- The parts of a step that depend on its kind. -/
def partLines : Step → List (List Span)
  | .assigned _ target expr => [labelled target expr Theme.plain]
  | .pass _ _ counter highlight => counterLines counter highlight
  | .print _ _ expr highlight => [markedLine "expr" expr highlight]
  | .giveBack _ _ expr highlight => [markedLine "expr" expr highlight]
  | .branch _ _ kind expr highlight => [markedLine kind.text expr highlight]
  | .call _ _ _ signature args =>
    labelled "call" signature (.colored Theme.call) ::
      args.map fun arg => labelled arg.name arg.value Theme.plain
  | .endCall _ _ name value => [labelled name value (.colored Theme.returned)]
  | .define _ _ _ signature => [labelled "def" signature (.colored Theme.call)]

/-- The lines of a step. -/
def stepLines (step : Step) : List (List Span) :=
  labelled "kind" step.kind (.colored Theme.keyword) :: partLines step

/-- The expression pane. -/
def drawExpression (width height : Nat) (step : Option Step) : Screen :=
  let lines :=
    match step with
    | some step => stepLines step
    | none => [[⟨"(empty trace)", Theme.faint⟩]]
  Screen.framed (Theme.borderStyle false) " Expression " width height
    (lines.flatMap (Row.wrapped .plain (width - 2)))

end Walkthrough.Pane
