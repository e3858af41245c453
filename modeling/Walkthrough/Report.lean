import Walkthrough.Trace
import Walkthrough.Text.Lines

/-!
# Traces as text

One line for each step: its number, two spaces for each level of nesting, and the
step with its changed characters or parts marked.
-/

namespace Walkthrough

/-- How changes are marked. -/
inductive Marking where
  /-- In bold yellow on a terminal. -/
  | styled
  /-- In square brackets. -/
  | brackets
  deriving DecidableEq, Repr

/-- A marked text. -/
def Marking.mark : Marking → String → String
  | styled, text => "\x1b[38;5;11m\x1b[1m" ++ text ++ "\x1b[0m"
  | brackets, text => "[" ++ text ++ "]"

/-- A text with its highlighted runs marked. -/
def marked (text : String) (highlight : Highlight) (marking : Marking) : String :=
  String.join ((Highlight.segments text highlight).map fun (run, changed) =>
    if changed then marking.mark run else run)

namespace Step

/-- A step in one line with its changes marked. -/
def markedText (marking : Marking) : Step → String
  | pass _ _ counter highlight =>
    passText fun field =>
      if highlight.contains field then marking.mark (counter.fieldText field)
      else counter.fieldText field
  | print _ _ expr highlight => "print " ++ marked expr highlight marking
  | giveBack _ _ expr highlight => "return " ++ marked expr highlight marking
  | branch _ _ kind expr highlight => branchText kind (marked expr highlight marking)
  | step => step.text

end Step

namespace Trace

/-- The line of a step, numbered from one in a column of a width. -/
def line (marking : Marking) (width index : Nat) (step : Step) : String :=
  Text.padLeft width (toString (index + 1)) ++ "  " ++ "".pushn ' ' (2 * step.depth) ++
    step.markedText marking ++ "\n"

/-- The lines of all steps. -/
def text (t : Trace) (marking : Marking) : String :=
  let width := (toString t.length).length
  String.join (t.steps.toList.zipIdx.map fun (step, index) => line marking width index step)

end Trace

end Walkthrough
