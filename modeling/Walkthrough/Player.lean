import Walkthrough.Display
import Walkthrough.Pane.Expression
import Walkthrough.Pane.Source
import Walkthrough.Pane.Status
import Walkthrough.Pane.Variables
import Walkthrough.Trace

/-!
# The replay of a trace

A player walks through the steps of a trace by keys or by itself, one step each
second. Drawing it settles what the panes show: the panes scroll to the current
step when they are drawn, not when a key is pressed. Times are in milliseconds.
-/

namespace Walkthrough

/-- The panes that can have the focus. -/
inductive Focus where
  | source
  | steps
  | bindings
  deriving DecidableEq, Repr

/-- The pane that has the focus next. -/
def Focus.next : Focus → Focus
  | source => steps
  | steps => bindings
  | bindings => source

/-- The name of a pane. -/
def Focus.name : Focus → String
  | source => "source"
  | steps => "steps"
  | bindings => "variables"

/-- A key. -/
inductive Key where
  | char (c : Char)
  | left
  | right
  | up
  | down
  | tab
  | enter
  | backspace
  | escape
  | other
  deriving DecidableEq, Repr

/-- The state of a replay. -/
structure Player where
  /-- What is replayed. -/
  trace : Trace
  /-- The lines of the program. -/
  lines : List (List Char)
  /-- The index of the current step. -/
  position : Nat
  /-- The pane that has the focus. -/
  focus : Focus
  /-- What the source pane shows. -/
  sourceView : Pane.SourceView
  /-- The number of steps above the steps pane. -/
  stepsScroll : Nat
  /-- The number of bindings above the variables pane. -/
  variablesScroll : Nat
  /-- The message in the status bar. -/
  status : String
  /-- Whether the replay goes on by itself. -/
  playing : Bool
  /-- Whether the replay is to end. -/
  quitting : Bool
  /-- The time at which the replay last went on by itself. -/
  lastAdvance : Int
  /-- The time at which the space bar last counted. -/
  lastToggle : Int

/-- The size of a screen. -/
structure Size where
  /-- The number of cells in a row. -/
  width : Nat
  /-- The number of rows. -/
  height : Nat
  deriving DecidableEq, Repr

namespace Player

/-- The time between two steps when playing. -/
def playInterval : Int := 1000

/-- The time in which a second press of the space bar does not count. -/
def toggleInterval : Int := 200

/-- A replay at its first step, begun at a time. -/
def start (trace : Trace) (text : String) (now : Int) : Player where
  trace := trace
  lines := Text.lines text.toList
  position := 0
  focus := .steps
  sourceView := {}
  stepsScroll := 0
  variablesScroll := 0
  status := "Ready!"
  playing := false
  quitting := false
  lastAdvance := now
  lastToggle := now - toggleInterval

/-- The current step. -/
def currentStep? (p : Player) : Option Step := p.trace.steps[p.position]?

/-- The line of the current step in the program. -/
def currentLine? (p : Player) : Option Nat := (p.trace.locationOf? p.position).map (·.line)

/-- The bindings at the current step. -/
def bindings (p : Player) : List (String × String) :=
  if p.trace.length = 0 then [] else p.trace.bindingsAt (.ofNat p.position)

/-- The variable that the current step changes. -/
def changed? (p : Player) : Option String :=
  match p.currentStep? with
  | some (.assigned _ target _) => some target
  | _ => none

/-- Whether a step follows the current one. -/
def hasNext (p : Player) : Bool := p.position + 1 < p.trace.length

/-- The replay one step further, if there is one. -/
def forward (p : Player) : Player :=
  if p.hasNext then { p with position := p.position + 1 } else p

/-- The replay one step back, if there is one. -/
def backward (p : Player) : Player := { p with position := p.position - 1 }

/-- The replay so many steps further, or at its last step. -/
def forwardBy : Nat → Player → Player
  | 0, p => p
  | n + 1, p => forwardBy n p.forward

/-- The replay with a message. -/
def saying (p : Player) (status : String) : Player := { p with status }

/-- The replay that waits for keys. -/
def stopped (p : Player) : Player := { p with playing := false }

/-- The replay after the time for a step has run out, if it is playing. -/
def tick (now : Int) (p : Player) : Player :=
  if p.playing ∧ playInterval ≤ now - p.lastAdvance then
    let next := if p.hasNext then p.forward.saying "Playing..."
      else p.stopped.saying "Playback complete"
    { next with lastAdvance := now }
  else p

/-- Moves the target row of the current line, once it is known. -/
def moveTargetRow (f : Nat → Nat) (p : Player) : Player :=
  { p with sourceView := { p.sourceView with targetRow := p.sourceView.targetRow.map f } }

/-- Starts or stops playing, unless this was done just before. The first step is
then due at once. -/
def toggle (now : Int) (p : Player) : Player :=
  if toggleInterval ≤ now - p.lastToggle then
    if p.playing then { p.stopped.saying "Paused" with lastToggle := now }
    else
      { p.saying "Playing..." with
        playing := true, lastToggle := now, lastAdvance := now - playInterval }
  else p

/-- One step further at the press of a key. -/
def pressForward (p : Player) : Player :=
  p.stopped.forward.saying (if p.hasNext then "Stepped forward" else "Already at the last step")

/-- One step back at the press of a key. -/
def pressBackward (p : Player) : Player :=
  p.stopped.backward.saying
    (if p.position = 0 then "Already at the first step" else "Stepped backward")

/-- Some steps further at the press of a digit. -/
def pressDigit (n : Nat) (p : Player) : Player :=
  let moved := forwardBy n p.stopped
  moved.saying s!"Stepped forward {moved.position - p.position} step(s)"

/-- The replay after a character was typed. -/
def pressChar (now : Int) (c : Char) (p : Player) : Player :=
  if c = 'q' ∨ c = 'Q' then { p with quitting := true }
  else if '1' ≤ c ∧ c ≤ '9' then p.pressDigit (c.toNat - '0'.toNat)
  else if c = 'h' then p.pressBackward
  else if c = 'l' then p.pressForward
  else if c = ' ' then p.toggle now
  else p

/-- The replay after the key for upwards. In the source pane the current line moves
down as the text is scrolled up. -/
def pressUp (p : Player) : Player :=
  match p.focus with
  | .source => p.moveTargetRow (· + 1)
  | .steps => p.stopped.backward
  | .bindings => { p with variablesScroll := p.variablesScroll - 1 }

/-- The replay after the key for downwards. -/
def pressDown (p : Player) : Player :=
  match p.focus with
  | .source => p.moveTargetRow (· - 1)
  | .steps => p.stopped.forward
  | .bindings => { p with variablesScroll := p.variablesScroll + 1 }

/-- The replay after a key was pressed. -/
def press (now : Int) (key : Key) (p : Player) : Player :=
  match key with
  | .char c => p.pressChar now c
  | .left => p.pressBackward
  | .right => p.pressForward
  | .up => p.pressUp
  | .down => p.pressDown
  | .tab => { p with focus := p.focus.next }
  | .enter => { p.stopped.saying "Jumped to end" with position := p.trace.length - 1 }
  | .backspace => { p.stopped.saying "Jumped to start" with position := 0 }
  | .escape => { p with quitting := true }
  | .other => p

/-- The heights of the panes. -/
structure Heights where
  /-- The height of the source pane. -/
  source : Nat
  /-- The height of the steps pane. -/
  steps : Nat
  /-- The height of the variables pane. -/
  bindings : Nat

/-- The heights of the panes on a screen with so many rows, of which the last one
holds the status bar. -/
def Heights.of (rows : Nat) : Heights :=
  let panes := rows - 1
  let steps := Pane.share 60 panes
  ⟨Pane.share 65 panes, steps, panes - steps⟩

/-- The replay with its panes scrolled to the current step. -/
def settle (h : Heights) (p : Player) : Player :=
  { p with
    sourceView := p.sourceView.follow p.lines.length h.source p.currentLine?
    stepsScroll := Pane.followOffset p.stepsScroll p.position (Pane.innerHeight h.steps)
    variablesScroll := Pane.clampScroll p.variablesScroll p.bindings.length
      (Pane.innerHeight h.bindings) }

/-- The screen of a replay whose panes are scrolled to the current step. -/
def screen (size : Size) (p : Player) : Screen :=
  let h := Heights.of size.height
  let left := Pane.share 55 size.width
  let right := size.width - left
  let source := Pane.drawSource p.sourceView left h.source p.lines p.currentLine?
    (p.focus == .source)
  let expression := Pane.drawExpression left (size.height - 1 - h.source) p.currentStep?
  let steps := Pane.drawSteps p.stepsScroll right h.steps p.trace.steps.toList p.position
    (p.focus == .steps)
  let bindings := Pane.drawVariables p.variablesScroll right h.bindings p.bindings p.changed?
    (p.focus == .bindings)
  Screen.beside (source ++ expression) (steps ++ bindings) ++
    Pane.drawStatus size.width 1 p.status p.position p.trace.length p.playing

/-- Draws the replay, plays on if it is time, and takes the next key, until the keys
are used up or one of them ends the replay. -/
def session (now : Int) (size : Size) : List Key → Player → Display → Player × Display
  | keys, p, display =>
    let drawn := p.settle (Heights.of size.height)
    let display := display.draw (drawn.screen size)
    if drawn.quitting then (drawn, display)
    else
      match keys with
      | [] => (drawn.tick now, display)
      | key :: others => session now size others ((drawn.tick now).press now key) display

end Player

end Walkthrough
