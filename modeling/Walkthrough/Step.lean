import Walkthrough.Counter
import Walkthrough.Highlight
import Walkthrough.Json
import Walkthrough.Text.Tuple

/-!
# Steps

What a run records: a variable that takes a value, a pass of a loop, a stage of a
printed, tested or returned expression, the start and the end of a call, and the
definition of a function. Each step tells how deeply its statement is nested and,
variables apart, the id of the construct it comes from.
-/

namespace Walkthrough

/-- The branches of a choice. -/
inductive BranchKind where
  | first
  | further
  | otherwise
  deriving DecidableEq, Repr

/-- The keyword of a branch. -/
def BranchKind.text : BranchKind → String
  | first => "if"
  | further => "elif"
  | otherwise => "else"

/-- An argument of a call with the parameter it is bound to. -/
structure Argument where
  /-- The parameter. -/
  name : String
  /-- The text of the value. -/
  value : String
  deriving DecidableEq, Repr

/-- One step of a run. -/
inductive Step where
  /-- A variable shown with one stage of its value. -/
  | assigned (depth : Nat) (target expr : String)
  /-- A pass of a loop and the parts of its counter that changed. -/
  | pass (id depth : Nat) (counter : Counter) (highlight : List CounterField)
  /-- A stage of a printed expression. -/
  | print (id depth : Nat) (expr : String) (highlight : Highlight)
  /-- A stage of the condition of a branch. -/
  | branch (id depth : Nat) (kind : BranchKind) (expr : String) (highlight : Highlight)
  /-- The start of a call. -/
  | call (id depth : Nat) (name signature : String) (args : List Argument)
  /-- A stage of a returned expression. -/
  | giveBack (id depth : Nat) (expr : String) (highlight : Highlight)
  /-- The end of a call. -/
  | endCall (id depth : Nat) (name value : String)
  /-- The definition of a function. -/
  | define (id depth : Nat) (name signature : String)
  deriving DecidableEq, Repr

namespace Step

/-- The kind of a step. -/
def kind : Step → String
  | assigned .. => "variable"
  | pass .. => "for"
  | print .. => "print"
  | branch .. => "if"
  | call .. => "call"
  | giveBack .. => "return"
  | endCall .. => "endcall"
  | define .. => "define"

/-- How deeply the statement of a step is nested. -/
def depth : Step → Nat
  | assigned depth _ _ => depth
  | pass _ depth _ _ => depth
  | print _ depth _ _ => depth
  | branch _ depth _ _ _ => depth
  | call _ depth _ _ _ => depth
  | giveBack _ depth _ _ => depth
  | endCall _ depth _ _ => depth
  | define _ depth _ _ => depth

/-- The id of the construct that a step comes from. -/
def id? : Step → Option Nat
  | assigned .. => none
  | pass id _ _ _ => some id
  | print id _ _ _ => some id
  | branch id _ _ _ _ => some id
  | call id _ _ _ _ => some id
  | giveBack id _ _ _ => some id
  | endCall id _ _ _ => some id
  | define id _ _ _ => some id

/-- The expression of a step and its changed characters. -/
def highlighted? : Step → Option (String × Highlight)
  | print _ _ expr highlight => some (expr, highlight)
  | branch _ _ _ expr highlight => some (expr, highlight)
  | giveBack _ _ expr highlight => some (expr, highlight)
  | _ => none

/-- A pass of a loop in one line, its parts written by a function. -/
def passText (part : CounterField → String) : String :=
  "for " ++ part .target ++ " = " ++ part .current ++ " in range(" ++ part .start ++ ", " ++
    part .stop ++ ", " ++ part .step ++ ")"

/-- A branch in one line. -/
def branchText (kind : BranchKind) (expr : String) : String :=
  if expr.isEmpty then kind.text else kind.text ++ " " ++ expr

/-- An argument with its parameter. -/
def argumentText (arg : Argument) : String := arg.name ++ "=" ++ arg.value

/-- A step in one line. -/
def text : Step → String
  | assigned _ target expr => target ++ " = " ++ expr
  | pass _ _ counter _ => passText counter.fieldText
  | print _ _ expr _ => "print " ++ expr
  | branch _ _ kind expr _ => branchText kind expr
  | call _ _ name _ args =>
    "call " ++ name ++ "(" ++ Text.commaSeparated (args.map argumentText) ++ ")"
  | giveBack _ _ expr _ => "return " ++ expr
  | endCall _ _ name value => name ++ "() -> " ++ value
  | define _ _ _ signature => "def " ++ signature

/-- Positions as data. -/
def positionsData (highlight : Highlight) : Json := .arr (highlight.map Json.nat)

/-- A counter as data. -/
def counterData (c : Counter) : Json :=
  .obj [("target", .str c.target), ("cur", .int c.current.toInt), ("start", .int c.start.toInt),
    ("end", .int c.stop.toInt), ("step", .int c.step.toInt)]

/-- The fields of a step as data, in the order in which they are written. -/
def fields : Step → List (String × Json)
  | assigned depth target expr =>
    [("depth", .nat depth), ("target", .str target), ("expr", .str expr)]
  | pass id depth counter highlight =>
    [("id", .nat id), ("depth", .nat depth), ("condition", counterData counter),
      ("highlight", .arr (highlight.map fun field => .str field.name))]
  | print id depth expr highlight =>
    [("id", .nat id), ("depth", .nat depth), ("expr", .str expr),
      ("highlight", positionsData highlight)]
  | branch id depth kind expr highlight =>
    [("id", .nat id), ("depth", .nat depth), ("branch", .str kind.text), ("expr", .str expr),
      ("highlight", positionsData highlight)]
  | call id depth name signature args =>
    [("id", .nat id), ("depth", .nat depth), ("name", .str name), ("signature", .str signature),
      ("args", .arr (args.map fun arg =>
        .obj [("name", .str arg.name), ("value", .str arg.value)]))]
  | giveBack id depth expr highlight =>
    [("id", .nat id), ("depth", .nat depth), ("expr", .str expr),
      ("highlight", positionsData highlight)]
  | endCall id depth name value =>
    [("id", .nat id), ("depth", .nat depth), ("name", .str name), ("value", .str value)]
  | define id depth name signature =>
    [("id", .nat id), ("depth", .nat depth), ("name", .str name), ("signature", .str signature)]

/-- A step as data. Its kind comes first. -/
def data (step : Step) : Json := .obj (("kind", .str step.kind) :: step.fields)

end Step

end Walkthrough
