import Walkthrough.Location
import Walkthrough.Number.Binary64

/-!
# Expressions

Expressions of the language with the place of each node: an operator stands at
its operator sign, a call at the name of the function, a tuple in parentheses at
the opening one.
-/

namespace Walkthrough

/-- A constant as written in a program. -/
inductive Literal where
  | int (n : Int64)
  | float (x : Binary64)
  | bool (b : Bool)
  | none
  deriving DecidableEq

/-- An arithmetic operator as written in a program. -/
inductive BinaryOp where
  | add
  | sub
  | mul
  | div
  | floorDiv
  | mod
  | pow
  deriving DecidableEq, Repr

/-- A comparison operator. -/
inductive CompareOp where
  | less
  | greater
  | lessEqual
  | greaterEqual
  | equal
  | notEqual
  deriving DecidableEq, Repr

/-- An expression. -/
inductive Expr where
  /-- A constant. -/
  | literal (value : Literal) (location : Location)
  /-- A variable. -/
  | name (id : String) (location : Location)
  /-- An arithmetic operator with its operands. -/
  | binary (op : BinaryOp) (left right : Expr) (location : Location)
  /-- A comparison of two operands. -/
  | compare (op : CompareOp) (left right : Expr) (location : Location)
  /-- A tuple. -/
  | tuple (items : List Expr) (location : Location)
  /-- A call of a named function. -/
  | call (function : String) (args : List Expr) (location : Location)

/-- The sign of an arithmetic operator. -/
def BinaryOp.sign : BinaryOp → String
  | add => "+"
  | sub => "-"
  | mul => "*"
  | div => "/"
  | floorDiv => "//"
  | mod => "%"
  | pow => "**"

/-- The sign of a comparison operator. -/
def CompareOp.sign : CompareOp → String
  | less => "<"
  | greater => ">"
  | lessEqual => "<="
  | greaterEqual => ">="
  | equal => "=="
  | notEqual => "!="

namespace Expr

/-- The place of an expression. -/
def location : Expr → Location
  | literal _ location => location
  | name _ location => location
  | binary _ _ _ location => location
  | compare _ _ _ location => location
  | tuple _ location => location
  | call _ _ location => location

/-- The kind of an expression as error messages name it. -/
def kind : Expr → String
  | literal .. => "Constant"
  | name .. => "Name"
  | binary .. => "BinOp"
  | compare .. => "Compare"
  | tuple .. => "Tuple"
  | call .. => "Call"

end Expr

end Walkthrough
