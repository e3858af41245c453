import Walkthrough.Expr
import Walkthrough.Number.Layout
import Walkthrough.Text.Tuple

/-!
# The written form of an expression

An expression is written with single spaces around its operators. An operand is
put in parentheses where it binds less tightly than its place requires; a tuple
brings its own parentheses.
-/

namespace Walkthrough

/-- The text of a constant. -/
def Literal.text : Literal → String
  | int n => toString n.toInt
  | float x => x.text
  | bool true => "True"
  | bool false => "False"
  | none => "None"

/-- Whether a constant is written with a minus sign. -/
def Literal.isNegative : Literal → Bool
  | int n => n < 0
  | float x => x.negative
  | _ => false

/-- How tightly an operator binds. -/
def BinaryOp.precedence : BinaryOp → Nat
  | add | sub => 2
  | mul | div | floorDiv | mod => 3
  | pow => 5

/-- The least precedence of a left operand. Powers group from the right. -/
def BinaryOp.leftMinimum (op : BinaryOp) : Nat :=
  if op = .pow then op.precedence + 1 else op.precedence

/-- The least precedence of a right operand. -/
def BinaryOp.rightMinimum (op : BinaryOp) : Nat :=
  if op = .pow then op.precedence else op.precedence + 1

namespace Expr

/-- How tightly an expression binds: tuples, comparisons, sums, products, negative
constants, powers and all that is written as one piece. -/
def precedence : Expr → Nat
  | tuple .. => 0
  | compare .. => 1
  | binary op .. => op.precedence
  | literal value _ => if value.isNegative then 4 else 6
  | name .. => 6
  | call .. => 6

/-- Whether an expression is a tuple. -/
def isTuple : Expr → Bool
  | tuple .. => true
  | _ => false

/-- The text of an operand where a least precedence is required. -/
def operandText (minimum : Nat) (operand : Expr) (text : String) : String :=
  if operand.precedence < minimum ∧ ¬operand.isTuple then "(" ++ text ++ ")" else text

mutual

/-- The text of an expression whose variables are written by a function of their
name. -/
def textWith (nameText : String → String) : Expr → String
  | literal value _ => value.text
  | name id _ => nameText id
  | binary op left right _ =>
    operandText op.leftMinimum left (textWith nameText left) ++ " " ++ op.sign ++ " " ++
      operandText op.rightMinimum right (textWith nameText right)
  | compare op left right _ =>
    operandText 2 left (textWith nameText left) ++ " " ++ op.sign ++ " " ++
      operandText 2 right (textWith nameText right)
  | tuple items _ => Text.tuple (textsWith nameText items)
  | call function args _ => function ++ "(" ++ Text.commaSeparated (textsWith nameText args) ++ ")"

/-- The texts of the parts of a tuple or of the arguments of a call. -/
def textsWith (nameText : String → String) : List Expr → List String
  | [] => []
  | item :: others => operandText 1 item (textWith nameText item) :: textsWith nameText others

end

/-- The text of an expression. -/
def text (e : Expr) : String := e.textWith id

end Expr

end Walkthrough
