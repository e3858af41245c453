import Walkthrough.Value

/-!
# Arithmetic and comparison of values

Whole numbers and truth values are added, subtracted and multiplied exactly, and
a result beyond 64 bits is a fault. As soon as a double takes part, and in every
division, both operands become the nearest double. Equality is defined on all
values, the order on numbers only.
-/

namespace Walkthrough

/-- An operation of arithmetic that can be carried out. -/
inductive Arithmetic where
  | add
  | sub
  | mul
  | div
  deriving DecidableEq, Repr

/-- The operation that an operator stands for, if it can be carried out. -/
def BinaryOp.arithmetic? : BinaryOp → Option Arithmetic
  | add => some .add
  | sub => some .sub
  | mul => some .mul
  | div => some .div
  | floorDiv => none
  | mod => none
  | pow => none

/-- The sign of an operation. -/
def Arithmetic.sign : Arithmetic → String
  | add => "+"
  | sub => "-"
  | mul => "*"
  | div => "/"

/-- Why two values cannot be combined. -/
inductive ValueFault where
  /-- A division by zero. -/
  | zeroDivision
  /-- A whole number beyond 64 bits. -/
  | overflow (op : Arithmetic) (left right : Int64)
  /-- An operand of arithmetic that is no number. -/
  | operands (op : Arithmetic) (left right : Kind)
  /-- An operand of an order comparison that is no number. -/
  | unordered (op : CompareOp) (left right : Kind)
  deriving DecidableEq

namespace ValueFault

/-- An operation on whole numbers as written. -/
def operation (op : Arithmetic) (left right : Int64) : String :=
  toString left.toInt ++ " " ++ op.sign ++ " " ++ toString right.toInt

/-- The wording of a fault. -/
def message : ValueFault → String
  | zeroDivision => "division by zero"
  | overflow op left right => "integer overflow in " ++ operation op left right
  | operands op left right =>
    "unsupported operand type(s) for " ++ op.sign ++ ": '" ++ left.name ++ "' and '" ++
      right.name ++ "'"
  | unordered op left right =>
    "'" ++ op.sign ++ "' not supported between instances of '" ++ left.name ++ "' and '" ++
      right.name ++ "'"

end ValueFault

/-- A value that counts as a number. -/
inductive Number where
  | int (n : Int64)
  | float (x : Binary64)

/-- The double nearest to a number. -/
def Number.toBinary64 : Number → Binary64
  | int n => .ofInt n.toInt
  | float x => x

/-- The whole number of 64 bits that an integer is, if it is one. -/
def wholeNumber? (n : Int) : Option Int64 :=
  if h : Int64.minValue.toInt ≤ n ∧ n ≤ Int64.maxValue.toInt then
    some (Int64.ofIntLE n h.1 h.2)
  else none

namespace Arithmetic

/-- The exact result on whole numbers, if it is one. Division gives none. -/
def onInts : Arithmetic → Int → Int → Option Int
  | add, a, b => some (a + b)
  | sub, a, b => some (a - b)
  | mul, a, b => some (a * b)
  | div, _, _ => none

/-- The result on doubles. -/
def onDoubles : Arithmetic → Binary64 → Binary64 → Binary64
  | add => .add
  | sub => .sub
  | mul => .mul
  | div => .div

end Arithmetic

namespace Value

/-- The number that a value is, truth values counting as zero and one. -/
def number? : Value → Option Number
  | int n => some (.int n)
  | bool b => some (.int (ofTruth b))
  | float x => some (.float x)
  | _ => Option.none

/-- The sum, difference or product of whole numbers. -/
def applyInts (op : Arithmetic) (a b : Int64) (exact : Int) : Except ValueFault Value :=
  match wholeNumber? exact with
  | some n => .ok (int n)
  | Option.none => .error (.overflow op a b)

/-- The result of an operation on doubles. -/
def applyDoubles (op : Arithmetic) (a b : Binary64) : Except ValueFault Value :=
  if op = .div ∧ b.isZero then .error .zeroDivision else .ok (float (op.onDoubles a b))

/-- The result of an operation on two numbers. -/
def applyNumbers (op : Arithmetic) : Number → Number → Except ValueFault Value
  | .int a, .int b =>
    match op.onInts a.toInt b.toInt with
    | some exact => applyInts op a b exact
    | Option.none => applyDoubles op (Number.int a).toBinary64 (Number.int b).toBinary64
  | a, b => applyDoubles op a.toBinary64 b.toBinary64

/-- The result of an operation on two values. -/
def apply (a : Value) (op : Arithmetic) (b : Value) : Except ValueFault Value :=
  match a.number?, b.number? with
  | some x, some y => applyNumbers op x y
  | _, _ => .error (.operands op a.kind b.kind)

/-- How two numbers compare; whole numbers exactly, others as doubles. -/
def compareNumbers : Number → Number → Option Ordering
  | .int a, .int b => some (Ord.compare a.toInt b.toInt)
  | a, b => a.toBinary64.compare? b.toBinary64

/-- Whether two values that are not both tuples are equal. -/
def equalScalars (a b : Value) : Bool :=
  match a.number?, b.number? with
  | some x, some y => compareNumbers x y == some .eq
  | _, _ => false

mutual

/-- Whether two values are equal: numbers by their value, tuples part by part. -/
def equal : Value → Value → Bool
  | none, none => true
  | tuple as, tuple bs => equalAll as bs
  | a, b => equalScalars a b

/-- Whether two lists of values are equal part by part. -/
def equalAll : List Value → List Value → Bool
  | [], [] => true
  | a :: as, b :: bs => equal a b && equalAll as bs
  | _, _ => false

end

/-- Whether an ordering satisfies an order comparison. -/
def satisfies : CompareOp → Ordering → Bool
  | .less, o => o == .lt
  | .greater, o => o == .gt
  | .lessEqual, o => o != .gt
  | .greaterEqual, o => o != .lt
  | .equal, o => o == .eq
  | .notEqual, o => o != .eq

/-- The order comparison of two values. No order holds for what is no number. -/
def compareOrdered (op : CompareOp) (a b : Value) : Except ValueFault Bool :=
  match a.number?, b.number? with
  | some x, some y => .ok ((compareNumbers x y).any (satisfies op))
  | _, _ => .error (.unordered op a.kind b.kind)

/-- The comparison of two values. -/
def compare (a : Value) (op : CompareOp) (b : Value) : Except ValueFault Value :=
  match op with
  | .equal => .ok (bool (a.equal b))
  | .notEqual => .ok (bool (!a.equal b))
  | op => (compareOrdered op a b).map bool

end Value

end Walkthrough
