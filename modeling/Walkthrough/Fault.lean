import Walkthrough.Value.Arithmetic

/-!
# Why a run stops

Each cause carries what its message names and the place it was found at.
-/

namespace Walkthrough

/-- A construct that can be read but not run. -/
inductive Construct where
  /-- A part of a tuple of targets that is no name. -/
  | targetPart (kind : String)
  /-- A target of an assignment that is neither a name nor a tuple. -/
  | target (kind : String)
  /-- A loop variable that is no name. -/
  | loopTarget (kind : String)
  /-- Something else than a call to loop over. -/
  | iterable (kind : String)
  /-- Something else than a call on a line of its own. -/
  | statement (kind : String)
  /-- A call inside an expression. -/
  | nestedCall
  /-- A return outside every function. -/
  | outerReturn
  deriving DecidableEq, Repr

/-- How a construct is named. -/
def Construct.text : Construct → String
  | targetPart kind => kind ++ " in assignment target"
  | target kind => kind ++ " assignment target"
  | loopTarget kind => kind ++ " loop target"
  | iterable kind => kind ++ " loop iterable"
  | statement kind => kind ++ " expression statement"
  | nestedCall => "Call"
  | outerReturn => "return outside function"

/-- What is wrong with the arguments of a range. -/
inductive RangeFault where
  /-- Neither one, two nor three arguments. -/
  | count (got : Nat)
  /-- An argument that is a comparison, a tuple or a call. -/
  | shape (kind : String)
  /-- An argument that is no whole number. -/
  | notWhole (kind : Kind)
  /-- A step of zero. -/
  | zeroStep
  deriving DecidableEq, Repr

/-- The wording of a fault in a range. -/
def RangeFault.text : RangeFault → String
  | count got => s!"range expected 1 to 3 arguments, got {got}"
  | shape kind =>
    "range argument must be a name, constant or arithmetic expression, got " ++ kind
  | notWhole kind => "range argument must be an integer, got " ++ kind.name
  | zeroStep => "range() step must not be zero"

/-- A scope that is left without having been entered. -/
inductive Unbalanced where
  /-- The outermost level of nesting was left. -/
  | scope
  /-- A frame was dropped where no function runs. -/
  | frame
  deriving DecidableEq, Repr

/-- The wording for an unbalanced scope. -/
def Unbalanced.message : Unbalanced → String
  | scope => "exit_scope called at depth 0"
  | frame => "pop_frame without a local frame"

/-- Why a run stops. -/
inductive Fault where
  /-- A construct that cannot be run. -/
  | unsupported (construct : Construct) (location : Location)
  /-- An operator that cannot be carried out. -/
  | unsupportedOperator (op : BinaryOp) (location : Location)
  /-- A call of an unknown function. -/
  | unsupportedCall (name : String) (location : Location)
  /-- A name without a value. -/
  | unboundName (name : String) (location : Location)
  /-- Wrong arguments of a range. -/
  | malformedRange (fault : RangeFault) (location : Location)
  /-- Values that cannot be combined. -/
  | value (fault : ValueFault) (location : Location)
  /-- A value that is to be unpacked and is no tuple. -/
  | unpackKind (kind : Kind) (location : Location)
  /-- A tuple of the wrong length that is to be unpacked. -/
  | unpackCount (expected got : Nat) (location : Location)
  /-- A call with the wrong number of arguments. -/
  | argumentCount (function : String) (expected got : Nat) (location : Location)
  /-- More nested calls than allowed. -/
  | callLimit (function : String) (limit : Nat) (location : Location)
  /-- More steps than allowed. -/
  | stepLimit (limit : Nat)
  /-- Scopes that do not balance. No run ends with it. -/
  | unbalanced (what : Unbalanced)
  deriving DecidableEq

namespace Fault

/-- The place of a fault, where it has one. -/
def location? : Fault → Option Location
  | unsupported _ location => some location
  | unsupportedOperator _ location => some location
  | unsupportedCall _ location => some location
  | unboundName _ location => some location
  | malformedRange _ location => some location
  | value _ location => some location
  | unpackKind _ location => some location
  | unpackCount _ _ location => some location
  | argumentCount _ _ _ location => some location
  | callLimit _ _ location => some location
  | stepLimit _ => none
  | unbalanced _ => none

/-- The wording of a fault without its place. -/
def cause : Fault → String
  | unsupported construct _ => "Unsupported " ++ construct.text
  | unsupportedOperator op _ => "Unsupported operator '" ++ op.sign ++ "'"
  | unsupportedCall name _ => "Unsupported call to '" ++ name ++ "'"
  | unboundName name _ => "Name '" ++ name ++ "' is not defined"
  | malformedRange fault _ => "Malformed argument: " ++ fault.text
  | value .zeroDivision _ => "Division by zero"
  | value (.overflow op left right) _ =>
    "Integer overflow in " ++ ValueFault.operation op left right
  | value fault _ => "Type error: " ++ fault.message
  | unpackKind kind _ => "Type error: cannot unpack non-tuple " ++ kind.name
  | unpackCount expected got _ => s!"Cannot unpack {got} values into {expected} targets"
  | argumentCount function expected got _ =>
    s!"{function}() takes {expected} arguments but {got} were given"
  | callLimit function limit _ =>
    s!"Maximum call depth {limit} exceeded calling {function}()"
  | stepLimit limit => s!"Step limit exceeded: trace would exceed {limit} steps"
  | unbalanced what => what.message

/-- The message of a fault. -/
def message (fault : Fault) : String :=
  match fault.location? with
  | some location => fault.cause ++ " at " ++ location.text
  | none => fault.cause

end Fault

end Walkthrough
