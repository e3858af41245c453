import Walkthrough.Store

/-!
# The value of an expression

Operands are evaluated from left to right before they are combined; an operator
that cannot be carried out is refused before its operands are looked at. Calls
are not evaluated inside expressions.
-/

namespace Walkthrough

/-- A fault of two values, found at a place. -/
def Fault.ofValue {α : Type} (location : Location) (result : Except ValueFault α) :
    Except Fault α :=
  result.mapError (Fault.value · location)

namespace Expr

mutual

/-- The value of an expression under some bindings. -/
def eval (scopes : Scopes Value) : Expr → Except Fault Value
  | literal value _ => .ok value.value
  | name id location => scopes.get id location
  | binary op left right location =>
    match op.arithmetic? with
    | none => .error (.unsupportedOperator op location)
    | some operation => do
      let a ← eval scopes left
      let b ← eval scopes right
      Fault.ofValue location (a.apply operation b)
  | compare op left right location => do
    let a ← eval scopes left
    let b ← eval scopes right
    Fault.ofValue location (a.compare op b)
  | tuple items _ => do
    let values ← evalAll scopes items
    return .tuple values
  | call _ _ location => .error (.unsupported .nestedCall location)

/-- The values of some expressions. -/
def evalAll (scopes : Scopes Value) : List Expr → Except Fault (List Value)
  | [] => .ok []
  | item :: others => do
    let value ← eval scopes item
    let values ← evalAll scopes others
    return value :: values

end

end Expr

end Walkthrough
