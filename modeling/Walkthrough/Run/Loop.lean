import Walkthrough.Run

/-!
# Loops

A loop runs through a range of whole numbers. Its bounds are computed once; in
each pass the loop variable is bound, the pass is recorded and the body runs one
level deeper.
-/

namespace Walkthrough

namespace Expr

/-- The loop variable that an expression is. -/
def loopName : Expr → Except Fault String
  | name id _ => .ok id
  | e => .error (.unsupported (.loopTarget e.kind) e.location)

/-- Whether an expression may be an argument of a range. -/
def isRangeArgument : Expr → Bool
  | name .. => true
  | literal .. => true
  | binary .. => true
  | _ => false

/-- The whole number that an argument of a range amounts to. -/
def rangeArgument (scopes : Scopes Value) (e : Expr) : Except Fault Int64 := do
  if e.isRangeArgument then
    let value ← e.eval scopes
    match value.asInt? with
    | some n => return n
    | none => .error (.malformedRange (.notWhole value.kind) e.location)
  else .error (.malformedRange (.shape e.kind) e.location)

/-- The counter of a loop over an expression, which has to be a call of `range` with a
stop, a start and a stop, or a start, a stop and a step. -/
def counter (scopes : Scopes Value) (target : String) (iterable : Expr) :
    Except Fault Counter := do
  match iterable with
  | call function args location =>
    if function ≠ "range" then .error (.unsupportedCall function location)
    else if args.length < 1 ∨ 3 < args.length then
      .error (.malformedRange (.count args.length) location)
    else
      match ← args.mapM (rangeArgument scopes) with
      | [stop] => return .init target 0 stop 1
      | [start, stop] => return .init target start stop 1
      | [start, stop, step] =>
        if step = 0 then .error (.malformedRange .zeroStep location)
        else return .init target start stop step
      | _ => .error (.malformedRange (.count args.length) location)
  | e => .error (.unsupported (.iterable e.kind) e.location)

end Expr

namespace Walk

/-- Starts a pass: binds the loop variable and records the pass. -/
def startPass (id : Nat) (counter : Counter) : Walk Unit := do
  bind counter.target (.int counter.current)
  emit (.pass id (← depth) counter counter.changed)

/-- The passes of a loop from a state of its counter on. A return ends the loop. -/
def passes (id : Nat) (body : Walk Flow) (counter : Counter) : Walk Flow := do
  if h : counter.inRange then
    startPass id counter
    match ← body with
    | .returned value => return .returned value
    | .normal =>
      have := Counter.distance_next_lt h
      passes id body counter.next
  else return .normal
termination_by counter.distance

end Walk

end Walkthrough
