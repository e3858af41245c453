import Walkthrough.Proofs.Maps
import Walkthrough.Run.Exec

/-!
# Running a program without a log

The plain meaning of a program: its expressions are evaluated, and nothing is shown,
numbered or recorded. What is left of a run are the bindings, the functions and the values
that were printed. Calls are closed off by the number of calls that may still nest, as in a
run with a log.
-/

namespace Walkthrough

/-- An argument of a print that was carried out, with its value. -/
structure Printed where
  /-- The expression to be printed. -/
  argument : Expr
  /-- Its value. -/
  value : Value

/-- What a program works on when nothing is recorded. -/
structure Memory where
  /-- The bindings. -/
  scopes : Scopes Value
  /-- The functions by name. -/
  functions : SortedMap String Procedure
  /-- What was printed, in order. -/
  printed : List Printed

namespace Memory

/-- The memory at the start of a program. -/
def empty : Memory := ⟨.empty, .empty, []⟩

/-- The memory with values for some names, bound in order. -/
def boundAll (memory : Memory) (bindings : List (String × Value)) : Memory :=
  { memory with scopes := memory.scopes.bindAll bindings }

/-- The memory inside a function with these local bindings. -/
def pushed (memory : Memory) (locals : SortedMap String Value) : Memory :=
  { memory with scopes := memory.scopes.push locals }

/-- The memory after the innermost function. -/
def popped (memory : Memory) : Memory := { memory with scopes := memory.scopes.pop }

/-- The memory with one more function. -/
def defined (memory : Memory) (f : Procedure) : Memory :=
  { memory with functions := memory.functions.insert f.name f }

/-- The memory with one more value printed. -/
def noted (memory : Memory) (printed : Printed) : Memory :=
  { memory with printed := memory.printed ++ [printed] }

end Memory

/-- An action without a log. -/
abbrev Plain := StateT Memory (Except Fault)

namespace Plain

/-- A way of calling a function with arguments at a place. -/
abbrev Caller := Procedure → List Expr → Location → Plain Value

/-- The action that has this result and changes nothing. -/
def lift {α : Type} (result : Except Fault α) : Plain α := fun memory =>
  result.map fun a => (a, memory)

/-- The action that computes a result from the bindings and changes nothing. -/
def reading {α : Type} (f : Scopes Value → Except Fault α) : Plain α := fun memory =>
  lift (f memory.scopes) memory

/-- Binds targets to a value, in order. -/
def bindTargets (location : Location) (value : Value) : List Target → Plain Unit
  | [] => pure ()
  | target :: others => do
    let bindings ← lift (target.bindings location value)
    modify (·.boundAll bindings)
    bindTargets location value others

/-- Prints some expressions. -/
def printAll : List Expr → Plain Unit
  | [] => pure ()
  | e :: others => do
    let value ← reading fun scopes => e.eval scopes
    modify (·.noted ⟨e, value⟩)
    printAll others

/-- Calls a function by name. -/
def callNamed (caller : Caller) (function : String) (args : List Expr) (location : Location) :
    Plain Value := do
  if function = "print" then
    printAll args
    return .none
  else
    match (← get).functions.find? function with
    | some f => caller f args location
    | none => throw (.unsupportedCall function location)

/-- A call by a name other than `print` calls the function of that name. -/
theorem callNamed_user {caller : Caller} {function : String} {args : List Expr}
    {location : Location} (h : function ≠ "print") :
    callNamed caller function args location = (get >>= fun memory =>
      (memory.functions.find? function).elim (throw (.unsupportedCall function location))
        fun f => caller f args location) := by
  unfold callNamed
  rw [if_neg h]
  refine congrArg (get >>= ·) (funext fun memory => ?_)
  cases memory.functions.find? function <;> rfl

/-- The right side of an assignment or a returned expression, which may be a call. -/
def valueOf (caller : Caller) : Expr → Plain Value
  | .call function args location => callNamed caller function args location
  | e => reading fun scopes => e.eval scopes

/-- Runs an assignment. -/
def assign (caller : Caller) (targets : List Expr) (value : Expr) (location : Location) :
    Plain Unit := do
  let targets ← lift (targets.mapM Expr.target)
  let value ← valueOf caller value
  bindTargets location value targets

/-- Runs a return. -/
def giveBack (caller : Caller) (value : Option Expr) (location : Location) : Plain Value := do
  if (← get).scopes.frames.isEmpty then throw (.unsupported .outerReturn location)
  else
    match value with
    | none => return .none
    | some e => valueOf caller e

/-- Runs an expression on its own, which has to be a call. -/
def callStatement (caller : Caller) : Expr → Plain Unit
  | .call function args location => discard (callNamed caller function args location)
  | e => throw (.unsupported (.statement e.kind) e.location)

/-- Tests a condition. -/
def test (condition : Expr) : Plain Bool := do
  let value ← reading fun scopes => condition.eval scopes
  return value.isTrue

/-- The passes of a loop from a state of its counter on. A return ends the loop. -/
def passes (body : Plain Flow) (counter : Counter) : Plain Flow := do
  if h : counter.inRange then
    modify (·.boundAll [(counter.target, .int counter.current)])
    match ← body with
    | .returned value => return .returned value
    | .normal =>
      have := Counter.distance_next_lt h
      passes body counter.next
  else return .normal
termination_by counter.distance

/-- An action inside a function with its local bindings. -/
def framed {α : Type} (locals : SortedMap String Value) (body : Plain α) : Plain α := do
  modify (·.pushed locals)
  let a ← body
  modify Memory.popped
  return a

/-- Runs a function with a way of running its statements. -/
def invoke (runBody : List Stmt → Plain Flow) (f : Procedure) (args : List Expr) :
    Plain Value := do
  let values ← reading fun scopes => Expr.evalAll scopes args
  let flow ← framed (.ofList (f.params.zip values)) (runBody f.body)
  return flow.value

mutual

/-- Runs a statement. -/
def exec (caller : Caller) : Stmt → Plain Flow
  | .assign targets value location => do
    assign caller targets value location
    return .normal
  | .loop target iterable body _ => do
    let name ← lift target.loopName
    let counter ← reading fun scopes => Expr.counter scopes name iterable
    passes (execAll caller body) counter
  | .choose branches alternative _ =>
    execBranches caller (execAlternative caller alternative) branches
  | .define name params body location => do
    modify (·.defined ⟨name, params, body, location⟩)
    return .normal
  | .giveBack value location => return .returned (← giveBack caller value location)
  | .expression value _ => do
    callStatement caller value
    return .normal

/-- Runs statements in order up to a return. -/
def execAll (caller : Caller) : List Stmt → Plain Flow
  | [] => return .normal
  | statement :: others => do
    match ← exec caller statement with
    | .returned value => return .returned value
    | .normal => execAll caller others

/-- Runs the first branch whose condition holds, or else the alternative. -/
def execBranches (caller : Caller) (alternative : Plain Flow) : List Branch → Plain Flow
  | [] => alternative
  | .mk condition body _ :: others => do
    if ← test condition then execAll caller body
    else execBranches caller alternative others

/-- Runs the alternative of a choice, if there is one. -/
def execAlternative (caller : Caller) : Option Otherwise → Plain Flow
  | none => return .normal
  | some (.mk body _) => execAll caller body

end

/-- Calls a function where so many calls may still nest, out of a number of calls that is
allowed. -/
def callWithin (limit : Nat) : Nat → Caller
  | 0, f, args, location => do
    lift (f.checkCount args location)
    throw (.callLimit f.name limit location)
  | calls + 1, f, args, location => do
    lift (f.checkCount args location)
    invoke (execAll (callWithin limit calls)) f args

end Plain

/-- What a program leaves behind when nothing is recorded, or the fault that stops it. -/
def Program.perform (program : Program) (calls : Nat) : Except Fault Memory :=
  (Plain.execAll (Plain.callWithin calls calls) program .empty).map Prod.snd

end Walkthrough
