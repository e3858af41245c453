import Walkthrough.Expr.Stages
import Walkthrough.Trace

/-!
# The state of a run

A run keeps its memory, its log and the place of the current statement. Its
actions may stop with a fault; what they did before then stays done, so a scope
that was entered is left again in either case.
-/

namespace Walkthrough

/-- How long and how deep a run may get. -/
structure Limits where
  /-- The largest number of steps. -/
  steps : Nat := 100000
  /-- The largest number of calls inside each other. -/
  calls : Nat := 64
  deriving DecidableEq, Repr

/-- The state of a run. -/
structure Run where
  /-- The largest number of calls inside each other. -/
  callLimit : Nat
  /-- The memory. -/
  store : Store
  /-- The log. -/
  trace : Trace
  /-- The place of the current statement. -/
  here : Location

/-- The state at the start of a run. -/
def Run.start (limits : Limits) : Run := ⟨limits.calls, .empty, .empty limits.steps, .origin⟩

/-- An action of a run. -/
abbrev Walk := EStateM Fault Run

/-- How a list of statements ended. -/
inductive Flow where
  /-- At its end. -/
  | normal
  /-- With a return of a value. -/
  | returned (value : Value)

/-- The value of a function whose body ended so. -/
def Flow.value : Flow → Value
  | normal => .none
  | returned value => value

namespace Walk

/-- The action that has this result and changes nothing. -/
def lift {α : Type} (result : Except Fault α) : Walk α := fun run =>
  match result with
  | .ok a => .ok a run
  | .error fault => .error fault run

/-- The action that computes a result from the bindings and changes nothing. -/
def reading {α : Type} (f : Scopes Value → Except Fault α) : Walk α := fun run =>
  lift (f run.store.scopes) run

/-- The nesting of the current statement. -/
def depth : Walk Nat := fun run => .ok run.store.depth run

/-- Makes a place the current one. -/
def moveTo (location : Location) : Walk Unit := fun run => .ok () { run with here := location }

/-- Binds a name to a value. -/
def bind (name : String) (value : Value) : Walk Unit := fun run =>
  .ok () { run with store := run.store.set name value }

/-- Records a step at the current place, unless the log is full. -/
def emit (step : Step) : Walk Unit := fun { callLimit, store, trace, here } =>
  -- The run is taken apart so that only `push` holds the log, which then grows in place.
  match trace.push step here with
  | .ok _ trace => .ok () { callLimit, store, trace, here }
  | .error fault trace => .error fault { callLimit, store, trace, here }

/-- Records some steps at the current place. -/
def emitAll : List Step → Walk Unit
  | [] => pure ()
  | step :: others => do
    emit step
    emitAll others

/-- The id of a place. The log remembers which place it is. -/
def idAt (location : Location) : Walk Nat := fun run =>
  let (id, store) := run.store.idAt location
  .ok id { run with store, trace := run.trace.record id location }

/-- Leaves a scope of the memory, and then does something more. Where the scope cannot be left
nothing more is done, and the memory is as it was when that was found out. -/
def leaving (leave : Store → EStateM.Result Unbalanced Store Unit) (more : Run → Run)
    (run : Run) : EStateM.Result Unbalanced Run Unit :=
  match leave run.store with
  | .ok _ store => .ok () (more { run with store })
  | .error what store => .error what { run with store }

/-- An action between entering and leaving a scope, which is left even if the action
stops with a fault. -/
def within {α : Type} (enter : Run → Run) (leave : Run → EStateM.Result Unbalanced Run Unit)
    (body : Walk α) : Walk α := fun run =>
  match body (enter run) with
  | .ok a after =>
    match leave after with
    | .ok _ left => .ok a left
    | .error what stopped => .error (.unbalanced what) stopped
  | .error fault after =>
    match leave after with
    | .ok _ left => .error fault left
    | .error what stopped => .error (.unbalanced what) stopped

/-- An action one level deeper. -/
def nested {α : Type} (body : Walk α) : Walk α :=
  within (fun run => { run with store := run.store.enterScope }) (leaving Store.exitScope id) body

/-- An action inside a function called at a place, with its local bindings. Afterwards
the place of the call is the current one. -/
def framed {α : Type} (locals : SortedMap String Value) (location : Location)
    (body : Walk α) : Walk α :=
  within (fun run => { run with store := run.store.pushFrame locals })
    (leaving Store.popFrame fun run => { run with here := location }) body

end Walk

end Walkthrough
