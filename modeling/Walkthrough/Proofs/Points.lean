import Walkthrough.Proofs.Actions

/-!
# The points of a run

A run comes to a statement when the statements before it have ended, when a loop, a
branch or a call that it has come to starts the statements inside it, or at the very
start. Each way of starting statements is one rule below, with the state in which they
start, so that the points of a run are those of its execution, in a run that ends with
a fault as well as in one that succeeds. The constructs of a statement that emit steps, with
their places, are told apart at the end.
-/

namespace Walkthrough

open Walk

/-- From a state of its counter on, a loop comes to a pass, whose body starts in a state. -/
inductive Walk.PassStarts (id : Nat) (body : Walk Flow) : Counter → Run → Run → Prop
  /-- The next pass starts. -/
  | next {counter : Counter} {r s : Run} (range : counter.inRange = true)
      (start : startPass id counter r = .ok () s) : PassStarts id body counter r s
  /-- The next pass runs to its end, and a pass after it starts. -/
  | later {counter : Counter} {r s t u : Run} (range : counter.inRange = true)
      (start : startPass id counter r = .ok () s) (ended : body s = .ok .normal t)
      (pass : PassStarts id body counter.next t u) : PassStarts id body counter r u

/-- Some branches with an alternative come to statements, which start in a state. -/
inductive Branch.Starts (alternative : Option Otherwise) :
    BranchKind → List Branch → Run → List Stmt → Run → Prop
  /-- The condition of the first branch holds. -/
  | first {kind : BranchKind} {condition : Expr} {body : List Stmt} {location : Location}
      {others : List Branch} {r s : Run} (passed : test kind condition location r = .ok true s) :
      Starts alternative kind (.mk condition body location :: others) r body s
  /-- The condition of the first branch does not hold. -/
  | further {kind : BranchKind} {condition : Expr} {body body' : List Stmt} {location : Location}
      {others : List Branch} {r s t : Run} (failed : test kind condition location r = .ok false s)
      (branch : Starts alternative .further others s body' t) :
      Starts alternative kind (.mk condition body location :: others) r body' t
  /-- No condition holds, and there is an alternative. -/
  | otherwise {kind : BranchKind} {body : List Stmt} {location : Location} {r s : Run}
      (given : alternative = some (.mk body location))
      (entered : enterAlternative location r = .ok () s) : Starts alternative kind [] r body s

/-- Where so many calls may nest, a call starts the statements of its function with one
call less. -/
inductive Expr.Starts : Nat → Expr → Run → Nat → List Stmt → Run → Prop
  /-- The function is known, has a value for each parameter, and the call is recorded. -/
  | call {calls : Nat} {function : String} {args : List Expr} {location : Location} {r : Run}
      {f : Procedure} {values : List Value} (user : function ≠ "print")
      (known : r.store.function? function = some f) (count : args.length = f.params.length)
      (evaluated : Expr.evalAll r.store.scopes args = .ok values)
      (room : r.trace.isFull = false) :
      Starts (calls + 1) (.call function args location) r calls f.body (r.inside f values location)

namespace Stmt

/-- A statement starts the statements of a function it calls, of a pass or of a branch. -/
inductive Starts : Nat → Stmt → Run → Nat → List Stmt → Run → Prop
  /-- An assignment calls a function for its value. -/
  | assign {calls fewer : Nat} {targets : List Expr} {names : List Target} {value : Expr}
      {location : Location} {body : List Stmt} {r s : Run}
      (checked : targets.mapM Expr.target = .ok names)
      (call : value.Starts calls (r.movedTo location) fewer body s) :
      Starts calls (.assign targets value location) r fewer body s
  /-- A return calls a function for its value. -/
  | giveBack {calls fewer : Nat} {value : Expr} {location : Location} {body : List Stmt}
      {r s : Run} (inside : r.store.inFunction = true)
      (call : value.Starts calls (r.movedTo location) fewer body s) :
      Starts calls (.giveBack (some value) location) r fewer body s
  /-- A statement is a call. -/
  | expression {calls fewer : Nat} {value : Expr} {location : Location} {body : List Stmt}
      {r s : Run} (call : value.Starts calls (r.movedTo location) fewer body s) :
      Starts calls (.expression value location) r fewer body s
  /-- A loop comes to a pass. -/
  | loop {calls : Nat} {target iterable : Expr} {body : List Stmt} {location : Location}
      {name : String} {counter : Counter} {r s : Run} (named : target.loopName = .ok name)
      (counted : Expr.counter r.store.scopes name iterable = .ok counter)
      (pass : PassStarts (r.store.idAt location).1
        (nested (execAll (callWithin calls) body)) counter
        ((r.movedTo location).identified location) s) :
      Starts calls (.loop target iterable body location) r calls body s.entered
  /-- A choice comes to a branch. -/
  | choose {calls : Nat} {branches : List Branch} {alternative : Option Otherwise}
      {location : Location} {body : List Stmt} {r s : Run}
      (branch : Branch.Starts alternative .first branches (r.movedTo location) body s) :
      Starts calls (.choose branches alternative location) r calls body s.entered

/-- Some statements that run from a state come to a statement, which starts in a state. -/
inductive Reaches : Nat → List Stmt → Run → Nat → Stmt → Run → Prop
  /-- The first statement starts at once. -/
  | first {calls : Nat} {statement : Stmt} {others : List Stmt} {r : Run} :
      Reaches calls (statement :: others) r calls statement r
  /-- The first statement has ended. -/
  | next {calls fewer : Nat} {statement reached : Stmt} {others : List Stmt} {r s t : Run}
      (ended : exec (callWithin calls) statement r = .ok .normal s)
      (rest : Reaches calls others s fewer reached t) :
      Reaches calls (statement :: others) r fewer reached t
  /-- The first statement has started the statements inside it. -/
  | inner {calls fewer least : Nat} {statement reached : Stmt} {others body : List Stmt}
      {r s t : Run} (starts : Starts calls statement r fewer body s)
      (rest : Reaches fewer body s least reached t) :
      Reaches calls (statement :: others) r least reached t

end Stmt

/-- Some branches with an alternative emit the step of an index: the one at a place, of a
kind, is tested or entered when the step is recorded. -/
inductive Branch.Emits (alternative : Option Otherwise) (index : Nat) :
    BranchKind → List Branch → Run → BranchKind → Location → Prop
  /-- The test of the first branch records the step. -/
  | first {kind : BranchKind} {condition : Expr} {body : List Stmt} {location : Location}
      {others : List Branch} {passed : Bool} {r s : Run}
      (tested : test kind condition location r = .ok passed s) (new : r.trace.length ≤ index)
      (done : index < s.trace.length) :
      Emits alternative index kind (.mk condition body location :: others) r kind location
  /-- The condition of the first branch does not hold, and a branch after it emits the step. -/
  | further {kind found : BranchKind} {condition : Expr} {body : List Stmt}
      {location place : Location} {others : List Branch} {r s : Run}
      (failed : test kind condition location r = .ok false s)
      (branch : Emits alternative index .further others s found place) :
      Emits alternative index kind (.mk condition body location :: others) r found place
  /-- No condition holds, and the alternative is entered with the step. -/
  | otherwise {kind : BranchKind} {body : List Stmt} {location : Location} {r s : Run}
      (given : alternative = some (.mk body location))
      (entered : enterAlternative location r = .ok () s) (new : r.trace.length ≤ index)
      (done : index < s.trace.length) :
      Emits alternative index kind [] r .otherwise location

/-- A call emits what it prints, or its start and its end. -/
inductive Expr.Emits : Expr → Step → Location → Prop
  | print {args : List Expr} {location : Location} {id depth : Nat} {text : String}
      {highlight : Highlight} :
      Emits (.call "print" args location) (.print id depth text highlight) location
  | call {function : String} {args : List Expr} {location : Location} {id depth : Nat}
      {name signature : String} {given : List Argument} (user : function ≠ "print") :
      Emits (.call function args location) (.call id depth name signature given) location
  | endCall {function : String} {args : List Expr} {location : Location} {id depth : Nat}
      {name value : String} (user : function ≠ "print") :
      Emits (.call function args location) (.endCall id depth name value) location

/-- The expression whose value a statement needs, which may be a call. -/
def Stmt.value? : Stmt → Option Expr
  | .assign _ value _ => some value
  | .giveBack value _ => value
  | .expression value _ => some value
  | _ => none

/-- A statement that starts in a state emits the step of an index from a construct at a place:
a loop, a branch, a call, a return or a definition. -/
inductive Stmt.Emits (before : Run) (index : Nat) : Stmt → Step → Location → Prop
  | value {statement : Stmt} {e : Expr} {step : Step} {location : Location}
      (needed : statement.value? = some e) (emits : e.Emits step location) :
      Emits before index statement step location
  | pass {target iterable : Expr} {body : List Stmt} {location : Location} {id depth : Nat}
      {counter : Counter} {highlight : List CounterField} :
      Emits before index (.loop target iterable body location) (.pass id depth counter highlight)
        location
  | branch {branches : List Branch} {alternative : Option Otherwise} {location place : Location}
      {id depth : Nat} {kind : BranchKind} {text : String} {highlight : Highlight}
      (emits : Branch.Emits alternative index .first branches (before.movedTo location) kind
        place) :
      Emits before index (.choose branches alternative location)
        (.branch id depth kind text highlight) place
  | giveBack {value : Option Expr} {location : Location} {id depth : Nat} {text : String}
      {highlight : Highlight} :
      Emits before index (.giveBack value location) (.giveBack id depth text highlight) location
  | define {name : String} {params : List String} {body : List Stmt} {location : Location}
      {id depth : Nat} {signature : String} :
      Emits before index (.define name params body location) (.define id depth name signature)
        location

/-- The run of a program comes to a statement, which starts in a state, with so many calls
that may still nest. -/
def Program.Reaches (program : Program) (limits : Limits) (calls : Nat) (statement : Stmt)
    (before : Run) : Prop :=
  Stmt.Reaches limits.calls program (Run.start limits) calls statement before

/-- The run of a program comes to a statement, which then ends without a fault. -/
def Program.Completes (program : Program) (limits : Limits) (statement : Stmt) (before : Run)
    (flow : Flow) (after : Run) : Prop :=
  ∃ calls, program.Reaches limits calls statement before ∧
    Stmt.exec (callWithin calls) statement before = .ok flow after

end Walkthrough
