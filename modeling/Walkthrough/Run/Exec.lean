import Walkthrough.Run.Assign
import Walkthrough.Run.Loop
import Walkthrough.Stmt.Parser

/-!
# Running statements

Statements run with a given way of calling functions. Calls are then closed off
by the number of calls that may still nest: a call runs the statements of its
function with one call less. So a run ends by this number, then by the structure
of its statements, then by the passes of its loops.
-/

namespace Walkthrough

/-- A way of calling a function with arguments at a place. -/
abbrev Caller := Procedure → List Expr → Location → Walk Value

/-- The stages of an expression, each with its changed characters. -/
def Staged.highlighted (s : Staged) : List (String × Highlight) :=
  s.texts.zip (Highlight.sequence s.texts)

namespace Walk

/-- Prints some expressions, each in its stages. -/
def printAll (id depth : Nat) : List Expr → Walk Unit
  | [] => pure ()
  | e :: others => do
    let staged ← reading fun scopes => e.wholeStages scopes
    emitAll (staged.highlighted.map fun (text, highlight) => .print id depth text highlight)
    printAll id depth others

/-- Calls a function by name. -/
def callNamed (caller : Caller) (function : String) (args : List Expr) (location : Location) :
    Walk Value := do
  if function = "print" then
    printAll (← idAt location) (← depth) args
    return .none
  else
    match (← get).store.function? function with
    | some f => caller f args location
    | none => throw (.unsupportedCall function location)

/-- The stages of the right side of an assignment or of a returned expression. A call is
shown as its value. -/
def stagesOf (caller : Caller) (present : Scopes Value → Expr → Except Fault Staged) :
    Expr → Walk Staged
  | .call function args location => do
    return .resolved (← callNamed caller function args location)
  | e => reading fun scopes => present scopes e

/-- Runs an assignment. -/
def assign (caller : Caller) (targets : List Expr) (value : Expr) (location : Location) :
    Walk Unit := do
  let targets ← lift (targets.mapM Expr.target)
  let staged ← stagesOf caller (fun scopes e => e.stages scopes) value
  bindTargets location staged.value targets
  emitAll (Target.steps (← depth) targets staged)

/-- Runs a definition. -/
def define (f : Procedure) : Walk Unit := do
  let id ← idAt f.location
  modify fun run => { run with store := run.store.define f }
  emit (.define id (← depth) f.name f.signature)

/-- Runs a return. -/
def giveBack (caller : Caller) (value : Option Expr) (location : Location) : Walk Value := do
  if (← get).store.inFunction then
    let staged ←
      match value with
      | none => pure (Staged.resolved .none)
      | some e => stagesOf caller (fun scopes e => e.wholeStages scopes) e
    let id ← idAt location
    let depth ← depth
    emitAll (staged.highlighted.map fun (text, highlight) => .giveBack id depth text highlight)
    return staged.value
  else throw (.unsupported .outerReturn location)

/-- Runs an expression on its own, which has to be a call. -/
def callStatement (caller : Caller) : Expr → Walk Unit
  | .call function args location => discard (callNamed caller function args location)
  | e => throw (.unsupported (.statement e.kind) e.location)

/-- Tests the condition of a branch. -/
def test (kind : BranchKind) (condition : Expr) (location : Location) : Walk Bool := do
  let id ← idAt location
  let staged ← reading fun scopes => condition.wholeStages scopes
  let depth ← depth
  emitAll (staged.highlighted.map fun (text, highlight) => .branch id depth kind text highlight)
  return staged.value.isTrue

/-- Enters the alternative of a choice. -/
def enterAlternative (location : Location) : Walk Unit := do
  let id ← idAt location
  emit (.branch id (← depth) .otherwise "" [])

/-- Runs a function with a way of running its statements. -/
def invoke (runBody : List Stmt → Walk Flow) (f : Procedure) (args : List Expr)
    (location : Location) : Walk Value := do
  let values ← reading fun scopes => Expr.evalAll scopes args
  let id ← idAt location
  let depth ← depth
  let shown := (f.params.zip values).map fun (name, value) => ⟨name, value.text⟩
  emit (.call id depth f.name f.signature shown)
  let flow ← framed (.ofList (f.params.zip values)) location (nested (runBody f.body))
  emit (.endCall id depth f.name flow.value.text)
  return flow.value

end Walk

/-- Whether a function is called with the right number of arguments. -/
def Procedure.checkCount (f : Procedure) (args : List Expr) (location : Location) :
    Except Fault Unit :=
  if args.length = f.params.length then .ok ()
  else .error (.argumentCount f.name f.params.length args.length location)

namespace Stmt

open Walk

mutual

/-- Runs a statement. -/
def exec (caller : Caller) : Stmt → Walk Flow
  | .assign targets value location => do
    moveTo location
    Walk.assign caller targets value location
    return .normal
  | .loop target iterable body location => do
    moveTo location
    let name ← lift target.loopName
    let counter ← reading fun scopes => Expr.counter scopes name iterable
    let id ← idAt location
    passes id (nested (execAll caller body)) counter
  | .choose branches alternative location => do
    moveTo location
    execBranches caller .first (execAlternative caller alternative) branches
  | .define name params body location => do
    moveTo location
    Walk.define ⟨name, params, body, location⟩
    return .normal
  | .giveBack value location => do
    moveTo location
    return .returned (← Walk.giveBack caller value location)
  | .expression value location => do
    moveTo location
    callStatement caller value
    return .normal

/-- Runs statements in order up to a return. -/
def execAll (caller : Caller) : List Stmt → Walk Flow
  | [] => return .normal
  | statement :: others => do
    match ← exec caller statement with
    | .returned value => return .returned value
    | .normal => execAll caller others

/-- Runs the first branch whose condition holds, or else the alternative. -/
def execBranches (caller : Caller) (kind : BranchKind) (alternative : Walk Flow) :
    List Branch → Walk Flow
  | [] => alternative
  | .mk condition body location :: others => do
    if ← test kind condition location then nested (execAll caller body)
    else execBranches caller .further alternative others

/-- Runs the alternative of a choice, if there is one. -/
def execAlternative (caller : Caller) : Option Otherwise → Walk Flow
  | none => return .normal
  | some (.mk body location) => do
    enterAlternative location
    nested (execAll caller body)

end

end Stmt

namespace Walk

/-- Calls a function where so many calls may still nest. -/
def callWithin : Nat → Caller
  | 0, f, args, location => do
    lift (f.checkCount args location)
    throw (.callLimit f.name (← get).callLimit location)
  | calls + 1, f, args, location => do
    lift (f.checkCount args location)
    invoke (Stmt.execAll (callWithin calls)) f args location

end Walk

namespace Program

/-- Runs a program from the start. -/
def run (program : Program) (limits : Limits) : EStateM.Result Fault Run Flow :=
  Stmt.execAll (Walk.callWithin limits.calls) program (Run.start limits)

/-- The trace of a program, or the fault that stops it. -/
def trace (program : Program) (limits : Limits) : Except Fault Trace :=
  match program.run limits with
  | .ok _ run => .ok run.trace
  | .error fault _ => .error fault

end Program

/-- Why a source text has no trace. -/
inductive Failure where
  /-- It is no program. -/
  | unreadable (error : SyntaxError)
  /-- Its run stops. -/
  | stopped (fault : Fault)

/-- The message of a failure. -/
def Failure.message : Failure → String
  | unreadable error => error.report
  | stopped fault => fault.message

/-- The trace of a source text. -/
def traceText (text : String) (limits : Limits) : Except Failure Trace := do
  let program ← (Program.parse text).mapError .unreadable
  (program.trace limits).mapError .stopped

end Walkthrough
