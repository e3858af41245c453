import Walkthrough.Run

/-!
# Assignments

A target is a name, or a tuple of names that unpacks a tuple of the same length.
All targets are checked before the value is computed, and all are bound before
the stages are shown.
-/

namespace Walkthrough

/-- The target of an assignment. -/
inductive Target where
  | single (name : String)
  | unpack (names : List String)
  deriving DecidableEq, Repr

/-- The name that a part of a tuple of targets is. -/
def Expr.targetName : Expr → Except Fault String
  | name id _ => .ok id
  | e => .error (.unsupported (.targetPart e.kind) e.location)

/-- The target that an expression is. -/
def Expr.target : Expr → Except Fault Target
  | name id _ => .ok (.single id)
  | tuple items _ => do
    let names ← items.mapM targetName
    return .unpack names
  | e => .error (.unsupported (.target e.kind) e.location)

namespace Target

/-- The bindings of a target for a value, in an assignment at a place. -/
def bindings (location : Location) (value : Value) : Target → Except Fault (List (String × Value))
  | single name => .ok [(name, value)]
  | unpack names =>
    match value with
    | .tuple items =>
      if items.length = names.length then .ok (names.zip items)
      else .error (.unpackCount names.length items.length location)
    | value => .error (.unpackKind value.kind location)

/-- The texts of the parts of a value in one stage. -/
def partTexts (value : Value) : Snapshot → List String
  | .tuple parts => parts
  | .scalar text =>
    match value with
    | .tuple items => Value.texts items
    | _ => [text]

/-- The names of a target, each with what it shows of one stage. -/
def shown (value : Value) (snapshot : Snapshot) : Target → List (String × String)
  | single name => [(name, snapshot.text)]
  | unpack names => names.zip (partTexts value snapshot)

/-- The steps that show the stages of a value at all its targets. -/
def steps (depth : Nat) (targets : List Target) (staged : Staged) : List Step :=
  staged.snapshots.flatMap fun snapshot =>
    targets.flatMap fun target =>
      (target.shown staged.value snapshot).map fun (name, text) => .assigned depth name text

end Target

namespace Walk

/-- Binds some names to values, in order. -/
def bindEach : List (String × Value) → Walk Unit
  | [] => pure ()
  | (name, value) :: others => do
    bind name value
    bindEach others

/-- Binds targets to a value, in order. -/
def bindTargets (location : Location) (value : Value) : List Target → Walk Unit
  | [] => pure ()
  | target :: others => do
    bindEach (← lift (target.bindings location value))
    bindTargets location value others

end Walk

end Walkthrough
