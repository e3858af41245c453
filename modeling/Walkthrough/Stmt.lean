import Walkthrough.Expr

/-!
# Statements

A program is a list of statements. Each statement stands at its first token, a
branch of a condition at its keyword.
-/

namespace Walkthrough

mutual

/-- A statement. -/
inductive Stmt where
  /-- One value for one or more targets. -/
  | assign (targets : List Expr) (value : Expr) (location : Location)
  /-- A loop over a range. -/
  | loop (target iterable : Expr) (body : List Stmt) (location : Location)
  /-- The first branch whose condition holds, or else the alternative. -/
  | choose (branches : List Branch) (alternative : Option Otherwise) (location : Location)
  /-- The definition of a function. -/
  | define (name : String) (params : List String) (body : List Stmt) (location : Location)
  /-- The end of a function, with or without a value. -/
  | giveBack (value : Option Expr) (location : Location)
  /-- An expression on its own. -/
  | expression (value : Expr) (location : Location)

/-- A branch with its condition. -/
inductive Branch where
  | mk (condition : Expr) (body : List Stmt) (location : Location)

/-- What is done if no condition holds. -/
inductive Otherwise where
  | mk (body : List Stmt) (location : Location)

end

/-- A program. -/
abbrev Program := List Stmt

/-- The place of a statement. -/
def Stmt.location : Stmt → Location
  | assign _ _ location => location
  | loop _ _ _ location => location
  | choose _ _ location => location
  | define _ _ _ location => location
  | giveBack _ location => location
  | expression _ location => location

end Walkthrough
