import Walkthrough.Fault
import Walkthrough.Scopes
import Walkthrough.Stmt

/-!
# The memory of a run

Besides the bindings a run remembers how deeply the current statement is nested,
which places have been given an id, and the functions defined so far. Ids count
from one in the order in which places are first seen.
-/

namespace Walkthrough

/-- A function defined by the program. -/
structure Procedure where
  /-- The name it is called by. -/
  name : String
  /-- The names of its parameters. -/
  params : List String
  /-- Its statements. -/
  body : List Stmt
  /-- The place of its definition. -/
  location : Location

/-- The name of a function with its parameters. -/
def Procedure.signature (f : Procedure) : String :=
  f.name ++ "(" ++ Text.commaSeparated f.params ++ ")"

/-- The value of a name used at a place. -/
def Scopes.get (s : Scopes Value) (name : String) (location : Location) : Except Fault Value :=
  match s.find? name with
  | some value => .ok value
  | none => .error (.unboundName name location)

/-- The memory of a run. -/
structure Store where
  /-- The bindings. -/
  scopes : Scopes Value
  /-- How deeply the current statement is nested. -/
  depth : Nat
  /-- The places with an id, the first one's id being one. -/
  places : List Location
  /-- The functions by name. -/
  functions : SortedMap String Procedure

namespace Store

/-- The memory at the start of a run. -/
def empty : Store := ⟨.empty, 0, [], .empty⟩

instance : Inhabited Store := ⟨empty⟩

/-- The value of a name used at a place. -/
def get (s : Store) (name : String) (location : Location) : Except Fault Value :=
  s.scopes.get name location

/-- The store with a value for a name. -/
def set (s : Store) (name : String) (value : Value) : Store :=
  { s with scopes := s.scopes.bind name value }

/-- The store one level deeper. -/
def enterScope (s : Store) : Store := { s with depth := s.depth + 1 }

/-- Leaves a level of nesting. The outermost one cannot be left, which is found out before
anything is done. -/
def exitScope (s : Store) : EStateM.Result Unbalanced Store Unit :=
  if s.depth = 0 then .error .scope s else .ok () { s with depth := s.depth - 1 }

/-- The store inside a function with these local bindings. -/
def pushFrame (s : Store) (locals : SortedMap String Value) : Store :=
  { s with scopes := s.scopes.push locals }

/-- Leaves the innermost function. Its frame is dropped first, and then it is found out whether
there was one. -/
def popFrame (s : Store) : EStateM.Result Unbalanced Store Unit :=
  let popped : Store := { s with scopes := s.scopes.pop }
  if s.scopes.frames = [] then .error .frame popped else .ok () popped

/-- The number of running functions. -/
def callDepth (s : Store) : Nat := s.scopes.frames.length

/-- Whether a function is running. -/
def inFunction (s : Store) : Bool := !s.scopes.frames.isEmpty

/-- The id of a place and the store that remembers it. -/
def idAt (s : Store) (location : Location) : Nat × Store :=
  match s.places.idxOf? location with
  | some index => (index + 1, s)
  | none => (s.places.length + 1, { s with places := s.places ++ [location] })

/-- The store with a function, which replaces one of the same name. -/
def define (s : Store) (f : Procedure) : Store :=
  { s with functions := s.functions.insert f.name f }

/-- The function of a name. -/
def function? (s : Store) (name : String) : Option Procedure := s.functions.find? name

/-- The bindings seen from the innermost function, by name. -/
def visible (s : Store) : List (String × Value) := s.scopes.visible.entries

end Store

end Walkthrough
