import Walkthrough.Expr
import Walkthrough.Number.Layout
import Walkthrough.Text.Tuple

/-!
# Values

What an expression may amount to: whole numbers of 64 bits, doubles, truth values,
nothing, and tuples. Each value has one text.
-/

namespace Walkthrough

/-- A value of the running program. -/
inductive Value where
  /-- A whole number. -/
  | int (n : Int64)
  /-- A double. -/
  | float (x : Binary64)
  /-- A truth value. -/
  | bool (b : Bool)
  /-- The absence of a value. -/
  | none
  /-- A tuple of values. -/
  | tuple (items : List Value)

/-- The kinds of values. -/
inductive Kind where
  | int
  | float
  | bool
  | none
  | tuple
  deriving DecidableEq, Repr

/-- The name of a kind of values. -/
def Kind.name : Kind → String
  | int => "int"
  | float => "float"
  | bool => "bool"
  | none => "NoneType"
  | tuple => "tuple"

/-- The value of a constant. -/
def Literal.value : Literal → Value
  | int n => .int n
  | float x => .float x
  | bool b => .bool b
  | none => .none

namespace Value

instance : Inhabited Value := ⟨none⟩

/-- The kind of a value. -/
def kind : Value → Kind
  | int _ => .int
  | float _ => .float
  | bool _ => .bool
  | none => .none
  | tuple _ => .tuple

/-- The whole number of a truth value. -/
def ofTruth (b : Bool) : Int64 := if b then 1 else 0

/-- The whole number that a value is, truth values counting as zero and one. -/
def asInt? : Value → Option Int64
  | int n => some n
  | bool b => some (ofTruth b)
  | _ => Option.none

/-- Whether a value counts as true. -/
def isTrue : Value → Bool
  | int n => n != 0
  | float x => !x.isZero
  | bool b => b
  | none => false
  | tuple items => !items.isEmpty

mutual

/-- The text of a value. -/
def text : Value → String
  | int n => toString n.toInt
  | float x => x.text
  | bool true => "True"
  | bool false => "False"
  | none => "None"
  | tuple items => Text.tuple (texts items)

/-- The texts of some values. -/
def texts : List Value → List String
  | [] => []
  | item :: others => text item :: texts others

end

/-- The texts of some values are the text of each. -/
theorem texts_eq_map (items : List Value) : texts items = items.map text := by
  induction items with
  | nil => rfl
  | cons item others ih => rw [texts, ih, List.map_cons]

end Value

end Walkthrough
