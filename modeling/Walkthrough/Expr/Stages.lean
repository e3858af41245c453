import Walkthrough.Expr.Eval
import Walkthrough.Expr.Printer
import Walkthrough.Text.CharClass
import Walkthrough.Text.Runs

/-!
# The stages in which an expression is shown

An operator expression is shown as written, then with the short names replaced by
their values, then as its value. The middle stage is left out if nothing is
replaced. A tuple shows the stages of its parts side by side, and everything else
is shown as its value at once.
-/

namespace Walkthrough

/-- One stage: a single text, or a text for each part of a tuple. -/
inductive Snapshot where
  | scalar (text : String)
  | tuple (parts : List String)
  deriving DecidableEq, Repr

/-- The text of a stage. -/
def Snapshot.text : Snapshot → String
  | scalar text => text
  | tuple parts => Text.tuple parts

/-- The stages of an expression and its value. -/
structure Staged where
  /-- The stages, in order. -/
  snapshots : List Snapshot
  /-- The value that the last stage shows. -/
  value : Value

namespace Staged

/-- A value that is shown at once. -/
def resolved (value : Value) : Staged := ⟨[.scalar value.text], value⟩

/-- The texts of the stages. -/
def texts (s : Staged) : List String := s.snapshots.map Snapshot.text

end Staged

/-- A short name: one or two letters. -/
def isShortName (word : List Char) : Bool :=
  (word.length == 1 || word.length == 2) && word.all Char.isAlpha

/-- What the pattern `\b[a-zA-Z]{1,2}\b` finds in a text, from left to right: the short names that
stand alone, with no word character right before or after them. Listed with them, in the order of
the text, is what stands between; the flag tells which of the two a piece is. -/
def shortNames (text : List Char) : List (Bool × List Char) :=
  (Text.runsBy Text.isWordChar text).map fun run => (run.1 && isShortName run.2, run.2)

/-- The pieces are the text, one after another. -/
theorem flatMap_shortNames (text : List Char) : (shortNames text).flatMap Prod.snd = text := by
  rw [shortNames, List.flatMap_map]
  exact Text.flatMap_runsBy Text.isWordChar text

/-- What is found is a short name. -/
theorem isShortName_of_mem_shortNames {text : List Char} {piece : Bool × List Char}
    (h : piece ∈ shortNames text) (hfound : piece.1 = true) : isShortName piece.2 = true := by
  obtain ⟨run, -, rfl⟩ := List.mem_map.mp h
  exact (Bool.and_eq_true_iff.mp hfound).2

/-- The text that replaces a piece, and whether it is another one. A short name is
replaced by its value. -/
def substitutePiece (scopes : Scopes Value) (location : Location) (piece : Bool × List Char) :
    Except Fault (Bool × String) :=
  if piece.1 then do
    let value ← scopes.get (String.ofList piece.2) location
    return (true, value.text)
  else .ok (false, String.ofList piece.2)

/-- A text with the short names in it replaced by their values, or nothing if there
are none. -/
def substitute (scopes : Scopes Value) (text : String) (location : Location) :
    Except Fault (Option String) := do
  let parts ← (shortNames text.toList).mapM (substitutePiece scopes location)
  return if parts.any Prod.fst then some (String.join (parts.map Prod.snd)) else none

namespace Snapshot

/-- One round of stages side by side. A list that is exhausted shows its last
stage. -/
def round (stages : List (List String)) (index : Nat) : Snapshot :=
  tuple (stages.filterMap fun texts => texts[index]?.or texts.getLast?)

/-- The stages of the parts of a tuple side by side, at least one round. -/
def sideBySide (stages : List (List String)) : List Snapshot :=
  let rounds := (stages.map List.length).foldl max 1
  (List.range rounds).map (round stages)

end Snapshot

namespace Expr

/-- Whether an expression is an operator with its operands. -/
def isOperation : Expr → Bool
  | binary .. => true
  | compare .. => true
  | _ => false

/-- The stages of an operator expression. -/
def operationStages (scopes : Scopes Value) (e : Expr) : Except Fault Staged := do
  let value ← e.eval scopes
  let replaced ← substitute scopes e.text e.location
  return ⟨[.scalar e.text] ++ (replaced.map Snapshot.scalar).toList ++ [.scalar value.text], value⟩

/-- The stages of an expression that is shown as one piece. -/
def wholeStages (scopes : Scopes Value) (e : Expr) : Except Fault Staged :=
  if e.isOperation then e.operationStages scopes else (e.eval scopes).map Staged.resolved

/-- The stages of an expression, tuples part by part. -/
def stages (scopes : Scopes Value) (e : Expr) : Except Fault Staged :=
  match e with
  | tuple items _ => do
    let parts ← items.mapM (wholeStages scopes)
    return ⟨Snapshot.sideBySide (parts.map Staged.texts), .tuple (parts.map Staged.value)⟩
  | e => e.wholeStages scopes

end Expr

end Walkthrough
