import Walkthrough.Number.Binary64

/-!
# Decimals and the doubles they denote

A decimal is a whole number of a power of ten. It is read from digits with an
optional point and an optional exponent, and denotes the nearest double.
-/

namespace Walkthrough

/-- The number `coefficient · 10 ^ exponent`. -/
structure Decimal where
  /-- The digits, as one whole number. -/
  coefficient : Nat
  /-- The power of ten that the last digit counts. -/
  exponent : Int
  deriving DecidableEq, Repr

namespace Decimal

/-- A power of ten. -/
def tenTo (k : Nat) : Nat := Nat.pow 10 k

/-- The value of a digit character. -/
def digitValue (c : Char) : Nat := c.toNat - '0'.toNat

/-- The whole number that a list of digits spells. -/
def ofDigits (digits : List Char) : Nat :=
  digits.foldl (fun n c => 10 * n + digitValue c) 0

/-- The digits of the coefficient, at least one. -/
def digits (d : Decimal) : List Char := Nat.toDigits 10 d.coefficient

/-- The power of ten that the first digit counts. -/
def leadingExponent (d : Decimal) : Int := d.exponent + (d.digits.length - 1 : Nat)

/-- Reads the part after the mark of an exponent: an optional sign, then at
least one digit and nothing else. -/
def readExponent (text : List Char) : Option Int :=
  match text with
  | '-' :: digits => (magnitude digits).map fun n => -(n : Int)
  | '+' :: digits => (magnitude digits).map Int.ofNat
  | digits => (magnitude digits).map Int.ofNat
where
  /-- A non-empty list of digits as a number. -/
  magnitude (digits : List Char) : Option Nat :=
    if digits ≠ [] ∧ digits.all Char.isDigit then some (ofDigits digits) else none

/-- Reads a decimal: digits with an optional point among or beside them, then
an optional exponent. -/
def read (text : List Char) : Option Decimal :=
  let whole := text.takeWhile Char.isDigit
  let afterWhole := text.dropWhile Char.isDigit
  let (fraction, afterFraction) :=
    match afterWhole with
    | '.' :: rest => (rest.takeWhile Char.isDigit, rest.dropWhile Char.isDigit)
    | rest => ([], rest)
  if whole = [] ∧ fraction = [] then none
  else
    let scaled (power : Int) : Decimal := ⟨ofDigits (whole ++ fraction), power - fraction.length⟩
    match afterFraction with
    | [] => some (scaled 0)
    | mark :: exponent =>
      if mark = 'e' ∨ mark = 'E' then (readExponent exponent).map scaled else none

/-- The rank of the double nearest to a decimal. Decimals far outside the range
of doubles are settled by their size alone. -/
def rank (d : Decimal) : Nat :=
  if d.coefficient = 0 then 0
  else if 400 < d.exponent then Binary64.infinityRank
  else if d.exponent + d.coefficient.log2 < -400 then 0
  else
    Binary64.rankOfUnits (d.coefficient * tenTo d.exponent.toNat * Binary64.unitsOfOne)
      (tenTo (-d.exponent).toNat)

/-- The double nearest to a decimal, with a sign. -/
def toBinary64 (negative : Bool) (d : Decimal) : Binary64 := .ofRank negative d.rank

end Decimal

end Walkthrough
