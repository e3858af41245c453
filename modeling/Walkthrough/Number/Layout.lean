import Walkthrough.Number.Shortest

/-!
# How doubles are written

Values are written with a point and at least one digit on each side of it while
the exponent of the first digit is at least -4 and below 16, and in exponent
form outside that range. Number tokens are always written out in full and
without a point where none is needed.
-/

namespace Walkthrough

namespace Decimal

/-- The digits before the point, padded with zeros, and those after it. It is
meant for a first digit that counts ones or more. -/
def aroundPoint (d : Decimal) : List Char × List Char :=
  let length := d.leadingExponent.toNat + 1
  let padded := d.digits ++ List.replicate (length - d.digits.length) '0'
  (padded.take length, padded.drop length)

/-- A number below one, written with its leading zeros. -/
def belowOne (d : Decimal) : List Char :=
  '0' :: '.' :: List.replicate (-d.leadingExponent - 1).toNat '0' ++ d.digits

/-- The positional form with at least one digit on each side of the point. -/
def pointed (d : Decimal) : List Char :=
  if 0 ≤ d.leadingExponent then
    let (whole, fraction) := d.aroundPoint
    whole ++ '.' :: (if fraction = [] then ['0'] else fraction)
  else d.belowOne

/-- The positional form with a point only before a fraction. -/
def plain (d : Decimal) : List Char :=
  if 0 ≤ d.leadingExponent then
    let (whole, fraction) := d.aroundPoint
    whole ++ (if fraction = [] then [] else '.' :: fraction)
  else d.belowOne

/-- The sign and at least two digits of an exponent. -/
def exponentMark (k : Int) : List Char :=
  let digits := Nat.toDigits 10 k.natAbs
  (if k < 0 then '-' else '+') :: List.replicate (2 - digits.length) '0' ++ digits

/-- The exponent form: one digit, an optional fraction and the exponent. -/
def scientific (d : Decimal) : List Char :=
  let fraction := d.digits.drop 1
  d.digits.take 1 ++ (if fraction = [] then [] else '.' :: fraction) ++
    'e' :: exponentMark d.leadingExponent

/-- Whether a first digit that counts this power of ten is written positionally. -/
def isPositional (k : Int) : Bool := -4 ≤ k && k < 16

/-- The form in which values are written. -/
def valueForm (d : Decimal) : List Char :=
  if isPositional d.leadingExponent then d.pointed else d.scientific

end Decimal

namespace Binary64

/-- A sign, if there is one, before the text of a magnitude. -/
def signed (x : Binary64) (text : List Char) : String :=
  String.ofList (if x.negative then '-' :: text else text)

/-- The text of a double among values. -/
def text (x : Binary64) : String :=
  if x.isNaN then "nan"
  else if x.isInfinite then x.signed ['i', 'n', 'f']
  else x.signed (Decimal.shortest x.magnitude).valueForm

/-- The text of a double written out in full. -/
def fullText (x : Binary64) : String :=
  if x.isNaN then "NaN"
  else if x.isInfinite then x.signed ['i', 'n', 'f']
  else x.signed (Decimal.shortest x.magnitude).plain

end Binary64

end Walkthrough
