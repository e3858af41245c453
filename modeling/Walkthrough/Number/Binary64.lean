/-!
# Double precision numbers

A double is a sign and a magnitude. Magnitudes count the representable
non-negative numbers from zero upwards, so their order is the order of the
numbers, infinity is one of them and the not-a-numbers lie beyond it. Every
finite double is a whole number of units of 2⁻¹⁰⁷⁴; arithmetic is done
exactly on units and rounded once, to the nearest double and on a tie to the
even one.
-/

namespace Walkthrough

/-- The number of magnitudes. -/
def Binary64.magnitudes : Nat := 0x8000000000000000

/-- A binary floating-point number of 64 bits. -/
structure Binary64 where
  /-- Whether the sign bit is set. -/
  negative : Bool
  /-- The number without its sign: the rank among the non-negative doubles. -/
  magnitude : Nat
  /-- A magnitude has 63 bits. -/
  magnitude_lt : magnitude < Binary64.magnitudes
  deriving DecidableEq

namespace Binary64

/-- The number of doubles between a power of two and the next one. -/
def binadeSize : Nat := 0x10000000000000

/-- The rank of infinity; larger ranks are not numbers. -/
def infinityRank : Nat := 2047 * binadeSize

/-- Whether this is no number at all. -/
def isNaN (x : Binary64) : Bool := infinityRank < x.magnitude

/-- Whether this is one of the two infinities. -/
def isInfinite (x : Binary64) : Bool := x.magnitude = infinityRank

/-- Whether this is an ordinary number. -/
def isFinite (x : Binary64) : Bool := x.magnitude < infinityRank

/-- Whether this is one of the two zeros. -/
def isZero (x : Binary64) : Bool := x.magnitude = 0

/-- A double from its sign and a rank; a rank beyond infinity stops there. -/
def ofRank (negative : Bool) (rank : Nat) : Binary64 :=
  ⟨negative, min rank infinityRank, by
    have : infinityRank < magnitudes := by decide
    omega⟩

/-- The positive quiet not-a-number. -/
def nan : Binary64 := ⟨false, 0x7ff8000000000000, by decide⟩

/-- Infinity with a sign. -/
def infinity (negative : Bool) : Binary64 := ofRank negative infinityRank

/-- Zero with a sign. -/
def zero (negative : Bool) : Binary64 := ofRank negative 0

/-- The double with the given bits of the interchange format. -/
def ofBits (bits : UInt64) : Binary64 :=
  ⟨magnitudes ≤ bits.toNat, bits.toNat % magnitudes, Nat.mod_lt _ (by decide)⟩

/-- The bits of the interchange format. -/
def toBits (x : Binary64) : UInt64 :=
  UInt64.ofNat ((if x.negative then magnitudes else 0) + x.magnitude)

/-- The binade of a rank: how often the spacing has doubled there. -/
def binade (rank : Nat) : Nat := rank / binadeSize - 1

/-- The number of units of 2⁻¹⁰⁷⁴ in the number of a finite rank. -/
def unitsOfRank (rank : Nat) : Nat :=
  (rank - binade rank * binadeSize) <<< binade rank

/-- The number of units of a finite double, without its sign. -/
def units (x : Binary64) : Nat := unitsOfRank x.magnitude

/-- The number of units of a finite double. -/
def signedUnits (x : Binary64) : Int := if x.negative then -x.units else x.units

/-- The units of the number one. -/
def unitsOfOne : Nat := 1 <<< 1074

/-- The whole number nearest to a quotient, on a tie the even one. -/
def nearestEven (num den : Nat) : Nat :=
  let quotient := num / den
  let excess := 2 * (num % den)
  if excess < den ∨ (excess = den ∧ quotient % 2 = 0) then quotient else quotient + 1

/-- The rank nearest to a quotient of units, on a tie the even one. It is not
cut at infinity. -/
def rankOfUnits (num den : Nat) : Nat :=
  let shift := (num / den).log2 - 52
  shift * binadeSize + nearestEven num (den <<< shift)

/-- The double nearest to a quotient of units. -/
def ofUnits (negative : Bool) (num den : Nat) : Binary64 :=
  ofRank negative (rankOfUnits num den)

/-- The double nearest to an integer. -/
def ofInt (n : Int) : Binary64 := ofUnits (n < 0) (n.natAbs * unitsOfOne) 1

/-- The number with the opposite sign. -/
def neg (x : Binary64) : Binary64 := { x with negative := !x.negative }

/-- The sum. An exact sum of zero is negative only for two negative zeros. -/
def add (x y : Binary64) : Binary64 :=
  if x.isNaN || y.isNaN then nan
  else if x.isInfinite then
    if y.isInfinite && x.negative != y.negative then nan else x
  else if y.isInfinite then y
  else
    let sum := x.signedUnits + y.signedUnits
    if sum = 0 then zero (x.negative && y.negative) else ofUnits (sum < 0) sum.natAbs 1

/-- The difference. -/
def sub (x y : Binary64) : Binary64 := x.add y.neg

/-- The product. -/
def mul (x y : Binary64) : Binary64 :=
  let negative := x.negative != y.negative
  if x.isNaN || y.isNaN then nan
  else if x.isInfinite || y.isInfinite then
    if x.isZero || y.isZero then nan else infinity negative
  else ofUnits negative (x.units * y.units) unitsOfOne

/-- The quotient. -/
def div (x y : Binary64) : Binary64 :=
  let negative := x.negative != y.negative
  if x.isNaN || y.isNaN then nan
  else if x.isInfinite then
    if y.isInfinite then nan else infinity negative
  else if y.isInfinite then zero negative
  else if y.isZero then
    if x.isZero then nan else infinity negative
  else ofUnits negative (x.units * unitsOfOne) y.units

/-- The place of a number on the number line; both zeros have the same. -/
def position (x : Binary64) : Int := if x.negative then -x.magnitude else x.magnitude

/-- How two numbers compare; not at all if one of them is no number. -/
def compare? (x y : Binary64) : Option Ordering :=
  if x.isNaN || y.isNaN then none else some (compare x.position y.position)

/-- Whether two doubles are numbers of the same value. -/
def equal (x y : Binary64) : Bool := x.compare? y == some .eq

end Binary64

end Walkthrough
