import Walkthrough.Number.Decimal

/-!
# The shortest decimal of a double

Of all decimals that denote a finite double, the one with the fewest digits is
written, and of several of that length the nearest. The search goes from coarse
to fine powers of ten. On each grid only the two neighbours of the double can
denote it, and a neighbour is taken only if it reads back.
-/

namespace Walkthrough.Decimal

/-- A power of ten at least as large as that of the first digit of the number
with so many units. -/
def leadingEstimate (units : Nat) : Int :=
  ((units.log2 : Int) - 1074) * 30103 / 100000 + 1

/-- The neighbour of a rank's number on the grid of a power of ten that reads
back. If both do, it is the nearer one, and on a tie the larger. -/
def neighbour? (rank : Nat) (power : Int) : Option Decimal :=
  let num := Binary64.unitsOfRank rank * tenTo (-power).toNat
  let den := Binary64.unitsOfOne * tenTo power.toNat
  let below : Decimal := ⟨num / den, power⟩
  let above : Decimal := ⟨num / den + 1, power⟩
  let nearBelow := 2 * (num % den) < den
  if below.rank = rank ∧ (nearBelow ∨ above.rank ≠ rank) then some below
  else if above.rank = rank then some above
  else none

/-- The number of a rank with all its digits. -/
def exact (rank : Nat) : Decimal := ⟨Binary64.unitsOfRank rank * Nat.pow 5 1074, -1074⟩

/-- The first decimal that reads back on so many grids from a power of ten
downwards, or else the number with all its digits. -/
def search (rank : Nat) : Nat → Int → Decimal
  | 0, _ => exact rank
  | grids + 1, power => (neighbour? rank power).getD (search rank grids (power - 1))

/-- The shortest decimal that denotes the finite double of a rank. Seventeen
digits always suffice, and the estimate is at most two grids too coarse. -/
def shortest (rank : Nat) : Decimal :=
  if rank = 0 then ⟨0, 0⟩
  else search rank 20 (leadingEstimate (Binary64.unitsOfRank rank))

/-- A neighbour is taken only if it denotes the number. -/
theorem rank_of_neighbour? {rank : Nat} {power : Int} {d : Decimal}
    (h : neighbour? rank power = some d) : d.rank = rank := by
  unfold neighbour? at h
  dsimp only at h
  split at h
  · next hb => cases h; exact hb.1
  · split at h
    · next ha => cases h; exact ha
    · cases h

end Walkthrough.Decimal
