import Trellis.Decimal.Basic

/-!
# The shortest decimal that reads back

The decimals `n * 10 ^ g` with a fixed `g` form a grid.  A double is written by the coarsest grid
of which one of the two points beside it reads back as that double; where both do, the nearer is
taken, and the even one in the middle.  The exact value stands behind the search, so whatever is
chosen reads back.
-/

namespace Trellis.Decimal

/-- The two points of the grid `10 ^ g` around `u` units, the nearer first. -/
def gridNeighbours (u : Nat) (g : Int) : List Nat :=
  let num := u * tenTo (-g).toNat
  let den := twoTo 1074 * tenTo g.toNat
  let lower := num / den
  if Binary.divNearest num den = lower then [lower, lower + 1] else [lower + 1, lower]

/-- A point of the grid `10 ^ g` beside the pattern `bits` that reads back as it. -/
def gridPoint? (bits : Nat) (g : Int) : Option Decimal :=
  ((gridNeighbours (Binary.units bits) g).map fun n => Decimal.mk false n g).find?
    fun d => d.nearestBits == bits

/-- The coarsest of `steps` grids, from `10 ^ g` down, with a point that reads back. -/
def coarsest? (bits : Nat) : (steps : Nat) → (g : Int) → Option Decimal
  | 0, _ => none
  | steps + 1, g => (gridPoint? bits g).orElse fun _ => coarsest? bits steps (g - 1)

/-- The exact decimal of `bits`: a unit is `5 ^ 1074` over `10 ^ 1074`. -/
def exact (bits : Nat) : Decimal := ⟨false, Binary.units bits * Nat.pow 5 1074, -1074⟩

/-- A power of ten not below the leading digit of `bits`. -/
def topGrid (bits : Nat) : Int :=
  ((Binary.units bits).log2 - 1074 : Int) * 30103 / 100000 + 1

/-- The shortest decimal for the finite pattern `bits`. -/
def ofBits (bits : Nat) : Decimal :=
  if bits = 0 then ⟨false, 0, 0⟩
  else (coarsest? bits 20 (topGrid bits)).getD (exact bits)

/-- The shortest decimal for a finite double. -/
def ofFloat (x : Float) : Decimal :=
  { ofBits (Binary.magnitudeBits x) with negative := Binary.isNegative x }

end Trellis.Decimal
