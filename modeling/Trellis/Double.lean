import Trellis.Decimal.Basic

/-!
# Doubles by their bits

A `Float` has one value that is not a number.  Among the doubles there are many, told apart by
their sign and by what they carry, and the total order has a place for each; so what is ranked is a
double by its bits.
-/

namespace Trellis

structure Double where
  bits : UInt64
  deriving DecidableEq

namespace Double

def ofFloat (x : Float) : Double := ⟨x.toBits⟩

/-- The double to compute with; whatever is not a number becomes the one value for that. -/
def toFloat (x : Double) : Float := Float.ofBits x.bits

instance : Coe Float Double := ⟨ofFloat⟩

instance : Coe Double Float := ⟨toFloat⟩

/-- The sign of a double, that of what is not a number included. -/
def isNegative (x : Double) : Bool := decide (Binary.signBit ≤ x.bits.toNat)

/-- The bits below the sign. -/
def magnitude (x : Double) : Nat := x.bits.toNat % Binary.signBit

/-- The double of the other sign. -/
def negate (x : Double) : Double := ⟨x.bits ^^^ 0x8000000000000000⟩

/-- The place of a double in the total order: negative zero stands below zero, and what is not a
number beyond the infinity of its sign. -/
def totalKey (x : Double) : Int :=
  if x.isNegative then -(x.magnitude : Int) - 1 else x.magnitude

end Double

end Trellis
