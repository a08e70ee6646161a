/-!
# Decimals and the doubles nearest to them

A double is read as a natural number of units of `2 ^ (-1074)`: its bit pattern `b` (sign apart)
stands for `m * 2 ^ s` units with `b = s * 2 ^ 52 + m`.  A quotient of naturals is rounded to the
nearest such pattern, a tie going to the even one, so reading a decimal is exact arithmetic and
one rounding.
-/

namespace Trellis

/-- A power of two. -/
def twoTo (n : Nat) : Nat := Nat.pow 2 n

/-- A power of ten. -/
def tenTo (n : Nat) : Nat := Nat.pow 10 n

theorem twoTo_succ (n : Nat) : twoTo (n + 1) = twoTo n * 2 := rfl

theorem tenTo_succ (n : Nat) : tenTo (n + 1) = tenTo n * 10 := rfl

/-- The decimal `digits * 10 ^ exponent`, negated where `negative` says so. -/
structure Decimal where
  negative : Bool
  digits : Nat
  exponent : Int
  deriving DecidableEq, Repr

namespace Binary

/-- The bits of a double below the sign. -/
def signBit : Nat := 0x8000000000000000

/-- The bit pattern of infinity, sign apart. -/
def infinityBits : Nat := 0x7FF0000000000000

/-- The quotient rounded to the nearest natural, a half going to the even neighbour. -/
def divNearest (num den : Nat) : Nat :=
  let q := num / den
  let twice := 2 * (num % den)
  if twice < den then q
  else if den < twice then q + 1
  else if q % 2 = 0 then q else q + 1

/-- The pattern nearest to `num / den`; it runs past `infinityBits` when the quotient does. -/
def nearestBits (num den : Nat) : Nat :=
  let units := num * twoTo 1074
  let shift := (units / den).log2 - 52
  shift * twoTo 52 + divNearest units (den * twoTo shift)

/-- The shift of a finite pattern: the power of two that its significand counts. -/
def shift (bits : Nat) : Nat := bits / twoTo 52 - 1

/-- The significand of a finite pattern. -/
def significand (bits : Nat) : Nat := bits - shift bits * twoTo 52

/-- What a finite pattern stands for, in units of `2 ^ (-1074)`. -/
def units (bits : Nat) : Nat := significand bits * twoTo (shift bits)

/-- The bit pattern of a double without its sign. -/
def magnitudeBits (x : Float) : Nat := x.toBits.toNat % signBit

/-- The sign of a double, negative zero included. -/
def isNegative (x : Float) : Bool := decide (signBit ≤ x.toBits.toNat)

/-- The double with this sign and this pattern. -/
def ofBits (negative : Bool) (bits : Nat) : Float :=
  Float.ofBits (UInt64.ofNat (if negative then signBit + bits else bits))

end Binary

namespace Decimal

/-- The number of digits of `digits`, zero for zero. -/
def width (d : Decimal) : Nat := if d.digits = 0 then 0 else (Nat.toDigits 10 d.digits).length

/-- The pattern nearest to a decimal, sign apart.  A decimal that lies outside the doubles by more
than ten places is settled by its size alone. -/
def nearestBits (d : Decimal) : Nat :=
  if d.digits = 0 then 0
  else
    let places := d.exponent + d.width
    if places < -400 then 0
    else if 400 < places then Binary.infinityBits
    else if d.exponent < 0 then Binary.nearestBits d.digits (tenTo d.exponent.natAbs)
    else Binary.nearestBits (d.digits * tenTo d.exponent.natAbs) 1

/-- The double nearest to a decimal, or none where that is an infinity. -/
def toFloat? (d : Decimal) : Option Float :=
  let bits := d.nearestBits
  if bits < Binary.infinityBits then some (Binary.ofBits d.negative bits) else none

end Decimal

end Trellis
