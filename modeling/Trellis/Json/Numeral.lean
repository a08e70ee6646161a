import Trellis.Decimal.Basic

/-!
# Numerals

A numeral is an optional minus sign, digits without a needless leading zero, at most one group of
digits after a point, and at most one power of ten.

Its double is found quickly rather than exactly.  As many digits as fit sixty-four bits make a
significand, which is rounded once when it becomes a double and once more when it is multiplied or
divided by a power of ten.  A numeral of at most fifteen digits whose power is at most twenty-two is
read as the nearest double; others may miss it in the last places.
-/

namespace Trellis.Json

/-- A number as it is written. -/
structure Numeral where
  negative : Bool
  /-- The digits in front of the point. -/
  whole : List Char
  /-- The digits behind the point. -/
  places : List Char
  /-- The power of ten, where one is written. -/
  power : Option Int
  deriving DecidableEq, Repr

namespace Numeral

/-- A number with one more digit behind it. -/
def append (n : Nat) (c : Char) : Nat := n * 10 + (c.toNat - '0'.toNat)

/-- What a run of digits stands for. -/
def value (ds : List Char) : Nat := ds.foldl append 0

/-- The longest run of digits in front, and the rest. -/
def digits (cs : List Char) : List Char × List Char :=
  (cs.takeWhile Char.isDigit, cs.dropWhile Char.isDigit)

/-- The optional group of digits after a point; a point alone is refused. -/
def fraction? : List Char → Option (List Char × List Char)
  | '.' :: cs =>
    match digits cs with
    | ([], _) => none
    | split => some split
  | cs => some ([], cs)

/-- The optional sign of a power of ten. -/
def exponentSign : List Char → Bool × List Char
  | '-' :: cs => (true, cs)
  | '+' :: cs => (false, cs)
  | cs => (false, cs)

/-- The optional power of ten, none where the text ends without one. -/
def exponent? : List Char → Option (Option Int)
  | [] => some none
  | c :: cs =>
    if c = 'e' ∨ c = 'E' then
      let (negative, cs) := exponentSign cs
      match digits cs with
      | ([], _) => none
      | (ds, []) => some (some (if negative then -(value ds : Int) else value ds))
      | _ => none
    else none

/-- A digit zero in front stands alone. -/
def wellLed : List Char → Bool
  | [] => false
  | '0' :: _ :: _ => false
  | _ => true

/-- The numeral without its sign. -/
def ofUnsigned? (negative : Bool) (cs : List Char) : Option Numeral := do
  let (whole, rest) := digits cs
  if wellLed whole then
    let (places, rest) ← fraction? rest
    let power ← exponent? rest
    return { negative, whole, places, power }
  else none

/-- The numeral that a text spells. -/
def ofChars? : List Char → Option Numeral
  | '-' :: cs => ofUnsigned? true cs
  | cs => ofUnsigned? false cs

/-- Written with neither a point nor a power of ten. -/
def isWhole (n : Numeral) : Bool := n.places.isEmpty && n.power.isNone

/-- One more than the largest significand. -/
def bound : Nat := 0x10000000000000000

/-- A significand with the digits behind it, up to the first that does not fit: what it grows to,
and how many digits are left over. -/
def takeUp (n : Nat) : List Char → Nat × Nat
  | [] => (n, 0)
  | c :: cs => if append n c < bound then takeUp (append n c) cs else (n, cs.length + 1)

/-- The significand, and the power of ten that goes with it.  A digit left over in front of the
point adds to the power; one behind the point that is taken up takes from it. -/
def scientific (n : Numeral) : Nat × Int :=
  let (front, extra) := takeUp 0 n.whole
  let (all, ignored) := takeUp front n.places
  (all, n.power.getD 0 + extra - (n.places.length - ignored : Nat))

/-- The double nearest to a power of ten. -/
def tenthPower (k : Nat) : Float := Binary.ofBits false (Decimal.nearestBits ⟨false, 1, k⟩)

/-- The largest power of ten among the doubles. -/
def topPower : Nat := 308

/-- A double times a power of ten, or none where that is infinite.  A power that exceeds the
doubles is divided by in two steps, and nothing is left where two do not suffice. -/
def scale? (x : Float) (power : Int) : Option Float :=
  let k := power.natAbs
  if 0 ≤ power then
    if k ≤ topPower then
      let y := x * tenthPower k
      if y.isFinite then some y else none
    else if x == 0.0 then some x else none
  else if k ≤ topPower then some (x / tenthPower k)
  else if k ≤ 2 * topPower then some (x / tenthPower topPower / tenthPower (k - topPower))
  else some 0.0

/-- The double that a numeral is read as, or none where it is too large. -/
def toFloat? (n : Numeral) : Option Float :=
  let (significand, power) := n.scientific
  (scale? (Float.ofNat significand) power).map fun x => if n.negative then -x else x

end Numeral

end Trellis.Json
