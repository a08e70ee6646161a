import Trellis.Decimal.Shortest

/-!
# How a decimal is laid out as text

The digits are chosen elsewhere; a layout decides between positional and exponent form, whether a
whole number keeps a `.0`, and the words for what is not finite.
-/

namespace Trellis

/-- The decisions of one written format. -/
structure Layout where
  /-- Whether a number with this power of ten in front is written positionally. -/
  positional : Int → Bool
  /-- A whole number ends in `.0`. -/
  wholePoint : Bool
  nan : List Char
  infinity : List Char

namespace Layout

/-- The digits of a natural number. -/
def digits (n : Nat) : List Char := Nat.toDigits 10 n

/-- `n` zeros. -/
def zeros (n : Nat) : List Char := List.replicate n '0'

/-- Positional form: the digits with a point, padded with zeros to reach it. -/
def positionalText (l : Layout) (ds : List Char) (exponent : Int) : List Char :=
  if 0 ≤ exponent then
    ds ++ zeros exponent.toNat ++ (if l.wholePoint then ['.', '0'] else [])
  else
    let places := exponent.natAbs
    if places < ds.length then
      ds.take (ds.length - places) ++ '.' :: ds.drop (ds.length - places)
    else '0' :: '.' :: (zeros (places - ds.length) ++ ds)

/-- Exponent form: one digit, the rest after a point, and a signed power of ten. -/
def exponentText (ds : List Char) (leading : Int) : List Char :=
  let mantissa := match ds with
    | [] => []
    | [d] => [d]
    | d :: rest => d :: '.' :: rest
  mantissa ++ 'e' :: (if leading < 0 then '-' else '+') :: digits leading.natAbs

/-- A decimal under a layout. -/
def decimalText (l : Layout) (d : Decimal) : List Char :=
  let ds := digits d.digits
  let leading := d.exponent + ds.length - 1
  let body := if l.positional leading then l.positionalText ds d.exponent
    else exponentText ds leading
  if d.negative then '-' :: body else body

/-- A double under a layout. -/
def floatText (l : Layout) (x : Float) : List Char :=
  if x.isNaN then l.nan
  else if x.isFinite then l.decimalText (Decimal.ofFloat x)
  else if Binary.isNegative x then '-' :: l.infinity
  else l.infinity

/-- Numbers in messages: never an exponent, and no point after a whole number. -/
def message : Layout := ⟨fun _ => true, false, ['N', 'a', 'N'], ['i', 'n', 'f']⟩

end Layout

end Trellis
