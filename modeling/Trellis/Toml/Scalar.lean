import Trellis.Decimal.Basic
import Trellis.Toml.Item
import Trellis.Toml.Moment

/-!
# Runs of plain characters

How a run of plain characters is read as an item: a truth value, an integer in one of four bases, a
double, or a date or time.  Underscores may stand between digits.  The mark of a base without digits
is a number without a value, and so are digits that an underscore joins to letters.
-/

namespace Trellis.Toml.Scalar

/-- Digits with single underscores between them, without these. -/
def digits? (isDigit : Char → Bool) : List Char → Option (List Char)
  | [] => none
  | [c] => if isDigit c then some [c] else none
  | c :: '_' :: cs => if isDigit c then (digits? isDigit cs).map (c :: ·) else none
  | c :: cs => if isDigit c then (digits? isDigit cs).map (c :: ·) else none

/-- The value of a digit in a base up to sixteen. -/
def digitValue (c : Char) : Nat :=
  if c.isDigit then c.toNat - '0'.toNat else c.toLower.toNat - 'a'.toNat + 10

/-- The character is a digit of this base. -/
def isDigitOf (base : Nat) (c : Char) : Bool :=
  (c.isDigit || (decide ('a' ≤ c.toLower) && decide (c.toLower ≤ 'f')))
    && decide (digitValue c < base)

/-- What digits stand for in a base. -/
def valueOf (base : Nat) (ds : List Char) : Nat := ds.foldl (fun n c => n * base + digitValue c) 0

/-- Digits of a base. -/
def natural? (base : Nat) (cs : List Char) : Option Nat :=
  (digits? (isDigitOf base) cs).map (valueOf base)

/-- Decimal digits without a needless zero in front. -/
def decimalDigits? (cs : List Char) : Option (List Char) :=
  match digits? Char.isDigit cs with
  | some ('0' :: _ :: _) => none
  | ds => ds

/-- A sign, if there is one, and the rest. -/
def sign : List Char → Bool × List Char
  | '-' :: cs => (true, cs)
  | '+' :: cs => (false, cs)
  | cs => (false, cs)

def signed (negative : Bool) (n : Nat) : Int := if negative then -(n : Int) else n

/-- An integer, with a value where it has a fixed-width form. -/
def ofInteger (n : Int) : Item :=
  if -(twoTo 127 : Int) ≤ n ∧ n < twoTo 128 then .integer n else .void

/-- An integer behind the mark of its base. -/
def based? (base : Nat) (cs : List Char) : Option Item :=
  if cs.isEmpty then some .void else (natural? base cs).map fun n => ofInteger n

/-- Each underscore stands between two digits of base sixteen; `joined` says whether one may come
now. -/
def wellJoined (joined : Bool) : List Char → Bool
  | [] => true
  | '_' :: c :: cs => joined && isDigitOf 16 c && wellJoined true cs
  | ['_'] => false
  | c :: cs => wellJoined (isDigitOf 16 c) cs

/-- Digits that an underscore joins to something else, without the marks of a double. -/
def isMixed (cs : List Char) : Bool :=
  (cs.takeWhile Char.isDigit).head?.any (· ≠ '0')
    && (cs.dropWhile Char.isDigit).head? == some '_'
    && cs.all (fun c => c ≠ '.' && c ≠ 'e' && c ≠ 'E')
    && wellJoined false cs

def integer? : List Char → Option Item
  | '0' :: 'x' :: cs => based? 16 cs
  | '0' :: 'o' :: cs => based? 8 cs
  | '0' :: 'b' :: cs => based? 2 cs
  | cs =>
    let (negative, cs) := sign cs
    match decimalDigits? cs with
    | some ds => some (ofInteger (signed negative (valueOf 10 ds)))
    | none => if isMixed cs then some .void else none

/-- The part of a number behind a character, if that occurs. -/
def splitAt? (p : Char → Bool) (cs : List Char) : List Char × Option (List Char) :=
  match cs.dropWhile fun c => !p c with
  | [] => (cs, none)
  | _ :: rest => (cs.takeWhile fun c => !p c, some rest)

/-- The power of ten of a number, zero where none is written. -/
def power? : Option (List Char) → Option Int
  | none => some 0
  | some cs =>
    let (negative, cs) := sign cs
    (digits? Char.isDigit cs).map fun ds => signed negative (valueOf 10 ds)

/-- The digits behind the point of a number, none where no point is written. -/
def places? : Option (List Char) → Option (List Char)
  | none => some []
  | some cs => digits? Char.isDigit cs

/-- A number with a point, a power of ten, or both. -/
def float? (cs : List Char) : Option Item := do
  let (negative, cs) := sign cs
  let (mantissa, power) := splitAt? (fun c => c = 'e' || c = 'E') cs
  let (whole, places) := splitAt? (· = '.') mantissa
  if power.isNone && places.isNone then none
  else
    let ds ← decimalDigits? whole
    let es ← places? places
    let exponent ← power? power
    let x := Decimal.toFloat? ⟨negative, valueOf 10 (ds ++ es), exponent - es.length⟩
    return x.elim .void .float

/-- The doubles that have a name. -/
def named? (cs : List Char) : Option Item :=
  match sign cs with
  | (negative, ['i', 'n', 'f']) => some (.float (if negative then -1.0 / 0.0 else 1.0 / 0.0))
  | (_, ['n', 'a', 'n']) => some (.float (0.0 / 0.0))
  | _ => none

/-- The item that a run of plain characters spells. -/
def item? (cs : List Char) : Option Item :=
  if cs = ['t', 'r', 'u', 'e'] then some (.bool true)
  else if cs = ['f', 'a', 'l', 's', 'e'] then some (.bool false)
  else if Moment.isWritten cs then some .moment
  else (named? cs).or ((integer? cs).or (float? cs))

end Trellis.Toml.Scalar
