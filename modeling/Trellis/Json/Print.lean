import Trellis.Decimal.Layout
import Trellis.Json.Value

/-!
# Writing values

One printer serves both written forms; a style says what separates the items.  A double that is not
finite is written as `null`, a quote and a backslash behind a backslash, and a control character by
its letter or by its four-digit escape.
-/

namespace Trellis.Json

/-- Doubles are positional from `1e-5` up to below `1e16` and always show that they are doubles. -/
def layout : Layout where
  positional e := decide (-5 ≤ e) && decide (e < 16)
  wholePoint := true
  nan := ['n', 'u', 'l', 'l']
  infinity := ['n', 'u', 'l', 'l']

/-- A hexadecimal digit, lower case. -/
def hexDigit (n : Nat) : Char := Nat.digitChar n

/-- One character of a string. -/
def escape (c : Char) : List Char :=
  if c = '"' then ['\\', '"']
  else if c = '\\' then ['\\', '\\']
  else if c = '\x08' then ['\\', 'b']
  else if c = '\x0c' then ['\\', 'f']
  else if c = '\n' then ['\\', 'n']
  else if c = '\r' then ['\\', 'r']
  else if c = '\t' then ['\\', 't']
  else if c.toNat < 0x20 then
    ['\\', 'u', '0', '0', hexDigit (c.toNat / 16), hexDigit (c.toNat % 16)]
  else [c]

/-- A string between its quotes. -/
def quote (s : String) : List Char := '"' :: (s.toList.flatMap escape ++ ['"'])

namespace Number

/-- The text of a number. -/
def write : Number → List Char
  | natural n => Layout.digits n
  | negative n => '-' :: Layout.digits n
  | float x => if x.isFinite then layout.floatText x else ['n', 'u', 'l', 'l']

end Number

/-- What stands between the parts of a container. -/
structure Style where
  /-- What precedes an item or a closing bracket at a depth. -/
  line : Nat → List Char
  /-- What follows the colon. -/
  afterColon : List Char

namespace Style

/-- Nothing but the tokens. -/
def compact : Style := ⟨fun _ => [], []⟩

/-- One item a line, two blanks a level. -/
def pretty : Style := ⟨fun depth => '\n' :: List.replicate (2 * depth) ' ', [' ']⟩

end Style

namespace Value

mutual

/-- The text of a value at a depth. -/
def write (style : Style) (depth : Nat) : Value → List Char
  | null => ['n', 'u', 'l', 'l']
  | bool true => ['t', 'r', 'u', 'e']
  | bool false => ['f', 'a', 'l', 's', 'e']
  | number n => n.write
  | string s => quote s
  | array [] => ['[', ']']
  | array (v :: vs) =>
    '[' :: (style.line (depth + 1) ++ write style (depth + 1) v ++ writeItems style (depth + 1) vs
      ++ style.line depth ++ [']'])
  | object [] => ['\x7b', '\x7d']
  | object ((k, v) :: ms) =>
    '\x7b' :: (style.line (depth + 1) ++ quote k ++ ':' :: (style.afterColon
      ++ write style (depth + 1) v ++ writeMembers style (depth + 1) ms
      ++ style.line depth ++ ['\x7d']))

/-- The items behind the first one. -/
def writeItems (style : Style) (depth : Nat) : List Value → List Char
  | [] => []
  | v :: vs =>
    ',' :: (style.line depth ++ write style depth v ++ writeItems style depth vs)

/-- The members behind the first one. -/
def writeMembers (style : Style) (depth : Nat) : List (String × Value) → List Char
  | [] => []
  | (k, v) :: ms =>
    ',' :: (style.line depth ++ quote k ++ ':' :: (style.afterColon ++ write style depth v
      ++ writeMembers style depth ms))

end

/-- The text without blanks. -/
def compact (v : Value) : List Char := v.write .compact 0

/-- The text with one item a line. -/
def pretty (v : Value) : List Char := v.write .pretty 0

/-- A list of strings as an array. -/
def ofStrings (ss : List String) : Value := array (ss.map string)

/-- A word as a number. -/
def ofWord (w : UInt32) : Value := number (.natural w.toNat)

/-- A double as a number, or null where it is not finite. -/
def ofFloat (x : Float) : Value := if x.isFinite then number (.float x) else null

/-- A member that is left out where there is nothing to write. -/
def ifSome (key : String) (write : α → Value) : Option α → List (String × Value)
  | none => []
  | some a => [(key, write a)]

end Value

end Trellis.Json
