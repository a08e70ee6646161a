import Trellis.Text.Invisible

/-!
# Quoted text in messages

A text or a character is shown between quotes so that it can be told apart from the message around
it: the enclosing quote and the backslash are escaped, the common controls have a letter, and what
would leave no mark is named by its number.
-/

namespace Trellis.Text

/-- The digits of a code point, lower-case hexadecimal. -/
def codeDigits (n : Nat) : List Char := Nat.toDigits 16 n

/-- One character as it is shown between two of the given quotes. -/
def shown (quote c : Char) : List Char :=
  if c = '\x00' then ['\\', '0']
  else if c = '\t' then ['\\', 't']
  else if c = '\r' then ['\\', 'r']
  else if c = '\n' then ['\\', 'n']
  else if c = '\\' ∨ c = quote then ['\\', c]
  else if isInvisible c then '\\' :: 'u' :: '\x7b' :: (codeDigits c.toNat ++ ['\x7d'])
  else [c]

/-- A text between double quotes. -/
def quoted (s : String) : String :=
  String.ofList ('"' :: (s.toList.flatMap (shown '"') ++ ['"']))

/-- A character between single quotes. -/
def quotedChar (c : Char) : String := String.ofList ('\x27' :: (shown '\x27' c ++ ['\x27']))

end Trellis.Text
