import Trellis.Json.Numeral

/-!
# Tokens

The scanner is a machine that is fed one character at a time: between tokens, inside a word, a
numeral or a string, or stuck behind a character that begins nothing.  A text that cannot be
scanned to its end yields its tokens up to the fault and then `Token.illegal`, so a reader meets
the fault where it stands.

An escape may name half of a surrogate pair.  Two halves that meet make a character; a string with
a half left over is a token without a text.
-/

namespace Trellis.Json

inductive Token where
  | openArray
  | closeArray
  | openObject
  | closeObject
  | colon
  | comma
  | null
  | bool (b : Bool)
  | number (n : Numeral)
  /-- A string, with no text where half of a surrogate pair is left over. -/
  | string (text : Option String)
  /-- The fault at which scanning stops. -/
  | illegal
  deriving DecidableEq, Repr

/-- What one character or one escape of a string stands for. -/
inductive Piece where
  | char (c : Char)
  /-- Half of a surrogate pair. -/
  | half (unit : Nat)
  deriving DecidableEq, Repr

namespace Piece

/-- The piece that a four-digit escape names. -/
def ofUnit (unit : Nat) : Piece :=
  if 0xD800 ≤ unit ∧ unit < 0xE000 then half unit else char (Char.ofNat unit)

/-- The character of a surrogate pair. -/
def pair? (high low : Nat) : Option Char :=
  if high < 0xDC00 ∧ 0xDC00 ≤ low then
    some (Char.ofNat (0x10000 + (high - 0xD800) * 0x400 + (low - 0xDC00)))
  else none

/-- The text of a string, or none where a half has no partner. -/
def join? : List Piece → Option (List Char)
  | [] => some []
  | char c :: rest => (join? rest).map (c :: ·)
  | half high :: half low :: rest => (pair? high low).bind fun c => (join? rest).map (c :: ·)
  | half _ :: _ => none

end Piece

namespace Token

/-- Space, tab, line feed and carriage return stand between tokens. -/
def isBlank (c : Char) : Bool := c = ' ' || c = '\t' || c = '\n' || c = '\r'

/-- The characters that may occur in a numeral. -/
def isNumeral (c : Char) : Bool := c.isDigit || c = '-' || c = '+' || c = '.' || c = 'e' || c = 'E'

/-- The value of a hexadecimal digit. -/
def hexValue? (c : Char) : Option Nat :=
  if c.isDigit then some (c.toNat - '0'.toNat)
  else if 'a' ≤ c ∧ c ≤ 'f' then some (c.toNat - 'a'.toNat + 10)
  else if 'A' ≤ c ∧ c ≤ 'F' then some (c.toNat - 'A'.toNat + 10)
  else none

/-- The character that a one-letter escape names. -/
def escaped? : Char → Option Char
  | '"' => some '"'
  | '\\' => some '\\'
  | '/' => some '/'
  | 'b' => some '\x08'
  | 'f' => some '\x0c'
  | 'n' => some '\n'
  | 'r' => some '\r'
  | 't' => some '\t'
  | _ => none

/-- The token of a word. -/
def ofWord (letters : List Char) : Token :=
  if letters = ['n', 'u', 'l', 'l'] then null
  else if letters = ['t', 'r', 'u', 'e'] then bool true
  else if letters = ['f', 'a', 'l', 's', 'e'] then bool false
  else illegal

/-- The token of a run of numeral characters. -/
def ofNumeral (cs : List Char) : Token :=
  match Numeral.ofChars? cs with
  | some n => number n
  | none => illegal

/-- The token of the pieces between two quotes. -/
def ofPieces (ps : List Piece) : Token := string ((Piece.join? ps).map String.ofList)

end Token

/-- What the scanner is inside of; what it has read of it is held last character first. -/
inductive Scan where
  | between
  | word (letters : List Char)
  | numeral (cs : List Char)
  | string (ps : List Piece)
  /-- Behind a backslash. -/
  | escape (ps : List Piece)
  /-- Behind a backslash and `u`, with digits still to come. -/
  | unit (ps : List Piece) (left : Nat) (value : Nat)
  | stuck
  deriving DecidableEq, Repr

namespace Scan

/-- A character that stands between tokens or begins one. -/
def start (c : Char) : List Token × Scan :=
  if Token.isBlank c then ([], between)
  else if c = '[' then ([.openArray], between)
  else if c = ']' then ([.closeArray], between)
  else if c = '\x7b' then ([.openObject], between)
  else if c = '\x7d' then ([.closeObject], between)
  else if c = ':' then ([.colon], between)
  else if c = ',' then ([.comma], between)
  else if c = '"' then ([], string [])
  else if c.isDigit || c = '-' then ([], numeral [c])
  else if c.isAlpha then ([], word [c])
  else ([.illegal], stuck)

/-- One more character: the tokens it completes and where the scanner is then. -/
def feed : Scan → Char → List Token × Scan
  | between, c => start c
  | word cs, c =>
    if c.isAlpha then ([], word (c :: cs))
    else (Token.ofWord cs.reverse :: (start c).1, (start c).2)
  | numeral cs, c =>
    if Token.isNumeral c then ([], numeral (c :: cs))
    else (Token.ofNumeral cs.reverse :: (start c).1, (start c).2)
  | string ps, c =>
    if c = '"' then ([Token.ofPieces ps.reverse], between)
    else if c = '\\' then ([], escape ps)
    else if c.toNat < 0x20 then ([.illegal], stuck)
    else ([], string (.char c :: ps))
  | escape ps, c =>
    if c = 'u' then ([], unit ps 4 0)
    else match Token.escaped? c with
      | some e => ([], string (.char e :: ps))
      | none => ([.illegal], stuck)
  | unit ps left value, c =>
    match Token.hexValue? c with
    | some d =>
      if left ≤ 1 then ([], string (Piece.ofUnit (value * 16 + d) :: ps))
      else ([], unit ps (left - 1) (value * 16 + d))
    | none => ([.illegal], stuck)
  | stuck, _ => ([], stuck)

/-- What the end of the text completes. -/
def finish : Scan → List Token
  | between => []
  | word cs => [Token.ofWord cs.reverse]
  | numeral cs => [Token.ofNumeral cs.reverse]
  | stuck => []
  | _ => [.illegal]

/-- The tokens of a text for a scanner that is already under way. -/
def run : Scan → List Char → List Token
  | s, [] => s.finish
  | s, c :: cs => (s.feed c).1 ++ run (s.feed c).2 cs

theorem run_nil (s : Scan) : s.run [] = s.finish := rfl

theorem run_cons (s : Scan) (c : Char) (cs : List Char) :
    s.run (c :: cs) = (s.feed c).1 ++ (s.feed c).2.run cs := rfl

end Scan

/-- The tokens of a text. -/
def Token.scan (cs : List Char) : List Token := Scan.run .between cs

end Trellis.Json
