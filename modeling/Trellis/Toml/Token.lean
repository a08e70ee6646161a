import Trellis.Json.Token

/-!
# Tokens of a table file

The scanner of table files is a machine that is fed one character at a time.  Keys, numbers and
words are runs of other characters; a text on one line keeps what it says, since it may be a key,
and a text that may span lines is only found to its end.  A fault ends the tokens with
`Token.illegal`.
-/

namespace Trellis.Toml

inductive Token where
  | dot
  | equals
  | comma
  | openSquare
  | closeSquare
  | openCurly
  | closeCurly
  /-- Spaces and tabs, and whether it is a single space. -/
  | blank (single : Bool)
  | newline
  /-- A run of characters that have no meaning of their own. -/
  | atom (cs : List Char)
  /-- A text on one line. -/
  | text (s : String)
  /-- A text that may span lines. -/
  | block
  /-- The fault at which scanning stops. -/
  | illegal
  deriving DecidableEq, Repr

namespace Token

def isBlank (c : Char) : Bool := c = ' ' || c = '\t'

/-- What may stand in a text or in a comment. -/
def isPlain (c : Char) : Bool := c = '\t' || (decide (0x20 ≤ c.toNat) && decide (c.toNat ≠ 0x7F))

/-- The token of a character that is one by itself. -/
def single? : Char → Option Token
  | '.' => some dot
  | '=' => some equals
  | ',' => some comma
  | '[' => some openSquare
  | ']' => some closeSquare
  | '\x7b' => some openCurly
  | '\x7d' => some closeCurly
  | _ => none

/-- The character that a one-letter escape names. -/
def escaped? : Char → Option Char
  | 'b' => some '\x08'
  | 't' => some '\t'
  | 'n' => some '\n'
  | 'f' => some '\x0c'
  | 'r' => some '\r'
  | 'e' => some '\x1b'
  | '"' => some '"'
  | '\\' => some '\\'
  | _ => none

/-- How many digits follow the letter of an escape by number. -/
def codeLength? : Char → Option Nat
  | 'x' => some 2
  | 'u' => some 4
  | 'U' => some 8
  | _ => none

end Token

/-- What the scanner is inside of; what it has read of it is held last character first. -/
inductive Scan where
  | between
  | blank (single : Bool)
  | atom (cs : List Char)
  | comment
  /-- Behind a carriage return outside a text. -/
  | carriage
  /-- Behind one quote, or behind two. -/
  | opening (quote : Char) (two : Bool)
  /-- In a text on one line. -/
  | line (quote : Char) (cs : List Char)
  /-- In a text that may span lines, behind a number of quotes. -/
  | block (quote : Char) (quotes : Nat)
  /-- Behind a carriage return in such a text. -/
  | blockCarriage (quote : Char)
  /-- Behind a backslash; the characters before it are those of a line, if it is one. -/
  | escape (line : Option (List Char))
  /-- In an escape by number, with digits still to come. -/
  | code (line : Option (List Char)) (left : Nat) (value : Nat)
  /-- Behind a backslash that ends a line, and whether the line has ended. -/
  | fold (ended : Bool)
  | foldCarriage
  | stuck
  deriving DecidableEq, Repr

namespace Scan

/-- A character that stands between tokens or begins one. -/
def start (c : Char) : List Token × Scan :=
  match Token.single? c with
  | some t => ([t], between)
  | none =>
    if Token.isBlank c then ([], blank (c == ' '))
    else if c = '\n' then ([.newline], between)
    else if c = '\r' then ([], carriage)
    else if c = '#' then ([], comment)
    else if c = '"' ∨ c = '\x27' then ([], opening c false)
    else ([], atom [c])

/-- The character ends a run. -/
def ends (c : Char) : Bool :=
  (Token.single? c).isSome || Token.isBlank c || c = '\n' || c = '\r' || c = '#' || c = '"'
    || c = '\x27'

/-- A token, then a character behind it. -/
def after (t : Token) (c : Char) : List Token × Scan := (t :: (start c).1, (start c).2)

def fault : List Token × Scan := ([.illegal], stuck)

/-- A character in a text on one line. -/
def feedLine (quote : Char) (cs : List Char) (c : Char) : List Token × Scan :=
  if c = quote then ([.text (String.ofList cs.reverse)], between)
  else if c = '\\' ∧ quote = '"' then ([], escape (some cs))
  else if Token.isPlain c then ([], line quote (c :: cs))
  else fault

/-- A character in a text that may span lines; it ends with three quotes, before which there may be
two more. -/
def feedBlock (quote : Char) (quotes : Nat) (c : Char) : List Token × Scan :=
  if c = quote then
    if quotes = 4 then ([.block], between) else ([], block quote (quotes + 1))
  else if 3 ≤ quotes then after .block c
  else if c = '\\' ∧ quote = '"' then ([], escape none)
  else if c = '\r' then ([], blockCarriage quote)
  else if c = '\n' ∨ Token.isPlain c then ([], block quote 0)
  else fault

/-- A text goes on behind an escape. -/
def resume (cs : Option (List Char)) (c : Char) : Scan :=
  match cs with
  | some cs => line '"' (c :: cs)
  | none => block '"' 0

/-- One more character: the tokens it completes and where the scanner is then. -/
def feed : Scan → Char → List Token × Scan
  | between, c => start c
  | blank single, c => if Token.isBlank c then ([], blank false) else after (.blank single) c
  | atom cs, c => if ends c then after (.atom cs.reverse) c else ([], atom (c :: cs))
  | comment, c =>
    if c = '\n' then ([.newline], between)
    else if c = '\r' then ([], carriage)
    else if Token.isPlain c then ([], comment)
    else fault
  | carriage, c => if c = '\n' then ([.newline], between) else fault
  | opening quote false, c => if c = quote then ([], opening quote true) else feedLine quote [] c
  | opening quote true, c => if c = quote then ([], block quote 0) else after (.text "") c
  | line quote cs, c => feedLine quote cs c
  | block quote quotes, c => feedBlock quote quotes c
  | blockCarriage quote, c => if c = '\n' then ([], block quote 0) else fault
  | escape cs, c =>
    match Token.codeLength? c, Token.escaped? c with
    | some n, _ => ([], code cs n 0)
    | none, some e => ([], resume cs e)
    | none, none =>
      if cs.isSome then fault
      else if Token.isBlank c then ([], fold false)
      else if c = '\n' then ([], fold true)
      else if c = '\r' then ([], foldCarriage)
      else fault
  | code cs left value, c =>
    match Json.Token.hexValue? c with
    | none => fault
    | some d =>
      let value := value * 16 + d
      if 1 < left then ([], code cs (left - 1) value)
      else if value.isValidChar then ([], resume cs (Char.ofNat value))
      else fault
  | fold ended, c =>
    if c = '\n' then ([], fold true)
    else if c = '\r' then ([], foldCarriage)
    else if Token.isBlank c then ([], fold ended)
    else if ended then feedBlock '"' 0 c
    else fault
  | foldCarriage, c => if c = '\n' then ([], fold true) else fault
  | stuck, _ => ([], stuck)

/-- What the end of the file completes. -/
def finish : Scan → List Token
  | between => []
  | blank single => [.blank single]
  | atom cs => [.atom cs.reverse]
  | comment => []
  | opening _ true => [.text ""]
  | block _ quotes => if 3 ≤ quotes then [.block] else [.illegal]
  | stuck => []
  | _ => [.illegal]

/-- The tokens of a file for a scanner that is already under way. -/
def run : Scan → List Char → List Token
  | s, [] => s.finish
  | s, c :: cs => (s.feed c).1 ++ run (s.feed c).2 cs

end Scan

/-- The tokens of a file, behind the mark that may stand in front of it. -/
def Token.scan : List Char → List Token
  | '\ufeff' :: cs => Scan.run .between cs
  | cs => Scan.run .between cs

end Trellis.Toml
