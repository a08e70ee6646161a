import Trellis.Json.Token

/-!
# Syntax trees

A syntax tree keeps all that a text says: numerals as written, repeated keys, and strings that have
no text.  The reader is a machine over tokens.  Its state lists the arrays and objects that are open
around it, so the number of open levels is a length, and a limit on it is one comparison made where
a level opens.
-/

namespace Trellis.Json

/-- The key of a member, with no text where half of a surrogate pair is left over. -/
abbrev Key := Option String

inductive Doc where
  | null
  | bool (b : Bool)
  | number (n : Numeral)
  | string (text : Option String)
  | array (items : List Doc)
  | object (members : List (Key × Doc))
  deriving Repr

namespace Doc

/-- A container around the reader, with what it holds so far, the last first. -/
inductive Frame where
  | array (items : List Doc)
  | object (members : List (Key × Doc)) (key : Key)
  deriving Repr

/-- What the reader is waiting for. -/
inductive State where
  /-- A value. -/
  | value (around : List Frame)
  /-- The first item of an array, or its end. -/
  | firstItem (around : List Frame)
  /-- The first key of an object, or its end. -/
  | firstKey (around : List Frame)
  /-- A further key. -/
  | key (members : List (Key × Doc)) (around : List Frame)
  /-- The colon behind a key. -/
  | colon (members : List (Key × Doc)) (key : Key) (around : List Frame)
  /-- A comma behind an item, or the end of the array. -/
  | afterItem (items : List Doc) (around : List Frame)
  /-- A comma behind a member, or the end of the object. -/
  | afterMember (members : List (Key × Doc)) (around : List Frame)
  /-- Nothing more. -/
  | done (doc : Doc)
  deriving Repr

namespace State

/-- The number of arrays and objects that are open. -/
def level : State → Nat
  | value around => around.length
  | firstItem around => around.length + 1
  | firstKey around => around.length + 1
  | key _ around => around.length + 1
  | colon _ _ around => around.length + 1
  | afterItem _ around => around.length + 1
  | afterMember _ around => around.length + 1
  | done _ => 0

/-- A value is complete: it takes its place in the container around it. -/
def deliver (d : Doc) : List Frame → State
  | [] => done d
  | .array items :: around => afterItem (d :: items) around
  | .object members k :: around => afterMember ((k, d) :: members) around

end State

/-- Why a text is not read. -/
inductive Fault where
  /-- A token that cannot stand where it does. -/
  | misplaced
  /-- A level more than the limit allows. -/
  | tooDeep
  /-- The text ends inside a value. -/
  | unfinished
  deriving DecidableEq, Repr

/-- Whether one more level may open around `n` open ones. -/
def roomB (limit : Option Nat) (n : Nat) : Bool :=
  match limit with
  | none => true
  | some most => decide (n < most)

/-- A token that begins a value. -/
def begin (limit : Option Nat) (around : List Frame) : Token → Except Fault State
  | .null => .ok (.deliver .null around)
  | .bool b => .ok (.deliver (.bool b) around)
  | .number n => .ok (.deliver (.number n) around)
  | .string s => .ok (.deliver (.string s) around)
  | .openArray => if roomB limit around.length then .ok (.firstItem around) else .error .tooDeep
  | .openObject => if roomB limit around.length then .ok (.firstKey around) else .error .tooDeep
  | _ => .error .misplaced

/-- One more token. -/
def step (limit : Option Nat) : State → Token → Except Fault State
  | .value around, t => begin limit around t
  | .firstItem around, .closeArray => .ok (.deliver (.array []) around)
  | .firstItem around, t => begin limit (.array [] :: around) t
  | .firstKey around, .closeObject => .ok (.deliver (.object []) around)
  | .firstKey around, .string k => .ok (.colon [] k around)
  | .key members around, .string k => .ok (.colon members k around)
  | .colon members k around, .colon => .ok (.value (.object members k :: around))
  | .afterItem items around, .comma => .ok (.value (.array items :: around))
  | .afterItem items around, .closeArray => .ok (.deliver (.array items.reverse) around)
  | .afterMember members around, .comma => .ok (.key members around)
  | .afterMember members around, .closeObject => .ok (.deliver (.object members.reverse) around)
  | _, _ => .error .misplaced

/-- All tokens in order, from a given state. -/
def steps (limit : Option Nat) : State → List Token → Except Fault State
  | s, [] => .ok s
  | s, t :: ts => (step limit s t).bind fun s => steps limit s ts

/-- The tree of a finished reading. -/
def finish : State → Except Fault Doc
  | .done d => .ok d
  | _ => .error .unfinished

/-- The syntax tree of a text with at most `limit` open levels. -/
def read (limit : Option Nat) (cs : List Char) : Except Fault Doc :=
  (steps limit (.value []) (Token.scan cs)).bind finish

theorem steps_nil (limit : Option Nat) (s : State) : steps limit s [] = .ok s := rfl

theorem steps_cons (limit : Option Nat) (s : State) (t : Token) (ts : List Token) :
    steps limit s (t :: ts) = (step limit s t).bind fun s => steps limit s ts := rfl

end Doc

end Trellis.Json
