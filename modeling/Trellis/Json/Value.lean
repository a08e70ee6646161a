import Trellis.Json.Doc

/-!
# Values

A value is what a syntax tree says: every string has its text, every number is a natural number, a
negative integer or a double.  A whole numeral that fits sixty-four bits is an integer; every other
numeral, negative zero included, is a double, and one that exceeds all doubles has no value.  Of
repeated keys the last one counts.
-/

namespace Trellis.Json

inductive Number where
  | natural (n : Nat)
  /-- The number `-n`. -/
  | negative (n : Nat)
  | float (x : Float)
  deriving DecidableEq, Repr

namespace Number

/-- The number that a numeral stands for. -/
def ofNumeral? (n : Numeral) : Option Number :=
  let size := Numeral.value n.whole
  if n.isWhole ∧ ¬ n.negative ∧ size < Numeral.bound then some (natural size)
  else if n.isWhole ∧ n.negative ∧ 0 < size ∧ size ≤ 0x8000000000000000 then some (negative size)
  else n.toFloat?.map float

/-- The number as a double. -/
def toFloat : Number → Float
  | natural n => Float.ofNat n
  | negative n => -Float.ofNat n
  | float x => x

end Number

inductive Value where
  | null
  | bool (b : Bool)
  | number (n : Number)
  | string (s : String)
  | array (items : List Value)
  | object (members : List (String × Value))
  deriving Repr

namespace Value

/-- The deepest nesting that a value is read with. -/
def maxDepth : Nat := 127

mutual

/-- The value that a syntax tree stands for. -/
def ofDoc? : Doc → Option Value
  | .null => some .null
  | .bool b => some (.bool b)
  | .number n => (Number.ofNumeral? n).map .number
  | .string s => s.map .string
  | .array items => (ofItems? items).map .array
  | .object members => (ofMembers? members).map .object

def ofItems? : List Doc → Option (List Value)
  | [] => some []
  | d :: ds => (ofDoc? d).bind fun v => (ofItems? ds).map (v :: ·)

def ofMembers? : List (Key × Doc) → Option (List (String × Value))
  | [] => some []
  | (k, d) :: ds =>
    k.bind fun k => (ofDoc? d).bind fun v => (ofMembers? ds).map ((k, v) :: ·)

end

/-- The value of a text with at most `limit` open levels. -/
def readWithin? (limit : Option Nat) (cs : List Char) : Option Value :=
  match Doc.read limit cs with
  | .ok d => ofDoc? d
  | .error _ => none

/-- The value of a text. -/
def read? (cs : List Char) : Option Value := readWithin? (some maxDepth) cs

mutual

/-- How deeply arrays and objects are nested. -/
def depth : Value → Nat
  | array items => depthItems items + 1
  | object members => depthMembers members + 1
  | _ => 0

def depthItems : List Value → Nat
  | [] => 0
  | v :: vs => max (depth v) (depthItems vs)

def depthMembers : List (String × Value) → Nat
  | [] => 0
  | (_, v) :: ms => max (depth v) (depthMembers ms)

end

/-- The value under a key, the last one where the key is repeated. -/
def lookup (members : List (String × Value)) (key : String) : Option Value :=
  match members with
  | [] => none
  | (k, v) :: rest => (lookup rest key).or (if k = key then some v else none)

/-- The member of an object. -/
def get? (v : Value) (key : String) : Option Value :=
  match v with
  | object members => lookup members key
  | _ => none

def asString? : Value → Option String
  | string s => some s
  | _ => none

def asBool? : Value → Option Bool
  | bool b => some b
  | _ => none

/-- A number in any spelling. -/
def asFloat? : Value → Option Float
  | number n => some n.toFloat
  | _ => none

/-- A natural number of at most sixty-four bits. -/
def asNat? : Value → Option Nat
  | number (.natural n) => some n
  | _ => none

/-- A natural number of at most thirty-two bits. -/
def asWord? : Value → Option UInt32
  | number (.natural n) => if n < 0x100000000 then some (UInt32.ofNat n) else none
  | _ => none

def asArray? : Value → Option (List Value)
  | array items => some items
  | _ => none

/-- Every item read in the same way. -/
def asList? (read : Value → Option α) (v : Value) : Option (List α) :=
  v.asArray?.bind fun items => items.mapM read

/-- A member that must be there. -/
def field? (v : Value) (key : String) (read : Value → Option α) : Option α :=
  (v.get? key).bind read

/-- The only field of a document, under its key or alone in an array. -/
def soleField? (v : Value) (key : String) (read : Value → Option α) : Option α :=
  match v with
  | array [w] => read w
  | array _ => none
  | v => v.field? key read

/-- A member that stands for `absent` where it is missing. -/
def fieldOr? (v : Value) (key : String) (absent : α) (read : Value → Option α) : Option α :=
  match v.get? key with
  | none => some absent
  | some w => read w

/-- A member that may be missing or null. -/
def fieldIfAny? (v : Value) (key : String) (read : Value → Option α) : Option (Option α) :=
  match v.get? key with
  | none => some none
  | some .null => some none
  | some w => (read w).map some

end Value

end Trellis.Json
