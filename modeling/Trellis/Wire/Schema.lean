import Trellis.Decimal.Basic
import Trellis.Kind.Document

/-!
# The schema of wire documents

The schema is checked on the value, before anything is decoded.  A whole number counts as an integer
however it is written, and a field is judged only where it is present; the fields that must be
present are listed for each kind.  Fields that the schema does not name may hold anything.
-/

namespace Trellis.Wire.Schema

open Json

/-- A double without a fractional part. -/
def isWhole (x : Float) : Bool :=
  x.isFinite && Binary.units (Binary.magnitudeBits x) % twoTo 1074 == 0

/-- A number without a fractional part that is not below `least`. -/
def integerFrom (least : Nat) : Value → Bool
  | .number (.natural n) => decide (least ≤ n)
  | .number (.negative _) => false
  | .number (.float x) => isWhole x && decide (Float.ofNat least ≤ x)
  | _ => false

def isNumber : Value → Bool
  | .number _ => true
  | _ => false

def isBool : Value → Bool
  | .bool _ => true
  | _ => false

def isString : Value → Bool
  | .string _ => true
  | _ => false

/-- A string with at least one character. -/
def isNonempty : Value → Bool
  | .string s => !s.isEmpty
  | _ => false

/-- A number from zero to one. -/
def isThreshold : Value → Bool
  | .number (.natural n) => decide (n ≤ 1)
  | .number (.negative _) => false
  | .number (.float x) => decide (0.0 ≤ x) && decide (x ≤ 1.0)
  | _ => false

/-- An array of which every item passes. -/
def arrayOf (item : Value → Bool) : Value → Bool
  | .array items => items.all item
  | _ => false

/-- A list of token ids. -/
def isTokens : Value → Bool := arrayOf (integerFrom 0)

/-- A count of at least one. -/
def isCount : Value → Bool := integerFrom 1

/-- The fields of a kind, each of which must be present and pass. -/
def fields : Kind → List (String × (Value → Bool))
  | .text => [("evaluate", isBool), ("tokens", isTokens)]
  | .choose => [("choices", arrayOf isTokens), ("threshold", isThreshold), ("width", isCount)]
  | .complete =>
    [("length", isCount), ("stop", isTokens), ("vocab", arrayOf isBool),
      ("threshold", isThreshold), ("width", isCount), ("beams", isCount),
      ("ahead", integerFrom 0), ("diversity", isNumber), ("repetition", isNumber)]

/-- A member that is present and passes. -/
def has (v : Value) (key : String) (test : Value → Bool) : Bool :=
  match v.get? key with
  | some w => test w
  | none => false

/-- A record: its uid, its successors, the tag of a kind and the fields of that kind. -/
def isRecord (v : Value) : Bool :=
  has v "uid" isNonempty && has v "successors" (arrayOf isString)
    && match (v.field? Kind.key Value.asString?).bind Kind.ofTag? with
      | some kind => (fields kind).all fun f => has v f.1 f.2
      | none => false

/-- A document: an object with the list of its records. -/
def isDocument (v : Value) : Bool := has v "actions" (arrayOf isRecord)

end Trellis.Wire.Schema
