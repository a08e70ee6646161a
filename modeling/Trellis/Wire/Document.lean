import Trellis.Json.Print
import Trellis.Kind.Document
import Trellis.Wire.Schema
import Trellis.Wire.Validation

/-!
# Wire graphs as documents

A wire graph is written with one item a line and a final newline.  Reading a document has four
stages, and the first that fails is reported: the text, the schema, the fields, and the validation
for the vocabulary of the reader.
-/

namespace Trellis.Wire

open Json

/-- A list of tokens as numbers. -/
def tokensValue (tokens : List TokenId) : Value := .array (tokens.map .ofWord)

namespace Task

def members : Task → List (String × Value)
  | text evaluate tokens => [("evaluate", .bool evaluate), ("tokens", tokensValue tokens)]
  | choose choices threshold width =>
    [("choices", .array (choices.map tokensValue)), ("threshold", .ofFloat threshold),
      ("width", .ofWord width)]
  | complete c =>
    [("length", .ofWord c.length), ("stop", tokensValue c.stop),
      ("vocab", .array (c.vocab.bits.map .bool)), ("threshold", .ofFloat c.threshold),
      ("width", .ofWord c.width), ("beams", .ofWord c.beams), ("ahead", .ofWord c.ahead),
      ("diversity", .ofFloat c.diversity), ("repetition", .ofFloat c.repetition)]

/-- A list of token ids. -/
def tokensOf? : Value → Option (List TokenId) := Value.asList? Value.asWord?

/-- The task of a kind that the members of a record describe. -/
def ofMembers? (v : Value) : Kind → Option Task
  | .text => do
    let evaluate ← v.field? "evaluate" Value.asBool?
    let tokens ← v.field? "tokens" tokensOf?
    return .text evaluate tokens
  | .choose => do
    let choices ← v.field? "choices" (Value.asList? tokensOf?)
    let threshold ← v.field? "threshold" Value.asFloat?
    let width ← v.field? "width" Value.asWord?
    return .choose choices threshold width
  | .complete => do
    let length ← v.field? "length" Value.asWord?
    let stop ← v.field? "stop" tokensOf?
    let bits ← v.field? "vocab" (Value.asList? Value.asBool?)
    let threshold ← v.field? "threshold" Value.asFloat?
    let width ← v.field? "width" Value.asWord?
    let beams ← v.field? "beams" Value.asWord?
    let ahead ← v.field? "ahead" Value.asWord?
    let diversity ← v.field? "diversity" Value.asFloat?
    let repetition ← v.field? "repetition" Value.asFloat?
    return .complete
      { length, stop, vocab := ⟨bits⟩, threshold, width, beams, ahead, diversity, repetition }

end Task

namespace Record

def toValue (r : Record) : Value :=
  .object (("uid", .string r.uid) :: ("successors", .ofStrings r.successors)
    :: (Kind.key, .string r.kind.tag) :: r.task.members)

/-- The record that an object describes. -/
def ofValue? (v : Value) : Option Record := do
  let uid ← v.field? "uid" Value.asString?
  let successors ← v.field? "successors" (Value.asList? Value.asString?)
  let kind ← v.field? Kind.key Kind.ofValue?
  let task ← Task.ofMembers? v kind
  return { uid, successors, task }

end Record

def toValue (w : Wire) : Value := .object [("actions", .array (w.records.map Record.toValue))]

/-- The document of a wire graph. -/
def toJson (w : Wire) : List Char := w.toValue.pretty ++ ['\n']

/-- The wire graph that a value describes, checked for nothing. -/
def ofValue? (v : Value) : Option Wire :=
  (v.soleField? "actions" (Value.asList? Record.ofValue?)).map Wire.mk

/-- Why a document is not a wire graph for a vocabulary. -/
inductive LoadError where
  /-- The text is no document, or a field does not hold what it must. -/
  | unreadable
  /-- The document does not meet the schema. -/
  | schema
  | defect (d : Defect)
  deriving DecidableEq, Repr

/-- The wire graph that a value describes for a vocabulary of this size. -/
def ofValue (v : Value) (vocabSize : Nat) : Except LoadError Wire :=
  if Schema.isDocument v then
    match ofValue? v with
    | none => .error .unreadable
    | some w =>
      match w.validate vocabSize with
      | .error d => .error (.defect d)
      | .ok () => .ok w
  else .error .schema

/-- The wire graph that a text describes for a vocabulary of this size. -/
def ofJson (cs : List Char) (vocabSize : Nat) : Except LoadError Wire :=
  match Value.read? cs with
  | none => .error .unreadable
  | some v => ofValue v vocabSize

end Trellis.Wire
