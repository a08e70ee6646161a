import Trellis.Graph.Violation
import Trellis.Json.Print
import Trellis.Kind.Document

/-!
# Graphs as documents

A graph is written as an object with the list of its actions; an action is one object that holds its
uid, its successors, a tag for its kind and the options that are set.

A document may also be the bare list of the actions inside an array, and a kind may be given by its
number.  Reading first looks for an action whose tag names no kind, so that this is reported with
its uid, and then takes the document apart and validates the graph.
-/

namespace Trellis

open Json

namespace Task

/-- The options that are set, each with its key. -/
def members : Task → List (String × Value)
  | text literal evaluate => ("text", .string literal) :: Value.ifSome "evaluate" .bool evaluate
  | choose choices threshold width =>
    ("choices", .ofStrings choices)
      :: (Value.ifSome "threshold" .ofFloat threshold ++ Value.ifSome "width" .ofWord width)
  | complete c =>
    Value.ifSome "length" .ofWord c.length
      ++ ("stop", .string c.stop)
      :: (Value.ifSome "threshold" .ofFloat c.threshold
        ++ Value.ifSome "width" .ofWord c.width
        ++ Value.ifSome "beams" .ofWord c.beams
        ++ Value.ifSome "ahead" .ofWord c.ahead
        ++ Value.ifSome "diversity" .ofFloat c.diversity
        ++ Value.ifSome "repetition" .ofFloat c.repetition)

/-- The task of a kind that the members of an action describe. -/
def ofMembers? (v : Value) : Kind → Option Task
  | .text => do
    let literal ← v.field? "text" Value.asString?
    let evaluate ← v.fieldIfAny? "evaluate" Value.asBool?
    return .text literal evaluate
  | .choose => do
    let choices ← v.field? "choices" (Value.asList? Value.asString?)
    let threshold ← v.fieldIfAny? "threshold" Value.asFloat?
    let width ← v.fieldIfAny? "width" Value.asWord?
    return .choose choices threshold width
  | .complete => do
    let length ← v.fieldIfAny? "length" Value.asWord?
    let stop ← v.fieldOr? "stop" "" Value.asString?
    let threshold ← v.fieldIfAny? "threshold" Value.asFloat?
    let width ← v.fieldIfAny? "width" Value.asWord?
    let beams ← v.fieldIfAny? "beams" Value.asWord?
    let ahead ← v.fieldIfAny? "ahead" Value.asWord?
    let diversity ← v.fieldIfAny? "diversity" Value.asFloat?
    let repetition ← v.fieldIfAny? "repetition" Value.asFloat?
    return .complete { length, stop, threshold, width, beams, ahead, diversity, repetition }

end Task

namespace Action

def toValue (a : Action) : Value :=
  .object (("uid", .string a.uid) :: ("successors", .ofStrings a.successors)
    :: (Kind.key, .string a.kind.tag) :: a.task.members)

/-- The action that an object describes. -/
def ofValue? (v : Value) : Option Action := do
  let uid ← v.field? "uid" Value.asString?
  let successors ← v.fieldOr? "successors" [] (Value.asList? Value.asString?)
  let kind ← v.field? Kind.key Kind.ofValue?
  let task ← Task.ofMembers? v kind
  return { uid, successors, task }

end Action

namespace Graph

/-- Why a document is not a valid graph. -/
inductive LoadError where
  /-- The text is no document of the right shape. -/
  | unreadable
  /-- A tag that names no kind. -/
  | unsupportedKind (uid tag : String)
  | violation (v : Violation)
  deriving DecidableEq

namespace LoadError

/-- The message; what is unreadable is described by whoever reads the text. -/
def message? : LoadError → Option String
  | unreadable => none
  | unsupportedKind uid tag => some s!"action '{uid}' has unsupported kind '{tag}'"
  | violation v => some v.message

def isConfiguration : LoadError → Bool
  | violation v => v.isConfiguration
  | _ => false

end LoadError

def toValue (g : Graph) : Value := .object [("actions", .array (g.actions.map Action.toValue))]

/-- The document of a graph. -/
def toJson (g : Graph) : List Char := g.toValue.compact

/-- An action whose tag is a string that names no kind. -/
def unsupported? (v : Value) : Option LoadError :=
  match v.field? Kind.key Value.asString? with
  | some tag =>
    if (Kind.ofTag? tag).isSome then none
    else some (.unsupportedKind ((v.field? "uid" Value.asString?).getD "<unknown>") tag)
  | none => none

/-- The first action of an object whose tag names no kind. -/
def firstUnsupported? (v : Value) : Option LoadError :=
  (v.field? "actions" Value.asArray?).bind fun items => items.findSome? unsupported?

/-- The actions of a document in either form. -/
def actionsOfValue? (v : Value) : Option (List Action) :=
  v.soleField? "actions" (Value.asList? Action.ofValue?)

/-- The valid graph that a value describes. -/
def ofValue (v : Value) : Except LoadError Graph :=
  match firstUnsupported? v with
  | some e => .error e
  | none =>
    match actionsOfValue? v with
    | none => .error .unreadable
    | some actions =>
      let g := ofActions actions
      match g.validate with
      | .error violation => .error (.violation violation)
      | .ok () => .ok g

/-- The valid graph that a text describes. -/
def ofJson (cs : List Char) : Except LoadError Graph :=
  match Value.read? cs with
  | none => .error .unreadable
  | some v => ofValue v

end Graph

end Trellis
