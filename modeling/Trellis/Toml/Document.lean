import Trellis.Toml.Scalar
import Trellis.Toml.Table
import Trellis.Toml.Token

/-!
# Reading a table file

The reader is a machine over tokens that yields one statement for each header and each assignment.
Its state lists the arrays and braces that are open around it.  Lines may end anywhere inside these
but in a key, and a comma may stand behind the last item.
-/

namespace Trellis.Toml

/-- What a key is read for. -/
inductive Purpose where
  | table
  | nextTable
  | assignment

/-- What is open around a value. -/
inductive Frame where
  | statement (path : List String) (key : String)
  | array (items : List Item)
  | braces (entries : Entries) (path : List String) (key : String)

/-- What the reader is waiting for; parts of a key are held last part first. -/
inductive State where
  | lineStart
  | lineEnd
  /-- Behind the bracket that opens a header. -/
  | header
  /-- A part of a key. -/
  | part (purpose : Purpose) (parts : List String)
  /-- A dot, or what ends the key. -/
  | behindPart (purpose : Purpose) (part : String) (parts : List String)
  /-- The second bracket that ends a repeated header. -/
  | closing (path : List String) (key : String)
  | value (around : List Frame)
  /-- An item, or the end of the array. -/
  | item (items : List Item) (around : List Frame)
  | behindItem (items : List Item) (around : List Frame)
  /-- A key, or the end of the braces. -/
  | member (entries : Entries) (around : List Frame)
  /-- A part of a key between braces. -/
  | memberPart (entries : Entries) (parts : List String) (around : List Frame)
  | behindMemberPart (entries : Entries) (part : String) (parts : List String)
    (around : List Frame)
  /-- Behind a key between braces and the end of its line. -/
  | equals (entries : Entries) (path : List String) (key : String) (around : List Frame)
  | behindMember (entries : Entries) (around : List Frame)
  /-- In a run of plain characters. -/
  | scalar (cs : List Char) (around : List Frame)
  /-- Behind a date and a single space. -/
  | behindDate (cs : List Char) (around : List Frame)

namespace State

/-- The most arrays and braces that may be open at once, and the most parts of a key. -/
def maxDepth : Nat := 80

/-- What a step yields: the next state and perhaps a statement. -/
abbrev Outcome := Option (State × List Statement)

def goOn (s : State) : Outcome := some (s, [])

/-- A value is complete: it takes its place in what is open around it. -/
def deliver (item : Item) : List Frame → Outcome
  | [.statement path key] => some (lineEnd, [.assign path key item])
  | .array items :: around => goOn (behindItem (item :: items) around)
  | .braces entries path key :: around =>
    (entries.assign path key item).bind fun entries => goOn (behindMember entries around)
  | _ => none

/-- The part of a key that a token spells. -/
def part? : Token → Option String
  | .atom cs =>
    if cs.all fun c => c.isAlphanum || c = '_' || c = '-' then some (String.ofList cs) else none
  | .text s => some s
  | _ => none

/-- A token that begins a value. -/
def begin (around : List Frame) : Token → Outcome
  | .text _ => deliver .text around
  | .block => deliver .text around
  | .atom cs => goOn (scalar cs around)
  | .openSquare => if around.length ≤ maxDepth then goOn (item [] around) else none
  | .openCurly => if around.length ≤ maxDepth then goOn (member [] around) else none
  | _ => none

/-- What ends a key. -/
def endKey (path : List String) (key : String) : Purpose → Token → Outcome
  | .table, .closeSquare => some (lineEnd, [.openTable path key])
  | .nextTable, .closeSquare => goOn (closing path key)
  | .assignment, .equals => goOn (value [.statement path key])
  | _, _ => none

/-- What ends a key between braces. -/
def endMemberKey (entries : Entries) (path : List String) (key : String) (around : List Frame) :
    Token → Outcome
  | .equals => goOn (value (.braces entries path key :: around))
  | .blank _ => goOn (equals entries path key around)
  | .newline => goOn (equals entries path key around)
  | _ => none

/-- The line may end before a value: that is so between braces. -/
def mayBreak : List Frame → Bool
  | .braces .. :: _ => true
  | _ => false

/-- The parts in front of the last one of a key, if these are not too many. -/
def path? (parts : List String) : Option (List String) :=
  if parts.length < maxDepth then some parts.reverse else none

/-- One more token, outside a run of plain characters. -/
def next : State → Token → Outcome
  | lineStart, .newline => goOn lineStart
  | lineStart, .blank _ => goOn lineStart
  | lineStart, .openSquare => goOn header
  | lineStart, t => (part? t).bind fun p => goOn (behindPart .assignment p [])
  | lineEnd, .newline => goOn lineStart
  | lineEnd, .blank _ => goOn lineEnd
  | lineEnd, _ => none
  | header, .openSquare => goOn (part .nextTable [])
  | header, .blank _ => goOn (part .table [])
  | header, t => (part? t).bind fun p => goOn (behindPart .table p [])
  | part purpose parts, .blank _ => goOn (part purpose parts)
  | part purpose parts, t => (part? t).bind fun p => goOn (behindPart purpose p parts)
  | behindPart purpose p parts, .blank _ => goOn (behindPart purpose p parts)
  | behindPart purpose p parts, .dot => goOn (part purpose (p :: parts))
  | behindPart purpose p parts, t => (path? parts).bind fun path => endKey path p purpose t
  | closing path key, .closeSquare => some (lineEnd, [.openNext path key])
  | closing _ _, _ => none
  | value around, .blank _ => goOn (value around)
  | value around, .newline => if mayBreak around then goOn (value around) else none
  | value around, t => begin around t
  | item items around, .blank _ => goOn (item items around)
  | item items around, .newline => goOn (item items around)
  | item items around, .closeSquare => deliver (.array items.reverse) around
  | item items around, t => begin (.array items :: around) t
  | behindItem items around, .blank _ => goOn (behindItem items around)
  | behindItem items around, .newline => goOn (behindItem items around)
  | behindItem items around, .comma => goOn (item items around)
  | behindItem items around, .closeSquare => deliver (.array items.reverse) around
  | behindItem _ _, _ => none
  | member entries around, .blank _ => goOn (member entries around)
  | member entries around, .newline => goOn (member entries around)
  | member entries around, .closeCurly => deliver (.table .braces entries) around
  | member entries around, t =>
    (part? t).bind fun p => goOn (behindMemberPart entries p [] around)
  | memberPart entries parts around, .blank _ => goOn (memberPart entries parts around)
  | memberPart entries parts around, t =>
    (part? t).bind fun p => goOn (behindMemberPart entries p parts around)
  | behindMemberPart entries p parts around, .blank _ =>
    goOn (behindMemberPart entries p parts around)
  | behindMemberPart entries p parts around, .dot => goOn (memberPart entries (p :: parts) around)
  | behindMemberPart entries p parts around, t =>
    (path? parts).bind fun path => endMemberKey entries path p around t
  | equals entries path key around, t => endMemberKey entries path key around t
  | behindMember entries around, .blank _ => goOn (behindMember entries around)
  | behindMember entries around, .newline => goOn (behindMember entries around)
  | behindMember entries around, .comma => goOn (member entries around)
  | behindMember entries around, .closeCurly => deliver (.table .braces entries) around
  | behindMember _ _, _ => none
  | scalar .., _ => none
  | behindDate .., _ => none

/-- The run of plain characters is complete. -/
def endScalar (cs : List Char) (around : List Frame) : Outcome :=
  (Scalar.item? cs).bind fun item => deliver item around

/-- A further token behind a complete run. -/
def nextBehind (o : Outcome) (t : Token) : Outcome :=
  o.bind fun (s, done) => (next s t).map fun (s, more) => (s, done ++ more)

/-- One more token. -/
def step : State → Token → Outcome
  | scalar cs around, .atom more => goOn (scalar (cs ++ more) around)
  | scalar cs around, .dot => goOn (scalar (cs ++ ['.']) around)
  | scalar cs around, .blank true =>
    if Moment.behindDate? cs == some [] then goOn (behindDate cs around)
    else nextBehind (endScalar cs around) (.blank true)
  | scalar cs around, t => nextBehind (endScalar cs around) t
  | behindDate cs around, .atom more =>
    if (more.head?.map Char.isDigit).getD false then goOn (scalar (cs ++ ' ' :: more) around)
    else none
  | behindDate cs around, t => nextBehind (endScalar cs around) t
  | s, t => next s t

/-- What the end of the file completes. -/
def finish : State → Option (List Statement)
  | lineStart => some []
  | lineEnd => some []
  | scalar cs around => (endScalar cs around).bind ended
  | behindDate cs around => (endScalar cs around).bind ended
  | _ => none
where
  ended : State × List Statement → Option (List Statement)
    | (lineEnd, done) => some done
    | _ => none

/-- The statements of the tokens from a state on. -/
def run : State → List Token → Option (List Statement)
  | s, [] => s.finish
  | s, t :: ts => (s.step t).bind fun (s, done) => (run s ts).map (done ++ ·)

end State

/-- The statements of a file. -/
def statements? (cs : List Char) : Option (List Statement) := State.run .lineStart (Token.scan cs)

/-- The table that a file describes. -/
def read? (cs : List Char) : Option Entries :=
  (statements? cs).bind fun statements => (Draft.addAll {} statements).map Draft.entries

end Trellis.Toml
