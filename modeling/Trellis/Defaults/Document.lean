import Trellis.Decimal.Layout
import Trellis.Defaults.Basic
import Trellis.Toml.Document

/-!
# Defaults as a table file

A table is written with one section for each kind of action and one line for each field.  A file may
leave out any of them, may give them in any order and may hold other keys; a section may also be the
list of its fields in order.  An integer is good for a double, but not the other way round.  What
stands under other keys must have a value, what stands behind the last field of a list need not.
-/

namespace Trellis

open Toml

namespace Defaults

/-- Doubles are positional and always show that they are doubles. -/
def layout : Layout where
  positional _ := true
  wholePoint := true
  nan := ['n', 'a', 'n']
  infinity := ['i', 'n', 'f']

/-- The fields of a section in order. -/
def fieldKeys : Kind → List String
  | .text => ["evaluate"]
  | .choose => ["threshold", "width"]
  | .complete => ["threshold", "width", "beams", "ahead", "diversity", "repetition"]

/-- The entries under other keys than these have a value. -/
def othersHaveValue (keys : List String) (entries : Entries) : Bool :=
  Item.entryValues (entries.filter fun e => !keys.contains e.1)

/-- The fields of a section by key. -/
structure Section where
  field? : String → Option Item

namespace Section

/-- A section that says nothing. -/
def empty : Section := ⟨fun _ => none⟩

/-- The section of items for some keys in order. -/
def ofList (keys : List String) (items : List Item) : Section :=
  ⟨fun key => (keys.idxOf? key).bind fun place => items[place]?⟩

/-- The section with these keys that an item describes. -/
def ofItem? (keys : List String) : Item → Option Section
  | .table _ entries => if othersHaveValue keys entries then some ⟨Entries.find? entries⟩ else none
  | .array items => some (ofList keys items)
  | .tables bodies => some (ofList keys (bodies.reverse.map (.table .header)))
  | .moment => some empty
  | _ => none

/-- A field, or what stands for it where it is missing. -/
def get? (s : Section) (key : String) (absent : α) (read : Item → Option α) : Option α :=
  match s.field? key with
  | none => some absent
  | some item => read item

end Section

def readBool? : Item → Option Bool
  | .bool b => some b
  | _ => none

/-- A double, or an integer of sixty-four bits as one. -/
def readFloat? : Item → Option Float
  | .float x => some x
  | .integer n =>
    if -0x8000000000000000 ≤ n ∧ n < 0x10000000000000000 then some (Float.ofInt n) else none
  | _ => none

/-- A natural number of thirty-two bits. -/
def readWord? : Item → Option UInt32
  | .integer n => if 0 ≤ n ∧ n < 0x100000000 then some (.ofNat n.toNat) else none
  | _ => none

/-- The section of a kind, empty where the file has none. -/
def section? (entries : Entries) (kind : Kind) : Option Section :=
  match entries.find? kind.tag with
  | none => some .empty
  | some item => Section.ofItem? (fieldKeys kind) item

/-- The table that sections describe, with the built-in one behind it. -/
def ofSections? (text choose complete : Section) : Option Defaults := do
  let d := builtIn
  let evaluate ← text.get? "evaluate" d.text.evaluate readBool?
  let chooseThreshold ← choose.get? "threshold" d.choose.threshold readFloat?
  let chooseWidth ← choose.get? "width" d.choose.width readWord?
  let threshold ← complete.get? "threshold" d.complete.threshold readFloat?
  let width ← complete.get? "width" d.complete.width readWord?
  let beams ← complete.get? "beams" d.complete.beams readWord?
  let ahead ← complete.get? "ahead" d.complete.ahead readWord?
  let diversity ← complete.get? "diversity" d.complete.diversity readFloat?
  let repetition ← complete.get? "repetition" d.complete.repetition readFloat?
  return {
    text := { evaluate }
    choose := { threshold := chooseThreshold, width := chooseWidth }
    complete := { threshold, width, beams, ahead, diversity, repetition } }

/-- The table that the entries of a file describe. -/
def ofEntries? (entries : Entries) : Option Defaults := do
  let text ← section? entries .text
  let choose ← section? entries .choose
  let complete ← section? entries .complete
  if othersHaveValue (Kind.all.map Kind.tag) entries then ofSections? text choose complete
  else none

/-- The table that a file describes. -/
def ofToml? (cs : List Char) : Option Defaults := (read? cs).bind ofEntries?

/-- The header of a section. -/
def headerLine (kind : Kind) : List Char := '[' :: (kind.tag.toList ++ [']', '\n'])

/-- A field with its value. -/
def fieldLine (key : String) (value : List Char) : List Char :=
  key.toList ++ [' ', '=', ' '] ++ value ++ ['\n']

def boolText (b : Bool) : List Char :=
  if b then ['t', 'r', 'u', 'e'] else ['f', 'a', 'l', 's', 'e']

def wordText (w : UInt32) : List Char := Layout.digits w.toNat

/-- The file of a table; each section ends with an empty line. -/
def toToml (d : Defaults) : List Char :=
  headerLine .text
    ++ fieldLine "evaluate" (boolText d.text.evaluate)
    ++ '\n' :: headerLine .choose
    ++ fieldLine "threshold" (layout.floatText d.choose.threshold)
    ++ fieldLine "width" (wordText d.choose.width)
    ++ '\n' :: headerLine .complete
    ++ fieldLine "threshold" (layout.floatText d.complete.threshold)
    ++ fieldLine "width" (wordText d.complete.width)
    ++ fieldLine "beams" (wordText d.complete.beams)
    ++ fieldLine "ahead" (wordText d.complete.ahead)
    ++ fieldLine "diversity" (layout.floatText d.complete.diversity)
    ++ fieldLine "repetition" (layout.floatText d.complete.repetition)
    ++ ['\n']

end Defaults

end Trellis
