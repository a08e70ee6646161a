import Trellis.Toml.Item

/-!
# Building tables

Nothing is defined twice.  A header opens a table that is new or has only been part of a longer
header; a repeated header adds a table to a list; a dotted key adds to tables that dotted keys have
made, on a way that headers may have implied; a table between braces is complete.
-/

namespace Trellis.Toml

namespace Entries

/-- The item of a key. -/
def find? (entries : Entries) (key : String) : Option Item := entries.lookup key

/-- An item put in the place of the key, or at the end. -/
def put (entries : Entries) (key : String) (item : Item) : Entries :=
  match entries with
  | [] => [(key, item)]
  | (k, old) :: rest => if k = key then (k, item) :: rest else (k, old) :: put rest key item

/-- A change of the entries under a path of dotted keys.  The last key of the path stands for a
table that dotted keys have made; the others may also stand for what headers have only implied and
for the open one of repeated tables. -/
def underDotted (change : Entries → Option Entries) : List String → Entries → Option Entries
  | [], entries => change entries
  | key :: path, entries =>
    match entries.find? key with
    | none => (underDotted change path []).map fun body => entries.put key (.table .dotted body)
    | some (.table .dotted body) =>
      (underDotted change path body).map fun body => entries.put key (.table .dotted body)
    | some (.table .implied body) =>
      if path.isEmpty then none
      else (underDotted change path body).map fun body => entries.put key (.table .implied body)
    | some (.tables (body :: bodies)) =>
      if path.isEmpty then none
      else (underDotted change path body).map fun body => entries.put key (.tables (body :: bodies))
    | some _ => none

/-- A new entry under a path of dotted keys. -/
def assign (entries : Entries) (path : List String) (key : String) (item : Item) : Option Entries :=
  underDotted (fun body => if (body.find? key).isSome then none else some (body.put key item))
    path entries

/-- A change of the entries under the path of a header. -/
def underHeader (change : Entries → Option Entries) : List String → Entries → Option Entries
  | [], entries => change entries
  | key :: path, entries =>
    match entries.find? key with
    | none => (underHeader change path []).map fun body => entries.put key (.table .implied body)
    | some (.table .braces _) => none
    | some (.table origin body) =>
      (underHeader change path body).map fun body => entries.put key (.table origin body)
    | some (.tables (body :: bodies)) =>
      (underHeader change path body).map fun body => entries.put key (.tables (body :: bodies))
    | some _ => none

/-- The table of a header is opened. -/
def openTable (entries : Entries) (path : List String) (key : String) : Option Entries :=
  underHeader (fun entries =>
    match entries.find? key with
    | none => some (entries.put key (.table .header []))
    | some (.table .implied body) => some (entries.put key (.table .header body))
    | some _ => none) path entries

/-- One more table of a repeated header is opened. -/
def openNext (entries : Entries) (path : List String) (key : String) : Option Entries :=
  underHeader (fun entries =>
    match entries.find? key with
    | none => some (entries.put key (.tables [[]]))
    | some (.tables bodies) => some (entries.put key (.tables ([] :: bodies)))
    | some _ => none) path entries

end Entries

/-- One line of a file that says something; the last part of each key stands apart. -/
inductive Statement where
  | openTable (path : List String) (key : String)
  | openNext (path : List String) (key : String)
  | assign (path : List String) (key : String) (item : Item)
  deriving Repr

/-- The entries so far and the path of the table that is open. -/
structure Draft where
  entries : Entries := []
  current : List String := []

namespace Draft

/-- One more statement. -/
def add (d : Draft) : Statement → Option Draft
  | .openTable path key =>
    (d.entries.openTable path key).map fun entries => ⟨entries, path ++ [key]⟩
  | .openNext path key =>
    (d.entries.openNext path key).map fun entries => ⟨entries, path ++ [key]⟩
  | .assign path key item =>
    (Entries.underHeader (fun body => body.assign path key item) d.current d.entries).map
      fun entries => ⟨entries, d.current⟩

/-- All statements in order. -/
def addAll : Draft → List Statement → Option Draft
  | d, [] => some d
  | d, s :: rest => (d.add s).bind fun d => addAll d rest

end Draft

end Trellis.Toml
