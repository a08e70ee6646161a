import Trellis.Defaults.Document
import Trellis.Store.Basic

/-!
# Where defaults are kept

Defaults are kept in a file of a store.  Loading takes the built-in table where a path leads
nowhere; writing refuses a table that is not valid before anything is touched, and replaces the file
as a whole, so a write that fails leaves it as it was.
-/

namespace Trellis.Store

/-- Why defaults are not loaded or not written. -/
inductive Error where
  /-- No text can be read there. -/
  | notRead (path : String)
  /-- The text is no table. -/
  | notParsed (path : String)
  /-- The table in the file is not valid. -/
  | invalid (path : String) (f : Defaults.Fault)
  /-- The table to be written is not valid. -/
  | refused (f : Defaults.Fault)
  /-- The file cannot be replaced. -/
  | notSaved (f : Failure)
  deriving DecidableEq

namespace Error

/-- The message and the causes behind it that are told. -/
def messages : Error → String × List String
  | notRead path => (s!"read {path}", [])
  | notParsed path => (s!"parse {path}", [])
  | invalid path f => (s!"invalid defaults in {path}", [f.message])
  | refused f => (f.message, [])
  | notSaved (.noFolder path) => (s!"create directory {path}", [])
  | notSaved (.notReplaced path) => (s!"replace defaults {path}", [])

end Error

/-- The valid table that a text describes. -/
def parse (path : String) (text : String) : Except Error Defaults :=
  match Defaults.ofToml? text.toList with
  | none => .error (.notParsed path)
  | some d =>
    match d.validate with
    | .error f => .error (.invalid path f)
    | .ok () => .ok d

/-- The table in a file, the built-in one where there is nothing. -/
def load (s : Store) (p : Path) : Except Error Defaults :=
  match s.get? p with
  | none => .ok Defaults.builtIn
  | some .folder => .error (.notRead p.text)
  | some (.file content) =>
    match String.fromUTF8? content with
    | none => .error (.notRead p.text)
    | some text => parse p.text text

/-- A table written to a file, which takes the place of what was there. -/
def write (s : Store) (p : Path) (d : Defaults) : Store × Except Error Unit :=
  match d.validate with
  | .error f => (s, .error (.refused f))
  | .ok () =>
    let (s, outcome) := s.save p (String.ofList d.toToml).toUTF8
    (s, outcome.mapError .notSaved)

end Trellis.Store
