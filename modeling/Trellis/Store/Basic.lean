import Trellis.Store.Path

/-!
# Files in folders

A store is a folder with files and folders in it, each at its place.  A path leads to a place when
every step but the last ends at a folder, and the last too where the path goes on with a slash.  A
file is replaced as a whole, behind folders that are made where they are missing; folders stay where
the file then cannot be replaced.
-/

namespace Trellis

/-- What stands at a place. -/
inductive Store.Entry where
  | file (content : ByteArray)
  | folder

/-- The entries by place; the folder itself and those around it are always there. -/
structure Store where
  entries : List (Store.Place × Store.Entry)

namespace Store

/-- The store without files. -/
def empty : Store := ⟨[]⟩

/-- What stands at a place. -/
def find? (s : Store) (place : Place) : Option Entry :=
  if place.isAround then some .folder else s.entries.lookup place

/-- A folder stands there. -/
def isFolder (s : Store) (place : Place) : Bool :=
  match s.find? place with
  | some .folder => true
  | _ => false

/-- Nothing stands at the place any more. -/
def erase (s : Store) (place : Place) : Store := ⟨s.entries.filter fun e => e.1 != place⟩

/-- An entry put in the place of what stands there. -/
def put (s : Store) (place : Place) (entry : Entry) : Store :=
  ⟨(place, entry) :: (s.erase place).entries⟩

/-- The place that steps lead to, each made from a folder. -/
def walk? (s : Store) : Place → List Step → Option Place
  | place, [] => some place
  | place, step :: rest =>
    if s.isFolder place then (place.follow? step).bind fun next => s.walk? next rest else none

/-- The place that a path leads to; the empty path leads nowhere. -/
def resolve? (s : Store) (p : Path) : Option Place :=
  if p.text.isEmpty then none else s.walk? [] p.steps

/-- What a path leads to. -/
def get? (s : Store) (p : Path) : Option Entry := (s.resolve? p).bind s.find?

/-- The folders on the way, made where they are missing, and the place of the last; no place where a
file stands in the way or a name cannot be given. -/
def makeFolders (s : Store) : Place → List Step → Store × Option Place
  | place, [] => (s, some place)
  | place, step :: rest =>
    match place.follow? step with
    | none => (s, none)
    | some next =>
      match s.find? next with
      | none => (s.put next .folder).makeFolders next rest
      | some .folder => s.makeFolders next rest
      | some (.file _) => (s, none)

/-- The place in a folder for a file under the last name of a path. -/
def target? (s : Store) (folder : Place) (p : Path) : Option Place :=
  match p.steps.getLast? with
  | some (.into name) => (folder.follow? (.into name)).filter fun place => !s.isFolder place
  | _ => none

/-- Why a file is not replaced. -/
inductive Failure where
  /-- The folder for it is not there and cannot be made. -/
  | noFolder (path : String)
  /-- No file can have its name there. -/
  | notReplaced (path : String)
  deriving DecidableEq, Repr

/-- The file that a path leads to holds this from now on. -/
def save (s : Store) (p : Path) (content : ByteArray) : Store × Except Failure Unit :=
  match s.makeFolders [] p.parent.steps with
  | (s, none) => (s, .error (.noFolder p.parent.text))
  | (s, some folder) =>
    match s.target? folder p with
    | none => (s, .error (.notReplaced p.text))
    | some place => (s.put place (.file content), .ok ())

/-- The file that a path leads to is gone. -/
def remove (s : Store) (p : Path) : Store :=
  match s.resolve? p with
  | some place => if s.isFolder place then s else s.erase place
  | none => s

/-- The text of a file, none where there is no file or it holds no text. -/
def text? (s : Store) (p : Path) : Option String :=
  match s.get? p with
  | some (.file content) => String.fromUTF8? content
  | _ => none

/-- Everything in the folder, in order, with a slash behind what is a folder. -/
def list (s : Store) : List String :=
  let inside := s.entries.filter fun e => e.1.head? != some ".."
  (inside.map fun (place, entry) =>
    "/".intercalate place ++ (match entry with | .folder => "/" | .file _ => "")).mergeSort

theorem walk?_nil (s : Store) (place : Place) : s.walk? place [] = some place := rfl

theorem walk?_cons (s : Store) (place : Place) (step : Step) (rest : List Step) :
    s.walk? place (step :: rest) =
      if s.isFolder place then (place.follow? step).bind fun next => s.walk? next rest
      else none := rfl

end Store

end Trellis
