/-!
# Paths

A path is written as names between slashes and followed one step at a time.  An empty name and a
point stay where they are, two points go out of a folder, and every other name goes to what has that
name in it.  The path to the folder of something drops its last step; what only stays behind a name
is not part of it.
-/

namespace Trellis.Store

/-- One step of a path. -/
inductive Step where
  | stay
  | out
  | into (name : String)
  deriving DecidableEq, Repr

/-- A path as it is written. -/
structure Path where
  text : String
  deriving DecidableEq, Repr

/-- Where something stands: the names on the way to it from the folder of the store.  Names of two
points, all in front, lead out of that folder. -/
abbrev Place := List String

namespace Step

/-- The step that a name between slashes stands for. -/
def ofName (name : String) : Step :=
  if name = "" ∨ name = "." then stay
  else if name = ".." then out
  else into name

end Step

namespace Place

/-- The folder of the store, or one that it lies in. -/
def isAround (place : Place) : Bool := place.all fun name => name == ".."

/-- The most bytes of a name. -/
def maxName : Nat := 255

/-- A step from a folder, none where no such name can be given. -/
def follow? (place : Place) : Step → Option Place
  | .stay => some place
  | .out => some (if place.isAround then place ++ [".."] else place.dropLast)
  | .into name =>
    if name.utf8ByteSize ≤ maxName ∧ '\x00' ∉ name.toList then some (place ++ [name]) else none

end Place

namespace Path

/-- The runs of characters between slashes. -/
def split : List Char → List (List Char)
  | [] => [[]]
  | c :: cs =>
    if c = '/' then [] :: split cs
    else match split cs with
      | [] => [[c]]
      | name :: rest => (c :: name) :: rest

/-- The names between the slashes. -/
def names (p : Path) : List String := (split p.text.toList).map String.ofList

/-- The steps of a path. -/
def steps (p : Path) : List Step := p.names.map Step.ofName

/-- The names up to the last one that goes anywhere; the first is kept. -/
def trim : List String → List String
  | [] => []
  | first :: rest => first :: (rest.reverse.dropWhile fun name => Step.ofName name == .stay).reverse

/-- The path to the folder of what a path leads to, a point where nothing is left. -/
def parent (p : Path) : Path :=
  let text := "/".intercalate (trim (trim p.names).dropLast)
  ⟨if text.isEmpty then "." else text⟩

end Path

end Trellis.Store
