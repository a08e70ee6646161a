/-!
# Kinds of action

Each kind has a tag, and a number that is its place in `Kind.all`.
-/

namespace Trellis

/-- The kinds of action. -/
inductive Kind where
  | text
  | choose
  | complete
  deriving DecidableEq, Repr

namespace Kind

/-- The tag of a kind in documents. -/
def tag : Kind → String
  | text => "Text"
  | choose => "Choose"
  | complete => "Complete"

/-- The kinds in the order of their numbers. -/
def all : List Kind := [text, choose, complete]

/-- The kind with a tag. -/
def ofTag? (tag : String) : Option Kind := all.find? fun k => k.tag == tag

theorem ofTag?_tag (k : Kind) : ofTag? k.tag = some k := by cases k <;> decide

end Kind

end Trellis
