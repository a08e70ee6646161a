/-!
# Items of a table file

What a key can stand for.  A number can be well written and have no value, since it is too large or
has no digits that mean anything; such an item is a fault only where it is looked at.
-/

namespace Trellis.Toml

/-- How a table came to be, which decides what may be added to it. -/
inductive Origin where
  /-- By a header of its own; also the whole file. -/
  | header
  /-- As part of the path in a longer header. -/
  | implied
  /-- As part of a dotted key. -/
  | dotted
  /-- Between braces. -/
  | braces
  deriving DecidableEq, Repr

inductive Item where
  | bool (b : Bool)
  | integer (n : Int)
  | float (x : Float)
  /-- A number without a value. -/
  | void
  /-- A date, a time, or both. -/
  | moment
  | text
  | array (items : List Item)
  | table (origin : Origin) (entries : List (String × Item))
  /-- The tables under a repeated header, the last first. -/
  | tables (bodies : List (List (String × Item)))
  deriving Repr

/-- The entries of a table in order. -/
abbrev Entries := List (String × Item)

namespace Item

mutual

/-- Every number in an item has a value. -/
def hasValue : Item → Bool
  | void => false
  | array items => allValues items
  | table _ entries => entryValues entries
  | tables bodies => bodyValues bodies
  | _ => true

def allValues : List Item → Bool
  | [] => true
  | item :: rest => hasValue item && allValues rest

def entryValues : List (String × Item) → Bool
  | [] => true
  | (_, item) :: rest => hasValue item && entryValues rest

def bodyValues : List (List (String × Item)) → Bool
  | [] => true
  | body :: rest => entryValues body && bodyValues rest

end

end Item

end Trellis.Toml
