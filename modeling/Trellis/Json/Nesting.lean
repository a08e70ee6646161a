/-!
# Bracket nesting of a text

The deepest nesting of brackets outside strings, for any text.  A closing bracket without a partner
counts for nothing.
-/

namespace Trellis.Json

/-- Where a bracket count stands in a text. -/
structure Nesting where
  /-- Brackets open now. -/
  depth : Nat
  /-- The most that were open at once. -/
  deepest : Nat
  /-- Inside a string, and whether behind a backslash there. -/
  quoted : Option Bool
  deriving DecidableEq, Repr

namespace Nesting

/-- Before the first character. -/
def start : Nesting := ⟨0, 0, none⟩

/-- One more character. -/
def feed (n : Nesting) (c : Char) : Nesting :=
  match n.quoted with
  | some true => { n with quoted := some false }
  | some false =>
    if c = '\\' then { n with quoted := some true }
    else if c = '"' then { n with quoted := none }
    else n
  | none =>
    if c = '"' then { n with quoted := some false }
    else if c = '\x7b' ∨ c = '[' then
      { n with depth := n.depth + 1, deepest := max n.deepest (n.depth + 1) }
    else if c = '\x7d' ∨ c = ']' then { n with depth := n.depth - 1 }
    else n

/-- The whole text. -/
def run (n : Nesting) (cs : List Char) : Nesting := cs.foldl feed n

end Nesting

/-- The deepest nesting of brackets in a text, strings apart. -/
def nesting (cs : List Char) : Nat := (Nesting.start.run cs).deepest

theorem Nesting.run_nil (n : Nesting) : n.run [] = n := rfl

theorem Nesting.run_cons (n : Nesting) (c : Char) (cs : List Char) :
    n.run (c :: cs) = (n.feed c).run cs := rfl

theorem Nesting.run_append (n : Nesting) (cs ds : List Char) :
    n.run (cs ++ ds) = (n.run cs).run ds := List.foldl_append

end Trellis.Json
