import Trellis.Json.Value
import Trellis.Kind

/-!
# Kinds in documents

The kind of an action or of a record stands under a key of its own, as its tag or as its number.
-/

namespace Trellis.Kind

open Json

/-- The key of the tag of a kind. -/
def key : String := "__type__"

/-- A kind by its tag or by its number. -/
def ofValue? : Value → Option Kind
  | .string tag => ofTag? tag
  | .number (.natural n) => all[n]?
  | _ => none

theorem ofValue?_tag (k : Kind) : ofValue? (.string k.tag) = some k := ofTag?_tag k

end Trellis.Kind
