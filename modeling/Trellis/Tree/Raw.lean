import Trellis.Json.Nesting
import Trellis.Json.Print
import Trellis.Tree.Basic
import Trellis.Wire.Basic

/-!
# Raw result trees

The oracle answers with a tree of tokens and log-probabilities.  A node is written as an object, or
as an array of its fields in order, of which those at the end that have a default may be left out.
In an object the fields that a node has may occur once each, and all others are skipped unread.

A text whose brackets nest beyond two levels for each of the `maxDepth` nodes is refused before it
is read.
-/

namespace Trellis

open Json

structure RawNode where
  action : ActionRef
  tokens : List TokenId
  /-- The log-probability of each token. -/
  logprobs : List Float
  /-- The log-probability of the path from the root. -/
  logprob : Float
  length : UInt32
  pruned : Bool
  deriving DecidableEq

abbrev RawTree := Tree RawNode

namespace RawNode

/-- The fields of a node in order. -/
def keys : List String :=
  ["action", "tokens", "logprobs", "logprob", "length", "pruned", "children"]

/-- A reference by position or by uid. -/
def actionOf? : Value → Option ActionRef
  | .number (.natural n) => some (.index n)
  | .string uid => some (.uid uid)
  | _ => none

/-- What a field holds, or what stands for it where it is missing. -/
def fieldOr? (field : String → Option Doc) (key : String) (absent : Option α)
    (read : Value → Option α) : Option α :=
  match field key with
  | none => absent
  | some d => (Value.ofDoc? d).bind read

/-- The node whose fields are given by key. -/
def ofFields? (field : String → Option Doc) : Option RawNode := do
  let action ← fieldOr? field "action" none actionOf?
  let tokens ← fieldOr? field "tokens" (some []) (Value.asList? Value.asWord?)
  let logprobs ← fieldOr? field "logprobs" (some []) (Value.asList? Value.asFloat?)
  let logprob ← fieldOr? field "logprob" none Value.asFloat?
  let length ← fieldOr? field "length" none Value.asWord?
  let pruned ← fieldOr? field "pruned" (some false) Value.asBool?
  return { action, tokens, logprobs, logprob, length, pruned }

/-- The member of an object under a key. -/
def member? (members : List (Key × Doc)) (key : String) : Option Doc := members.lookup (some key)

/-- The item of an array at the place of a key. -/
def item? (items : List Doc) (key : String) : Option Doc := (keys.zip items).lookup key

/-- Every key has a text, and no field occurs twice. -/
def wellKeyed (members : List (Key × Doc)) : Bool :=
  members.all (fun m => m.1.isSome)
    && keys.all fun k => decide (members.countP (fun m => m.1 == some k) ≤ 1)

/-- The members of a node, without its children. -/
def members (n : RawNode) : List (String × Value) :=
  [("action", match n.action with
      | .index i => .number (.natural i)
      | .uid uid => .string uid),
    ("tokens", .array (n.tokens.map .ofWord)),
    ("logprobs", .array (n.logprobs.map .ofFloat)),
    ("logprob", .ofFloat n.logprob),
    ("length", .ofWord n.length),
    ("pruned", .bool n.pruned)]

end RawNode

namespace RawTree

/-- A number of tokens as a length. -/
def lengthOf (tokens : List TokenId) : UInt32 :=
  if tokens.length < 0x100000000 then .ofNat tokens.length else 0xFFFFFFFF

/-- A node without children, as long as its tokens. -/
def leaf (action : ActionRef) (tokens : List TokenId) (logprobs : List Float) (logprob : Float)
    (pruned : Bool) : RawTree :=
  .node { action, tokens, logprobs, logprob, length := lengthOf tokens, pruned } []

/-- A certain node above others, as long as its tokens. -/
def branch (action : ActionRef) (tokens : List TokenId) (children : List RawTree) : RawTree :=
  .node {
    action
    tokens
    logprobs := List.replicate tokens.length 0.0
    logprob := 0.0
    length := lengthOf tokens
    pruned := false } children

mutual

/-- The tree that a syntax tree describes. -/
def ofDoc? : Doc → Option RawTree
  | .object members =>
    if RawNode.wellKeyed members then
      (RawNode.ofFields? (RawNode.member? members)).bind fun node =>
        (childrenOfMembers? members).map fun children => .node node children
    else none
  | .array items =>
    if items.length ≤ RawNode.keys.length then
      (RawNode.ofFields? (RawNode.item? items)).bind fun node =>
        (childrenOfItems? 6 items).map fun children => .node node children
    else none
  | _ => none

def ofDocs? : List Doc → Option (List RawTree)
  | [] => some []
  | d :: ds => (ofDoc? d).bind fun t => (ofDocs? ds).map (t :: ·)

/-- The children among the members of a node. -/
def childrenOfMembers? : List (Key × Doc) → Option (List RawTree)
  | [] => some []
  | (k, d) :: rest =>
    if k = some "children" then childrenOfDoc? d else childrenOfMembers? rest

/-- The children among the items of a node, `skip` items further on. -/
def childrenOfItems? (skip : Nat) : List Doc → Option (List RawTree)
  | [] => some []
  | d :: rest =>
    match skip with
    | 0 => childrenOfDoc? d
    | skip + 1 => childrenOfItems? skip rest

def childrenOfDoc? : Doc → Option (List RawTree)
  | .array items => ofDocs? items
  | _ => none

end

/-- The most nodes on a path from the root of a tree that is read. -/
def maxDepth : Nat := 128

/-- Why a text is not a result tree. -/
inductive LoadError where
  /-- The brackets of the text nest too deeply. -/
  | nested (levels : Nat)
  | unreadable
  deriving DecidableEq, Repr

namespace LoadError

def message : LoadError → String
  | nested levels =>
    s!"raw result tree nests {levels} levels, more than {maxDepth} nodes deep"
  | unreadable => "parse raw result tree"

end LoadError

/-- The tree that a text describes, however deeply it is nested. -/
def read? (limit : Option Nat) (cs : List Char) : Option RawTree :=
  match Doc.read limit cs with
  | .ok d => ofDoc? d
  | .error _ => none

/-- The tree that a text describes, at most `maxDepth` nodes deep. -/
def ofJson (cs : List Char) : Except LoadError RawTree :=
  if 2 * maxDepth < nesting cs then .error (.nested (nesting cs))
  else match read? none cs with
    | some t => .ok t
    | none => .error .unreadable

mutual

def toValue : RawTree → Value
  | .node n ts => .object (n.members ++ [("children", .array (toValues ts))])

def toValues : List RawTree → List Value
  | [] => []
  | t :: ts => toValue t :: toValues ts

end

/-- The text of a tree. -/
def toJson (t : RawTree) : List Char := (toValue t).compact

end RawTree

end Trellis
