import Trellis.Compile
import Trellis.Double
import Trellis.Tree.Raw

/-!
# Decoded result trees

Every node of a raw tree is decoded to text and given three probabilities: of its path normalized by
length, of its own tokens, and of its path as it is.  The tree is walked in pre-order with a stack
of the nodes that are part way through, and the first refusal of the tokenizer ends the walk.  A
node without tokens has the empty text and is not asked for.
-/

namespace Trellis

open Json

@[ext]
structure SemanticNode where
  action : ActionRef
  text : String
  tokens : List TokenId
  length : UInt32
  logprobs : List Float
  logprob : Float
  /-- The probability of the path for each token of it, comparable between depths. -/
  probability : Double
  /-- The confidence in the tokens of this node alone. -/
  localProbability : Float
  /-- The probability of the path, whatever its length. -/
  rawProbability : Float
  pruned : Bool
  deriving DecidableEq

abbrev SemanticTree := Tree SemanticNode

/-- The exponential, which is one at either zero. -/
def exponential (x : Float) : Float := if x == 0.0 then 1.0 else Float.exp x

/-- The probability of a path normalized by its length; an empty one is certain.  A log-probability
that is not a number changes its sign and is kept by the rest. -/
def pathProbability (logprob : Float) (length : UInt32) : Double :=
  if length = 0 then (1.0 : Float)
  else if logprob.isNaN then Double.negate logprob
  else exponential (-logprob / length.toFloat)

/-- The probability of the mean log-probability; no tokens are certain. -/
def localProbability (logprobs : List Float) : Float :=
  if logprobs.isEmpty then 1.0
  else exponential (-(logprobs.foldl (· + ·) 0.0 / Float.ofNat logprobs.length))

/-- The probability of a path. -/
def rawProbability (logprob : Float) : Float := exponential (-logprob)

/-- Why a tree cannot be decoded. -/
inductive DecodeError (ρ : Type := Refusal) where
  /-- The tokens of a node were refused. -/
  | node (action : ActionRef) (cause : ρ)
  /-- Nothing is left to walk. -/
  | rootless
  deriving DecidableEq

namespace DecodeError

/-- The message and the causes behind it. -/
def messages : DecodeError → String × List String
  | node action cause => (s!"detokenize result of action {action.text}", [cause.message])
  | rootless => ("result tree reduction finished without a root", [])

end DecodeError

namespace RawNode

/-- A node with its text. -/
def withText (n : RawNode) (text : String) : SemanticNode where
  action := n.action
  text := text
  tokens := n.tokens
  length := n.length
  logprobs := n.logprobs
  logprob := n.logprob
  probability := pathProbability n.logprob n.length
  localProbability := Trellis.localProbability n.logprobs
  rawProbability := Trellis.rawProbability n.logprob
  pruned := n.pruned

/-- One node decoded. -/
def decode (t : Tokenizer ρ) (n : RawNode) : Asking (DecodeError ρ) SemanticNode :=
  if n.tokens.isEmpty then pure (n.withText "")
  else do
    let text ← Asking.ofCall (DecodeError.node n.action) (t.askText n.tokens)
    return n.withText text

end RawNode

namespace RawTree

mutual

/-- The decoding of a tree, by recursion. -/
def decodeRec (t : Tokenizer ρ) : RawTree → Asking (DecodeError ρ) SemanticTree
  | .node n children => do
    let label ← n.decode t
    let children ← decodeRecAll t children
    return .node label children

def decodeRecAll (t : Tokenizer ρ) : List RawTree → Asking (DecodeError ρ) (List SemanticTree)
  | [] => pure []
  | c :: cs => do
    let d ← decodeRec t c
    let ds ← decodeRecAll t cs
    return d :: ds

end

/-- A node part way through: its decoded children, the last first, and the others. -/
structure Frame where
  label : SemanticNode
  done : List SemanticTree
  rest : List RawTree

/-- The steps that a stack still takes: two for each node to come and one for each frame. -/
def stepsLeft : List Frame → Nat
  | [] => 0
  | f :: stack => 2 * Tree.sizeAll f.rest + 1 + stepsLeft stack

/-- The walk over the rest of the tree. -/
def walk (t : Tokenizer ρ) : List Frame → Asking (DecodeError ρ) SemanticTree
  | [] => throw .rootless
  | ⟨label, done, []⟩ :: stack =>
    match stack with
    | [] => return .node label done.reverse
    | ⟨parent, siblings, rest⟩ :: stack =>
      walk t (⟨parent, .node label done.reverse :: siblings, rest⟩ :: stack)
  | ⟨label, done, .node n children :: rest⟩ :: stack => do
    let child ← n.decode t
    walk t (⟨child, [], children⟩ :: ⟨label, done, rest⟩ :: stack)
  termination_by stack => stepsLeft stack
  decreasing_by
  · simp only [stepsLeft]; omega
  · simp only [stepsLeft, Tree.sizeAll_cons, Tree.size_node]; omega

/-- The decoded tree. -/
def decode (t : Tokenizer ρ) (raw : RawTree) : Asking (DecodeError ρ) SemanticTree := do
  let label ← raw.label.decode t
  walk t [⟨label, [], raw.children⟩]

end RawTree

namespace SemanticNode

/-- The members of a node, without its children. -/
def members (n : SemanticNode) : List (String × Value) :=
  [("action", match n.action with
      | .index i => .number (.natural i)
      | .uid uid => .string uid),
    ("text", .string n.text),
    ("tokens", .array (n.tokens.map .ofWord)),
    ("length", .ofWord n.length),
    ("logprobs", .array (n.logprobs.map .ofFloat)),
    ("logprob", .ofFloat n.logprob),
    ("probability", .ofFloat n.probability),
    ("local_probability", .ofFloat n.localProbability),
    ("raw_probability", .ofFloat n.rawProbability),
    ("pruned", .bool n.pruned)]

end SemanticNode

namespace SemanticTree

mutual

def toValue : SemanticTree → Value
  | .node n ts => .object (n.members ++ [("children", .array (toValues ts))])

def toValues : List SemanticTree → List Value
  | [] => []
  | t :: ts => toValue t :: toValues ts

end

end SemanticTree

end Trellis
