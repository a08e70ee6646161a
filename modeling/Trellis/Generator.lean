import Trellis.Mask.Vocabulary
import Trellis.Oracle
import Trellis.Ranking
import Trellis.Wire.Validation

/-!
# Generation

A generator compiles graphs for one tokenizer with one table of defaults and masks that are built
once.  A run compiles a graph, validates the wire graph, asks the oracle, decodes its answer and
ranks the paths; the first stage that fails ends it, and what the oracle says is passed on as it is.
-/

namespace Trellis

/-- Why a generator cannot be set up. -/
inductive SetupError where
  | defaults (f : Defaults.Fault)
  | maskSize (size vocabSize : Nat)
  deriving DecidableEq

namespace SetupError

def message : SetupError → String
  | defaults f => f.message
  | maskSize size vocabSize =>
    s!"masks cover {size} tokens but the backend vocabulary has {vocabSize}"

end SetupError

/-- Why a run fails. -/
inductive RunError (ρ : Type := Refusal) where
  | compile (e : CompileError ρ)
  | wire (d : Wire.Defect)
  | oracle (e : OracleError)
  | decode (e : DecodeError ρ)
  deriving DecidableEq

structure Generator (σ : Type) (ρ : Type := Refusal) where
  tokenizer : Tokenizer ρ
  oracle : Oracle σ
  defaults : Defaults
  masks : VocabMasks

/-- What a run produces. -/
structure Generation where
  wire : Wire
  tree : SemanticTree
  /-- The paths that survive, the best first. -/
  paths : List RankedPath

namespace Generation

def best? (g : Generation) : Option RankedPath := g.paths.head?

end Generation

namespace Generator

/-- A generator with masks of its own tokenizer. -/
def new (t : Tokenizer ρ) (o : Oracle σ) (d : Defaults) :
    Metered (Except SetupError (Generator σ ρ)) :=
  match d.validate with
  | .error f => pure (.error (.defaults f))
  | .ok () => do
    let masks ← VocabMasks.build t
    return .ok ⟨t, o, d, masks⟩

/-- A generator with masks built earlier for a vocabulary of the same size. -/
def withMasks (t : Tokenizer ρ) (o : Oracle σ) (d : Defaults) (masks : VocabMasks) :
    Except SetupError (Generator σ ρ) :=
  match d.validate with
  | .error f => .error (.defaults f)
  | .ok () =>
    if masks.vocabSize = t.vocabSize then .ok ⟨t, o, d, masks⟩
    else .error (.maskSize masks.vocabSize t.vocabSize)

/-- The wire graph of a graph. -/
def compile (g : Generator σ ρ) (graph : Graph) : Asking (CompileError ρ) Wire :=
  Trellis.compile graph g.defaults g.masks.safe g.tokenizer

/-- What becomes of the oracle's answer. -/
def finish (g : Generator σ ρ) (wire : Wire) :
    Except OracleError RawTree → Asking (RunError ρ) Generation
  | .error e => throw (.oracle e)
  | .ok raw => do
    let tree ← (RawTree.decode g.tokenizer raw).adapt .decode
    return ⟨wire, tree, tree.rankedPaths⟩

/-- One run, and the state of the oracle behind it. -/
def run (g : Generator σ ρ) (s : σ) (graph : Graph) :
    Metered (Except (RunError ρ) Generation × σ) := do
  match ← (g.compile graph).run with
  | .error e => return (.error (.compile e), s)
  | .ok wire =>
    match wire.validate g.tokenizer.vocabSize with
    | .error d => return (.error (.wire d), s)
    | .ok () =>
      let (answer, s) := g.oracle.evaluate s wire
      let outcome ← (g.finish wire answer).run
      return (outcome, s)

end Generator

end Trellis
