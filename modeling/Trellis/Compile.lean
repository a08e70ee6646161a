import Trellis.Defaults.Basic
import Trellis.Tokenizer.Basic
import Trellis.Wire.Basic

/-!
# Compiling a graph

The graph, the defaults and the size of the mask are checked before the tokenizer is asked for
anything.  Then every literal is tokenized in order, without start or end tokens, and the first
refusal ends the compilation.  Options left unset are filled in from the defaults.
-/

namespace Trellis

inductive CompileError (ρ : Type := Refusal) where
  | graph (v : Violation)
  | defaults (f : Defaults.Fault)
  | maskSize (size vocabSize : Nat)
  /-- A literal of an action was refused. -/
  | literal (uid text : String) (cause : ρ)
  deriving DecidableEq

namespace CompileError

/-- The message and the causes behind it. -/
def messages : CompileError → String × List String
  | graph v => (v.message, [])
  | defaults f => (f.message, [])
  | maskSize size vocabSize =>
    (s!"safe mask covers {size} tokens but the vocabulary has {vocabSize}", [])
  | literal uid text cause =>
    (s!"tokenize literal {Text.quoted text} of action '{uid}'", [cause.message])

end CompileError

/-- Work that calls a tokenizer and may fail. -/
abbrev Asking (ε α : Type) := ExceptT ε Metered α

namespace Asking

/-- One step of the work, with its failure put into context. -/
def ofCall (context : ρ → ε) (call : Metered (Except ρ α)) : Asking ε α :=
  ExceptT.mk do
    let outcome ← call
    return outcome.mapError context

/-- Work that has been done already. -/
def ofExcept (outcome : Except ε α) : Asking ε α := ExceptT.mk (pure outcome)

end Asking

namespace Task

/-- The literals of a task in order. -/
def literals : Task → List String
  | text literal _ => [literal]
  | choose choices _ _ => choices
  | complete c => [c.stop]

end Task

namespace Compile

/-- The tokens of a literal of an action. -/
def literal (t : Tokenizer ρ) (uid text : String) : Asking (CompileError ρ) (List TokenId) :=
  Asking.ofCall (CompileError.literal uid text) (t.askTokens text false false)

/-- The tokens of several literals. -/
def literals (t : Tokenizer ρ) (uid : String) :
    List String → Asking (CompileError ρ) (List (List TokenId))
  | [] => pure []
  | l :: rest => do
    let tokens ← literal t uid l
    let others ← literals t uid rest
    return tokens :: others

/-- The task of a record. -/
def task (t : Tokenizer ρ) (d : Defaults) (mask : Mask) (uid : String) :
    Task → Asking (CompileError ρ) Wire.Task
  | .text l evaluate => do
    let tokens ← literal t uid l
    return .text (evaluate.getD d.text.evaluate) tokens
  | .choose choices threshold width => do
    let choices ← literals t uid choices
    return .choose choices (threshold.getD d.choose.threshold) (width.getD d.choose.width)
  | .complete c =>
    match c.length with
    | none => throw (.graph (.missingLength uid))
    | some length => do
      let stop ← literal t uid c.stop
      return .complete {
        length
        stop
        vocab := mask
        threshold := c.threshold.getD d.complete.threshold
        width := c.width.getD d.complete.width
        beams := c.beams.getD d.complete.beams
        ahead := c.ahead.getD d.complete.ahead
        diversity := c.diversity.getD d.complete.diversity
        repetition := c.repetition.getD d.complete.repetition }

/-- The record of an action. -/
def record (t : Tokenizer ρ) (d : Defaults) (mask : Mask) (a : Action) :
    Asking (CompileError ρ) Wire.Record := do
  let task ← task t d mask a.uid a.task
  return { uid := a.uid, successors := a.broadcast, task }

/-- The records of several actions. -/
def records (t : Tokenizer ρ) (d : Defaults) (mask : Mask) :
    List Action → Asking (CompileError ρ) (List Wire.Record)
  | [] => pure []
  | a :: rest => do
    let r ← record t d mask a
    let others ← records t d mask rest
    return r :: others

/-- What is checked before the tokenizer is asked for anything. -/
def check (g : Graph) (d : Defaults) (mask : Mask) (t : Tokenizer ρ) :
    Except (CompileError ρ) Unit := do
  g.validate.mapError .graph
  d.validate.mapError .defaults
  if mask.size = t.vocabSize then .ok () else .error (.maskSize mask.size t.vocabSize)

end Compile

/-- The wire graph of a graph. -/
def compile (g : Graph) (d : Defaults) (mask : Mask) (t : Tokenizer ρ) :
    Asking (CompileError ρ) Wire := do
  Asking.ofExcept (Compile.check g d mask t)
  let records ← Compile.records t d mask g.actions
  return ⟨records⟩

end Trellis
