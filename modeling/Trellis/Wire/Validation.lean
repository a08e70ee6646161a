import Trellis.Wire.Basic

/-!
# What the oracle relies on

A wire graph is fit for a vocabulary when its uids are distinct, every successor is one of them,
every choice has no continuation or one per choice, every mask covers the vocabulary and every token
lies in it.  `Wire.validate` reports a repeated uid before all else, and then the first defect of
the first record that has one: a successor, a count, a token.
-/

namespace Trellis.Wire

inductive Defect where
  | duplicateUid (uid : String)
  | unknownSuccessor (uid successor : String)
  | chooseArity (uid : String) (choices successors : Nat)
  | tokenOutOfRange (uid : String) (token : TokenId) (vocabSize : Nat)
  | maskLength (uid : String) (expected actual : Nat)
  deriving DecidableEq, Repr

namespace Defect

def message : Defect → String
  | duplicateUid uid => s!"duplicate action uid '{uid}'"
  | unknownSuccessor uid successor =>
    s!"action '{uid}' references unknown successor '{successor}'"
  | chooseArity uid choices successors =>
    s!"choose action '{uid}' has {successors} successors for {choices} choices"
  | tokenOutOfRange uid token vocabSize =>
    s!"action '{uid}' carries token {token} outside vocabulary of {vocabSize}"
  | maskLength uid expected actual =>
    s!"complete action '{uid}' vocab mask has {actual} entries, expected {expected}"

end Defect

namespace Record

/-- A successor that is no uid. -/
def successorDefect? (uids : List String) (r : Record) : Option Defect :=
  (r.successors.find? fun s => s ∉ uids).map (.unknownSuccessor r.uid)

/-- Continuations that do not match the choices, or a mask of the wrong size. -/
def countDefect? (vocabSize : Nat) (r : Record) : Option Defect :=
  match r.task with
  | .text .. => none
  | .choose choices _ _ =>
    if r.successors ≠ [] ∧ r.successors.length ≠ choices.length then
      some (.chooseArity r.uid choices.length r.successors.length)
    else none
  | .complete c =>
    if c.vocab.size ≠ vocabSize then some (.maskLength r.uid vocabSize c.vocab.size) else none

/-- A token beyond the vocabulary. -/
def tokenDefect? (vocabSize : Nat) (r : Record) : Option Defect :=
  (r.task.sequences.flatten.find? fun token => vocabSize ≤ token.toNat).map
    fun token => .tokenOutOfRange r.uid token vocabSize

/-- The first defect of a record among these uids. -/
def defect? (uids : List String) (vocabSize : Nat) (r : Record) : Option Defect :=
  (r.successorDefect? uids).or ((r.countDefect? vocabSize).or (r.tokenDefect? vocabSize))

end Record

/-- The first uid that stands in front of the records already. -/
def repeatedUid? (seen : List String) : List Record → Option String
  | [] => none
  | r :: rest => if r.uid ∈ seen then some r.uid else repeatedUid? (r.uid :: seen) rest

/-- The uids in order. -/
def uids (w : Wire) : List String := w.records.map Record.uid

/-- The defect that is reported for a vocabulary of this size. -/
def defect? (w : Wire) (vocabSize : Nat) : Option Defect :=
  ((repeatedUid? [] w.records).map .duplicateUid).or
    (w.records.findSome? (Record.defect? w.uids vocabSize))

/-- Whether a wire graph is fit for a vocabulary of this size. -/
def validate (w : Wire) (vocabSize : Nat) : Except Defect Unit :=
  match w.defect? vocabSize with
  | none => .ok ()
  | some d => .error d

end Trellis.Wire
