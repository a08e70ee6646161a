import Trellis.Decimal.Layout
import Trellis.Graph.Basic

/-!
# What can be wrong with a graph

`Graph.violations` lists every violation in the order of the actions, and for one action in a fixed
order: a repeated uid, its successors, then its options.  A graph is valid when the list is empty.
-/

namespace Trellis

/-- The options that a violation can name. -/
inductive OptionName where
  | choices
  | threshold
  | width
  | beams
  | length
  | diversity
  | repetition
  deriving DecidableEq, Repr

namespace OptionName

def text : OptionName → String
  | choices => "choices"
  | threshold => "threshold"
  | width => "width"
  | beams => "beams"
  | length => "length"
  | diversity => "diversity"
  | repetition => "repetition"

end OptionName

/-- Why the value of an option is refused. -/
inductive BadOption where
  | empty
  | notPositive
  | belowOne
  | outsideUnit (x : Float)
  | notFinite
  deriving DecidableEq

namespace BadOption

def message : BadOption → String
  | empty => "must not be empty"
  | notPositive => "must be > 0"
  | belowOne => "must be >= 1"
  | outsideUnit x => String.ofList (Layout.message.floatText x) ++ " outside [0, 1]"
  | notFinite => "must be finite"

end BadOption

inductive Violation where
  /-- There is no action to start from. -/
  | empty
  | duplicateUid (uid : String)
  | unknownSuccessor (uid successor : String)
  | selfLoop (uid : String)
  /-- A choice has neither no continuation, nor one, nor one per choice. -/
  | chooseArity (uid : String) (choices successors : Nat)
  | missingLength (uid : String)
  | badOption (uid : String) (name : OptionName) (reason : BadOption)
  deriving DecidableEq

namespace Violation

def message : Violation → String
  | empty => "action graph is empty"
  | duplicateUid uid => s!"duplicate action uid '{uid}'"
  | unknownSuccessor uid successor =>
    s!"action '{uid}' references unknown successor '{successor}'"
  | selfLoop uid => s!"action '{uid}' lists itself as a successor"
  | chooseArity uid choices successors =>
    s!"choose action '{uid}' has {successors} successors for {choices} choices"
  | missingLength uid => s!"complete action '{uid}' has no length"
  | badOption uid name reason => s!"action '{uid}': {name.text} {reason.message}"

/-- The violation lies in the options of an action, not in the shape of the graph. -/
def isConfiguration : Violation → Bool
  | missingLength _ => true
  | badOption .. => true
  | _ => false

end Violation

/-- A number from zero to one. -/
def inUnitB (x : Float) : Bool := decide (0.0 ≤ x) && decide (x ≤ 1.0)

namespace Action

/-- A successor that is the action itself or that `known` does not hold of. -/
def badSuccessor? (known : String → Bool) (uid successor : String) : Option Violation :=
  if successor = uid then some (.selfLoop uid)
  else if known successor then none
  else some (.unknownSuccessor uid successor)

def badThreshold (uid : String) (threshold : Option Float) : List Violation :=
  match threshold with
  | some x => if inUnitB x then [] else [.badOption uid .threshold (.outsideUnit x)]
  | none => []

def badCount (uid : String) (name : OptionName) (count : Option UInt32) : List Violation :=
  if count = some 0 then [.badOption uid name .belowOne] else []

def badWeight (uid : String) (name : OptionName) (weight : Option Float) : List Violation :=
  match weight with
  | some x => if x.isFinite then [] else [.badOption uid name .notFinite]
  | none => []

def badLength (uid : String) : Option UInt32 → List Violation
  | none => [.missingLength uid]
  | some n => if n = 0 then [.badOption uid .length .notPositive] else []

/-- The violations of an action's own options. -/
def optionViolations (a : Action) : List Violation :=
  match a.task with
  | .text .. => []
  | .choose choices threshold width =>
    (if choices.isEmpty then [.badOption a.uid .choices .empty] else [])
      ++ (if 1 < a.successors.length ∧ a.successors.length ≠ choices.length then
          [.chooseArity a.uid choices.length a.successors.length] else [])
      ++ badThreshold a.uid threshold
      ++ badCount a.uid .width width
  | .complete c =>
    badLength a.uid c.length
      ++ badThreshold a.uid c.threshold
      ++ badCount a.uid .width c.width
      ++ badCount a.uid .beams c.beams
      ++ badWeight a.uid .diversity c.diversity
      ++ badWeight a.uid .repetition c.repetition

/-- The violations of an action among uids of which `known` holds. -/
def violations (known : String → Bool) (a : Action) : List Violation :=
  a.successors.filterMap (badSuccessor? known a.uid) ++ a.optionViolations

end Action

namespace Graph

/-- The violations of the actions behind those whose uids are `seen`. -/
def violationsFrom (g : Graph) (seen : List String) : List Action → List Violation
  | [] => []
  | a :: rest =>
    (if a.uid ∈ seen then [.duplicateUid a.uid] else [])
      ++ a.violations g.contains ++ violationsFrom g (a.uid :: seen) rest

/-- Every violation, in order. -/
def violations (g : Graph) : List Violation :=
  if g.isEmpty then [.empty] else g.violationsFrom [] g.actions

/-- The first violation, if there is one. -/
def validate (g : Graph) : Except Violation Unit :=
  match g.violations with
  | [] => .ok ()
  | v :: _ => .error v

end Graph

end Trellis
