import Trellis.Graph.Violation

/-!
# Defaults

The table of values that stand in for options left unset, one section for each kind of action.
-/

namespace Trellis

structure TextDefaults where
  /-- Score literals against the model. -/
  evaluate : Bool := true
  deriving DecidableEq

structure ChooseDefaults where
  /-- The least relative probability of a branch that is kept. -/
  threshold : Float := 0.4
  /-- The most branches that are kept. -/
  width : UInt32 := 2
  deriving DecidableEq

structure CompleteDefaults where
  threshold : Float := 0.3
  width : UInt32 := 2
  beams : UInt32 := 3
  /-- How many tokens to look ahead. -/
  ahead : UInt32 := 1
  diversity : Float := 1.0
  repetition : Float := 0.5
  deriving DecidableEq

structure Defaults where
  text : TextDefaults := {}
  choose : ChooseDefaults := {}
  complete : CompleteDefaults := {}
  deriving DecidableEq

namespace Defaults

/-- The table that holds where nothing else is said. -/
def builtIn : Defaults := {}

/-- The entries that can be out of range. -/
inductive Entry where
  | thresholdOf (kind : Kind)
  | widthOf (kind : Kind)
  | beams
  | diversity
  | repetition
  deriving DecidableEq, Repr

namespace Entry

/-- The section and the field. -/
def name : Entry → String
  | thresholdOf kind => kind.tag ++ ".threshold"
  | widthOf kind => kind.tag ++ ".width"
  | beams => "Complete.beams"
  | diversity => "Complete.diversity"
  | repetition => "Complete.repetition"

end Entry

/-- Why a table is refused. -/
inductive Fault where
  | outsideUnit (entry : Entry) (x : Float)
  | belowOne (entry : Entry)
  | notFinite (entry : Entry)
  deriving DecidableEq

namespace Fault

def message : Fault → String
  | outsideUnit entry x =>
    s!"{entry.name} must be within [0, 1], got " ++ String.ofList (Layout.message.floatText x)
  | belowOne entry => s!"{entry.name} must be >= 1"
  | notFinite entry => s!"{entry.name} must be finite"

end Fault

def checkThreshold (entry : Entry) (x : Float) : Except Fault Unit :=
  if inUnitB x then .ok () else .error (.outsideUnit entry x)

def checkCount (entry : Entry) (n : UInt32) : Except Fault Unit :=
  if n = 0 then .error (.belowOne entry) else .ok ()

def checkWeight (entry : Entry) (x : Float) : Except Fault Unit :=
  if x.isFinite then .ok () else .error (.notFinite entry)

/-- The first entry that is out of range: thresholds, then counts, then weights. -/
def validate (d : Defaults) : Except Fault Unit := do
  checkThreshold (.thresholdOf .choose) d.choose.threshold
  checkThreshold (.thresholdOf .complete) d.complete.threshold
  checkCount (.widthOf .choose) d.choose.width
  checkCount (.widthOf .complete) d.complete.width
  checkCount .beams d.complete.beams
  checkWeight .diversity d.complete.diversity
  checkWeight .repetition d.complete.repetition

end Defaults

end Trellis
