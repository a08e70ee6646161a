import Trellis.Action
import Trellis.Mask

/-!
# Wire graphs

A wire graph is what the oracle works on: one record for each action, in the same order, with tokens
in place of literals and every option filled in.  A record may be referred to by its position or by
its uid.
-/

namespace Trellis

/-- How a record is referred to. -/
inductive ActionRef where
  | index (n : Nat)
  | uid (name : String)
  deriving DecidableEq, Repr

namespace ActionRef

def text : ActionRef → String
  | index n => s!"#{n}"
  | .uid name => name

end ActionRef

namespace Wire

structure Completion where
  length : UInt32
  stop : List TokenId
  /-- The tokens that the completion may emit. -/
  vocab : Mask
  threshold : Float
  width : UInt32
  beams : UInt32
  ahead : UInt32
  diversity : Float
  repetition : Float
  deriving DecidableEq

inductive Task where
  | text (evaluate : Bool) (tokens : List TokenId)
  | choose (choices : List (List TokenId)) (threshold : Float) (width : UInt32)
  | complete (completion : Completion)
  deriving DecidableEq

namespace Task

def kind : Task → Kind
  | text .. => .text
  | choose .. => .choose
  | complete _ => .complete

/-- Every sequence of tokens in a task. -/
def sequences : Task → List (List TokenId)
  | text _ tokens => [tokens]
  | choose choices _ _ => choices
  | complete c => [c.stop]

end Task

structure Record where
  uid : String
  successors : List String
  task : Task
  deriving DecidableEq

namespace Record

def kind (r : Record) : Kind := r.task.kind

end Record

end Wire

structure Wire where
  records : List Wire.Record
  deriving DecidableEq

namespace Wire

/-- The record that generation starts from. -/
def entry? (w : Wire) : Option Record := w.records.head?

/-- The first record with a uid. -/
def get? (w : Wire) (uid : String) : Option Record := w.records.find? fun r => r.uid == uid

/-- The uid of the record that is referred to. -/
def resolve? (w : Wire) : ActionRef → Option String
  | .index n => w.records[n]?.map Record.uid
  | .uid uid => (w.get? uid).map Record.uid

end Wire

end Trellis
