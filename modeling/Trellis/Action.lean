import Trellis.Kind

/-!
# Actions

An action has a uid, the uids it continues with, and what it does: emit a literal, choose between
literals, or complete freely.  An option that is left unset is filled in from the defaults later.

A choice with a single continuation stands for one continuation per choice; `Action.broadcast`
writes that out.
-/

namespace Trellis

/-- A free completion. -/
structure Completion where
  /-- The most tokens it may emit; a graph is not valid without it. -/
  length : Option UInt32 := none
  /-- The literal that ends it. -/
  stop : String := ""
  threshold : Option Float := none
  width : Option UInt32 := none
  beams : Option UInt32 := none
  ahead : Option UInt32 := none
  diversity : Option Float := none
  repetition : Option Float := none
  deriving DecidableEq

/-- What an action does. -/
inductive Task where
  /-- Emit a literal. -/
  | text (literal : String) (evaluate : Option Bool)
  /-- Branch over literals. -/
  | choose (choices : List String) (threshold : Option Float) (width : Option UInt32)
  | complete (completion : Completion)
  deriving DecidableEq

namespace Task

def kind : Task → Kind
  | text .. => .text
  | choose .. => .choose
  | complete _ => .complete

end Task

/-- One node of a graph. -/
structure Action where
  uid : String
  successors : List String
  task : Task
  deriving DecidableEq

namespace Action

def kind (a : Action) : Kind := a.task.kind

/-- The successors, with a single continuation of a choice repeated for every choice. -/
def broadcast (a : Action) : List String :=
  match a.task, a.successors with
  | .choose choices _ _, [s] => List.replicate choices.length s
  | _, successors => successors

end Action

end Trellis
