import Trellis.Tree.Raw
import Trellis.Wire.Basic

/-!
# Oracles

An oracle answers a wire graph with a raw tree and may change its own state.  The echo oracle walks
the first successors from the entry and emits the literals on the way; the scripted one gives the
same answer every time and remembers what it was asked.
-/

namespace Trellis

/-- Why an oracle has no answer. -/
inductive OracleError where
  | failed (message : String)
  /-- More tokens than a length can count. -/
  | tooLong
  deriving DecidableEq, Repr

namespace OracleError

def message : OracleError → String
  | failed message => message
  | tooLong => "out of range integral type conversion attempted"

end OracleError

/-- An oracle with a state. -/
structure Oracle (σ : Type) where
  evaluate : σ → Wire → Except OracleError RawTree × σ

namespace Wire

/-- What a record emits of itself: its literal, or its first choice. -/
def Record.emitted (r : Record) : List TokenId :=
  match r.task with
  | .text _ tokens => tokens
  | .choose choices _ _ => choices.head?.getD []
  | .complete _ => []

/-- The tokens on the walk along first successors, for at most `steps` records. -/
def emittedFrom (w : Wire) : (steps : Nat) → Option Record → List TokenId
  | 0, _ => []
  | _ + 1, none => []
  | steps + 1, some r => r.emitted ++ w.emittedFrom steps (r.successors.head?.bind w.get?)

end Wire

namespace Oracle

/-- The tree that the echo oracle answers. -/
def echoTree (w : Wire) : Except OracleError RawTree :=
  let tokens := w.emittedFrom w.records.length w.entry?
  if tokens.length < 0x100000000 then .ok (RawTree.branch (.index 0) tokens []) else .error .tooLong

/-- The oracle that emits the literals of a graph. -/
def echo : Oracle Unit := ⟨fun _ w => (echoTree w, ())⟩

/-- What a scripted oracle was asked. -/
structure Script where
  calls : Nat := 0
  /-- The graph of the last call. -/
  lastGraph : Option Wire := none
  deriving DecidableEq

/-- The oracle with one answer. -/
def scripted (answer : Except OracleError RawTree) : Oracle Script :=
  ⟨fun s w => (answer, ⟨s.calls + 1, some w⟩)⟩

end Oracle

end Trellis
