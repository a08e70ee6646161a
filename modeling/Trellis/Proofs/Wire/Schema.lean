import Trellis.Proofs.Json.Fields
import Trellis.Wire.Document

/-!
# What the schema asks of a wire graph

On values that wire graphs are written as, the schema says nothing about types, which the writer
gets right by itself.  What is left are the bounds: no uid is empty and the options of every task
are `InRange`.
-/

namespace Trellis.Wire

open Json

/-- The options of a completion are in range. -/
structure Completion.InRange (c : Completion) : Prop where
  length : c.length ≠ 0
  threshold : InUnit c.threshold
  width : c.width ≠ 0
  beams : c.beams ≠ 0
  diversity : c.diversity.isFinite = true
  repetition : c.repetition.isFinite = true

theorem Completion.inRange_iff {c : Completion} :
    c.InRange ↔ c.length ≠ 0 ∧ InUnit c.threshold ∧ c.width ≠ 0 ∧ c.beams ≠ 0
      ∧ c.diversity.isFinite = true ∧ c.repetition.isFinite = true :=
  ⟨fun h => ⟨h.length, h.threshold, h.width, h.beams, h.diversity, h.repetition⟩,
    fun ⟨length, threshold, width, beams, diversity, repetition⟩ =>
      ⟨length, threshold, width, beams, diversity, repetition⟩⟩

/-- The options of a task are in range: thresholds from zero to one, counts of at least one, finite
weights. -/
def Task.InRange : Task → Prop
  | .text .. => True
  | .choose _ threshold width => InUnit threshold ∧ width ≠ 0
  | .complete c => c.InRange

/-- Every record has a uid and options in range. -/
def MeetsSchema (w : Wire) : Prop := ∀ r ∈ w.records, r.uid ≠ "" ∧ r.task.InRange

namespace Schema

/-! ## Fields -/

@[simp] theorem integerFrom_ofWord (least : Nat) (w : UInt32) :
    integerFrom least (.ofWord w) = decide (least ≤ w.toNat) := rfl

@[simp] theorem isCount_ofWord {w : UInt32} : isCount (.ofWord w) = true ↔ w ≠ 0 := by
  rw [isCount, integerFrom_ofWord, decide_eq_true_iff, Ne, ← UInt32.toNat_inj, UInt32.toNat_zero]
  omega

/-- Only a finite double is written as a number. -/
@[simp] theorem isNumber_ofFloat (x : Float) : isNumber (.ofFloat x) = x.isFinite := by
  unfold Value.ofFloat
  split
  · next finite => rw [finite]; rfl
  · next infinite => exact (Bool.eq_false_iff.2 infinite).symm

/-- What is not finite is written as null, and lies outside the unit anyway. -/
@[simp] theorem isThreshold_ofFloat {x : Float} : isThreshold (.ofFloat x) = true ↔ InUnit x := by
  unfold Value.ofFloat
  split
  · exact inUnitB_iff
  · next infinite =>
    constructor
    · intro h; cases h
    · intro h; exact absurd h.isFinite infinite

theorem arrayOf_map {α : Type} {item : Value → Bool} {write : α → Value} {l : List α} :
    arrayOf item (.array (l.map write)) = true ↔ ∀ a ∈ l, item (write a) = true := by
  simp [arrayOf, List.all_eq_true]

@[simp] theorem isTokens_tokensValue (tokens : List TokenId) :
    isTokens (tokensValue tokens) = true := arrayOf_map.2 fun _ _ => by simp

@[simp] theorem arrayOf_isTokens (choices : List (List TokenId)) :
    arrayOf isTokens (.array (choices.map tokensValue)) = true :=
  arrayOf_map.2 fun _ _ => by simp

@[simp] theorem arrayOf_isString (ss : List String) :
    arrayOf isString (.ofStrings ss) = true := arrayOf_map.2 fun _ _ => rfl

@[simp] theorem arrayOf_isBool (bits : List Bool) :
    arrayOf isBool (.array (bits.map .bool)) = true := arrayOf_map.2 fun _ _ => rfl

@[simp] theorem isNonempty_string {s : String} : isNonempty (.string s) = true ↔ s ≠ "" := by
  simp [isNonempty]

end Schema

/-! ## Records -/

namespace Record

/-- The keys of a record are distinct, so each member is found under its key. -/
theorem get?_of_mem (r : Record) {key : String} {v : Value}
    (h : (key, v) ∈ ("uid", .string r.uid) :: ("successors", .ofStrings r.successors)
      :: (Kind.key, .string r.kind.tag) :: r.task.members) : r.toValue.get? key = some v := by
  refine Value.lookup_of_mem ?_ h
  cases r.task <;> simp [Task.members, Kind.key]

theorem get?_uid (r : Record) : r.toValue.get? "uid" = some (.string r.uid) :=
  r.get?_of_mem (by simp)

theorem get?_successors (r : Record) :
    r.toValue.get? "successors" = some (.ofStrings r.successors) := r.get?_of_mem (by simp)

theorem get?_key (r : Record) : r.toValue.get? Kind.key = some (.string r.kind.tag) :=
  r.get?_of_mem (by simp)

end Record

namespace Schema

/-- The fields of its kind pass for a task when its options are in range. -/
theorem all_fields_iff {r : Record} :
    ((fields r.kind).all fun f => has r.toValue f.1 f.2) = true ↔ r.task.InRange := by
  obtain ⟨uid, successors, task⟩ := r
  cases task with
  | text evaluate tokens =>
    simp [Record.kind, Task.kind, fields, has, Record.toValue, Task.members, Value.lookup,
      Kind.key, isBool, Task.InRange]
  | choose choices threshold width =>
    simp [Record.kind, Task.kind, fields, has, Record.toValue, Task.members, Value.lookup,
      Kind.key, Task.InRange]
  | complete c =>
    rw [Task.InRange, Completion.inRange_iff]
    simp [Record.kind, Task.kind, fields, has, Record.toValue, Task.members, Value.lookup,
      Kind.key]

theorem isRecord_toValue {r : Record} :
    isRecord r.toValue = true ↔ r.uid ≠ "" ∧ r.task.InRange := by
  have uid : has r.toValue "uid" isNonempty = isNonempty (.string r.uid) := by
    rw [has, Record.get?_uid]
  have successors : has r.toValue "successors" (arrayOf isString) = true := by
    rw [has, Record.get?_successors]
    exact arrayOf_isString _
  have kind : (r.toValue.field? Kind.key Value.asString?).bind Kind.ofTag? = some r.kind := by
    rw [Value.field?, Record.get?_key]
    exact Kind.ofTag?_tag r.kind
  rw [isRecord, uid, successors, kind, Bool.and_true, Bool.and_eq_true, isNonempty_string,
    all_fields_iff]

/-- **What the schema asks of a wire graph.** -/
theorem isDocument_toValue {w : Wire} : isDocument w.toValue = true ↔ w.MeetsSchema := by
  have records : w.toValue.get? "actions" = some (.array (w.records.map Record.toValue)) := by
    simp [toValue, Value.lookup]
  rw [isDocument, has, records]
  simp only [arrayOf_map, isRecord_toValue]
  rfl

end Schema

theorem not_meetsSchema_iff {w : Wire} :
    ¬ w.MeetsSchema ↔ ∃ r ∈ w.records, r.uid = "" ∨ ¬ r.task.InRange := by
  simp [MeetsSchema, Classical.or_iff_not_imp_left]

instance (w : Wire) : Decidable w.MeetsSchema := decidable_of_iff _ Schema.isDocument_toValue

end Trellis.Wire
