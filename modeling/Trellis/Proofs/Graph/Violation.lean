import Trellis.Proofs.Double
import Trellis.Proofs.Graph.Uids

/-!
# Valid graphs

A graph without violations is a `Valid` one: the uids are distinct, and every other check is a
statement about one action and the list of uids.
-/

namespace Trellis

/-! ## Options -/

namespace Action

/-- What an action sets is in range: thresholds from zero to one, counts of at least one, finite
weights.  A completion has a length; a choice has something to choose from, and no continuation,
one, or one per choice. -/
def Sound (a : Action) : Prop :=
  match a.task with
  | .text .. => True
  | .choose choices threshold width =>
    choices ≠ [] ∧ (a.successors.length ≤ 1 ∨ a.successors.length = choices.length)
      ∧ (∀ x ∈ threshold, InUnit x) ∧ (∀ n ∈ width, n ≠ 0)
  | .complete c =>
    (∃ n ∈ c.length, n ≠ 0) ∧ (∀ x ∈ c.threshold, InUnit x) ∧ (∀ n ∈ c.width, n ≠ 0)
      ∧ (∀ n ∈ c.beams, n ≠ 0) ∧ (∀ x ∈ c.diversity, x.isFinite = true)
      ∧ (∀ x ∈ c.repetition, x.isFinite = true)

section Options

variable {uid : String} {name : OptionName}

theorem badThreshold_eq_nil_iff {threshold : Option Float} :
    badThreshold uid threshold = [] ↔ ∀ x ∈ threshold, InUnit x := by
  cases threshold <;> simp [badThreshold, inUnitB_iff]

theorem badCount_eq_nil_iff {count : Option UInt32} :
    badCount uid name count = [] ↔ ∀ n ∈ count, n ≠ 0 := by
  cases count <;> simp [badCount]

theorem badWeight_eq_nil_iff {weight : Option Float} :
    badWeight uid name weight = [] ↔ ∀ x ∈ weight, x.isFinite = true := by
  cases weight <;> simp [badWeight]

theorem badLength_eq_nil_iff {length : Option UInt32} :
    badLength uid length = [] ↔ ∃ n ∈ length, n ≠ 0 := by
  cases length <;> simp [badLength]

end Options

theorem optionViolations_eq_nil_iff {a : Action} : a.optionViolations = [] ↔ a.Sound := by
  unfold optionViolations Sound
  cases a.task with
  | text literal evaluate => simp
  | choose choices threshold width =>
    have arity : (1 < a.successors.length → a.successors.length = choices.length)
        ↔ (a.successors.length ≤ 1 ∨ a.successors.length = choices.length) := by omega
    simp [badThreshold_eq_nil_iff, badCount_eq_nil_iff, arity]
  | complete c =>
    simp [badLength_eq_nil_iff, badThreshold_eq_nil_iff, badCount_eq_nil_iff,
      badWeight_eq_nil_iff]

theorem badSuccessor?_eq_none_iff {known : String → Bool} {uid successor : String} :
    badSuccessor? known uid successor = none ↔ successor ≠ uid ∧ known successor = true := by
  unfold badSuccessor?
  split
  · simp_all
  · split <;> simp_all

theorem violations_eq_nil_iff {known : String → Bool} {a : Action} :
    a.violations known = []
      ↔ (∀ s ∈ a.successors, s ≠ a.uid ∧ known s = true) ∧ a.Sound := by
  rw [violations, List.append_eq_nil_iff, List.filterMap_eq_nil_iff, optionViolations_eq_nil_iff]
  simp only [badSuccessor?_eq_none_iff]

end Action

/-! ## Graphs -/

namespace Graph

/-- A graph that generation can start from. -/
structure Valid (g : Graph) : Prop where
  nonempty : g.actions ≠ []
  distinct : g.uids.Nodup
  linked : ∀ a ∈ g.actions, ∀ s ∈ a.successors, s ≠ a.uid ∧ s ∈ g.uids
  sound : ∀ a ∈ g.actions, a.Sound

theorem violationsFrom_eq_nil_iff {g : Graph} {seen : List String} {actions : List Action} :
    g.violationsFrom seen actions = []
      ↔ Fresh seen (actions.map Action.uid)
        ∧ ∀ a ∈ actions, (∀ s ∈ a.successors, s ≠ a.uid ∧ s ∈ g.uids) ∧ a.Sound := by
  induction actions generalizing seen with
  | nil => simp [violationsFrom]
  | cons a rest ih =>
    have new : (if a.uid ∈ seen then [Violation.duplicateUid a.uid] else []) = []
        ↔ a.uid ∉ seen := by split <;> simp_all
    rw [violationsFrom, List.append_eq_nil_iff, List.append_eq_nil_iff, new,
      Action.violations_eq_nil_iff, ih, List.map_cons, fresh_cons_iff, List.forall_mem_cons]
    simp only [contains_iff]
    exact and_and_and_comm

theorem valid_iff {g : Graph} : g.Valid ↔ g.violations = [] := by
  unfold violations isEmpty
  cases empty : g.actions with
  | nil => exact ⟨fun h => absurd empty h.nonempty, by simp⟩
  | cons a rest =>
    rw [List.isEmpty_cons, if_neg (by decide), ← empty, violationsFrom_eq_nil_iff,
      fresh_iff_nodup]
    constructor
    · intro h
      exact ⟨h.distinct, fun b hb => ⟨h.linked b hb, h.sound b hb⟩⟩
    · intro h
      exact ⟨by simp [empty], h.1, fun b hb => (h.2 b hb).1, fun b hb => (h.2 b hb).2⟩

/-- Where the actions of another graph keep their uids and lose some of what is wrong with them, the
pass over them loses the same and keeps the repetitions. -/
theorem violationsFrom_filter {g h : Graph} {f : Action → Action} {keep : Violation → Bool}
    (uid : ∀ a, (f a).uid = a.uid) (repeats : ∀ u, keep (.duplicateUid u) = true)
    (each : ∀ a, (f a).violations h.contains = (a.violations g.contains).filter keep)
    (seen : List String) (actions : List Action) :
    h.violationsFrom seen (actions.map f) = (g.violationsFrom seen actions).filter keep := by
  induction actions generalizing seen with
  | nil => rfl
  | cons a rest ih =>
    have first : (if a.uid ∈ seen then [Violation.duplicateUid a.uid] else []).filter keep
        = if a.uid ∈ seen then [.duplicateUid a.uid] else [] := by
      split
      · exact List.filter_cons_of_pos (repeats a.uid)
      · rfl
    rw [List.map_cons, violationsFrom, violationsFrom, List.filter_append, List.filter_append,
      first, ← each, ← ih, uid]

theorem validate_eq_ok_iff {g : Graph} : g.validate = .ok () ↔ g.Valid := by
  rw [valid_iff, validate]
  split <;> simp_all

end Graph

end Trellis
