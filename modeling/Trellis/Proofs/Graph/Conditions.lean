import Mathlib.Data.List.Count
import Mathlib.Data.List.Dedup
import Trellis.Proofs.Graph.Violation

/-!
# What a graph without violations is

The pass over the actions has the uids at hand that it has seen, and takes each occurrence of a uid
but the first for a repetition (`count_repeated`).  Whatever else it reports belongs to one action:
so the violations fall into the repetitions and what each action has wrong with it by itself, both
in order (`Graph.filter_isDuplicate`, `Graph.filter_not_isDuplicate`).  Nothing is wrong with a
graph exactly when its actions and the options that are set meet the conditions of
`Graph.no_violations_iff`.
-/

namespace Trellis

/-! ## Repetitions -/

/-- The uids that repeat one that is seen or stands before them, in order. -/
def repeated (seen : List String) : List String → List String
  | [] => []
  | uid :: rest => (if uid ∈ seen then [uid] else []) ++ repeated (uid :: seen) rest

/-- Every occurrence of a uid that is seen is a repetition, and every one but the first of a uid
that is not. -/
theorem count_repeated_of_seen (seen uids : List String) (uid : String) :
    (repeated seen uids).count uid
      = if uid ∈ seen then uids.count uid else uids.count uid - 1 := by
  induction uids generalizing seen with
  | nil => simp [repeated]
  | cons u rest ih =>
    have head : (if u ∈ seen then [u] else []).count uid
        = if u = uid ∧ uid ∈ seen then 1 else 0 := by
      by_cases old : u ∈ seen <;> by_cases same : u = uid <;> simp_all
    rw [repeated, List.count_append, head, ih, List.count_cons]
    -- the first occurrence of the uid itself makes it seen for those behind it
    by_cases same : u = uid
    · subst same
      by_cases old : u ∈ seen
      · simp [old]
        omega
      · simp [old]
    · have other : uid ≠ u := Ne.symm same
      simp [same, other]

theorem count_repeated (uids : List String) (uid : String) :
    (repeated [] uids).count uid = uids.count uid - 1 := by
  rw [count_repeated_of_seen, if_neg List.not_mem_nil]

/-- The repetitions with each uid once are all of the uids. -/
theorem repeated_append_dedup_perm (uids : List String) :
    (repeated [] uids ++ uids.dedup).Perm uids := by
  rw [List.perm_iff_count]
  intro uid
  rw [List.count_append, count_repeated, List.count_dedup]
  split
  · next present =>
    have occurs := List.count_pos_iff.2 present
    omega
  · next absent =>
    rw [List.count_eq_zero_of_not_mem absent]

/-! ## Violations -/

namespace Violation

/-- A uid is repeated. -/
def isDuplicate : Violation → Bool
  | duplicateUid _ => true
  | _ => false

/-- The options of an action are at fault, the number of its successors included. -/
def isOption : Violation → Bool
  | chooseArity .. => true
  | missingLength _ => true
  | badOption .. => true
  | _ => false

theorem isDuplicate_of_isOption {v : Violation} (h : v.isOption = true) :
    v.isDuplicate = false := by
  cases v with
  | duplicateUid uid => cases h
  | _ => rfl

/-- Where one violation is reported or none, it is the one. -/
theorem isOption_of_mem_single {v w : Violation} {c : Prop} [Decidable c]
    (hv : v ∈ if c then [w] else []) (h : w.isOption = true) : v.isOption = true := by
  split at hv
  · rwa [List.mem_singleton.1 hv]
  · cases hv

end Violation

namespace Action

section Options

variable {uid : String} {v : Violation}

theorem isOption_of_mem_badThreshold {threshold : Option Float}
    (hv : v ∈ badThreshold uid threshold) : v.isOption = true := by
  unfold badThreshold at hv
  split at hv
  · split at hv
    · cases hv
    · rw [List.mem_singleton.1 hv]
      rfl
  · cases hv

theorem isOption_of_mem_badCount {name : OptionName} {count : Option UInt32}
    (hv : v ∈ badCount uid name count) : v.isOption = true :=
  Violation.isOption_of_mem_single hv rfl

theorem isOption_of_mem_badWeight {name : OptionName} {weight : Option Float}
    (hv : v ∈ badWeight uid name weight) : v.isOption = true := by
  unfold badWeight at hv
  split at hv
  · split at hv
    · cases hv
    · rw [List.mem_singleton.1 hv]
      rfl
  · cases hv

theorem isOption_of_mem_badLength {length : Option UInt32}
    (hv : v ∈ badLength uid length) : v.isOption = true := by
  cases length with
  | none =>
    rw [List.mem_singleton.1 hv]
    rfl
  | some n => exact Violation.isOption_of_mem_single hv rfl

end Options

theorem isOption_of_mem {a : Action} {v : Violation} (hv : v ∈ a.optionViolations) :
    v.isOption = true := by
  unfold optionViolations at hv
  split at hv
  · cases hv
  · simp only [List.mem_append] at hv
    rcases hv with ((nothing | uneven) | threshold) | width
    · exact Violation.isOption_of_mem_single nothing rfl
    · exact Violation.isOption_of_mem_single uneven rfl
    · exact isOption_of_mem_badThreshold threshold
    · exact isOption_of_mem_badCount width
  · simp only [List.mem_append] at hv
    rcases hv with ((((length | threshold) | width) | beams) | diversity) | repetition
    · exact isOption_of_mem_badLength length
    · exact isOption_of_mem_badThreshold threshold
    · exact isOption_of_mem_badCount width
    · exact isOption_of_mem_badCount beams
    · exact isOption_of_mem_badWeight diversity
    · exact isOption_of_mem_badWeight repetition

/-- What one action has wrong with it is not that its uid is repeated. -/
theorem isDuplicate_of_mem {known : String → Bool} {a : Action} {v : Violation}
    (hv : v ∈ a.violations known) : v.isDuplicate = false := by
  rw [violations, List.mem_append, List.mem_filterMap] at hv
  rcases hv with ⟨s, _, bad⟩ | option
  · unfold badSuccessor? at bad
    split at bad
    · cases bad
      rfl
    · split at bad <;> cases bad
      rfl
  · exact Violation.isDuplicate_of_isOption (isOption_of_mem option)

end Action

namespace Graph

/-- The repetitions among the violations are those of the uids, in their order. -/
theorem filter_isDuplicate (g : Graph) (seen : List String) (actions : List Action) :
    (g.violationsFrom seen actions).filter Violation.isDuplicate
      = (repeated seen (actions.map Action.uid)).map Violation.duplicateUid := by
  induction actions generalizing seen with
  | nil => rfl
  | cons a rest ih =>
    have first : (if a.uid ∈ seen then [Violation.duplicateUid a.uid] else []).filter
        Violation.isDuplicate = (if a.uid ∈ seen then [a.uid] else []).map .duplicateUid := by
      split <;> rfl
    have own : (a.violations g.contains).filter Violation.isDuplicate = [] := by
      rw [List.filter_eq_nil_iff]
      intro v hv
      rw [Action.isDuplicate_of_mem hv]
      decide
    rw [violationsFrom, List.filter_append, List.filter_append, first, own, ih, List.append_nil,
      List.map_cons, repeated, List.map_append]

/-- The other violations are those of each action by itself, in their order. -/
theorem filter_not_isDuplicate (g : Graph) (seen : List String) (actions : List Action) :
    (g.violationsFrom seen actions).filter (fun v => !v.isDuplicate)
      = actions.flatMap (Action.violations g.contains) := by
  induction actions generalizing seen with
  | nil => rfl
  | cons a rest ih =>
    have first : (if a.uid ∈ seen then [Violation.duplicateUid a.uid] else []).filter
        (fun v => !v.isDuplicate) = [] := by
      split <;> rfl
    have own : (a.violations g.contains).filter (fun v => !v.isDuplicate)
        = a.violations g.contains := by
      rw [List.filter_eq_self]
      intro v hv
      rw [Action.isDuplicate_of_mem hv]
      rfl
    rw [violationsFrom, List.filter_append, List.filter_append, first, own, ih, List.nil_append,
      List.flatMap_cons]

/-- The repetitions that are reported, in order; there is none where there is no action. -/
theorem duplicates_violations (g : Graph) :
    g.violations.filter Violation.isDuplicate
      = (repeated [] g.uids).map Violation.duplicateUid := by
  unfold violations
  split
  · next empty =>
    rw [isEmpty, List.isEmpty_iff] at empty
    rw [uids, empty]
    rfl
  · exact g.filter_isDuplicate [] g.actions

end Graph

/-! ## Conditions -/

namespace Task

/-- The thresholds that are set. -/
def thresholds : Task → List Float
  | text .. => []
  | choose _ threshold _ => threshold.toList
  | complete c => c.threshold.toList

/-- The widths and beams that are set. -/
def counts : Task → List UInt32
  | text .. => []
  | choose _ _ width => width.toList
  | complete c => c.width.toList ++ c.beams.toList

/-- The diversities and repetitions that are set. -/
def weights : Task → List Float
  | complete c => c.diversity.toList ++ c.repetition.toList
  | _ => []

end Task

/-- A count is one at least when it is not zero. -/
theorem one_le_iff {n : UInt32} : 1 ≤ n ↔ n ≠ 0 := by
  rw [UInt32.le_iff_toNat_le, Ne, ← UInt32.toNat_inj]
  exact Nat.one_le_iff_ne_zero

theorem inUnit_iff {x : Float} : InUnit x ↔ x.isNaN = false ∧ 0.0 ≤ x ∧ x ≤ 1.0 := by
  constructor
  · intro h
    exact ⟨isNaN_of_isFinite h.isFinite, h⟩
  · exact And.right

/-- What makes an action sound, option by option. -/
theorem Action.sound_iff {a : Action} :
    a.Sound ↔
      (∀ choices threshold width, a.task = .choose choices threshold width →
        choices ≠ [] ∧ a.successors.length ∈ [0, 1, choices.length])
      ∧ (∀ c, a.task = .complete c → ∃ n, c.length = some n ∧ 1 ≤ n)
      ∧ (∀ x ∈ a.task.thresholds, x.isNaN = false ∧ 0.0 ≤ x ∧ x ≤ 1.0)
      ∧ (∀ n ∈ a.task.counts, 1 ≤ n) ∧ (∀ x ∈ a.task.weights, x.isFinite = true) := by
  have few : a.successors.length ≤ 1 ↔ a.successors.length = 0 ∨ a.successors.length = 1 := by
    omega
  unfold Sound
  simp only [← inUnit_iff, one_le_iff]
  cases a.task with
  | text literal evaluate => simp [Task.thresholds, Task.counts, Task.weights]
  | choose choices threshold width =>
    simp [Task.thresholds, Task.counts, Task.weights, few, and_assoc, or_assoc]
  | complete c =>
    simp [Task.thresholds, Task.counts, Task.weights, or_imp, forall_and, and_assoc]

namespace Graph

/-- **What it takes to have no violation.**  There is an action to start from, and the uids are
distinct.  No action continues with itself, and each continues with uids of actions.  A choice has
something to choose from, and no continuation, one, or one per choice; a completion has a positive
length.  The thresholds that are set are numbers from zero to one, the widths and beams are one at
least, and the diversities and repetitions are finite.

Each uid is reported as repeated once less often than it occurs, so the actions are as many as these
reports and the distinct uids together. -/
theorem no_violations_iff (g : Graph) :
    (g.violations = [] ↔
      g.actions ≠ []
      ∧ g.uids.Nodup
      ∧ (∀ a ∈ g.actions, a.uid ∉ a.successors ∧ ∀ s ∈ a.successors, ∃ b ∈ g.actions, b.uid = s)
      ∧ ∀ a ∈ g.actions,
        (∀ choices threshold width, a.task = .choose choices threshold width →
          choices ≠ [] ∧ a.successors.length ∈ [0, 1, choices.length])
        ∧ (∀ c, a.task = .complete c → ∃ n, c.length = some n ∧ 1 ≤ n)
        ∧ (∀ x ∈ a.task.thresholds, x.isNaN = false ∧ 0.0 ≤ x ∧ x ≤ 1.0)
        ∧ (∀ n ∈ a.task.counts, 1 ≤ n) ∧ (∀ x ∈ a.task.weights, x.isFinite = true))
    ∧ g.violations.countP Violation.isDuplicate + g.uids.dedup.length = g.size
    ∧ ∀ uid, g.violations.count (.duplicateUid uid) = g.uids.count uid - 1 := by
  have linked : (∀ a ∈ g.actions, ∀ s ∈ a.successors, s ≠ a.uid ∧ s ∈ g.uids)
      ↔ ∀ a ∈ g.actions, a.uid ∉ a.successors ∧ ∀ s ∈ a.successors, ∃ b ∈ g.actions, b.uid = s := by
    apply forall₂_congr
    intro a _
    simp only [uids, List.mem_map]
    constructor
    · intro h
      exact ⟨fun self => (h a.uid self).1 rfl, fun s hs => (h s hs).2⟩
    · rintro ⟨other, known⟩ s hs
      exact ⟨fun same => other (same ▸ hs), known s hs⟩
  refine ⟨?_, ?_, ?_⟩
  · simp only [← Action.sound_iff, ← linked, ← valid_iff]
    constructor
    · intro h
      exact ⟨h.nonempty, h.distinct, h.linked, h.sound⟩
    · rintro ⟨nonempty, distinct, linked, sound⟩
      exact ⟨nonempty, distinct, linked, sound⟩
  · calc g.violations.countP Violation.isDuplicate + g.uids.dedup.length
      _ = (repeated [] g.uids).length + g.uids.dedup.length := by
          rw [List.countP_eq_length_filter, duplicates_violations, List.length_map]
      _ = g.uids.length := by
          rw [← List.length_append, (repeated_append_dedup_perm g.uids).length_eq]
      _ = g.size := List.length_map _
  · intro uid
    have injective : Function.Injective Violation.duplicateUid := by
      intro u v same
      exact Violation.duplicateUid.inj same
    calc g.violations.count (.duplicateUid uid)
      _ = (g.violations.filter Violation.isDuplicate).count (.duplicateUid uid) :=
          (List.count_filter rfl).symm
      _ = (repeated [] g.uids).count uid := by
          rw [duplicates_violations, List.count_map_of_injective _ _ injective]
      _ = g.uids.count uid - 1 := count_repeated g.uids uid

end Graph

end Trellis
