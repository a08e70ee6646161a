import Mathlib.Data.List.Forall2
import Trellis.Proofs.Asking
import Trellis.Proofs.Defaults.Basic
import Trellis.Proofs.Graph.Violation

/-!
# What a graph is compiled to

A compilation succeeds exactly when the graph is valid, the table is in range, the mask covers the
vocabulary and every record stands for the action at its place (`compile_eq_ok_iff`).  That a record
stands for an action is said without the order in which the tokenizer is asked.
-/

namespace Trellis

open Asking

namespace Compile

variable {t : Tokenizer ρ} {d : Defaults} {mask : Mask}

/-- The tokens of a literal, with neither a start nor an end token. -/
def Spells (t : Tokenizer ρ) (literal : String) (tokens : List TokenId) : Prop :=
  t.tokenize literal false false = .ok tokens

/-- A task with tokens in place of literals and with the options that are unset taken from the
table. -/
inductive TaskOf (t : Tokenizer ρ) (d : Defaults) (mask : Mask) : Task → Wire.Task → Prop
  | text {literal : String} {evaluate : Option Bool} {tokens : List TokenId}
      (spelled : Spells t literal tokens) :
      TaskOf t d mask (.text literal evaluate) (.text (evaluate.getD d.text.evaluate) tokens)
  | choose {literals : List String} {threshold : Option Float} {width : Option UInt32}
      {choices : List (List TokenId)} (spelled : List.Forall₂ (Spells t) literals choices) :
      TaskOf t d mask (.choose literals threshold width)
        (.choose choices (threshold.getD d.choose.threshold) (width.getD d.choose.width))
  | complete {c : Completion} {length : UInt32} {stop : List TokenId}
      (set : c.length = some length) (spelled : Spells t c.stop stop) :
      TaskOf t d mask (.complete c) (.complete
        { length
          stop
          vocab := mask
          threshold := c.threshold.getD d.complete.threshold
          width := c.width.getD d.complete.width
          beams := c.beams.getD d.complete.beams
          ahead := c.ahead.getD d.complete.ahead
          diversity := c.diversity.getD d.complete.diversity
          repetition := c.repetition.getD d.complete.repetition })

/-- What stands on the right of a relation between lists has a partner on the left. -/
theorem exists_left_of_forall₂ {α β : Type} {R : α → β → Prop} {as : List α} {bs : List β}
    (h : List.Forall₂ R as bs) {b : β} (hb : b ∈ bs) : ∃ a ∈ as, R a b := by
  obtain ⟨i, hi, rfl⟩ := List.getElem_of_mem hb
  have left : i < as.length := h.length_eq ▸ hi
  exact ⟨as[i], List.getElem_mem left, h.get left hi⟩

/-- The sequences of a task spell the literals it was compiled from. -/
theorem TaskOf.sequences {source : Task} {target : Wire.Task} (h : TaskOf t d mask source target) :
    List.Forall₂ (Spells t) source.literals target.sequences := by
  cases h with
  | text spelled => exact .cons spelled .nil
  | choose spelled => exact spelled
  | complete set spelled => exact .cons spelled .nil

/-- A record stands for an action. -/
structure RecordOf (t : Tokenizer ρ) (d : Defaults) (mask : Mask) (a : Action) (r : Wire.Record) :
    Prop where
  uid : r.uid = a.uid
  successors : r.successors = a.broadcast
  task : TaskOf t d mask a.task r.task

theorem literal_eq_ok_iff {uid text : String} {tokens : List TokenId} :
    outcome (literal t uid text) = .ok tokens ↔ Spells t text tokens := by
  rw [literal, outcome_ofCall, mapError_eq_ok_iff, Spells, Tokenizer.askTokens]

theorem literals_eq_ok_iff {uid : String} {ls : List String} {choices : List (List TokenId)} :
    outcome (literals t uid ls) = .ok choices ↔ List.Forall₂ (Spells t) ls choices := by
  induction ls generalizing choices with
  | nil =>
    rw [literals, outcome_pure, List.forall₂_nil_left_iff, Except.ok.injEq, eq_comm]
  | cons l ls ih =>
    rw [literals, outcome_bind_eq_ok, List.forall₂_cons_left_iff]
    simp only [outcome_bind_eq_ok, literal_eq_ok_iff, ih, outcome_pure, Except.ok.injEq]
    constructor
    · rintro ⟨tokens, first, others, later, rfl⟩
      exact ⟨tokens, others, first, later, rfl⟩
    · rintro ⟨tokens, others, first, later, rfl⟩
      exact ⟨tokens, first, others, later, rfl⟩

theorem task_eq_ok_iff {uid : String} {task : Task} {result : Wire.Task} :
    outcome (Compile.task t d mask uid task) = .ok result ↔ TaskOf t d mask task result := by
  cases task with
  | text l evaluate =>
    rw [Compile.task, outcome_bind_eq_ok]
    simp only [literal_eq_ok_iff, outcome_pure, Except.ok.injEq]
    constructor
    · rintro ⟨tokens, spelled, rfl⟩
      exact .text spelled
    · intro h
      cases h with
      | text spelled => exact ⟨_, spelled, rfl⟩
  | choose ls threshold width =>
    rw [Compile.task, outcome_bind_eq_ok]
    simp only [literals_eq_ok_iff, outcome_pure, Except.ok.injEq]
    constructor
    · rintro ⟨choices, spelled, rfl⟩
      exact .choose spelled
    · intro h
      cases h with
      | choose spelled => exact ⟨_, spelled, rfl⟩
  | complete c =>
    rw [Compile.task]
    cases set : c.length with
    | none =>
      rw [outcome_throw]
      constructor
      · intro h
        cases h
      · intro h
        cases h with
        | complete other => cases set.symm.trans other
    | some length =>
      simp only [outcome_bind_eq_ok, literal_eq_ok_iff, outcome_pure, Except.ok.injEq]
      constructor
      · rintro ⟨stop, spelled, rfl⟩
        exact .complete set spelled
      · intro h
        cases h with
        | complete same spelled =>
          cases set.symm.trans same
          exact ⟨_, spelled, rfl⟩

theorem record_eq_ok_iff {a : Action} {r : Wire.Record} :
    outcome (record t d mask a) = .ok r ↔ RecordOf t d mask a r := by
  rw [record, outcome_bind_eq_ok]
  simp only [task_eq_ok_iff, outcome_pure, Except.ok.injEq]
  constructor
  · rintro ⟨task, h, rfl⟩
    exact ⟨rfl, rfl, h⟩
  · rintro ⟨uid, successors, task⟩
    exact ⟨r.task, task, by rw [← uid, ← successors]⟩

theorem records_eq_ok_iff {actions : List Action} {rs : List Wire.Record} :
    outcome (records t d mask actions) = .ok rs
      ↔ List.Forall₂ (RecordOf t d mask) actions rs := by
  induction actions generalizing rs with
  | nil => rw [records, outcome_pure, List.forall₂_nil_left_iff, Except.ok.injEq, eq_comm]
  | cons a actions ih =>
    rw [records, outcome_bind_eq_ok, List.forall₂_cons_left_iff]
    simp only [outcome_bind_eq_ok, record_eq_ok_iff, ih, outcome_pure, Except.ok.injEq]
    constructor
    · rintro ⟨r, first, others, later, rfl⟩
      exact ⟨r, others, first, later, rfl⟩
    · rintro ⟨r, others, first, later, rfl⟩
      exact ⟨r, first, others, later, rfl⟩

/-- Actions that have the same records have them in a row. -/
theorem records_map {d' : Defaults} {f : Action → Action}
    (same : ∀ a, record t d' mask (f a) = record t d mask a) (actions : List Action) :
    records t d' mask (actions.map f) = records t d mask actions := by
  induction actions with
  | nil => rfl
  | cons a rest ih => rw [List.map_cons, records, records, same, ih]

theorem check_eq_ok_iff {g : Graph} :
    check g d mask t = .ok () ↔ g.Valid ∧ d.InRange ∧ mask.size = t.vocabSize := by
  rw [check, seq_eq_ok_iff, seq_eq_ok_iff, mapError_eq_ok_iff, mapError_eq_ok_iff,
    Graph.validate_eq_ok_iff, Defaults.validate_eq_ok_iff]
  split <;> simp_all

/-- What each member has a partner for, the list has partners for. -/
theorem exists_forall₂ {α β : Type} {R : α → β → Prop} {as : List α} (h : ∀ a ∈ as, ∃ b, R a b) :
    ∃ bs, List.Forall₂ R as bs := by
  induction as with
  | nil => exact ⟨[], .nil⟩
  | cons a as ih =>
    obtain ⟨b, first⟩ := h a (by simp)
    obtain ⟨bs, later⟩ := ih fun c hc => h c (by simp [hc])
    exact ⟨b :: bs, .cons first later⟩

/-- A sound action has a record where each of its literals has a spelling. -/
theorem exists_recordOf_of_spelled {a : Action} (sound : a.Sound)
    (spelled : ∀ literal ∈ a.task.literals, ∃ tokens, Spells t literal tokens) :
    ∃ r, RecordOf t d mask a r := by
  have task : ∃ target, TaskOf t d mask a.task target := by
    rw [Action.Sound] at sound
    cases source : a.task with
    | text literal evaluate =>
      obtain ⟨tokens, h⟩ := spelled literal (by simp [source, Task.literals])
      exact ⟨_, .text h⟩
    | choose choices threshold width =>
      rw [source] at spelled
      obtain ⟨rows, h⟩ := exists_forall₂ spelled
      exact ⟨_, .choose h⟩
    | complete c =>
      rw [source] at sound
      obtain ⟨⟨length, set, _⟩, _⟩ := sound
      obtain ⟨stop, h⟩ := spelled c.stop (by simp [source, Task.literals])
      exact ⟨_, .complete set h⟩
  obtain ⟨target, h⟩ := task
  exact ⟨⟨a.uid, a.broadcast, target⟩, rfl, rfl, h⟩

end Compile

/-- **When a graph is compiled, and to what.** -/
theorem compile_eq_ok_iff {g : Graph} {d : Defaults} {mask : Mask} {t : Tokenizer ρ} {w : Wire} :
    outcome (compile g d mask t) = .ok w
      ↔ (g.Valid ∧ d.InRange ∧ mask.size = t.vocabSize)
        ∧ List.Forall₂ (Compile.RecordOf t d mask) g.actions w.records := by
  rw [compile, outcome_bind_eq_ok]
  simp only [outcome_ofExcept, outcome_bind_eq_ok, outcome_pure, Compile.records_eq_ok_iff,
    Except.ok.injEq]
  constructor
  · rintro ⟨u, checked, rs, records, rfl⟩
    exact ⟨Compile.check_eq_ok_iff.1 checked, records⟩
  · rintro ⟨checked, records⟩
    exact ⟨(), Compile.check_eq_ok_iff.2 checked, w.records, records, rfl⟩

/-- With the checks passed, a graph is compiled where each of its literals has a spelling. -/
theorem exists_compile {g : Graph} {d : Defaults} {mask : Mask} {t : Tokenizer ρ} (valid : g.Valid)
    (table : d.InRange) (size : mask.size = t.vocabSize)
    (spelled : ∀ a ∈ g.actions, ∀ literal ∈ a.task.literals,
      ∃ tokens, Compile.Spells t literal tokens) :
    ∃ w, outcome (compile g d mask t) = .ok w := by
  have records : ∃ rs, List.Forall₂ (Compile.RecordOf t d mask) g.actions rs :=
    Compile.exists_forall₂ fun a ha =>
      Compile.exists_recordOf_of_spelled (valid.sound a ha) (spelled a ha)
  obtain ⟨rs, records⟩ := records
  exact ⟨⟨rs⟩, compile_eq_ok_iff.2 ⟨⟨valid, table, size⟩, records⟩⟩

end Trellis
