import Trellis.Proofs.Compile.Validation

/-!
# Options filled in beforehand

An option that is left unset is taken from the section of its kind in the table, and from nowhere
else.  So a graph may as well have its options filled in before it is compiled (`Graph.fill`): with
a table in range this neither adds a violation nor hides one, and the filled graph is compiled under
any table as the graph is compiled under the one that filled it.  In particular a table is known to
a graph by what it fills in, and an option that is set is never looked up (`compile_fill`).
-/

namespace Trellis

open Asking

/-! ## Filling -/

namespace Task

/-- The task with every option set; one that is unset is taken from the section of its kind. -/
def fill (d : Defaults) : Task → Task
  | text literal evaluate => .text literal (some (evaluate.getD d.text.evaluate))
  | choose choices threshold width =>
    .choose choices (some (threshold.getD d.choose.threshold)) (some (width.getD d.choose.width))
  | complete c =>
    .complete {
      length := c.length
      stop := c.stop
      threshold := some (c.threshold.getD d.complete.threshold)
      width := some (c.width.getD d.complete.width)
      beams := some (c.beams.getD d.complete.beams)
      ahead := some (c.ahead.getD d.complete.ahead)
      diversity := some (c.diversity.getD d.complete.diversity)
      repetition := some (c.repetition.getD d.complete.repetition) }

end Task

namespace Action

def fill (d : Defaults) (a : Action) : Action := { a with task := a.task.fill d }

theorem broadcast_fill (d : Defaults) (a : Action) : (a.fill d).broadcast = a.broadcast := by
  obtain ⟨uid, successors, task⟩ := a
  cases task <;> rcases successors with _ | ⟨s, _ | ⟨s', rest⟩⟩ <;> rfl

/-- With every option set, there is nothing left to fill in. -/
theorem fill_fill (d d' : Defaults) (a : Action) : (a.fill d).fill d' = a.fill d := by
  obtain ⟨uid, successors, task⟩ := a
  cases task <;> rfl

end Action

namespace Graph

/-- The graph with every option set. -/
def fill (d : Defaults) (g : Graph) : Graph where
  actions := g.actions.map (Action.fill d)
  index := g.index
  index_eq := by rw [List.map_map]; exact g.index_eq

theorem fill_fill (d d' : Defaults) (g : Graph) : (g.fill d).fill d' = g.fill d := by
  apply ext_actions
  change (g.actions.map (Action.fill d)).map (Action.fill d') = g.actions.map (Action.fill d)
  rw [List.map_map]
  apply List.map_congr_left
  intro a _
  exact Action.fill_fill d d' a

end Graph

/-! ## Violations -/

namespace Action

section Options

variable {uid : String} {name : OptionName}

/-- A default in range is never what is wrong with an option. -/
theorem badThreshold_getD {x : Float} (fine : InUnit x) (threshold : Option Float) :
    badThreshold uid (some (threshold.getD x)) = badThreshold uid threshold := by
  cases threshold with
  | none => simpa [badThreshold] using inUnitB_iff.2 fine
  | some y => rfl

theorem badCount_getD {n : UInt32} (fine : n ≠ 0) (count : Option UInt32) :
    badCount uid name (some (count.getD n)) = badCount uid name count := by
  cases count with
  | none => simpa [badCount] using fine
  | some m => rfl

theorem badWeight_getD {x : Float} (fine : x.isFinite = true) (weight : Option Float) :
    badWeight uid name (some (weight.getD x)) = badWeight uid name weight := by
  cases weight with
  | none => simpa [badWeight] using fine
  | some y => rfl

end Options

variable {d : Defaults} (table : d.InRange)

include table

theorem optionViolations_fill (a : Action) :
    (a.fill d).optionViolations = a.optionViolations := by
  obtain ⟨uid, successors, task⟩ := a
  unfold optionViolations fill
  cases task with
  | text literal evaluate => rfl
  | choose choices threshold width =>
    simp only [Task.fill, badThreshold_getD table.chooseThreshold,
      badCount_getD table.chooseWidth]
  | complete c =>
    simp only [Task.fill, badThreshold_getD table.completeThreshold,
      badCount_getD table.completeWidth, badCount_getD table.beams,
      badWeight_getD table.diversity, badWeight_getD table.repetition]

theorem violations_fill (known : String → Bool) (a : Action) :
    (a.fill d).violations known = a.violations known := by
  rw [violations, violations, optionViolations_fill table]
  rfl

end Action

namespace Graph

variable {d : Defaults} (table : d.InRange)

include table

theorem violationsFrom_fill (g : Graph) (seen : List String) (actions : List Action) :
    (g.fill d).violationsFrom seen (actions.map (Action.fill d))
      = g.violationsFrom seen actions := by
  induction actions generalizing seen with
  | nil => rfl
  | cons a rest ih =>
    rw [List.map_cons, violationsFrom, violationsFrom, Action.violations_fill table]
    have later := ih (a.uid :: seen)
    exact congrArg _ later

/-- Filling options in neither adds a violation nor hides one. -/
theorem violations_fill (g : Graph) : (g.fill d).violations = g.violations := by
  have empty : (g.fill d).isEmpty = g.isEmpty := List.isEmpty_map
  rw [violations, violations, empty]
  split
  · rfl
  · exact violationsFrom_fill table g [] g.actions

end Graph

/-! ## Compilation -/

namespace Compile

variable {t : Tokenizer ρ} {mask : Mask}

/-- A task whose options are set is compiled without the table. -/
theorem task_fill (d d' : Defaults) (uid : String) (task : Task) :
    Compile.task t d' mask uid (task.fill d) = Compile.task t d mask uid task := by
  cases task <;> rfl

theorem record_fill (d d' : Defaults) (a : Action) :
    record t d' mask (a.fill d) = record t d mask a := by
  have task : Compile.task t d' mask (a.fill d).uid (a.fill d).task
      = Compile.task t d mask a.uid a.task := task_fill d d' a.uid a.task
  rw [record, record, task, Action.broadcast_fill]
  rfl

theorem check_fill {d d' : Defaults} (table : d.InRange) (table' : d'.InRange) (g : Graph) :
    check (g.fill d) d' mask t = check g d mask t := by
  rw [check, check, Graph.validate, Graph.validate, Graph.violations_fill table,
    Defaults.validate_eq_ok_iff.2 table, Defaults.validate_eq_ok_iff.2 table']

/-- Past the checks, the work is that of the records. -/
theorem compile_of_fill {d d' : Defaults} (table : d.InRange) (table' : d'.InRange) (g : Graph) :
    compile (g.fill d) d' mask t = compile g d mask t := by
  have filled : (g.fill d).actions = g.actions.map (Action.fill d) := rfl
  have same : ∀ a, record t d' mask (a.fill d) = record t d mask a := by
    intro a
    exact record_fill d d' a
  rw [compile, compile, check_fill table table', filled, records_map same]

end Compile

/-- **What is set wins over every table.**  Filling a graph from a table in range leaves its
violations as they are; and under any table in range the filled graph is compiled as the graph is
under the first one: it ends alike, and the tokenizer is asked for the same.  Nothing is left to be
filled then.  So two tables that fill a graph alike compile it alike, whatever else they say. -/
theorem compile_fill {d d' : Defaults} (valid : d.validate = .ok ()) (valid' : d'.validate = .ok ())
    (g : Graph) :
    (g.fill d).violations = g.violations
    ∧ (∀ mask (t : Tokenizer ρ), compile (g.fill d) d' mask t = compile g d mask t)
    ∧ (g.fill d).fill d' = g.fill d
    ∧ (g.fill d' = g.fill d → ∀ mask (t : Tokenizer ρ),
      compile g d' mask t = compile g d mask t) := by
  have table := Defaults.validate_eq_ok_iff.1 valid
  have table' := Defaults.validate_eq_ok_iff.1 valid'
  refine ⟨Graph.violations_fill table g, ?_, Graph.fill_fill d d' g, ?_⟩
  · intro mask t
    exact Compile.compile_of_fill table table' g
  · intro alike mask t
    calc compile g d' mask t
      _ = compile (g.fill d') d' mask t := (Compile.compile_of_fill table' table' g).symm
      _ = compile (g.fill d) d' mask t := by rw [alike]
      _ = compile g d mask t := Compile.compile_of_fill table table' g

/-- A table that says something else of every option. -/
def frugal : Defaults where
  text := { evaluate := false }
  choose := { threshold := 0.9, width := 1 }
  complete :=
    { threshold := 0.8, width := 1, beams := 1, ahead := 0, diversity := 0.0, repetition := 0.25 }

/-- A graph that sets some of its options: a width of five for the choice, and two beams. -/
def partlySet : Graph := .ofActions
  [{ uid := "say", successors := ["pick"], task := .text "so" none },
    { uid := "pick", successors := ["fill"], task := .choose ["yes", "no"] none (some 5) },
    { uid := "fill", successors := [],
      task := .complete { length := some 4, stop := ".", beams := some 2 } }]

/-- Filled from the built-in table, the graph is compiled without a look at the frugal one. -/
theorem compile_fill_partlySet :
    Defaults.builtIn.validate = .ok () ∧ frugal.validate = .ok ()
    ∧ outcome (compile (partlySet.fill .builtIn) frugal (.allowAll 7) (sampleTokenizer 7)) = .ok
      ⟨[{ uid := "say", successors := ["pick"], task := .text true [3, 6] },
        { uid := "pick", successors := ["fill", "fill"],
          task := .choose [[2, 3, 3], [5, 6]] 0.4 5 },
        { uid := "fill", successors := [],
          task := .complete
            { length := 4, stop := [4], vocab := .allowAll 7, threshold := 0.3, width := 2,
              beams := 2, ahead := 1, diversity := 1.0, repetition := 0.5 } }]⟩ := by
  have valid : Defaults.builtIn.validate = .ok () := rfl
  have valid' : frugal.validate = .ok () := rfl
  refine ⟨valid, valid', ?_⟩
  rw [(compile_fill valid valid' partlySet).2.1]
  rfl

end Trellis
