import Trellis.Proofs.Graph.Conditions

/-!
# One action more

Successors may refer to actions that are still to come, so an action pushed behind a graph takes
back what has been reported of the successors with its uid, and nothing else: the self loops, the
repetitions and the options of the actions before it do not look at what a graph contains
(`Action.violations_addUid`).  What is wrong with the new action itself comes last, as it stands in
the extended graph (`Graph.violations_push`).
-/

namespace Trellis

namespace Violation

/-- A successor is unknown, and this is its uid. -/
def isWaitingFor (uid : String) : Violation → Bool
  | unknownSuccessor _ successor => successor == uid
  | _ => false

theorem isWaitingFor_of_isOption {uid : String} {v : Violation} (h : v.isOption = true) :
    v.isWaitingFor uid = false := by
  cases v with
  | unknownSuccessor uid successor => cases h
  | _ => rfl

end Violation

namespace Action

/-- With one more uid known, a successor is as bad as before, unless it has waited for the uid. -/
theorem badSuccessor?_addUid (known : String → Bool) (uid self successor : String) :
    badSuccessor? (fun s => known s || s == uid) self successor
      = (badSuccessor? known self successor).filter fun v => !v.isWaitingFor uid := by
  unfold badSuccessor?
  -- a self loop is reported before the successor is looked up, so it is there either way
  by_cases loop : successor = self
  · rw [if_pos loop, if_pos loop]
    rfl
  · rw [if_neg loop, if_neg loop]
    by_cases same : successor = uid
    · subst same
      cases found : known successor <;> simp [found, Violation.isWaitingFor, Option.filter]
    · cases found : known successor <;> simp [found, same, Violation.isWaitingFor, Option.filter]

/-- With one more uid known, an action has wrong with it what it had, but for the successors that
have waited for the uid. -/
theorem violations_addUid (known : String → Bool) (uid : String) (a : Action) :
    a.violations (fun s => known s || s == uid)
      = (a.violations known).filter fun v => !v.isWaitingFor uid := by
  have options : a.optionViolations.filter (fun v => !v.isWaitingFor uid)
      = a.optionViolations := by
    rw [List.filter_eq_self]
    intro v hv
    rw [Violation.isWaitingFor_of_isOption (isOption_of_mem hv)]
    rfl
  rw [violations, violations, List.filter_append, List.filter_filterMap, options]
  simp only [badSuccessor?_addUid]

end Action

namespace Graph

theorem contains_push (g : Graph) (a : Action) :
    (g.push a).contains = fun s => g.contains s || s == a.uid := by
  funext s
  rw [Bool.eq_iff_iff, Bool.or_eq_true, contains_iff, contains_iff, beq_iff_eq, uids, uids,
    actions_push, List.map_append, List.mem_append, List.map_singleton, List.mem_singleton]

/-- The pass over one action more: it comes last, as a repetition where its uid is seen or stands
before it. -/
theorem violationsFrom_snoc (g : Graph) (seen : List String) (actions : List Action) (a : Action) :
    g.violationsFrom seen (actions ++ [a])
      = g.violationsFrom seen actions
        ++ (if a.uid ∈ seen ∨ a.uid ∈ actions.map Action.uid then [.duplicateUid a.uid] else [])
        ++ a.violations g.contains := by
  induction actions generalizing seen with
  | nil => simp [violationsFrom]
  | cons b rest ih =>
    have passed : (a.uid ∈ b.uid :: seen ∨ a.uid ∈ rest.map Action.uid)
        ↔ (a.uid ∈ seen ∨ a.uid ∈ (b :: rest).map Action.uid) := by
      rw [List.map_cons, List.mem_cons, List.mem_cons]
      tauto
    rw [List.cons_append, violationsFrom, violationsFrom, ih]
    simp only [passed, List.append_assoc]

/-- The pass over the actions that were there before a push. -/
theorem violationsFrom_push (g : Graph) (a : Action) (seen : List String) (actions : List Action) :
    (g.push a).violationsFrom seen actions
      = (g.violationsFrom seen actions).filter fun v => !v.isWaitingFor a.uid := by
  have each : ∀ b : Action, b.violations (g.push a).contains
      = (b.violations g.contains).filter fun v => !v.isWaitingFor a.uid := by
    intro b
    rw [contains_push, Action.violations_addUid]
  have pass := violationsFrom_filter (f := id) (fun _ => rfl) (fun _ => rfl) each seen actions
  rwa [List.map_id] at pass

/-- **What is wrong with a graph after a push.**  The unknown successors that have waited for the
new uid are taken back, and nothing else of what was wrong; the order is kept.  Behind it stands
that the uid is repeated, where the graph contained it, and what is wrong with the new action among
the uids of the extended graph. -/
theorem violations_push (g : Graph) (a : Action) (started : g.actions ≠ []) :
    (g.push a).violations
      = (g.violations.filter fun v => !v.isWaitingFor a.uid)
        ++ (if g.contains a.uid then [.duplicateUid a.uid] else [])
        ++ a.violations (g.push a).contains := by
  have before : g.isEmpty = false := by simpa [isEmpty] using started
  have after : (g.push a).isEmpty = false := by simp [isEmpty, actions_push]
  have repeats : (a.uid ∈ ([] : List String) ∨ a.uid ∈ g.actions.map Action.uid)
      ↔ g.contains a.uid = true := by
    rw [contains_iff, uids]
    simp
  rw [violations, violations, before, after, actions_push]
  simp only [Bool.false_eq_true, if_false, violationsFrom_snoc, violationsFrom_push, repeats]

/-- An action that waits for two others. -/
def waiting : Graph := .ofActions
  [{ uid := "a", successors := ["b", "a", "c"], task := .choose [] none none }]

/-- One of the two comes, and loops; or the action comes again, and waits as well. -/
theorem violations_push_waiting :
    waiting.actions ≠ []
    ∧ (waiting.push { uid := "b", successors := ["b", "a"], task := .text "x" none }).violations
      = [.selfLoop "a", .unknownSuccessor "a" "c", .badOption "a" .choices .empty,
        .chooseArity "a" 0 3, .selfLoop "b"]
    ∧ (waiting.push { uid := "a", successors := ["b"], task := .text "x" none }).violations
      = [.unknownSuccessor "a" "b", .selfLoop "a", .unknownSuccessor "a" "c",
        .badOption "a" .choices .empty, .chooseArity "a" 0 3, .duplicateUid "a",
        .unknownSuccessor "a" "b"] := by
  have started : waiting.actions ≠ [] := by decide
  refine ⟨started, ?_, ?_⟩
  · rw [violations_push _ _ started]
    rfl
  · rw [violations_push _ _ started]
    rfl

end Graph

end Trellis
