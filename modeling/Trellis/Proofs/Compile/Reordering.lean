import Mathlib.Data.List.FinRange
import Trellis.Proofs.Compile.Basic
import Trellis.Proofs.Graph.Conditions

/-!
# The order of the actions

What an action has wrong with it hangs on the set of uids alone, and how often a uid is reported as
repeated on how often it occurs.  So actions in another order have the same violations, each as
often (`Graph.violations_perm`); which occurrence of a uid is blamed is all that changes.  A record
looks at its own action only, so a compilation puts the records in the order of their actions
(`compile_reordered`).
-/

namespace Trellis

open Asking

/-! ## Violations -/

theorem repeated_perm {uids uids' : List String} (same : uids.Perm uids') :
    (repeated [] uids).Perm (repeated [] uids') := by
  rw [List.perm_iff_count]
  intro uid
  rw [count_repeated, count_repeated, same.count_eq]

namespace Graph

/-- What is wrong with a graph is, in some order, the repetitions and what each action has wrong
with it. -/
theorem violationsFrom_split (g : Graph) (actions : List Action) :
    ((repeated [] (actions.map Action.uid)).map Violation.duplicateUid
      ++ actions.flatMap (Action.violations g.contains)).Perm (g.violationsFrom [] actions) := by
  rw [← filter_isDuplicate, ← filter_not_isDuplicate g []]
  exact List.filter_append_perm _ _

variable {actions actions' : List Action}

theorem contains_perm (same : actions.Perm actions') :
    (ofActions actions).contains = (ofActions actions').contains := by
  funext uid
  rw [Bool.eq_iff_iff, contains_iff, contains_iff, uids, uids, actions_ofActions,
    actions_ofActions]
  exact (same.map Action.uid).mem_iff

/-- The order of the actions does not matter for what is wrong with them. -/
theorem violations_perm (same : actions.Perm actions') :
    (ofActions actions).violations.Perm (ofActions actions').violations := by
  have empty : (ofActions actions).isEmpty = (ofActions actions').isEmpty := by
    rw [isEmpty, isEmpty, actions_ofActions, actions_ofActions]
    exact same.isEmpty_eq
  rw [violations, violations, empty, actions_ofActions, actions_ofActions]
  split
  · exact .refl _
  · have repeats := (repeated_perm (same.map Action.uid)).map Violation.duplicateUid
    have own := same.flatMap_right (Action.violations (ofActions actions').contains)
    have before := violationsFrom_split (ofActions actions) actions
    have after := violationsFrom_split (ofActions actions') actions'
    rw [contains_perm same] at before
    exact before.symm.trans ((repeats.append own).trans after)

end Graph

/-! ## Compilation -/

/-- What a row of values is related to, one by one, is a row of as many. -/
theorem forall₂_ofFn_iff {α β : Type} {R : α → β → Prop} {n : Nat} {row : Fin n → α}
    {bs : List β} :
    List.Forall₂ R (List.ofFn row) bs
      ↔ ∃ other : Fin n → β, bs = List.ofFn other ∧ ∀ i, R (row i) (other i) := by
  constructor
  · intro h
    have length : bs.length = n := by rw [← h.length_eq, List.length_ofFn]
    subst length
    refine ⟨bs.get, (List.ofFn_get bs).symm, ?_⟩
    intro i
    have related := h.get (by simp) i.isLt
    simpa using related
  · rintro ⟨other, rfl, related⟩
    rw [List.forall₂_iff_get]
    refine ⟨by simp, ?_⟩
    intro i left right
    simpa using related ⟨i, by simpa using left⟩

namespace Compile

variable {n : Nat} {actions : Fin n → Action} {d : Defaults} {mask : Mask} {t : Tokenizer ρ}

/-- A row of actions is compiled to a row of records, each of which stands for its action. -/
theorem compile_ofFn_eq_ok_iff {w : Wire} :
    outcome (compile (.ofActions (List.ofFn actions)) d mask t) = .ok w
      ↔ check (.ofActions (List.ofFn actions)) d mask t = .ok ()
        ∧ ∃ records, w = ⟨List.ofFn records⟩ ∧ ∀ i, RecordOf t d mask (actions i) (records i) := by
  rw [compile_eq_ok_iff, check_eq_ok_iff, Graph.actions_ofActions, forall₂_ofFn_iff]
  obtain ⟨rs⟩ := w
  simp only [Wire.mk.injEq]

/-- The checks do not look at the order of the actions. -/
theorem check_perm {as bs : List Action} (same : as.Perm bs) :
    check (.ofActions as) d mask t = .ok () ↔ check (.ofActions bs) d mask t = .ok () := by
  have valid : (Graph.ofActions as).Valid ↔ (Graph.ofActions bs).Valid := by
    rw [Graph.valid_iff, Graph.valid_iff]
    have violations := Graph.violations_perm same
    constructor
    · intro none
      exact (none ▸ violations).nil_eq.symm
    · intro none
      exact (none ▸ violations).eq_nil
  rw [check_eq_ok_iff, check_eq_ok_iff, valid]

end Compile

/-- **Actions in another order.**  A graph whose actions are rearranged has the same violations,
each as often.  It is compiled exactly when the graph is, and to the records of the graph rearranged
in the same way. -/
theorem compile_reordered {n : Nat} (actions : Fin n → Action) (order : Equiv.Perm (Fin n)) :
    let g := Graph.ofActions (List.ofFn actions)
    let h := Graph.ofActions (List.ofFn (actions ∘ order))
    g.violations.Perm h.violations
    ∧ ∀ d mask (t : Tokenizer ρ),
      ((∃ w, outcome (compile g d mask t) = .ok w) ↔ ∃ w, outcome (compile h d mask t) = .ok w)
      ∧ ∀ w, outcome (compile g d mask t) = .ok w
        ↔ ∃ records, w = ⟨List.ofFn records⟩
          ∧ outcome (compile h d mask t) = .ok ⟨List.ofFn (records ∘ order)⟩ := by
  intro g h
  have same : (List.ofFn (actions ∘ order)).Perm (List.ofFn actions) :=
    Equiv.Perm.ofFn_comp_perm order actions
  refine ⟨(Graph.violations_perm same).symm, ?_⟩
  intro d mask t
  have rearranged : ∀ records : Fin n → Wire.Record,
      outcome (compile h d mask t) = .ok ⟨List.ofFn (records ∘ order)⟩
        ↔ outcome (compile g d mask t) = .ok ⟨List.ofFn records⟩ := by
    intro records
    rw [Compile.compile_ofFn_eq_ok_iff, Compile.compile_ofFn_eq_ok_iff, Compile.check_perm same]
    simp only [Wire.mk.injEq, List.ofFn_inj, Function.comp_apply, exists_eq_left']
    rw [order.forall_congr_right (q := fun i => Compile.RecordOf t d mask (actions i) (records i))]
  have compiled : ∀ w, outcome (compile g d mask t) = .ok w
      ↔ ∃ records, w = ⟨List.ofFn records⟩
        ∧ outcome (compile h d mask t) = .ok ⟨List.ofFn (records ∘ order)⟩ := by
    intro w
    simp only [rearranged]
    constructor
    · intro ok
      obtain ⟨_, records, rfl, _⟩ := Compile.compile_ofFn_eq_ok_iff.1 ok
      exact ⟨records, rfl, ok⟩
    · rintro ⟨records, rfl, ok⟩
      exact ok
  refine ⟨?_, compiled⟩
  constructor
  · rintro ⟨w, ok⟩
    obtain ⟨records, _, ok'⟩ := (compiled w).1 ok
    exact ⟨_, ok'⟩
  · rintro ⟨w, ok⟩
    obtain ⟨_, records, rfl, _⟩ := Compile.compile_ofFn_eq_ok_iff.1 ok
    -- the records of the rearranged graph, put back in order
    have back : (records ∘ order.symm) ∘ order = records := by
      funext i
      simp
    rw [← back] at ok
    exact ⟨_, (rearranged _).1 ok⟩

end Trellis
