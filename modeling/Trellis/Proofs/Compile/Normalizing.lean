import Trellis.Proofs.Compile.Validation

/-!
# Continuations written out beforehand

Writing out the single continuation of a choice changes neither where an action stands nor what it
does, and what is written out once stays as it is.  The continuations themselves may change: with
several choices a continuation is repeated, and with none it is gone, be it known or not.  So the
two graphs need not have the same violations; but a choice without choices is a violation in both,
and so one of the graphs is valid exactly when the other is (`Graph.valid_normalize_iff`).  A
compilation writes the continuations out itself, so past the checks it does the same work for both
(`Compile.compile_of_normalize`).
-/

namespace Trellis

open Asking

/-! ## One action -/

namespace Action

/-- The action with its continuations written out. -/
def normalize (a : Action) : Action := { a with successors := a.broadcast }

/-- What is written out is not written out again. -/
theorem broadcast_normalize (a : Action) : a.normalize.broadcast = a.broadcast := by
  obtain ⟨uid, successors, task⟩ := a
  cases task with
  | text literal evaluate => rfl
  | complete c => rfl
  | choose choices threshold width =>
    rcases successors with _ | ⟨s, _ | ⟨s', rest⟩⟩
    · rfl
    · -- Written out for a single choice, a continuation is single again.
      rcases choices with _ | ⟨c, _ | ⟨c', cs⟩⟩ <;> rfl
    · rfl

theorem normalize_normalize (a : Action) : a.normalize.normalize = a.normalize := by
  have same := broadcast_normalize a
  rw [normalize, same]
  rfl

/-- The options are sound with the continuations written out or not. -/
theorem sound_normalize_iff {a : Action} : a.normalize.Sound ↔ a.Sound := by
  obtain ⟨uid, successors, task⟩ := a
  cases task with
  | text literal evaluate => rfl
  | complete c => rfl
  | choose choices threshold width =>
    rcases successors with _ | ⟨s, _ | ⟨s', rest⟩⟩
    · rfl
    · simp [Sound, normalize, broadcast]
    · rfl

/-- A sound choice has something to choose from, so none of its continuations is lost. -/
theorem mem_broadcast_iff {a : Action} (sound : a.Sound) {s : String} :
    s ∈ a.broadcast ↔ s ∈ a.successors := by
  constructor
  · exact mem_of_mem_broadcast
  · intro h
    unfold broadcast
    split
    · next choices threshold width s' task single =>
      rw [Sound, task] at sound
      rw [single, List.mem_singleton] at h
      rw [List.mem_replicate]
      exact ⟨by simpa using sound.1, h⟩
    · exact h

end Action

/-! ## Graphs -/

namespace Graph

theorem actions_normalize (g : Graph) : g.normalize.actions = g.actions.map Action.normalize := rfl

/-- What does not look at the continuations is the same at every place. -/
theorem map_actions_normalize {α : Type} {f : Action → α} (same : ∀ a, f a.normalize = f a)
    (g : Graph) : g.normalize.actions.map f = g.actions.map f := by
  rw [actions_normalize, List.map_map]
  apply List.map_congr_left
  intro a _
  exact same a

theorem normalize_normalize (g : Graph) : g.normalize.normalize = g.normalize := by
  apply ext_actions
  exact map_actions_normalize Action.normalize_normalize g

theorem uids_normalize (g : Graph) : g.normalize.uids = g.uids :=
  map_actions_normalize (fun _ => rfl) g

theorem get?_normalize (g : Graph) (uid : String) :
    g.normalize.get? uid = (g.get? uid).map Action.normalize := by
  have index : g.normalize.index = g.index := rfl
  rw [get?, get?, index, Option.map_bind]
  congr 1
  funext position
  rw [actions_normalize, List.getElem?_map, Function.comp_apply]

theorem valid_normalize_iff {g : Graph} : g.normalize.Valid ↔ g.Valid := by
  constructor
  · intro h
    have written : ∀ a ∈ g.actions, a.normalize ∈ g.normalize.actions := by
      intro a ha
      exact List.mem_map_of_mem ha
    have sound : ∀ a ∈ g.actions, a.Sound := by
      intro a ha
      exact Action.sound_normalize_iff.1 (h.sound a.normalize (written a ha))
    refine ⟨?_, ?_, ?_, sound⟩
    · simpa [actions_normalize] using h.nonempty
    · rw [← uids_normalize g]
      exact h.distinct
    · intro a ha s hs
      rw [← uids_normalize g]
      exact h.linked a.normalize (written a ha) s ((Action.mem_broadcast_iff (sound a ha)).2 hs)
  · intro h
    refine ⟨?_, ?_, ?_, ?_⟩
    · simpa [actions_normalize] using h.nonempty
    · rw [uids_normalize]
      exact h.distinct
    · rw [actions_normalize, List.forall_mem_map, uids_normalize]
      intro a ha s hs
      exact h.linked a ha s (Action.mem_of_mem_broadcast hs)
    · rw [actions_normalize, List.forall_mem_map]
      intro a ha
      exact Action.sound_normalize_iff.2 (h.sound a ha)

-- Without choices an unknown continuation is lost, and with two of them it is reported twice.
example : (ofActions [⟨"pick", ["gone"], .choose [] none none⟩]).normalize.violations
    = [.badOption "pick" .choices .empty] := rfl
example : (ofActions [⟨"pick", ["gone"], .choose ["a", "b"] none none⟩]).normalize.violations
    = [.unknownSuccessor "pick" "gone", .unknownSuccessor "pick" "gone"] := rfl

end Graph

/-! ## Compilation -/

namespace Compile

variable {t : Tokenizer ρ} {d : Defaults} {mask : Mask}

theorem record_normalize (a : Action) : record t d mask a.normalize = record t d mask a := by
  have uid : a.normalize.uid = a.uid := rfl
  have task : a.normalize.task = a.task := rfl
  rw [record, record, Action.broadcast_normalize, uid, task]

/-- Valid graphs are past the checks together, and past them the work is the same. -/
theorem compile_of_normalize {g : Graph} (valid : g.Valid) :
    compile g.normalize d mask t = compile g d mask t := by
  have written := Graph.valid_normalize_iff.2 valid
  rw [compile, compile, check, check, Graph.validate_eq_ok_iff.2 valid,
    Graph.validate_eq_ok_iff.2 written, Graph.actions_normalize, records_map record_normalize]

/-- A graph that is not valid is compiled neither way. -/
theorem compile_normalize_eq_ok_iff {g : Graph} {w : Wire} :
    outcome (compile g.normalize d mask t) = .ok w ↔ outcome (compile g d mask t) = .ok w := by
  by_cases valid : g.Valid
  · rw [compile_of_normalize valid]
  · have written : ¬ g.normalize.Valid := mt Graph.valid_normalize_iff.1 valid
    rw [compile_eq_ok_iff, compile_eq_ok_iff]
    simp [valid, written]

end Compile

/-- **A graph means the same with its continuations written out.**  Writing them out twice is
writing them out once.  Uids, tasks and order stay, every uid is found where it was, and there
stands the same action with its continuations written out.  The graph has violations exactly when
the written out one has, and the two are compiled to the same wire graph or both to none; a valid
graph is so by the very same calls of the tokenizer. -/
theorem Graph.normalize_preserves (g : Graph) :
    g.normalize.normalize = g.normalize
    ∧ (g.normalize.uids = g.uids
      ∧ g.normalize.actions.map Action.task = g.actions.map Action.task
      ∧ g.normalize.actions.map Action.kind = g.actions.map Action.kind
      ∧ g.normalize.size = g.size
      ∧ g.normalize.entry? = g.entry?.map Action.normalize)
    ∧ (∀ uid, g.normalize.index.find? uid = g.index.find? uid
      ∧ g.normalize.get? uid = (g.get? uid).map Action.normalize)
    ∧ (g.violations = [] ↔ g.normalize.violations = [])
    ∧ (∀ d mask (t : Tokenizer ρ) w, outcome (compile g d mask t) = .ok w
        ↔ outcome (compile g.normalize d mask t) = .ok w)
    ∧ (g.violations = [] → ∀ d mask (t : Tokenizer ρ),
      compile g.normalize d mask t = compile g d mask t) := by
  refine ⟨normalize_normalize g, ⟨uids_normalize g, ?_, ?_, ?_, ?_⟩, ?_, ?_, ?_, ?_⟩
  · exact map_actions_normalize (fun _ => rfl) g
  · exact map_actions_normalize (fun _ => rfl) g
  · rw [size, actions_normalize, List.length_map, size]
  · unfold entry?
    rw [actions_normalize, List.head?_map]
  · intro uid
    exact ⟨rfl, get?_normalize g uid⟩
  · rw [← valid_iff, ← valid_iff, valid_normalize_iff]
  · intro d mask t w
    exact Compile.compile_normalize_eq_ok_iff.symm
  · intro none d mask t
    exact Compile.compile_of_normalize (valid_iff.2 none)

end Trellis
