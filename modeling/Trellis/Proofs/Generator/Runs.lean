import Trellis.Generator
import Trellis.Proofs.Asking
import Trellis.Tokenizer.Character

/-!
# Runs in a row

A run hands at most one wire graph to the oracle: that of a graph that is compiled and validated
(`sent?`).  What such a run does is one call and the decoding of the answer; any other run fails
before the oracle and leaves its state alone (`run_of_sent`, `run_of_unsent`).

An oracle that follows a script answers every call alike, so its state tells how often and with what
it was called, and no run can tell what ran before it (`runAll_of_script`).
-/

namespace Trellis.Generator

open Asking Oracle

variable {σ ρ : Type}

/-- Runs one after the other, each with the state of the oracle that the last one left. -/
def runAll (g : Generator σ ρ) :
    σ → List Graph → Metered (List (Except (RunError ρ) Generation) × σ)
  | s, [] => pure ([], s)
  | s, graph :: rest => do
    let (outcome, s) ← g.run s graph
    let (outcomes, s) ← g.runAll s rest
    return (outcome :: outcomes, s)

/-- The wire graph that a run hands to the oracle: none where the graph is not compiled, or where
the wire graph is not fit for the vocabulary. -/
def sent? (g : Generator σ ρ) (graph : Graph) : Option Wire :=
  match outcome (g.compile graph) with
  | .error _ => none
  | .ok wire =>
    match wire.validate g.tokenizer.vocabSize with
    | .error _ => none
    | .ok () => some wire

section Run

variable {g : Generator σ ρ} {graph : Graph} {wire : Wire}

theorem sent?_eq_some_iff :
    g.sent? graph = some wire
      ↔ outcome (g.compile graph) = .ok wire ∧ wire.validate g.tokenizer.vocabSize = .ok () := by
  unfold sent?
  cases outcome (g.compile graph) with
  | error e => simp
  | ok w =>
    simp only [Except.ok.injEq]
    cases valid : w.validate g.tokenizer.vocabSize with
    | error d =>
      constructor
      · intro h
        cases h
      · rintro ⟨rfl, h⟩
        cases valid.symm.trans h
    | ok u =>
      constructor
      · intro h
        cases h
        exact ⟨rfl, valid⟩
      · rintro ⟨rfl, _⟩
        rfl

/-- A run that reaches the oracle calls it once and decodes what it says. -/
theorem run_of_sent (h : g.sent? graph = some wire) (s : σ) :
    (g.run s graph).value
      = (outcome (g.finish wire (g.oracle.evaluate s wire).1), (g.oracle.evaluate s wire).2) := by
  obtain ⟨compiled, valid⟩ := sent?_eq_some_iff.1 h
  have compiled : (g.compile graph).run.value = .ok wire := compiled
  simp only [run, Metered.value_bind, compiled, valid]
  rfl

/-- A tree is decoded and its paths are ranked. -/
theorem outcome_finish_of_decode {raw : RawTree} {tree : SemanticTree}
    (h : outcome (raw.decode g.tokenizer) = .ok tree) :
    outcome (g.finish wire (.ok raw)) = .ok ⟨wire, tree, tree.rankedPaths⟩ := by
  rw [finish, outcome_bind_pure, outcome_adapt, h]
  rfl

/-- A graph that is not compiled ends the run. -/
theorem run_of_uncompiled {e : CompileError ρ} (h : outcome (g.compile graph) = .error e) (s : σ) :
    (g.run s graph).value = (.error (.compile e), s) := by
  have compiled : (g.compile graph).run.value = .error e := h
  simp only [run, Metered.value_bind, compiled]
  rfl

/-- So does a wire graph that is not fit for the vocabulary. -/
theorem run_of_unfit {d : Wire.Defect} (h : outcome (g.compile graph) = .ok wire)
    (unfit : wire.validate g.tokenizer.vocabSize = .error d) (s : σ) :
    (g.run s graph).value = (.error (.wire d), s) := by
  have compiled : (g.compile graph).run.value = .ok wire := h
  simp only [run, Metered.value_bind, compiled, unfit]
  rfl

/-- A run that does not reach the oracle fails in the same way whatever the oracle's state, which it
leaves alone. -/
theorem run_of_unsent (h : g.sent? graph = none) :
    ∃ e, (∀ d, e ≠ .oracle d) ∧ ∀ s : σ, (g.run s graph).value = (.error e, s) := by
  cases compiled : outcome (g.compile graph) with
  | error e => exact ⟨.compile e, nofun, run_of_uncompiled compiled⟩
  | ok w =>
    cases valid : w.validate g.tokenizer.vocabSize with
    | error d => exact ⟨.wire d, nofun, run_of_unfit compiled valid⟩
    | ok u =>
      have sent : g.sent? graph = some w := sent?_eq_some_iff.2 ⟨compiled, valid⟩
      rw [h] at sent
      cases sent

end Run

/-! ## A script -/

/-- The state of a script after the wire graphs it was handed. -/
def handed (s : Script) (wires : List Wire) : Script :=
  ⟨s.calls + wires.length, wires.getLast?.or s.lastGraph⟩

theorem handed_append (s : Script) (front back : List Wire) :
    handed s (front ++ back) = handed (handed s front) back := by
  simp only [handed, List.length_append, List.getLast?_append, Option.or_assoc, Nat.add_assoc]

section Script

variable {g : Generator Script ρ} {answer : Except OracleError RawTree}
  (script : g.oracle = scripted answer)

include script

/-- A run that reaches the oracle is one call with its wire graph, and no other run is any. -/
theorem state_run (s : Script) (graph : Graph) :
    (g.run s graph).value.2 = handed s (g.sent? graph).toList := by
  cases sent : g.sent? graph with
  | none =>
    obtain ⟨e, _, run⟩ := run_of_unsent sent
    rw [run]
    rfl
  | some wire =>
    rw [run_of_sent sent, script]
    rfl

/-- No run can tell what the script was asked before it. -/
theorem outcome_run (s s' : Script) (graph : Graph) :
    (g.run s graph).value.1 = (g.run s' graph).value.1 := by
  cases sent : g.sent? graph with
  | none =>
    obtain ⟨e, _, run⟩ := run_of_unsent sent
    rw [run, run]
  | some wire =>
    rw [run_of_sent sent, run_of_sent sent, script]
    rfl

/-- A script without an answer is what every run that reaches it fails with. -/
theorem outcome_run_of_sent {e : OracleError} (fails : answer = .error e) {graph : Graph}
    (sent : (g.sent? graph).isSome) (s : Script) :
    (g.run s graph).value.1 = .error (.oracle e) := by
  obtain ⟨wire, sent⟩ := Option.isSome_iff_exists.1 sent
  rw [run_of_sent sent, script, fails]
  rfl

/-- Every run of a row is one of the runs from the start, and the script is handed what they
send. -/
theorem value_runAll (s : Script) (graphs : List Graph) :
    (g.runAll s graphs).value
      = (graphs.map fun graph => (g.run {} graph).value.1,
        handed s (graphs.filterMap g.sent?)) := by
  induction graphs generalizing s with
  | nil => rw [runAll]; rfl
  | cons graph rest ih =>
    have later := ih (g.run s graph).value.2
    have first := outcome_run script s {} graph
    have state := state_run script s graph
    have sent : (graph :: rest).filterMap g.sent?
        = (g.sent? graph).toList ++ rest.filterMap g.sent? := by
      cases h : g.sent? graph <;> simp [h]
    rw [List.map_cons, sent, handed_append, ← state, ← first]
    simp only [runAll, Metered.value_bind, later]
    rfl

/-- **Runs against a script.**  However the runs fail or succeed, the script is called once by each
run whose graph is compiled and validated, and remembers the wire graph of the last of them; a run
that fails before the oracle leaves its state alone.  Where the script has no answer, what it says
is the failure of every run that reaches it.  Every run ends as it does alone from the start. -/
theorem runAll_of_script (graphs : List Graph) :
    let sent := graphs.filterMap g.sent?
    let after := (g.runAll {} graphs).value
    (after.2.calls = sent.length ∧ after.2.lastGraph = sent.getLast?)
    ∧ (∀ s graph wire, g.sent? graph = some wire →
      (g.run s graph).value.2 = ⟨s.calls + 1, some wire⟩)
    ∧ (∀ s graph, g.sent? graph = none →
      (g.run s graph).value.2 = s
        ∧ ∃ e, (∀ d, e ≠ .oracle d) ∧ (g.run s graph).value.1 = .error e)
    ∧ (∀ e, answer = .error e → ∀ s graph, (g.sent? graph).isSome →
      (g.run s graph).value.1 = .error (.oracle e))
    ∧ after.1 = graphs.map fun graph => (g.run {} graph).value.1 := by
  have whole := value_runAll script {} graphs
  refine ⟨?_, ?_, ?_, ?_, ?_⟩
  · rw [whole]
    exact ⟨Nat.zero_add _, Option.or_none⟩
  · intro s graph wire sent
    rw [state_run script, sent]
    rfl
  · intro s graph sent
    obtain ⟨e, other, run⟩ := run_of_unsent sent
    rw [run]
    exact ⟨rfl, e, other, rfl⟩
  · intro e fails s graph sent
    exact outcome_run_of_sent script fails sent s
  · rw [whole]

end Script

/-- A generator whose oracle answers with a token that has no text. -/
def undecodable : Generator Script where
  tokenizer := .character
  oracle := scripted (.ok (RawTree.leaf (.index 0) [Tokenizer.Character.stopId] [] 0.0 false))
  defaults := {}
  masks := ⟨.allowAll 134, .allowNone 134⟩

/-- The graph of one literal, which may go on. -/
def oneText (literal : String) (successors : List String) : Graph :=
  .ofActions [{ uid := "a", successors, task := .text literal none }]

/-- One that is sent, one that is not valid, another that is sent, and one that cannot be
spelled. -/
def mixed : List Graph := [oneText "!" [], oneText "!" ["a"], oneText "?" [], oneText "λ" []]

/-- Two of the runs reach the script, and both are lost when its answer is decoded. -/
theorem runAll_of_script_undecodable :
    undecodable.oracle
      = scripted (.ok (RawTree.leaf (.index 0) [Tokenizer.Character.stopId] [] 0.0 false))
    ∧ (undecodable.runAll {} mixed).value.2.calls = 2
    ∧ (undecodable.runAll {} mixed).value.2.lastGraph
      = some ⟨[{ uid := "a", successors := [], task := .text true [65] }]⟩ := by
  have sent : mixed.filterMap undecodable.sent?
      = [⟨[{ uid := "a", successors := [], task := .text true [35] }]⟩,
        ⟨[{ uid := "a", successors := [], task := .text true [65] }]⟩] := by decide +kernel
  obtain ⟨calls, last⟩ := (runAll_of_script (g := undecodable) rfl mixed).1
  rw [sent] at calls last
  exact ⟨rfl, calls, last⟩

end Trellis.Generator
