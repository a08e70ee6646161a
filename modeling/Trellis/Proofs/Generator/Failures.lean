import Trellis.Proofs.Compile.Calls
import Trellis.Proofs.Generator.Runs
import Trellis.Proofs.Generator.SetUp
import Trellis.Proofs.Tree.Decoding
import Trellis.Tokenizer.Pieces

/-!
# What a run can fail by

Every stage of a run has checks of its own, and some of them are passed once and for all when the
generator is set up: its table is in range, and its masks cover the vocabulary.  A graph that gets
past its own check is compiled to a wire graph of the right shape, so that the validation can only
meet a token outside the vocabulary; and the decoding of an answer never runs out of nodes.  What is
left is what a caller, a tokenizer or an oracle can be held to (`FailsBy`, `failsBy_of_run`).
-/

namespace Trellis

open Asking

/-! ## One stage after the other -/

namespace Compile

variable {g : Graph} {d : Defaults} {mask : Mask} {t : Tokenizer ρ} {e : CompileError ρ}

/-- With the table in range and the vocabulary covered, only the graph is left to be checked. -/
theorem violation_of_check (table : d.InRange) (size : mask.size = t.vocabSize)
    (h : check g d mask t = .error e) : ∃ v, g.validate = .error v ∧ e = .graph v := by
  cases valid : g.validate with
  | error v =>
    rw [check, valid] at h
    cases h
    exact ⟨v, rfl, rfl⟩
  | ok u =>
    rw [check, valid, Defaults.validate_eq_ok_iff.2 table, if_pos size] at h
    cases h

/-- A compilation fails by a check, or by a literal of the graph that is refused. -/
theorem check_or_refused (h : outcome (compile g d mask t) = .error e) :
    check g d mask t = .error e
    ∨ ∃ l ∈ Literal.ofActions g.actions, ∃ cause, l.Refused t cause
      ∧ e = .literal l.uid l.text cause := by
  cases checked : check g d mask t with
  | error e' =>
    rw [(compile_of_check checked).1] at h
    cases h
    exact .inl rfl
  | ok u =>
    have asks := asks_compile checked
    rcases Literal.spelled_or_refused t (Literal.ofActions g.actions) with
      all | ⟨before, l, after, cause, split, spelled, refused⟩
    · obtain ⟨⟨w, ok⟩, _⟩ := asks.spelled all
      rw [ok] at h
      cases h
    · rw [(asks.refused before l after cause split spelled refused).1] at h
      cases h
      refine .inr ⟨l, ?_, cause, refused, rfl⟩
      simp [split]

/-- The literals of a graph are those of its actions. -/
theorem Literal.mem_ofActions {actions : List Action} {l : Literal} (h : l ∈ ofActions actions) :
    ∃ a ∈ actions, l.uid = a.uid ∧ l.text ∈ a.task.literals := by
  obtain ⟨a, ha, hl⟩ := List.mem_flatMap.1 h
  obtain ⟨text, ht, rfl⟩ := List.mem_map.1 hl
  exact ⟨a, ha, rfl, ht⟩

end Compile

/-- A wire graph of the right shape can only leave the vocabulary. -/
theorem Wire.Shaped.outside_of_validate {w : Wire} {vocabSize : Nat} {d : Wire.Defect}
    (shaped : w.Shaped vocabSize) (h : w.validate vocabSize = .error d) :
    ∃ r ∈ w.records, ∃ token ∈ r.tokens, vocabSize ≤ token.toNat
      ∧ d = .tokenOutOfRange r.uid token vocabSize := by
  obtain ⟨before, r, after, records, _, found⟩ := shaped.validate_eq_error_iff.1 h
  obtain ⟨front, token, back, tokens, _, outside, rfl⟩ :=
    Record.tokenDefect?_eq_some_iff.1 found
  refine ⟨r, ?_, token, ?_, outside, rfl⟩
  · simp [records]
  · simp [tokens]

/-- What refuses a node is the tokenizer, asked for its tokens. -/
theorem RawNode.refusal?_eq_some_iff {t : Tokenizer ρ} {n : RawNode} {cause : ρ} :
    n.refusal? t = some cause ↔ n.tokens ≠ [] ∧ t.detokenize n.tokens = .error cause := by
  unfold refusal? asks
  cases t.detokenize n.tokens <;> simp

/-- A tree that is not decoded has a node that is refused. -/
theorem RawTree.exists_refused_of_decode {t : Tokenizer ρ} {raw : RawTree} {e : DecodeError ρ}
    (h : outcome (raw.decode t) = .error e) :
    ∃ n ∈ raw.preorder, ∃ cause, n.refusal? t = some cause ∧ e = .node n.action cause := by
  rw [decode_eq_decodeRec, outcome_decodeRec] at h
  cases failure : RawNode.firstFailure? t raw.preorder with
  | none =>
    rw [failure] at h
    cases h
  | some e' =>
    rw [failure] at h
    cases h
    obtain ⟨n, hn, found⟩ := List.exists_of_findSome?_eq_some failure
    obtain ⟨cause, refused, rfl⟩ := Option.map_eq_some_iff.1 found
    exact ⟨n, hn, cause, refused, rfl⟩

/-! ## The run -/

namespace Generator

variable {σ ρ : Type}

/-- What a run of a graph can fail by, with the oracle in state `s`. -/
inductive FailsBy (g : Generator σ ρ) (s : σ) (graph : Graph) : RunError ρ → Prop
  /-- The graph is not valid; the first violation is named. -/
  | violation {v : Violation} (first : graph.validate = .error v) :
      FailsBy g s graph (.compile (.graph v))
  /-- The tokenizer refuses a literal of an action. -/
  | literal {a : Action} {text : String} {cause : ρ} (ha : a ∈ graph.actions)
      (hl : text ∈ a.task.literals)
      (refused : g.tokenizer.tokenize text false false = .error cause) :
      FailsBy g s graph (.compile (.literal a.uid text cause))
  /-- A literal is spelled with a token that the vocabulary does not have. -/
  | token {wire : Wire} {r : Wire.Record} {token : TokenId}
      (compiled : outcome (g.compile graph) = .ok wire) (hr : r ∈ wire.records)
      (ht : token ∈ r.tokens) (outside : g.tokenizer.vocabSize ≤ token.toNat) :
      FailsBy g s graph (.wire (.tokenOutOfRange r.uid token g.tokenizer.vocabSize))
  /-- The oracle has no answer to the wire graph. -/
  | oracle {wire : Wire} {e : OracleError} (sent : g.sent? graph = some wire)
      (answer : (g.oracle.evaluate s wire).1 = .error e) : FailsBy g s graph (.oracle e)
  /-- The tokenizer refuses the tokens of a node of the answer. -/
  | node {wire : Wire} {raw : RawTree} {n : RawNode} {cause : ρ}
      (sent : g.sent? graph = some wire) (answer : (g.oracle.evaluate s wire).1 = .ok raw)
      (hn : n ∈ raw.preorder) (nonempty : n.tokens ≠ [])
      (refused : g.tokenizer.detokenize n.tokens = .error cause) :
      FailsBy g s graph (.decode (.node n.action cause))

section Ready

variable {g : Generator σ ρ} {s : σ} {graph : Graph} (ready : g.IsSetUp)

include ready

theorem failsBy_of_compile {e : CompileError ρ} (h : outcome (g.compile graph) = .error e) :
    g.FailsBy s graph (.compile e) := by
  rcases Compile.check_or_refused h with checked | ⟨l, hl, cause, refused, rfl⟩
  · obtain ⟨v, first, rfl⟩ := Compile.violation_of_check ready.inRange ready.covers checked
    exact .violation first
  · obtain ⟨a, ha, uid, text⟩ := Compile.Literal.mem_ofActions hl
    rw [uid]
    exact .literal ha text refused

omit ready in
theorem failsBy_of_validate {wire : Wire} {d : Wire.Defect}
    (compiled : outcome (g.compile graph) = .ok wire)
    (h : wire.validate g.tokenizer.vocabSize = .error d) : g.FailsBy s graph (.wire d) := by
  obtain ⟨r, hr, token, ht, outside, rfl⟩ := (shaped_of_compile compiled).outside_of_validate h
  exact .token compiled hr ht outside

omit ready in
theorem failsBy_of_finish {wire : Wire} {e : RunError ρ} (sent : g.sent? graph = some wire)
    (h : outcome (g.finish wire (g.oracle.evaluate s wire).1) = .error e) :
    g.FailsBy s graph e := by
  cases answer : (g.oracle.evaluate s wire).1 with
  | error e' =>
    rw [answer, finish, outcome_throw] at h
    cases h
    exact .oracle sent answer
  | ok raw =>
    rw [answer, finish, outcome_bind_pure, outcome_adapt] at h
    cases decoded : outcome (raw.decode g.tokenizer) with
    | ok tree =>
      rw [decoded] at h
      cases h
    | error e' =>
      rw [decoded] at h
      cases h
      obtain ⟨n, hn, cause, refused, rfl⟩ := RawTree.exists_refused_of_decode decoded
      obtain ⟨nonempty, refused⟩ := RawNode.refusal?_eq_some_iff.1 refused
      exact .node sent answer hn nonempty refused

/-- **What a run can fail by.**  A generator that is set up fails a run only by a violation of the
graph, by a literal that is refused, by a token outside the vocabulary, by what the oracle says, or
by a node of its answer that is refused.  Neither the table nor the size of the masks is found wrong
then, no other defect is found in the wire graph, and the decoding comes to its root.

The tokenizer is any that answers by what it is asked, with refusals of any type, and the oracle may
answer by its state. -/
theorem failsBy_of_run {e : RunError ρ} (h : (g.run s graph).value.1 = .error e) :
    g.FailsBy s graph e
    ∧ (∀ f, e ≠ .compile (.defaults f))
    ∧ (∀ size vocabSize, e ≠ .compile (.maskSize size vocabSize))
    ∧ (∀ d, e = .wire d → ∃ uid token, d = .tokenOutOfRange uid token g.tokenizer.vocabSize)
    ∧ e ≠ .decode .rootless := by
  have cause : g.FailsBy s graph e := by
    cases compiled : outcome (g.compile graph) with
    | error e' =>
      rw [run_of_uncompiled compiled] at h
      cases h
      exact failsBy_of_compile ready compiled
    | ok wire =>
      cases valid : wire.validate g.tokenizer.vocabSize with
      | error d =>
        rw [run_of_unfit compiled valid] at h
        cases h
        exact failsBy_of_validate compiled valid
      | ok u =>
        have sent : g.sent? graph = some wire := sent?_eq_some_iff.2 ⟨compiled, valid⟩
        rw [run_of_sent sent] at h
        exact failsBy_of_finish sent h
  refine ⟨cause, ?_, ?_, ?_, ?_⟩
  · rintro f rfl
    cases cause
  · rintro size vocabSize rfl
    cases cause
  · rintro d rfl
    cases cause
    exact ⟨_, _, rfl⟩
  · rintro rfl
    cases cause

end Ready

/-- Four pieces, one of which has no text. -/
def fourPieces : Tokenizer :=
  Tokenizer.Pieces.tokenizer ⟨[some "yes", some "no", none, some "."], []⟩

/-- A generator with four tokens whose masks are those of other four. -/
def borrowing : Generator Oracle.Script where
  tokenizer := sampleTokenizer 4
  oracle := Oracle.scripted (.error (.failed "not reached"))
  defaults := {}
  masks := (VocabMasks.build fourPieces).value

/-- The masks are accepted for their size, and the run meets a token outside the vocabulary. -/
theorem failsBy_of_run_borrowing :
    withMasks (sampleTokenizer 4) (Oracle.scripted (.error (.failed "not reached"))) {}
      (VocabMasks.build fourPieces).value = .ok borrowing
    ∧ (borrowing.run {} sampleGraph).value.1 = .error (.wire (.tokenOutOfRange "pick" 5 4))
    ∧ borrowing.FailsBy {} sampleGraph (.wire (.tokenOutOfRange "pick" 5 4)) := by
  have accepted : withMasks (sampleTokenizer 4)
      (Oracle.scripted (.error (.failed "not reached"))) {}
      (VocabMasks.build fourPieces).value = .ok borrowing := rfl
  have fails : (borrowing.run {} sampleGraph).value.1
      = .error (.wire (.tokenOutOfRange "pick" 5 4)) := rfl
  exact ⟨accepted, fails, (failsBy_of_run (.withMasks accepted) fails).1⟩

end Generator

end Trellis
