import Trellis.Proofs.Compile.Reload
import Trellis.Proofs.Compile.Walk
import Trellis.Proofs.Double.Whole
import Trellis.Proofs.Generator.Runs
import Trellis.Proofs.Generator.SetUp
import Trellis.Proofs.Tokenizer.Character
import Trellis.Proofs.Tree.Decoding
import Trellis.Proofs.Tree.Ranking

/-!
# Echoes

Against the echo oracle a run gives back what the graph says.  For a tokenizer that spells the
literals within its vocabulary, and that decodes spellings in a row to literals in a row
(`Graph.EchoedBy`), a graph without violations is compiled and validated; the oracle answers with
one node of what is emitted on the walk, and this is decoded to the literals on the walk
(`run_of_echo`).
-/

namespace Trellis

open Asking

namespace Graph

/-- The literals of the actions in order. -/
def literals (g : Graph) : List String := g.actions.flatMap fun a => a.task.literals

/-- The literals that are emitted on the walk. -/
def spoken (g : Graph) : List String := g.walk.flatMap fun a => a.task.spoken

/-- Every literal is spelled within the vocabulary, and spellings in a row are decoded to their
literals in a row. -/
structure EchoedBy (t : Tokenizer ρ) (g : Graph) : Prop where
  spelled : ∀ literal ∈ g.literals, ∃ tokens, Compile.Spells t literal tokens
    ∧ ∀ token ∈ tokens, token.toNat < t.vocabSize
  decoded : ∀ literals rows, literals ≠ [] → (∀ literal ∈ literals, literal ∈ g.literals) →
    List.Forall₂ (Compile.Spells t) literals rows →
    t.detokenize rows.flatten = .ok (String.join literals)

variable {g : Graph} {t : Tokenizer ρ}

theorem mem_literals_of_spoken {literal : String} (h : literal ∈ g.spoken) :
    literal ∈ g.literals := by
  obtain ⟨a, walked, said⟩ := List.mem_flatMap.1 h
  refine List.mem_flatMap.2 ⟨a, mem_walk a walked, ?_⟩
  cases task : a.task with
  | text other evaluate => rwa [task] at said
  | choose choices threshold width =>
    rw [task] at said
    exact List.mem_of_mem_head? (Option.mem_toList.1 said)
  | complete c => rw [task] at said; cases said

theorem EchoedBy.inside (h : g.EchoedBy t) : g.Inside t := by
  intro a ha literal hl tokens spelled token htoken
  obtain ⟨others, same, inside⟩ := h.spelled literal (List.mem_flatMap.2 ⟨a, ha, hl⟩)
  cases same.symm.trans spelled
  exact inside token htoken

/-- What spells nothing says nothing: in a row twice it is decoded as it is in a row once. -/
theorem EchoedBy.join_eq_empty (h : g.EchoedBy t) {literals : List String}
    {rows : List (List TokenId)} (known : ∀ literal ∈ literals, literal ∈ g.literals)
    (spelled : List.Forall₂ (Compile.Spells t) literals rows) (nothing : rows.flatten = []) :
    String.join literals = "" := by
  by_cases empty : literals = []
  · rw [empty]
    rfl
  · have once := h.decoded literals rows empty known spelled
    have twice := h.decoded (literals ++ literals) (rows ++ rows) (by simp [empty])
      (fun l hl => (List.mem_append.1 hl).elim (known l) (known l))
      (List.rel_append spelled spelled)
    rw [List.flatten_append, nothing] at twice
    rw [nothing] at once
    have same := Except.ok.inj (once.symm.trans twice)
    rw [String.join_append] at same
    exact String.append_eq_left_iff.1 same.symm

/-- What spells some literals is empty, and so are they, or it is decoded to them in a row. -/
theorem EchoedBy.text (h : g.EchoedBy t) {literals : List String} {rows : List (List TokenId)}
    (known : ∀ literal ∈ literals, literal ∈ g.literals)
    (spelled : List.Forall₂ (Compile.Spells t) literals rows) :
    rows.flatten = [] ∧ String.join literals = ""
      ∨ rows.flatten ≠ [] ∧ t.detokenize rows.flatten = .ok (String.join literals) := by
  by_cases nothing : rows.flatten = []
  · exact .inl ⟨nothing, h.join_eq_empty known spelled nothing⟩
  · have some : literals ≠ [] := by
      rintro rfl
      cases spelled
      exact nothing rfl
    exact .inr ⟨nothing, h.decoded literals rows some known spelled⟩

end Graph

/-! ## One node -/

namespace RawTree

/-- A node alone is decoded to its text; it is not asked for where it has no tokens. -/
theorem outcome_decode_alone {t : Tokenizer ρ} {n : RawNode} {text : String}
    (h : n.tokens = [] ∧ text = "" ∨ n.tokens ≠ [] ∧ t.detokenize n.tokens = .ok text) :
    outcome (RawTree.decode t (.node n [])) = .ok (.node (n.withText text) []) := by
  have node : n.refusal? t = none ∧ n.decoded t = n.withText text := by
    rcases h with ⟨empty, rfl⟩ | ⟨nonempty, decoded⟩
    · have silent : n.asks = false := by rw [RawNode.asks, empty]; rfl
      simp [RawNode.refusal?, RawNode.decoded, silent]
    · have asks : n.asks = true := by simp [RawNode.asks, nonempty]
      simp [RawNode.refusal?, RawNode.decoded, asks, decoded, Except.toOption]
  refine decode_eq_ok_iff.2 ⟨List.forall_mem_singleton.2 node.1, ?_⟩
  rw [← node.2]
  rfl

end RawTree

namespace SemanticTree

/-- The paths of a node alone: its own, where it is not pruned. -/
theorem rankedPaths_alone {n : SemanticNode} (kept : n.pruned = false) :
    rankedPaths (.node n []) = [⟨n.text, n.probability⟩] := by
  have path : paths (.node n []) = [⟨n.text, n.probability⟩] := by
    simp [paths, Tree.routes, pathOf, Route.labels, kept]
  rw [rankedPaths_eq, path]
  exact List.mergeSort_singleton _

end SemanticTree

/-! ## The run -/

namespace Generator

/-- A branch alone is the one path of its tree, and it is certain. -/
theorem outcome_finish_alone {g : Generator Unit ρ} {wire : Wire} {tokens : List TokenId}
    {text : String}
    (h : tokens = [] ∧ text = "" ∨ tokens ≠ [] ∧ g.tokenizer.detokenize tokens = .ok text) :
    ∃ tree, outcome (g.finish wire (.ok (RawTree.branch (.index 0) tokens [])))
      = .ok ⟨wire, tree, [⟨text, (1.0 : Float)⟩]⟩ := by
  obtain ⟨n, branch, same, kept, certain, length⟩ :
      ∃ n : RawNode, RawTree.branch (.index 0) tokens [] = .node n [] ∧ n.tokens = tokens
        ∧ n.pruned = false ∧ n.logprob = 0.0 ∧ n.length = RawTree.lengthOf tokens :=
    ⟨_, rfl, rfl, rfl, rfl, rfl⟩
  rw [← same] at h
  have decoded := RawTree.outcome_decode_alone h
  have path : SemanticTree.rankedPaths (.node (n.withText text) []) = [⟨text, (1.0 : Float)⟩] := by
    have probability : (n.withText text).probability = ((1.0 : Float) : Double) := by
      rw [RawNode.withText, certain, pathProbability_zero]
    rw [SemanticTree.rankedPaths_alone kept, probability]
    rfl
  refine ⟨.node (n.withText text) [], ?_⟩
  rw [branch, outcome_finish_of_decode decoded, path]

/-- **A run against the echo oracle.**  It succeeds with one path, which is certain and says what is
said on the walk along first successors, cut after as many actions as the graph has.  Where the walk
comes to an action without successors, the cut drops nothing, and every action on it is taken
once. -/
theorem run_of_echo {g : Generator Unit ρ} {graph : Graph} (ready : g.IsSetUp)
    (echo : g.oracle = .echo) (valid : graph.violations = []) (echoed : graph.EchoedBy g.tokenizer)
    (short : ∀ rows, List.Forall₂ (Compile.Spells g.tokenizer) graph.spoken rows →
      rows.flatten.length < 0x100000000) :
    (∃ wire tree, (g.run () graph).value.1
      = .ok ⟨wire, tree, [⟨String.join graph.spoken, (1.0 : Float)⟩]⟩)
    ∧ ∀ entry path, graph.entry? = some entry → graph.Ends entry path →
      graph.walk = path ∧ path.Nodup := by
  have whole : graph.Valid := Graph.valid_iff.2 valid
  have spelled : ∀ a ∈ graph.actions, ∀ literal ∈ a.task.literals,
      ∃ tokens, Compile.Spells g.tokenizer literal tokens := by
    intro a ha literal hl
    obtain ⟨tokens, spells, _⟩ := echoed.spelled literal (List.mem_flatMap.2 ⟨a, ha, hl⟩)
    exact ⟨tokens, spells⟩
  obtain ⟨wire, compiled⟩ := exists_compile whole ready.inRange ready.covers spelled
  have fit : wire.validate g.tokenizer.vocabSize = .ok () :=
    (shaped_of_compile compiled).validate_eq_ok_iff.2 (spelled_of_compile compiled echoed.inside)
  have sent : g.sent? graph = some wire := sent?_eq_some_iff.2 ⟨compiled, fit⟩
  -- what the oracle emits spells what is said on the walk
  have records := (compile_eq_ok_iff.1 compiled).2
  obtain ⟨rows, said, emitted⟩ := Compile.emittedFrom_spells records whole.sound
    (fun a ha => Graph.mem_of_start ha) (Compile.rel_start records)
  have size : wire.records.length = graph.size := records.length_eq.symm
  have answer : Oracle.echoTree wire = .ok (RawTree.branch (.index 0) rows.flatten []) := by
    rw [Oracle.echoTree, size, emitted]
    exact if_pos (short rows said)
  have text := echoed.text (fun l hl => Graph.mem_literals_of_spoken hl) said
  obtain ⟨tree, finished⟩ := outcome_finish_alone text
  refine ⟨⟨wire, tree, ?_⟩, fun entry path start ends => Graph.walk_of_ends start ends⟩
  rw [run_of_sent sent, echo]
  change outcome (g.finish wire (Oracle.echoTree wire)) = _
  rw [answer]
  exact finished

end Generator

/-! ## The character tokenizer -/

/-- The character tokenizer reads back the literals that it spells. -/
theorem Graph.echoedBy_character {g : Graph}
    (spelled : ∀ literal ∈ g.literals, ∃ tokens, Compile.Spells .character literal tokens) :
    g.EchoedBy .character := by
  constructor
  · intro literal hl
    obtain ⟨tokens, spells⟩ := spelled literal hl
    exact ⟨tokens, spells, Tokenizer.Character.tokenize_lt spells⟩
  · intro literals rows _ _ row
    exact Tokenizer.Character.detokenize_of_tokenize (Tokenizer.Character.tokenize_join row)

/-- A literal, a choice with one continuation, and a completion where the walk ends. -/
def greeting : Graph := .ofActions
  [{ uid := "hello", successors := ["whom"], task := .text "Hello, " none },
    { uid := "whom", successors := ["more"], task := .choose ["you", "world"] none none },
    { uid := "more", successors := [], task := .complete { length := some 4, stop := "." } }]

/-- The echo oracle behind the character tokenizer, with the built-in defaults. -/
def echoing : Generator Unit where
  tokenizer := .character
  oracle := .echo
  defaults := {}
  masks := (VocabMasks.build .character).value

/-- The first choice is taken, and the completion says nothing. -/
theorem Generator.run_of_echo_greeting :
    (∃ wire tree, (echoing.run () greeting).value.1
      = .ok ⟨wire, tree, [⟨"Hello, you", (1.0 : Float)⟩]⟩)
    ∧ greeting.walk = greeting.actions := by
  have ready : echoing.IsSetUp := .new (t := .character) (o := .echo) (d := {}) rfl
  have valid : greeting.violations = [] := by decide +kernel
  have literals : greeting.literals = ["Hello, ", "you", "world", "."] := rfl
  have echoed : greeting.EchoedBy .character := by
    apply Graph.echoedBy_character
    rw [literals]
    simp only [List.forall_mem_cons]
    exact ⟨⟨_, rfl⟩, ⟨_, rfl⟩, ⟨_, rfl⟩, ⟨_, rfl⟩, nofun⟩
  have short : ∀ rows, List.Forall₂ (Compile.Spells .character) greeting.spoken rows →
      rows.flatten.length < 0x100000000 := by
    intro rows said
    have whole : Tokenizer.character.tokenize "Hello, you" false false
        = .ok [74, 103, 110, 110, 113, 46, 34, 123, 113, 119] := rfl
    have same := (Tokenizer.Character.tokenize_join said).symm.trans whole
    rw [Except.ok.inj same]
    decide
  obtain ⟨spoken, walked⟩ := run_of_echo ready rfl valid echoed short
  exact ⟨spoken, (walked _ _ rfl (.step rfl (.step rfl (.last rfl)))).1⟩

end Trellis
