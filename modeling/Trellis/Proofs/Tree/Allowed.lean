import Trellis.Proofs.Mask.Safe
import Trellis.Proofs.Tokenizer.Character
import Trellis.Proofs.Tree.Decoding
import Trellis.Proofs.Tree.Ranking

/-!
# What a tree of allowed tokens is decoded to

Where a tokenizer decodes token by token, what the safe mask promises of a token carries over to
everything that is made of tokens: to the sequence of a node, so that no node is refused, to every
node of the tree, and to the paths, whose texts are texts of nodes in a row.  So the characters that
reach a caller are the allowed ones (`allowed_of_safe`).
-/

namespace Trellis

open Asking

/-! ## Sequences of tokens -/

/-- Where each token is decoded alone, the tokens in a row are decoded to the texts in a row. -/
def Tokenizer.Joins (t : Tokenizer ρ) : Prop :=
  ∀ ids texts, List.Forall₂ (fun id text => t.detokenize [id] = .ok text) ids texts →
    t.detokenize ids = .ok (String.join texts)

theorem Tokenizer.joins_character : character.Joins := fun _ _ => Character.detokenize_join

section Allowed

variable {t : Tokenizer ρ} (small : t.vocabSize ≤ 0xFFFFFFFF)

include small

/-- The texts of allowed tokens, one by one. -/
theorem exists_texts_of_isAllowed {ids : List TokenId}
    (allowed : ∀ id ∈ ids, (Mask.safe t).value.isAllowed id = true) :
    ∃ texts, List.Forall₂ (fun id text => t.detokenize [id] = .ok text) ids texts
      ∧ ∀ text ∈ texts, AllowedText text := by
  induction ids with
  | nil => exact ⟨[], .nil, nofun⟩
  | cons id ids ih =>
    rw [List.forall_mem_cons] at allowed
    obtain ⟨text, decodes, plain⟩ := Mask.exists_text_of_isAllowed small allowed.1
    obtain ⟨texts, each, others⟩ := ih allowed.2
    exact ⟨text :: texts, .cons decodes each, List.forall_mem_cons.2 ⟨plain, others⟩⟩

variable (joins : t.Joins)

include joins

theorem exists_text_of_sequence {ids : List TokenId}
    (allowed : ∀ id ∈ ids, (Mask.safe t).value.isAllowed id = true) :
    ∃ text, t.detokenize ids = .ok text ∧ AllowedText text := by
  obtain ⟨texts, each, plain⟩ := exists_texts_of_isAllowed small allowed
  exact ⟨String.join texts, joins ids texts each, allowedText_join plain⟩

/-! ## Nodes and trees -/

/-- A node of allowed tokens is not refused, and its text is allowed. -/
theorem RawNode.allowed_decoded {n : RawNode}
    (allowed : ∀ id ∈ n.tokens, (Mask.safe t).value.isAllowed id = true) :
    n.refusal? t = none ∧ AllowedText (n.decoded t).text := by
  obtain ⟨text, decodes, plain⟩ := exists_text_of_sequence small joins allowed
  rw [refusal?, decoded, withText, decodes]
  constructor
  · exact ite_self none
  · dsimp only
    split
    · exact plain
    · exact allowedText_empty

end Allowed

namespace SemanticTree

/-- The texts that a tree hands to its caller: those of its nodes and those of its ranked paths. -/
def texts (tree : SemanticTree) : List String :=
  tree.preorder.map SemanticNode.text ++ tree.rankedPaths.map RankedPath.text

/-- The texts of paths are as allowed as the texts of nodes. -/
theorem allowed_texts {tree : SemanticTree} (nodes : ∀ n ∈ tree.preorder, AllowedText n.text) :
    ∀ text ∈ tree.texts, AllowedText text := by
  rw [texts, List.forall_mem_append]
  constructor
  · intro text ht
    obtain ⟨n, hn, rfl⟩ := List.mem_map.1 ht
    exact nodes n hn
  · intro text ht
    obtain ⟨p, hp, rfl⟩ := List.mem_map.1 ht
    rw [rankedPaths_eq] at hp
    obtain ⟨r, hr, rfl⟩ := List.mem_map.1 ((RankedPath.rank_perm _).mem_iff.1 hp)
    have through := Tree.mem_preorder_of_routes tree (List.mem_of_mem_filter hr)
    apply allowedText_empty.append
    apply allowedText_join
    intro text ht
    obtain ⟨n, hn, rfl⟩ := List.mem_map.1 ht
    exact nodes n (through n hn)

end SemanticTree

/-- **Allowed tokens are decoded to allowed characters.**  A tree whose tokens the safe mask allows
is decoded, and every character in the text of a node or of a ranked path is allowed: it is no
control character but the newline, and it is not beyond ASCII. -/
theorem RawTree.allowed_of_safe {t : Tokenizer ρ} (small : t.vocabSize ≤ 0xFFFFFFFF)
    (joins : t.Joins) {raw : RawTree}
    (allowed : ∀ n ∈ raw.preorder, ∀ id ∈ n.tokens, (Mask.safe t).value.isAllowed id = true) :
    ∃ tree, outcome (raw.decode t) = .ok tree
      ∧ ∀ text ∈ tree.texts, ∀ c ∈ text.toList,
        isAllowedChar c = true ∧ c.toNat ≤ 126 ∧ (c.toNat < 32 → c = '\n') := by
  have each : ∀ n ∈ raw.preorder, n.refusal? t = none ∧ AllowedText (n.decoded t).text :=
    fun n hn => RawNode.allowed_decoded small joins (allowed n hn)
  have fine : RawNode.firstFailure? t raw.preorder = none :=
    RawNode.firstFailure?_eq_none_iff.2 fun n hn => (each n hn).1
  have nodes : ∀ n ∈ (raw.map (RawNode.decoded t)).preorder, AllowedText n.text := by
    rw [Tree.preorder_map]
    intro n hn
    obtain ⟨m, hm, rfl⟩ := List.mem_map.1 hn
    exact (each m hm).2
  refine ⟨raw.map (RawNode.decoded t), ?_, ?_⟩
  · rw [decode_eq_decodeRec, outcome_decodeRec, fine]
  · intro text ht c hc
    have allowed : isAllowedChar c = true := SemanticTree.allowed_texts nodes text ht c hc
    exact ⟨allowed, bounds_of_isAllowedChar allowed⟩

/-- A word above a line break, and above a node without tokens that goes on with a longer token. -/
def RawTree.lines : RawTree :=
  .branch (.index 0) [74, 107]
    [.leaf (.index 1) [12] [0.5] 0.5 false,
      .branch (.uid "b") [] [.leaf (.index 2) [34, 130] [0.25, 0.5] 0.75 false]]

theorem RawTree.allowed_of_safe_lines :
    (∀ n ∈ lines.preorder, ∀ id ∈ n.tokens,
      (Mask.safe .character).value.isAllowed id = true)
    ∧ ∃ tree, outcome (lines.decode .character) = .ok tree
      ∧ ∀ text ∈ tree.texts, ∀ c ∈ text.toList,
        isAllowedChar c = true ∧ c.toNat ≤ 126 ∧ (c.toNat < 32 → c = '\n') := by
  have marked : (lines.preorder.all fun n => n.tokens.all fun id =>
      (Mask.safe .character).value.isAllowed id) = true := by decide +kernel
  have allowed : ∀ n ∈ lines.preorder, ∀ id ∈ n.tokens,
      (Mask.safe .character).value.isAllowed id = true := fun n hn =>
    List.all_eq_true.1 (List.all_eq_true.1 marked n hn)
  exact ⟨allowed, allowed_of_safe (by decide) Tokenizer.joins_character allowed⟩

end Trellis
