import Trellis.Proofs.Tree.Allowed

/-!
# Paths decoded at once

A tree is decoded node by node, and a path joins the texts of its nodes.  Where a tokenizer decodes
sequences in a row to their texts in a row (`Tokenizer.Concatenates`), this is the text of all the
tokens on the path decoded at once; a node without tokens, which is not asked for, makes no
difference (`RawNode.detokenize_flatMap`).  The decoding keeps the routes of the tree
(`Tree.routes_map`), so that every kept leaf of the raw tree has its path, and there is no other
(`RawTree.rankedPaths_of_decode`).
-/

namespace Trellis

open Asking

/-! ## Sequences in a row -/

/-- Sequences in a row are decoded to their texts in a row, and no tokens to no text. -/
structure Tokenizer.Concatenates (t : Tokenizer ρ) : Prop where
  empty : t.detokenize [] = .ok ""
  append : ∀ {front back : List TokenId} {text more : String}, t.detokenize front = .ok text →
    t.detokenize back = .ok more → t.detokenize (front ++ back) = .ok (text ++ more)

theorem Tokenizer.concatenates_character : character.Concatenates where
  empty := rfl
  append := by
    intro front back text more first later
    rw [Character.detokenize_append, first, later]
    rfl

section Decoded

variable {t : Tokenizer ρ} (whole : t.Concatenates)

include whole

/-- A node that is not refused has the text of its tokens, asked for or not. -/
theorem RawNode.detokenize_tokens {n : RawNode} (fine : n.refusal? t = none) :
    t.detokenize n.tokens = .ok (n.decoded t).text := by
  unfold refusal? asks at fine
  unfold decoded withText asks
  by_cases silent : n.tokens = []
  · simp [silent, whole.empty]
  · cases answer : t.detokenize n.tokens with
    | error cause => simp [silent, answer] at fine
    | ok text => simp [silent, Except.toOption]

/-- Nodes in a row have the text of their tokens in a row. -/
theorem RawNode.detokenize_flatMap {ns : List RawNode} (fine : ∀ n ∈ ns, n.refusal? t = none) :
    t.detokenize (ns.flatMap RawNode.tokens)
      = .ok (String.join (ns.map fun n => (n.decoded t).text)) := by
  induction ns with
  | nil => exact whole.empty
  | cons n ns ih =>
    rw [List.forall_mem_cons] at fine
    rw [List.flatMap_cons, List.map_cons, String.join_cons]
    apply whole.append
    · exact RawNode.detokenize_tokens whole fine.1
    · exact ih fine.2

end Decoded

/-! ## The paths of a decoded tree -/

/-- All tokens on a route, those of the root first. -/
def Route.tokens (r : Route RawNode) : List TokenId := r.labels.flatMap RawNode.tokens

/-- The routes to the leaves that are not pruned. -/
def RawTree.kept (raw : RawTree) : List (Route RawNode) :=
  raw.routes.filter fun r => !r.leaf.pruned

/-- The path of a decoded route says what the tokens on the route say. -/
theorem SemanticTree.text_pathOf {t : Tokenizer ρ} (whole : t.Concatenates) {r : Route RawNode}
    (fine : ∀ n ∈ r.labels, n.refusal? t = none) :
    t.detokenize r.tokens = .ok (pathOf "" (r.map (RawNode.decoded t))).text := by
  have text : (pathOf "" (r.map (RawNode.decoded t))).text
      = String.join (r.labels.map fun n => (n.decoded t).text) := by
    rw [pathOf, Route.labels_map, List.map_map, String.empty_append]
    rfl
  rw [text]
  exact RawNode.detokenize_flatMap whole fine

/-- The paths of a decoded tree are those of the kept routes of the raw one. -/
theorem SemanticTree.paths_map (t : Tokenizer ρ) (raw : RawTree) :
    paths (raw.map (RawNode.decoded t))
      = raw.kept.map fun r => pathOf "" (r.map (RawNode.decoded t)) := by
  rw [paths, Tree.routes_map, List.filter_map, List.map_map]
  rfl

/-- **Paths are decoded at once.**  The ranked paths of a decoded tree are, up to the ranking, one
for each leaf of the raw tree that is not pruned; each says what the tokens from the root down to
its leaf say when they are decoded at once, and has the probability of the leaf. -/
theorem RawTree.rankedPaths_of_decode {t : Tokenizer ρ} (whole : t.Concatenates) {raw : RawTree}
    {tree : SemanticTree} (h : outcome (raw.decode t) = .ok tree) :
    ∃ paths, List.Forall₂ (fun r p => t.detokenize r.tokens = .ok p.text
        ∧ p.probability = pathProbability r.leaf.logprob r.leaf.length) raw.kept paths
      ∧ tree.rankedPaths = RankedPath.rank paths
      ∧ tree.rankedPaths.Perm paths := by
  rw [decode_eq_decodeRec, outcome_decodeRec] at h
  cases failure : RawNode.firstFailure? t raw.preorder with
  | some e =>
    rw [failure] at h
    cases h
  | none =>
    rw [failure] at h
    cases h
    have fine := RawNode.firstFailure?_eq_none_iff.1 failure
    refine ⟨raw.kept.map fun r => SemanticTree.pathOf "" (r.map (RawNode.decoded t)), ?_, ?_, ?_⟩
    · rw [List.forall₂_map_right_iff, List.forall₂_same]
      intro r hr
      have through := Tree.mem_preorder_of_routes raw (List.mem_of_mem_filter hr)
      have said := SemanticTree.text_pathOf whole fun n hn => fine n (through n hn)
      exact ⟨said, rfl⟩
    · rw [SemanticTree.rankedPaths_eq, SemanticTree.paths_map]
    · rw [SemanticTree.rankedPaths_eq, SemanticTree.paths_map]
      exact RankedPath.rank_perm _

/-- One of the two paths goes through a node without tokens. -/
theorem RawTree.rankedPaths_of_decode_lines :
    Tokenizer.character.Concatenates
    ∧ ∃ tree, outcome (lines.decode .character) = .ok tree
      ∧ (tree.rankedPaths.map RankedPath.text).Perm ["Hi\n", "Hi the"] := by
  have decoded : outcome (lines.decode .character)
      = .ok (lines.map (RawNode.decoded .character)) := by
    have fine : RawNode.firstFailure? .character lines.preorder = none := by decide +kernel
    rw [decode_eq_decodeRec, outcome_decodeRec, fine]
  obtain ⟨paths, said, _, same⟩ :=
    rankedPaths_of_decode Tokenizer.concatenates_character decoded
  have texts : paths.map RankedPath.text = ["Hi\n", "Hi the"] := by
    have first : Tokenizer.character.detokenize [74, 107, 12] = .ok "Hi\n" := rfl
    have second : Tokenizer.character.detokenize [74, 107, 34, 130] = .ok "Hi the" := rfl
    obtain ⟨p, _, ⟨p_text, _⟩, rest, rfl⟩ := List.forall₂_cons_left_iff.1 said
    obtain ⟨q, _, ⟨q_text, _⟩, nothing, rfl⟩ := List.forall₂_cons_left_iff.1 rest
    cases nothing
    rw [List.map_cons, List.map_singleton, ← Except.ok.inj (first.symm.trans p_text),
      ← Except.ok.inj (second.symm.trans q_text)]
  refine ⟨Tokenizer.concatenates_character, _, decoded, ?_⟩
  rw [← texts]
  exact same.map RankedPath.text

end Trellis
