import Mathlib.Data.List.Basic
import Trellis.Proofs.Tree.Decoding
import Trellis.Proofs.Tree.Ranking
import Trellis.Proofs.Tree.Sweep
import Trellis.Tokenizer.Character

/-!
# The figures of a decoded tree

The leaves and the depth of a tree do not depend on its labels, so a tree that is decoded has those
of the raw tree.  A leaf is the end of one route, and a route is either ranked or pruned; so the
leaves are counted by the ranked paths and the pruned leaves together.
-/

namespace Trellis

namespace Tree

variable {α β : Type}

mutual

theorem leaves_map (f : α → β) : (t : Tree α) → (t.map f).leaves = t.leaves
  | node a [] => rfl
  | node a (t :: ts) => by
    have below := leavesAll_mapAll f (t :: ts)
    rw [mapAll] at below
    rw [map, mapAll, leaves, leaves, below]

theorem leavesAll_mapAll (f : α → β) :
    (ts : List (Tree α)) → leavesAll (mapAll f ts) = leavesAll ts
  | [] => rfl
  | t :: ts => by rw [mapAll, leavesAll, leavesAll, leaves_map, leavesAll_mapAll]

end

mutual

theorem height_map (f : α → β) : (t : Tree α) → (t.map f).height = t.height
  | node a ts => by rw [map, height, height, heightAll_mapAll]

theorem heightAll_mapAll (f : α → β) :
    (ts : List (Tree α)) → heightAll (mapAll f ts) = heightAll ts
  | [] => rfl
  | t :: ts => by rw [mapAll, heightAll, heightAll, height_map, heightAll_mapAll]

end

mutual

/-- One route ends at each leaf. -/
theorem length_routes : (t : Tree α) → t.routes.length = t.leaves
  | node a [] => rfl
  | node a (t :: ts) => by rw [routes, List.length_map, length_routesAll, leaves]

theorem length_routesAll : (ts : List (Tree α)) → (routesAll ts).length = leavesAll ts
  | [] => rfl
  | t :: ts => by
    rw [routesAll, List.length_append, length_routes, length_routesAll, leavesAll]

end

end Tree

open Asking

namespace SemanticTree

/-- The number of leaves that are pruned. -/
def prunedLeaves (t : SemanticTree) : Nat := (t.routes.filter fun r => r.leaf.pruned).length

/-- Every leaf is ranked or pruned. -/
theorem length_rankedPaths (t : SemanticTree) :
    t.rankedPaths.length + t.prunedLeaves = t.leaves := by
  have split := List.length_eq_length_filter_add (l := t.routes) fun r => !r.leaf.pruned
  simp only [Bool.not_not] at split
  rw [rankedPaths_eq, (RankedPath.rank_perm _).length_eq, paths, List.length_map, prunedLeaves,
    ← Tree.length_routes, split]

/-- **The figures of a tree.**  The stacks count the leaves and measure the depth that the recursion
gives, and so does every sweep, whatever it visits first.  A tree that was decoded has the leaves
and the depth of the raw tree, and its leaves are ranked or pruned. -/
theorem figures_in_any_order (t : SemanticTree) :
    (t.leafCount = t.leaves ∧ t.depth = t.height)
    ∧ (Tree.leafSweep.Finds [t] t.size t.leaves
      ∧ Tree.depthSweep.Finds [(t, 1)] t.size t.height)
    ∧ (∀ (tokenizer : Tokenizer ρ) raw, outcome (RawTree.decode tokenizer raw) = .ok t →
      t.leafCount = raw.leaves ∧ t.depth = raw.height)
    ∧ t.leafCount = t.rankedPaths.length + t.prunedLeaves := by
  refine ⟨⟨t.leafCount_eq, t.depth_eq⟩, ⟨t.finds_leafSweep, t.finds_depthSweep⟩, ?_, ?_⟩
  · intro tokenizer raw decoded
    rw [t.leafCount_eq, t.depth_eq, (RawTree.decode_eq_ok_iff.1 decoded).2]
    exact ⟨Tree.leaves_map _ raw, Tree.height_map _ raw⟩
  · rw [t.leafCount_eq, length_rankedPaths]

/-- Two leaves at different levels, the first of which is pruned. -/
def twigs : RawTree :=
  .branch (.index 0) [74]
    [.leaf (.index 1) [12] [0.5] 0.5 true,
      .branch (.uid "b") [] [.leaf (.index 2) [34] [0.25] 0.75 false]]

/-- Decoded, they are the two leaves of three levels, and one of them is ranked. -/
theorem figures_in_any_order_twigs :
    ∃ tree, outcome (RawTree.decode .character twigs) = .ok tree
      ∧ tree.leafCount = 2 ∧ tree.depth = 3 ∧ tree.rankedPaths.length = 1 := by
  have fine : ∀ n ∈ twigs.preorder, n.refusal? .character = none := by decide +kernel
  have decoded : outcome (RawTree.decode .character twigs)
      = .ok (twigs.map (RawNode.decoded .character)) := RawTree.decode_eq_ok_iff.2 ⟨fine, rfl⟩
  obtain ⟨-, -, same, ranked⟩ := figures_in_any_order (twigs.map (RawNode.decoded .character))
  obtain ⟨leaves, depth⟩ := same _ _ decoded
  have two : twigs.leaves = 2 := rfl
  have three : twigs.height = 3 := rfl
  have pruned : prunedLeaves (twigs.map (RawNode.decoded .character)) = 1 := rfl
  rw [two] at leaves
  rw [three] at depth
  exact ⟨_, decoded, leaves, depth, by omega⟩

end SemanticTree

end Trellis
